import Mathlib.Data.List.Perm.Basic
import GolangCollector.Negotiator.Cycle

/-! # What a step of a cycle can do

The inversion of `Cycle.step`. Every step but a committed match keeps the view, the committed
matches and the submitters' names, and hands over no match that was not decided (`Kept`); where the
spine goes is one of few transitions (`Flow`), each with what its code has just checked. A committed
match is described in full by `Commit`. Every invariant of a cycle is proved over these. -/

namespace GolangCollector.Negotiator

open GoStrings List Option Negotiator.Cycle CycleState

/-! ## Steps, label by label -/

section

variable {F A : Type} [Zero F] [One F] [Add F] [Sub F] [Mul F] [Div F] [IntCast F] [BEq F] [LT F]
  [LE F] [DecidableLT F] [DecidableLE F] (c : Cycle F A) (st : CycleSetup F) (s : CycleState F A)

inductive SpineStep : Label F → CycleState F A → Prop where
  | group (info : RoundInfo F) (ads : List ℕ) (hidle : s.pc = .idle) :
      SpineStep (.group info ads) (c.stepGroup st s info ads)
  | spin (r : Round F) (ctxErr : Bool) (hround : s.pc = .round r) (hstage : r.stage = .top) :
      SpineStep (.spin ctxErr) (c.stepSpin st s r ctxErr)
  | prefetch (r : Round F) (env : SpinEnv F) (todo : List ℕ) (k : ℕ) (reply : BeginReply)
      (s' : CycleState F A) (hround : s.pc = .round r) (hstage : r.stage = .prefetching env todo)
      (h : c.stepPrefetch st s r env todo k reply = some s') : SpineStep (.prefetch k reply) s'
  | sub (r : Round F) (fr : SpinFrame F) (ctxErr : Bool) (now : ℤ) (s' : CycleState F A)
      (hround : s.pc = .round r) (hstage : r.stage = .looping fr)
      (h : c.stepSub st s r fr ctxErr now = some s') : SpineStep (.sub ctxErr now) s'
  | spinEnd (r : Round F) (fr : SpinFrame F) (s' : CycleState F A) (hround : s.pc = .round r)
      (hstage : r.stage = .looping fr) (h : Cycle.stepSpinEnd s r fr = some s') :
      SpineStep .spinEnd s'
  | top (r : Round F) (fr : SpinFrame F) (n : NegState F) (now : ℤ) (hround : s.pc = .round r)
      (hstage : r.stage = .negotiating fr n) (hphase : n.phase = .top) :
      SpineStep (.top now) (Cycle.stepTop s r fr n now)
  | next (r : Round F) (fr : SpinFrame F) (n : NegState F) (hround : s.pc = .round r)
      (hstage : r.stage = .negotiating fr n) (hphase : n.phase = .request) :
      SpineStep .next (c.stepNext s r fr n)
  | fetch (r : Round F) (fr : SpinFrame F) (n : NegState F) (reply : Option (List Request))
      (s' : CycleState F A) (hround : s.pc = .round r) (hstage : r.stage = .negotiating fr n)
      (hphase : n.phase = .fetching) (h : Cycle.stepFetch s r fr n reply = some s') :
      SpineStep (.fetch reply) s'
  | offer (r : Round F) (fr : SpinFrame F) (n : NegState F) (ctxDone sendOk : Bool) (now : ℤ)
      (s' : CycleState F A) (hround : s.pc = .round r) (hstage : r.stage = .negotiating fr n)
      (hphase : n.phase = .offer) (h : c.stepOffer s r fr n ctxDone sendOk now = some s') :
      SpineStep (.offer ctxDone sendOk now) s'
  | leave (r : Round F) (fr : SpinFrame F) (n : NegState F) (result : MmResult) (now : ℤ)
      (hround : s.pc = .round r) (hstage : r.stage = .negotiating fr n)
      (hphase : n.phase = .returned result) :
      SpineStep (.leave now) (Cycle.stepLeave s r fr n result now)

variable {c st s} {s' : CycleState F A} {l : Label F}

theorem SpineStep.of_spineStep (h : c.spineStep st s l = some s') : SpineStep c st s l s' := by
  unfold spineStep at h
  split at h
  · next hidle => cases h; exact .group _ _ hidle
  · next r hround =>
    split at h
    · next hstage => cases h; exact .spin r _ hround hstage
    · cases h
  · next r hround =>
    split at h
    · next env todo hstage => exact .prefetch r env todo _ _ _ hround hstage h
    · cases h
  · next r hround =>
    split at h
    · next fr hstage => exact .sub r fr _ _ _ hround hstage h
    · cases h
  · next r hround =>
    split at h
    · next fr hstage => exact .spinEnd r fr _ hround hstage h
    · cases h
  · next r hround =>
    split at h
    · next fr n hstage =>
      split at h
      · next hphase => cases h; exact .top r fr n _ hround hstage hphase
      · cases h
    · cases h
  · next r hround =>
    split at h
    · next fr n hstage =>
      split at h
      · next hphase => cases h; exact .next r fr n hround hstage hphase
      · cases h
    · cases h
  · next r hround =>
    split at h
    · next fr n hstage =>
      split at h
      · next hphase => exact .fetch r fr n _ _ hround hstage hphase h
      · cases h
    · cases h
  · next r hround =>
    split at h
    · next fr n hstage =>
      split at h
      · next hphase => exact .offer r fr n _ _ _ _ hround hstage hphase h
      · cases h
    · cases h
  · next r hround =>
    split at h
    · next fr n hstage =>
      split at h
      · next result hphase => cases h; exact .leave r fr n result _ hround hstage hphase
      · cases h
    · cases h
  · cases h

theorem worker_or_spine (h : c.step st s l = some s') :
    (∃ i ok, l = .deliver i ok ∧ Cycle.stepDeliver s i ok = some s') ∨
      (c.cfg.compatMode = true → s.pending = []) ∧ SpineStep c st s l s' := by
  unfold step at h
  split at h
  · exact Or.inl ⟨_, _, rfl, h⟩
  · split at h
    · cases h
    · next hgo => exact Or.inr ⟨fun hcompat => by simpa [hcompat] using hgo, .of_spineStep h⟩

end

/-! ## What is recorded of a cycle -/

def Event.commit? {F : Type} : Event F → Option (Text × ℕ × F)
  | .committed _ name idx _ cost => some (name, idx, cost)
  | _ => none

def Event.delivery? {F : Type} : Event F → Option (ℕ × Text)
  | .sent _ mr idx true => some (idx, mr.claimID)
  | _ => none

def Op.delivery? {F : Type} : Op F → Option (ℕ × Text)
  | .sendMatch mr idx => some (idx, mr.claimID)
  | _ => none

theorem wrapSubmitter_eqs {F A : Type} [Zero F] {c : Cycle F A} {ad : ClassAd} {adIdx origIdx : ℕ}
    {sub : SubState F} (h : c.wrapSubmitter ad adIdx origIdx = some sub) :
    sub.adIdx = adIdx ∧ sub.origIdx = origIdx ∧ sub.sessOpen = false ∧ sub.ioErr = false := by
  simp only [Cycle.wrapSubmitter, bind_eq_bind, bind_eq_some_iff] at h
  obtain ⟨name, -, scheddName, -, scheddAddr, -, h⟩ := h
  split at h
  · cases h
  · cases h
    exact ⟨rfl, rfl, rfl, rfl⟩

namespace CycleState

variable {F A : Type} (s : CycleState F A)

def commits : List (Text × ℕ × F) := s.log.filterMap Event.commit?

def delivered : List (ℕ × Text) := s.log.filterMap Event.delivery?

def handed : List (ℕ × Text) :=
  s.delivered ++ s.pending.filterMap fun p => p.2.delivery?

def nameOf (k : ℕ) : Option Text := (s.sub? k).map SubState.name

variable {sub : SubState F}

theorem mem_subsOf {ks : List ℕ} (h : sub ∈ s.subsOf ks) :
    sub.origIdx ∈ ks ∧ s.sub? sub.origIdx = some sub := by
  obtain ⟨k, hk, hsub⟩ := mem_filterMap.mp h
  obtain rfl : sub.origIdx = k := by simpa using find?_some hsub
  exact ⟨hk, hsub⟩

variable {f : SubState F → SubState F}

theorem sub?_map (hidx : ∀ sub, (f sub).origIdx = sub.origIdx) (k : ℕ) :
    CycleState.sub? { s with subs := s.subs.map f } k = (s.sub? k).map f := by
  simp only [sub?, find?_map, Function.comp_def, hidx]

theorem sub?_updateSub (k j : ℕ) (hidx : ∀ sub, (f sub).origIdx = sub.origIdx) :
    (s.updateSub k f).sub? j = if j = k then (s.sub? j).map f else s.sub? j := by
  have hidx' : ∀ sub : SubState F,
      (if sub.origIdx = k then f sub else sub).origIdx = sub.origIdx := fun sub => by
    split
    · exact hidx sub
    · rfl
  rw [updateSub, sub?_map s hidx']
  cases hsub : s.sub? j with
  | none => simp
  | some sub =>
    obtain rfl : sub.origIdx = j := by simpa using find?_some hsub
    simp only [map_some]
    split <;> rfl

theorem map_sub?_updateSub {β : Type} (g : SubState F → β) (k j : ℕ)
    (hidx : ∀ sub, (f sub).origIdx = sub.origIdx) (hg : ∀ sub, g (f sub) = g sub) :
    ((s.updateSub k f).sub? j).map g = (s.sub? j).map g := by
  rw [s.sub?_updateSub k j hidx]
  split
  · rw [Option.map_map, show g ∘ f = g from funext hg]
  · rfl

theorem map_sub?_putSubs {β : Type} (g : SubState F → β) {changed : List (SubState F)} (j : ℕ)
    (h : ∀ sub ∈ changed, (s.sub? sub.origIdx).map g = some (g sub)) :
    ((s.putSubs changed).sub? j).map g = (s.sub? j).map g := by
  have hfound : ∀ sub sub' : SubState F,
      changed.find? (fun x => x.origIdx = sub.origIdx) = some sub' →
        sub' ∈ changed ∧ sub'.origIdx = sub.origIdx := fun sub sub' h =>
    ⟨mem_of_find?_eq_some h, by simpa using find?_some h⟩
  have hidx : ∀ sub : SubState F,
      ((changed.find? fun x => x.origIdx = sub.origIdx).getD sub).origIdx = sub.origIdx := by
    intro sub
    cases hx : changed.find? fun x => x.origIdx = sub.origIdx with
    | none => rfl
    | some x => exact (hfound sub x hx).2
  rw [putSubs, sub?_map s hidx, Option.map_map]
  cases hsub : s.sub? j with
  | none => rfl
  | some sub =>
    simp only [map_some, Function.comp_apply, some.injEq]
    cases hx : changed.find? fun x => x.origIdx = sub.origIdx with
    | none => rfl
    | some x =>
      obtain ⟨hmem, hxidx⟩ := hfound sub x hx
      have hj : sub.origIdx = j := by simpa using find?_some hsub
      have hsame := h x hmem
      rw [hxidx, hj, hsub] at hsame
      exact (some.inj hsame).symm

end CycleState

/-! ## Steps that commit nothing -/

section

variable {F A : Type} {s s' s'' : CycleState F A}

structure Kept (s s' : CycleState F A) : Prop where
  view_eq : s'.view = s.view
  commits_eq : s'.commits = s.commits
  handed_subperm : s'.handed.Subperm s.handed
  names : ∀ k name, s.nameOf k = some name → s'.nameOf k = some name

namespace Kept

theorem refl (s : CycleState F A) : Kept s s := ⟨rfl, rfl, .refl _, fun _ _ h => h⟩

theorem trans (h : Kept s s') (h' : Kept s' s'') : Kept s s'' where
  view_eq := h'.view_eq.trans h.view_eq
  commits_eq := h'.commits_eq.trans h.commits_eq
  handed_subperm := h'.handed_subperm.trans h.handed_subperm
  names k name hk := h'.names k name (h.names k name hk)

theorem of_eq (hview : s'.view = s.view) (hlog : s'.log = s.log) (hpending : s'.pending = s.pending)
    (hsubs : s'.subs = s.subs) : Kept s s' where
  view_eq := hview
  commits_eq := by rw [commits, hlog, commits]
  handed_subperm := by
    rw [handed, delivered, hlog, hpending, handed,
      delivered]
  names k name h := by rwa [nameOf, sub?, hsubs]

section

variable (h : Kept s s')
include h

theorem count (f : CycleStats → CycleStats) : Kept s (s'.count f) :=
  h.trans (of_eq rfl rfl rfl rfl)

theorem goto (r : Round F) (stage : Stage F) : Kept s (s'.goto r stage) :=
  h.trans (of_eq rfl rfl rfl rfl)

theorem startRound (info : RoundInfo F) (subs : List ℕ) (main : Option (RoundInfo F × List ℕ)) :
    Kept s (s'.startRound info subs main) :=
  h.trans (of_eq rfl rfl rfl rfl)

theorem finishRound (r : Round F) : Kept s (s'.finishRound r) := by
  refine h.trans ?_
  rw [CycleState.finishRound]
  split <;> exact of_eq rfl rfl rfl rfl

theorem updateSub (k : ℕ) (hidx : ∀ sub, (f sub).origIdx = sub.origIdx)
    (hname : ∀ sub, (f sub).name = sub.name) : Kept s (s'.updateSub k f) :=
  h.trans ⟨rfl, rfl, .refl _, fun j name hj => by
    rwa [nameOf, s'.map_sub?_updateSub SubState.name k j hidx hname]⟩

theorem putSubs {changed : List (SubState F)}
    (hchanged : ∀ sub ∈ changed, s'.nameOf sub.origIdx = some sub.name) :
    Kept s (s'.putSubs changed) :=
  h.trans ⟨rfl, rfl, .refl _, fun j name hj => by
    rwa [nameOf, s'.map_sub?_putSubs SubState.name j hchanged]⟩

theorem setErr (k : ℕ) : Kept s (s'.setErr k) :=
  h.updateSub k (fun _ => rfl) fun _ => rfl

theorem record (es : List (Event F)) (hcommit : es.filterMap Event.commit? = [])
    (hdelivery : es.filterMap Event.delivery? = []) : Kept s (s'.record es) := by
  refine h.trans ⟨rfl, ?_, ?_, fun _ _ h => h⟩
  · rw [CycleState.commits, CycleState.record, List.filterMap_append, hcommit, List.append_nil]
    rfl
  · rw [CycleState.handed, CycleState.delivered, CycleState.record, List.filterMap_append,
      hdelivery, append_nil]
    exact .refl _

theorem enqueue (k : ℕ) (op : Op F) (hop : op.delivery? = none) : Kept s (s'.enqueue k op) := by
  refine h.trans ⟨rfl, rfl, ?_, fun _ _ h => h⟩
  have hnone : [(k, op)].filterMap (fun p => p.2.delivery?) = [] := by simp [hop]
  rw [CycleState.handed, CycleState.enqueue, List.filterMap_append, hnone, List.append_nil]
  exact .refl _

theorem endRound (k : ℕ) (broken : Bool) : Kept s (s'.endRound k broken) := by
  rw [CycleState.endRound]
  split
  · refine (h.updateSub k ?_ ?_).enqueue k (.endRound broken) rfl <;> exact fun _ => rfl
  · exact h

theorem sendInOrder (c : Cycle F A) (k : ℕ) (e : Event F) (op : Op F) (hcommit : e.commit? = none)
    (hdelivery : e.delivery? = none) (hop : op.delivery? = none) :
    Kept s (c.sendInOrder s' k e op) := by
  rw [Cycle.sendInOrder]
  split
  · exact h.record [e] (by simp [hcommit]) (by simp [hdelivery])
  · exact h.enqueue k op hop

end

end Kept

section

variable (c : Cycle F A) (k : ℕ) (e : Event F) (op : Op F)

@[simp] theorem sendInOrder_acct : (c.sendInOrder s k e op).acct = s.acct := by
  rw [sendInOrder]
  split <;> rfl

@[simp] theorem sendInOrder_view : (c.sendInOrder s k e op).view = s.view := by
  rw [sendInOrder]
  split <;> rfl

@[simp] theorem sendInOrder_subs : (c.sendInOrder s k e op).subs = s.subs := by
  rw [sendInOrder]
  split <;> rfl

variable {e op}

theorem commits_sendInOrder (hcommit : e.commit? = none) :
    (c.sendInOrder s k e op).commits = s.commits := by
  rw [sendInOrder]
  split
  · simp [commits, record, hcommit]
  · rfl

theorem handed_sendInOrder {x : ℕ × Text} (hdelivery : e.delivery? = some x)
    (hop : op.delivery? = some x) : (c.sendInOrder s k e op).handed.Perm (x :: s.handed) := by
  rw [sendInOrder]
  split
  · have hlog : (s.record [e]).handed =
        s.delivered ++ x :: s.pending.filterMap fun p => p.2.delivery? := by
      simp [handed, delivered, record, hdelivery]
    rw [hlog]
    exact perm_middle
  · have hqueue : (s.enqueue k op).handed = s.handed ++ [x] := by
      simp [handed, delivered, enqueue, hop]
    rw [hqueue]
    exact perm_append_singleton x s.handed

end

@[simp] theorem CycleState.count_acct (f : CycleStats → CycleStats) : (s.count f).acct = s.acct :=
  rfl

@[simp] theorem CycleState.endRound_acct (k : ℕ) (broken : Bool) :
    (s.endRound k broken).acct = s.acct := by
  rw [endRound]
  split <;> rfl

@[simp] theorem CycleState.finishRound_acct (r : Round F) : (s.finishRound r).acct = s.acct := by
  rw [finishRound]
  split <;> rfl

theorem kept_take {i k : ℕ} {op : Op F} (es : List (Event F)) (hop : s.pending[i]? = some (k, op))
    (hcommit : es.filterMap Event.commit? = [])
    (hdelivery : (es.filterMap Event.delivery?).Sublist op.delivery?.toList) :
    Kept s (CycleState.record { s with pending := s.pending.eraseIdx i } es) := by
  refine ⟨rfl, ?_, ?_, fun _ _ h => h⟩
  · rw [commits, record, filterMap_append, hcommit, append_nil,
      commits]
  · obtain ⟨hi, hget⟩ := List.getElem?_eq_some_iff.mp hop
    have hperm := (getElem_cons_eraseIdx_perm hi).filterMap fun p => p.2.delivery?
    rw [hget] at hperm
    have hcons : ((k, op) :: s.pending.eraseIdx i).filterMap (fun p => p.2.delivery?) =
        op.delivery?.toList ++ (s.pending.eraseIdx i).filterMap fun p => p.2.delivery? := by
      cases h : op.delivery? <;> simp [h]
    rw [hcons] at hperm
    rw [handed, delivered, record, filterMap_append,
      append_assoc]
    refine Subperm.trans ?_ (hperm.append_left s.delivered).subperm
    exact ((hdelivery.append (.refl _)).append_left _).subperm

theorem kept_stepDeliver {i : ℕ} {ok : Bool} (h : Cycle.stepDeliver s i ok = some s') :
    Kept s s' ∧ s'.acct = s.acct ∧ s'.pc = s.pc := by
  rw [stepDeliver] at h
  split at h
  · cases h
  · next k op hop =>
    split at h
    · cases h
      have hdrop : Kept s { s with pending := s.pending.eraseIdx i } := by
        simpa [record] using kept_take [] hop rfl (nil_sublist _)
      cases op with
      | sendMatch mr idx =>
        simp only [carryOut]
        split
        · exact ⟨hdrop, rfl, rfl⟩
        · cases ok with
          | true => exact ⟨kept_take [.sent k mr idx true] hop rfl (.refl _), rfl, rfl⟩
          | false =>
            exact ⟨(kept_take [.sent k mr idx false] hop rfl (nil_sublist _)).setErr k,
              rfl, rfl⟩
      | reject req reason =>
        simp only [carryOut]
        split
        · exact ⟨hdrop, rfl, rfl⟩
        · have hrecord := hdrop.record [.rejected k req reason ok] rfl rfl
          split
          · exact ⟨hrecord, rfl, rfl⟩
          · exact ⟨hrecord.setErr k, rfl, rfl⟩
      | endRound closeOnly =>
        simp only [carryOut]
        split
        · exact ⟨hdrop.record [.closed k] rfl rfl, rfl, rfl⟩
        · have hrecord := hdrop.record [.ended k ok] rfl rfl
          split
          · exact ⟨hrecord, rfl, rfl⟩
          · exact ⟨hrecord.setErr k, rfl, rfl⟩
    · cases h

theorem kept_abort (r : Round F) :
    Kept s (Cycle.abort s r) ∧ (Cycle.abort s r).acct = s.acct := by
  have hloop : Kept s (r.subs.foldl (fun s k => s.endRound k true) s) ∧
      (r.subs.foldl (fun s k => s.endRound k true) s).acct = s.acct :=
    foldlRecOn (motive := fun s' => Kept s s' ∧ s'.acct = s.acct) r.subs _ ⟨.refl s, rfl⟩
      fun s' ⟨hkept, hacct⟩ k _ => ⟨hkept.endRound k true, by simpa using hacct⟩
  exact ⟨hloop.1.trans (.of_eq rfl rfl rfl rfl), hloop.2⟩

variable {r : Round F}

theorem of_mem_spinSubs {c : Cycle F A} (h : sub ∈ c.spinSubs s r) :
    sub.origIdx ∈ r.subs ∧ s.nameOf sub.origIdx = some sub.name := by
  have hmem : sub ∈ s.subsOf r.subs := by
    rw [spinSubs] at h
    split at h
    · exact h
    · exact mem_of_mem_filter h
  obtain ⟨hidx, hsub⟩ := s.mem_subsOf hmem
  exact ⟨hidx, by rw [nameOf, hsub, map_some]⟩

theorem kept_beginAndFetch (c : Cycle F A) (st : CycleSetup F) (k : ℕ) (reply : BeginReply) :
    Kept s (c.beginAndFetch st s k reply) ∧ (c.beginAndFetch st s k reply).acct = s.acct := by
  rw [beginAndFetch]
  split
  · exact ⟨.refl s, rfl⟩
  · split
    · exact ⟨.refl s, rfl⟩
    · cases reply <;> refine ⟨((Kept.refl s).updateSub k ?_ ?_).record _ rfl rfl, rfl⟩ <;>
        exact fun _ => rfl

variable [Zero F] (c : Cycle F A) (st : CycleSetup F)

theorem kept_wrapNext (acc : CycleState F A × List ℕ) (adIdx : ℕ) :
    Kept acc.1 (c.wrapNext st acc adIdx).1 ∧ (c.wrapNext st acc adIdx).1.acct = acc.1.acct ∧
      (c.wrapNext st acc adIdx).1.pc = acc.1.pc := by
  rw [wrapNext]
  split
  · exact ⟨.refl _, rfl, rfl⟩
  · split
    · exact ⟨.refl _, rfl, rfl⟩
    · refine ⟨⟨rfl, rfl, .refl _, fun k name hk => ?_⟩, rfl, rfl⟩
      obtain ⟨sub, hsub, hname⟩ := map_eq_some_iff.mp hk
      refine map_eq_some_iff.mpr ⟨sub, ?_, hname⟩
      rw [sub?, find?_append, or_eq_some_iff]
      exact Or.inl hsub

theorem kept_wrapSubmitters (ads : List ℕ) :
    Kept s (c.wrapSubmitters st s ads).1 ∧ (c.wrapSubmitters st s ads).1.acct = s.acct ∧
      (c.wrapSubmitters st s ads).1.pc = s.pc := by
  refine foldlRecOn (motive := fun acc : CycleState F A × List ℕ =>
    Kept s acc.1 ∧ acc.1.acct = s.acct ∧ acc.1.pc = s.pc) ads _ ⟨.refl s, rfl, rfl⟩ ?_
  rintro acc ⟨hkept, hacct, hpc⟩ adIdx -
  obtain ⟨hkept', hacct', hpc'⟩ := kept_wrapNext c st acc adIdx
  exact ⟨hkept.trans hkept', hacct'.trans hacct, hpc'.trans hpc⟩

theorem start_eqs [IntCast F] (a : A) (snap : Cycle.Snapshot) :
    (c.start st a snap).acct = a ∧
      (c.start st a snap).view = .new c.lib (c.trimmedSlots a snap) snap.claimIDs ∧
      (c.start st a snap).commits = [] ∧ (c.start st a snap).handed = [] ∧
      (c.start st a snap).pc = .idle := by
  obtain ⟨hkept, hacct, hpc⟩ := kept_wrapSubmitters c st (s := ⟨a, .new c.lib
    (c.trimmedSlots a snap) snap.claimIDs, ∅, [], [], ⟨0, 0, 0, 0, 0, 0, 0, 0, 0, 0⟩, .idle, []⟩)
    (range st.submitters.length)
  exact ⟨hacct, hkept.view_eq, hkept.commits_eq, subperm_nil.mp hkept.handed_subperm, hpc⟩

end

/-! ## Where the spine goes -/

def NegPhase.Working : NegPhase → Prop
  | .request => True
  | .fetching => True
  | .offer => True
  | _ => False

section

variable {F A : Type}

structure Passes (fr fr' : SpinFrame F) (k : ℕ) : Prop where
  env_eq : fr'.env = fr.env
  orig_eq : fr'.pieLeftOrig = fr.pieLeftOrig
  matched_eq : fr'.matched = fr.matched
  todo_subset : fr'.todo ⊆ fr.todo
  next_subset : fr'.next ⊆ k :: fr.next

theorem passes_settle (fr : SpinFrame F) (k : ℕ) (keep : Bool) :
    Passes fr (Cycle.settle fr k keep) k where
  env_eq := rfl
  orig_eq := rfl
  matched_eq := rfl
  todo_subset := fun _ => List.mem_of_mem_tail
  next_subset := by
    intro j hj
    cases keep with
    | true => simpa [settle, or_comm] using hj
    | false => exact mem_cons_of_mem _ hj

variable {env : SpinEnv F}

theorem of_mem_spinOrder [BEq F] [LT F] [DecidableLT F] {c : Cycle F A} {P : SubState F → Prop}
    {subs : List (SubState F)}
    (hband : ∀ sub lo hi, P sub → P { sub with jobPrioMin := lo, jobPrioMax := hi })
    (h : ∀ sub ∈ subs, P sub) : ∀ sub ∈ c.spinOrder env subs, P sub := by
  have hsorted : ∀ sub ∈ c.sortSubmitters env.prios subs, P sub :=
    fun sub hsub => h sub ((mem_insertionSort _).mp hsub)
  rw [spinOrder]
  split
  · dsimp only
    split
    · exact of_mem_consolidateJobPrios hband hsorted
    · exact hsorted
  · exact h

theorem headroom_pos_of_skips [Zero F] [LT F] [LE F] [DecidableLT F] [DecidableLE F] {c : Cycle F A}
    {st : CycleSetup F} {limit headroom : F} {now : ℤ}
    (h : c.skips st sub env limit headroom now = none) : ¬ headroom ≤ 0 := by
  rw [skips] at h
  split_ifs at h with _ _ _ _ hroom
  intro hle
  exact hroom (by simp [hle])

end

section

variable {F A : Type} (c : Cycle F A) (st : CycleSetup F) [Zero F] [One F] [Add F] [Sub F] [Mul F]
  [Div F] [IntCast F] [LT F] [LE F] [DecidableLT F] [DecidableLE F]

structure Divided (a : A) (r : Round F) (env : SpinEnv F) : Prop where
  spin_eq : env.spin = r.spin + 1
  ignores_iff : env.ignoreSubmitterLimit = true ↔ r.spin = 0 ∧ c.cfg.considerPreemption = true
  groupusage_eq : r.info.name ≠ [] →
    env.groupusage = c.acct.getWeightedResourcesUsed a r.info.name
  quota_not_met : env.ignoreSubmitterLimit = false → r.info.name ≠ [] →
    r.info.quotaMet env.groupusage = false
  pie : c.cfg.considerPreemption = false → ¬ env.pieLeft ≤ 0

def Reported (a a' : A) : Prop :=
  a' = a ∨ ∃ name share limit, a' = c.acct.setSubmitterShare a name share limit

structure Started (s : CycleState F A) (a' : A) (r : Round F) (fr : SpinFrame F) (n : NegState F) :
    Prop where
  head_eq : fr.todo.head? = some n.sub
  name_eq : s.nameOf n.sub = some n.name
  quota_not_met : fr.env.ignoreSubmitterLimit = false → r.info.name ≠ [] →
    r.info.quotaMet (c.acct.getWeightedResourcesUsed s.acct r.info.name) = false
  limit_eq : n.limit = Cycle.cappedLimit fr.env
    (c.calculateSubmitterLimit s.acct n.name r.info fr.env r.info.isFloor)
  limitUnclaimed_eq : n.limitUnclaimed =
    (c.calculateSubmitterLimit s.acct n.name r.info fr.env r.info.isFloor).limitUnclaimed
  headroom_eq : n.headroom = c.headroom a' n.name
  headroom_pos : ¬ n.headroom ≤ 0
  used_eq : n.limitUsed = 0
  usedUnclaimed_eq : n.limitUsedUnclaimed = 0
  matched_eq : n.matched = []
  phase_eq : n.phase = .top ∨ n.phase = .returned .error

structure Thinks (fr : SpinFrame F) (n n' : NegState F) : Prop where
  sub_eq : n'.sub = n.sub
  name_eq : n'.name = n.name
  limit_eq : n'.limit = n.limit
  limitUnclaimed_eq : n'.limitUnclaimed = n.limitUnclaimed
  headroom_eq : n'.headroom = n.headroom
  used_eq : n'.limitUsed = n.limitUsed
  usedUnclaimed_eq : n'.limitUsedUnclaimed = n.limitUsedUnclaimed
  matched_eq : n'.matched = n.matched
  working : n'.phase.Working →
    n.phase.Working ∧ n'.onlyForStartdRank = n.onlyForStartdRank ∨
      ¬ n.headroom ≤ n.limitUsed ∧ n'.onlyForStartdRank = decide (n.limit ≤ n.limitUsed) ∧
        (n.limit ≤ n.limitUsed → fr.env.ignoreSubmitterLimit = true)

inductive Flow (s s' : CycleState F A) : Prop where
  /-- A worker moved. -/
  | still (hacct : s'.acct = s.acct) (hpc : s'.pc = s.pc)
  /-- The allocator called for a group. -/
  | group (r : Round F) (hacct : s'.acct = s.acct) (hidle : s.pc = .idle) (hpc : s'.pc = .round r)
      (htop : r.stage = .top)
  /-- A round ended, or the whole cycle. -/
  | finish (r : Round F) (hacct : s'.acct = s.acct) (hround : s.pc = .round r)
      (hpc : s'.pc = .idle ∨ s'.pc = .stopped ∨ ∃ info subs, r.main = some (info, subs) ∧
        s'.pc = .round ⟨info, subs, 0, .top, none⟩)
  /-- The next spin of the round. -/
  | again (r : Round F) (fr : SpinFrame F) (hacct : s'.acct = s.acct)
      (hround : s.pc = .round r) (hstage : r.stage = .looping fr)
      (hpc : s'.pc = .round { r with subs := fr.next, stage := .top })
  | divide (r : Round F) (env : SpinEnv F) (ids : List ℕ) (hacct : s'.acct = s.acct)
      (hround : s.pc = .round r) (hstage : r.stage = .top)
      (hpc : s'.pc = .round
        { r with subs := ids, spin := r.spin + 1, stage := .prefetching env ids })
      (hids : ids ⊆ r.subs) (hdivided : Divided c s.acct r env)
  | prefetch (r : Round F) (env : SpinEnv F) (todo todo' : List ℕ) (hacct : s'.acct = s.acct)
      (hround : s.pc = .round r) (hstage : r.stage = .prefetching env todo)
      (hpc : s'.pc = .round { r with stage := .prefetching env todo' })
  | begin (r : Round F) (env : SpinEnv F) (todo : List ℕ) (fr : SpinFrame F)
      (hacct : s'.acct = s.acct) (hround : s.pc = .round r)
      (hstage : r.stage = .prefetching env todo)
      (hpc : s'.pc = .round { r with stage := .looping fr }) (henv : fr.env = env)
      (horig : fr.pieLeftOrig = env.pieLeft) (htodo : fr.todo = r.subs) (hnext : fr.next = [])
      (hmatched : fr.matched = [])
  /-- A submitter is passed over. -/
  | pass (r : Round F) (fr fr' : SpinFrame F) (k : ℕ) (hacct : Reported c s.acct s'.acct)
      (hround : s.pc = .round r) (hstage : r.stage = .looping fr)
      (hpc : s'.pc = .round { r with stage := .looping fr' }) (hk : k ∈ fr.todo)
      (hpasses : Passes fr fr' k)
  | start (r : Round F) (fr : SpinFrame F) (n : NegState F) (hacct : Reported c s.acct s'.acct)
      (hround : s.pc = .round r) (hstage : r.stage = .looping fr)
      (hpc : s'.pc = .round { r with stage := .negotiating fr n })
      (hstarted : Started c s s'.acct r fr n)
  | think (r : Round F) (fr : SpinFrame F) (n n' : NegState F) (hacct : s'.acct = s.acct)
      (hround : s.pc = .round r) (hstage : r.stage = .negotiating fr n)
      (hpc : s'.pc = .round { r with stage := .negotiating fr n' }) (hthinks : Thinks fr n n')
  | leave (r : Round F) (fr fr' : SpinFrame F) (n : NegState F) (hacct : s'.acct = s.acct)
      (hround : s.pc = .round r) (hstage : r.stage = .negotiating fr n)
      (hpc : s'.pc = .round { r with stage := .looping fr' }) (hpasses : Passes fr fr' n.sub)

/-- **A committed match**, and what it is charged to. -/
structure Commit (s s' : CycleState F A) (r : Round F) (fr : SpinFrame F) (n : NegState F)
    (idx : ℕ) (slot : ClassAd) (tier : PreemptTier) : Prop where
  round_eq : s.pc = .round r
  stage_eq : r.stage = .negotiating fr n
  phase_eq : n.phase = .offer
  eligible : ∃ job conc, Matchmaker.Eligible c.lib c.mm job (c.matchLimits s fr n) conc s.view idx
    slot tier
  acct_eq : ∃ req now, s'.acct = c.acct.addMatch s.acct n.name
    (enrichMatchAd c.lib slot req (c.matchContext r n req)) now
  view_eq : s'.view = s.view.consume idx
  pc_eq : ∃ req, s'.pc = .round { r with
    stage := .negotiating (fr.charge (c.slotWeightOf slot))
      (n.charge req tier (c.lib.remoteUserOf slot = []) (c.slotWeightOf slot)) }
  commits_eq : s'.commits = s.commits ++ [(n.name, idx, c.slotWeightOf slot)]
  handed_subperm : s'.handed.Subperm ((idx, c.claimFor s.view slot) :: s.handed)
  names : ∀ k name, s.nameOf k = some name → s'.nameOf k = some name

/-- **What one step does.** -/
inductive Move (s s' : CycleState F A) : Prop where
  | kept (hkept : Kept s s') (hflow : Flow c s s')
  | commit (r : Round F) (fr : SpinFrame F) (n : NegState F) (idx : ℕ) (slot : ClassAd)
      (tier : PreemptTier) (h : Commit c s s' r fr n idx slot tier)

variable {c st} {s s' : CycleState F A}

omit [One F] [Add F] in
theorem Flow.reported (h : Flow c s s') : Reported c s.acct s'.acct := by
  cases h with
  | still hacct | group r hacct | finish r hacct | again r fr hacct | divide r env ids hacct
  | prefetch r env todo todo' hacct | «begin» r env todo fr hacct => exact .inl hacct
  | pass r fr fr' k hacct => exact hacct
  | start r fr n hacct => exact hacct
  | think r fr n n' hacct | leave r fr fr' n hacct => exact .inl hacct

section

variable {X : Type} {R : X → X → Prop} (read : A → X) (hrefl : ∀ x, R x x)
  (hreport : ∀ a name share limit, R (read (c.acct.setSubmitterShare a name share limit)) (read a))
include hrefl hreport

omit [Zero F] [One F] [Add F] [Sub F] [Mul F] [Div F] [IntCast F] [LT F] [LE F] [DecidableLT F]
  [DecidableLE F] in
theorem Reported.reading {a a' : A} (h : Reported c a a') : R (read a') (read a) := by
  rcases h with rfl | ⟨name, share, limit, rfl⟩
  · exact hrefl _
  · exact hreport a name share limit

/-- **What no match and no report changes for the worse**, no move does. -/
theorem Move.reading (hmatch : ∀ a name ad now, R (read (c.acct.addMatch a name ad now)) (read a))
    (h : Move c s s') : R (read s'.acct) (read s.acct) := by
  cases h with
  | kept hkept hflow => exact hflow.reported.reading read hrefl hreport
  | commit r fr n idx slot tier hcommit =>
    obtain ⟨req, now, hacct⟩ := hcommit.acct_eq
    rw [hacct]
    exact hmatch _ _ _ _

end

theorem Move.slots_eq (h : Move c s s') : s'.view.slots = s.view.slots := by
  cases h with
  | kept hkept => rw [hkept.view_eq]
  | commit r fr n idx slot tier hcommit => rw [hcommit.view_eq, SlotView.consume_slots]

theorem Move.names (h : Move c s s') (k : ℕ) (name : Text) (hname : s.nameOf k = some name) :
    s'.nameOf k = some name := by
  cases h with
  | kept hkept => exact hkept.names k name hname
  | commit r fr n idx slot tier hcommit => exact hcommit.names k name hname

/-! ## Steps move so -/

theorem move_stepGroup (hidle : s.pc = .idle) (info : RoundInfo F) (ads : List ℕ) :
    Move c s (c.stepGroup st s info ads) := by
  obtain ⟨hkept, hacct, -⟩ := kept_wrapSubmitters (s := s) c st ads
  simp only [stepGroup]
  split <;> exact .kept (hkept.startRound _ _ _) (.group _ hacct hidle rfl rfl)

omit [One F] [Add F] in
theorem flow_finishRound {s₁ : CycleState F A} (hround : s.pc = .round r)
    (hacct : s₁.acct = s.acct) : Flow c s (s₁.finishRound r) := by
  refine .finish r (by simpa using hacct) hround ?_
  rw [finishRound]
  split
  · next info subs hmain => exact Or.inr (Or.inr ⟨info, subs, hmain, rfl⟩)
  · exact Or.inl rfl

theorem move_dividePie [BEq F] {s₀ : CycleState F A} (hkept : Kept s₀ s)
    (hacct : s.acct = s₀.acct) (hround : s₀.pc = .round r) (hstage : r.stage = .top)
    (hquota : c.ignoresLimit r = false → r.info.name ≠ [] →
      r.info.quotaMet (c.groupUsage s r) = false) : Move c s₀ (c.dividePie st s r) := by
  have hnamed : ∀ sub ∈ (c.spinSubs s r).map (c.stampStarvation s.acct r.info
      (c.spinEnv st s r (c.spinSubs s r))),
      sub.origIdx ∈ r.subs ∧ s.nameOf sub.origIdx = some sub.name := by
    intro sub hsub
    obtain ⟨x, hx, rfl⟩ := mem_map.mp hsub
    have hx' := of_mem_spinSubs hx
    exact hx'
  have hstamped := (Kept.refl s).putSubs fun sub hsub => (hnamed sub hsub).2
  rw [dividePie]
  dsimp only
  split
  · exact .kept ((hkept.trans hstamped).finishRound _) (flow_finishRound hround hacct)
  · next hpie =>
    have hordered : ∀ sub ∈ c.spinOrder (c.spinEnv st s r (c.spinSubs s r)) _,
        sub.origIdx ∈ r.subs ∧ s.nameOf sub.origIdx = some sub.name :=
      of_mem_spinOrder (P := fun sub => sub.origIdx ∈ r.subs ∧ s.nameOf sub.origIdx = some sub.name)
        (fun _ _ _ h => h) hnamed
    refine .kept ((hkept.trans (hstamped.putSubs fun sub hsub => ?_)).goto _ _)
      (.divide r (c.spinEnv st s r (c.spinSubs s r)) _ hacct hround hstage rfl ?_ ?_)
    · exact hstamped.names _ _ (hordered sub hsub).2
    · intro k hk
      obtain ⟨sub, hsub, rfl⟩ := mem_map.mp hk
      exact (hordered sub hsub).1
    · refine ⟨rfl, ?_, fun hname => ?_, hquota, fun hoff => ?_⟩
      · simp [spinEnv, ignoresLimit]
      · simp [spinEnv, groupUsage, hname, hacct]
      · simpa [hoff] using hpie

theorem move_stepSpin [BEq F] (hround : s.pc = .round r) (hstage : r.stage = .top) (ctxErr : Bool) :
    Move c s (c.stepSpin st s r ctxErr) := by
  rw [stepSpin]
  split
  · obtain ⟨hkept, hacct⟩ := kept_abort (s := s) r
    exact .kept hkept (.finish _ hacct hround (Or.inr (Or.inl rfl)))
  · dsimp only
    split
    · exact .kept (((Kept.refl s).count _).finishRound _) (flow_finishRound hround rfl)
    · next hquota =>
      split
      · exact .kept (((Kept.refl s).count _).finishRound _) (flow_finishRound hround rfl)
      · refine move_dividePie ((Kept.refl s).count _) rfl hround hstage fun hignores hname => ?_
        simpa [hignores, hname] using hquota

theorem move_stepPrefetch {todo : List ℕ} {k : ℕ} {reply : BeginReply} (hround : s.pc = .round r)
    (hstage : r.stage = .prefetching env todo)
    (h : c.stepPrefetch st s r env todo k reply = some s') : Move c s s' := by
  rw [stepPrefetch] at h
  split at h
  · obtain ⟨hkept, hacct⟩ := kept_beginAndFetch (s := s) c st k reply
    cases h
    refine .kept (hkept.goto _ _) ?_
    cases hempty : (todo.erase k).isEmpty with
    | true =>
      exact .begin r env todo _ hacct hround hstage (by rw [if_pos rfl]; rfl) rfl rfl rfl rfl rfl
    | false => exact .prefetch r env todo _ hacct hround hstage rfl
  · cases h

/-! ### Submitters of a spin -/

variable {fr : SpinFrame F}

theorem move_negotiateOne (now : ℤ) (hround : s.pc = .round r) (hstage : r.stage = .looping fr)
    (hhead : fr.todo.head? = some sub.origIdx) (hsub : s.sub? sub.origIdx = some sub)
    (hquota : fr.env.ignoreSubmitterLimit = false → r.info.name ≠ [] →
      r.info.quotaMet (c.acct.getWeightedResourcesUsed s.acct r.info.name) = false) :
    Move c s (c.negotiateOne st s r fr sub now) := by
  have hreport : Kept s (c.reportShare s fr.env sub.name
      (c.calculateSubmitterLimit s.acct sub.name r.info fr.env r.info.isFloor)) :=
    .of_eq rfl rfl rfl rfl
  have hacct : Reported c s.acct (c.reportShare s fr.env sub.name
      (c.calculateSubmitterLimit s.acct sub.name r.info fr.env r.info.isFloor)).acct := by
    simp only [reportShare]
    split
    · exact Or.inr ⟨_, _, _, rfl⟩
    · exact Or.inl rfl
  rw [negotiateOne]
  split
  · refine .kept ((hreport.endRound _ false).goto _ _) (.pass r fr _ sub.origIdx ?_ hround hstage
      rfl (mem_of_head? hhead) (passes_settle fr _ _))
    simpa [goto] using hacct
  · next hskips =>
    refine .kept (hreport.goto _ _) (.start r fr _ hacct hround hstage rfl ?_)
    exact {
      head_eq := hhead
      name_eq := by simp [nameOf, startNegotiation, hsub]
      quota_not_met := hquota
      limit_eq := rfl
      limitUnclaimed_eq := rfl
      headroom_eq := rfl
      headroom_pos := headroom_pos_of_skips hskips
      used_eq := rfl
      usedUnclaimed_eq := rfl
      matched_eq := rfl
      phase_eq := by
        simp only [startNegotiation]
        split
        · exact Or.inr rfl
        · exact Or.inl rfl }

theorem move_stepSub {ctxErr : Bool} {now : ℤ} (hround : s.pc = .round r)
    (hstage : r.stage = .looping fr) (h : c.stepSub st s r fr ctxErr now = some s') :
    Move c s s' := by
  rw [stepSub] at h
  split at h
  · cases h
  · next k rest htodo =>
    have hhead : fr.todo.head? = some k := by rw [htodo, head?_cons]
    have hk : k ∈ fr.todo := mem_of_head? hhead
    have hpasses := passes_settle fr k true
    split_ifs at h with hhalt hquota
    · cases h
      exact .kept (((Kept.refl s).endRound k false).goto _ _)
        (.pass r fr _ k (Or.inl (s.endRound_acct k false)) hround hstage rfl hk hpasses)
    · cases h
      exact .kept (((Kept.refl s).endRound k false).goto _ _)
        (.pass r fr _ k (Or.inl (s.endRound_acct k false)) hround hstage rfl hk
          { hpasses with })
    · split at h
      · cases h
        exact .kept ((Kept.refl s).goto _ _)
          (.pass r fr _ k (Or.inl rfl) hround hstage rfl hk (passes_settle fr k false))
      · next sub hsub =>
        cases h
        obtain rfl : sub.origIdx = k := by simpa using find?_some hsub
        refine move_negotiateOne now hround hstage hhead hsub fun hignores hname => ?_
        simpa [hignores, hname] using hquota

theorem move_stepSpinEnd (hround : s.pc = .round r) (hstage : r.stage = .looping fr)
    (h : Cycle.stepSpinEnd s r fr = some s') : Move c s s' := by
  rw [stepSpinEnd] at h
  split at h
  · dsimp only at h
    split at h
    · cases h
      exact .kept ((Kept.refl s).finishRound r) (flow_finishRound hround rfl)
    · cases h
      exact .kept ((Kept.refl s).goto _ _) (.again r fr rfl hround hstage rfl)
  · cases h

/-! ### The request loop -/

section

variable {s₀ : CycleState F A} {r : Round F} {fr : SpinFrame F} {n : NegState F}

inductive Loops (c : Cycle F A) (s s' : CycleState F A) (r : Round F) (fr : SpinFrame F)
    (n : NegState F) : Prop where
  | think (n' : NegState F) (hkept : Kept s s') (hacct : s'.acct = s.acct)
      (hpc : s'.pc = .round { r with stage := .negotiating fr n' }) (hthinks : Thinks fr n n')
  | commit (idx : ℕ) (slot : ClassAd) (tier : PreemptTier) (h : Commit c s s' r fr n idx slot tier)

theorem Loops.move (h : Loops c s s' r fr n) (hround : s.pc = .round r)
    (hstage : r.stage = .negotiating fr n) : Move c s s' := by
  cases h with
  | think n' hkept hacct hpc hthinks =>
    exact .kept hkept (.think r fr n n' hacct hround hstage hpc hthinks)
  | commit idx slot tier hcommit => exact .commit r fr n idx slot tier hcommit

theorem move_stepLeave (result : MmResult) (now : ℤ) (hround : s.pc = .round r)
    (hstage : r.stage = .negotiating fr n) : Move c s (Cycle.stepLeave s r fr n result now) := by
  have hkept : Kept s ((s.updateSub n.sub fun sub =>
      { sub with timeUsed := sub.timeUsed + (now - n.startedAt) }).endRound n.sub
        (result = .error)) := by
    refine ((Kept.refl s).updateSub n.sub ?_ ?_).endRound n.sub _ <;> exact fun _ => rfl
  exact .kept ((hkept.count _).goto _ _)
    (.leave r fr _ n (endRound_acct _ _) hround hstage rfl (passes_settle fr n.sub _))

omit [Mul F] [Div F]

theorem loops_goto {n' : NegState F} (hkept : Kept s₀ s) (hacct : s.acct = s₀.acct)
    (hthinks : Thinks fr n n') : Loops c s₀ (s.goto r (.negotiating fr n')) r fr n :=
  .think n' (hkept.goto _ _) hacct rfl hthinks

theorem loops_breakOff {n' : NegState F} {result : MmResult} (hkept : Kept s₀ s)
    (hacct : s.acct = s₀.acct) (hthinks : Thinks fr n { n' with phase := .returned result }) :
    Loops c s₀ (Cycle.breakOff s r fr n' result) r fr n :=
  loops_goto (hkept.endRound _ _) (by simpa using hacct) hthinks

theorem loops_stepTop (now : ℤ) : Loops c s (Cycle.stepTop s r fr n now) r fr n := by
  have hstop : ∀ result, Thinks fr n { n with phase := .returned result } := fun result =>
    ⟨rfl, rfl, rfl, rfl, rfl, rfl, rfl, rfl, False.elim⟩
  rw [stepTop]
  split
  · exact loops_goto (.refl s) rfl (hstop _)
  · split
    · exact loops_breakOff (.refl s) rfl (hstop _)
    · split
      · exact loops_breakOff (.refl s) rfl (hstop _)
      · next hlimit =>
        dsimp only
        split
        · exact loops_breakOff (.refl s) rfl ⟨rfl, rfl, rfl, rfl, rfl, rfl, rfl, rfl, False.elim⟩
        · next hroom =>
          have hignores : n.limit ≤ n.limitUsed → fr.env.ignoreSubmitterLimit = true := by
            simpa using hlimit
          split
          · split <;> exact loops_goto (.refl s) rfl
              ⟨rfl, rfl, rfl, rfl, rfl, rfl, rfl, rfl, fun _ => Or.inr ⟨hroom, rfl, hignores⟩⟩
          · exact loops_goto (.refl s) rfl
              ⟨rfl, rfl, rfl, rfl, rfl, rfl, rfl, rfl, fun _ => Or.inr ⟨hroom, rfl, hignores⟩⟩

theorem loops_stepNext (hphase : n.phase = .request) :
    Loops c s (c.stepNext s r fr n) r fr n := by
  have hworking : n.phase.Working := by rw [hphase]; trivial
  rw [stepNext]
  split
  · exact loops_breakOff (.refl s) rfl ⟨rfl, rfl, rfl, rfl, rfl, rfl, rfl, rfl, False.elim⟩
  · split
    · next req rest _ =>
      refine loops_goto ((Kept.refl s).updateSub n.sub ?_ ?_) rfl
        ⟨rfl, rfl, rfl, rfl, rfl, rfl, rfl, rfl, fun _ => Or.inl ⟨hworking, rfl⟩⟩ <;>
      exact fun _ => rfl
    · have hkept : Kept s (s.updateSub n.sub fun sub => { sub with queue := [] }) := by
        refine (Kept.refl s).updateSub n.sub ?_ ?_ <;> exact fun _ => rfl
      dsimp only
      split
      · exact loops_breakOff hkept rfl ⟨rfl, rfl, rfl, rfl, rfl, rfl, rfl, rfl, False.elim⟩
      · exact loops_goto hkept rfl
          ⟨rfl, rfl, rfl, rfl, rfl, rfl, rfl, rfl, fun _ => Or.inl ⟨hworking, rfl⟩⟩

theorem loops_stepFetch {reply : Option (List Request)} (hphase : n.phase = .fetching)
    (h : Cycle.stepFetch s r fr n reply = some s') : Loops c s s' r fr n := by
  have hworking : n.phase.Working := by rw [hphase]; trivial
  have hkept : Kept s (s.record [.fetched n.sub reply]) := (Kept.refl s).record _ rfl rfl
  rw [stepFetch] at h
  split at h
  · cases reply with
    | none =>
      cases h
      exact loops_goto (hkept.setErr _) rfl ⟨rfl, rfl, rfl, rfl, rfl, rfl, rfl, rfl, False.elim⟩
    | some rs =>
      cases h
      refine loops_goto (hkept.updateSub n.sub ?_ ?_) rfl
        ⟨rfl, rfl, rfl, rfl, rfl, rfl, rfl, rfl, fun _ => Or.inl ⟨hworking, rfl⟩⟩ <;>
      exact fun _ => rfl
  · cases h

theorem loops_reject (req : Request) (rej : RejectInfo) (sendOk : Bool) (hkept : Kept s₀ s)
    (hacct : s.acct = s₀.acct) :
    Loops c s₀ (c.reject s r fr { n with cur := some req } req rej sendOk) r fr n := by
  have hcount := hkept.count fun stats => { stats with rejections := stats.rejections + 1 }
  rw [reject]
  dsimp only
  split
  · exact loops_goto ((hcount.record _ rfl rfl).setErr _) hacct
      ⟨rfl, rfl, rfl, rfl, rfl, rfl, rfl, rfl, False.elim⟩
  · have hsent := fun reason : Text => hcount.sendInOrder c n.sub (.rejected n.sub req reason true)
      (.reject req reason) rfl rfl rfl
    split
    · exact loops_breakOff (hsent _) (by simpa using hacct)
        ⟨rfl, rfl, rfl, rfl, rfl, rfl, rfl, rfl, False.elim⟩
    · exact loops_goto (hsent _) (by simpa using hacct)
        ⟨rfl, rfl, rfl, rfl, rfl, rfl, rfl, rfl, False.elim⟩

section

variable (req : Request) (cand : Candidate F) (mr : MatchResult F) (now : ℤ)
omit [IntCast F] [LT F] [DecidableLT F]

theorem commits_commit : (c.commit s r fr n req cand mr now).commits =
    s.commits ++ [(n.name, cand.scanIndex, mr.cost)] := by
  simp [commit, goto, commits, record, Event.commit?]

theorem handed_commit : (c.commit s r fr n req cand mr now).handed = s.handed := by
  simp [commit, goto, handed, delivered, record,
    Event.delivery?]

theorem subs_commit : (c.commit s r fr n req cand mr now).subs = s.subs := rfl

end

theorem loops_deliverMatch (req : Request) (cand : Candidate F) (sendOk : Bool) (now : ℤ)
    (hkept : Kept s₀ s) (hacct : s.acct = s₀.acct) (hround : s₀.pc = .round r)
    (hstage : r.stage = .negotiating fr n) (hphase : n.phase = .offer)
    (heligible : ∃ job conc, Matchmaker.Eligible c.lib c.mm job (c.matchLimits s₀ fr n) conc
      s₀.view cand.scanIndex cand.slot cand.preemptTier) :
    Loops c s₀ (c.deliverMatch s r fr n req cand sendOk now) r fr n := by
  rw [deliverMatch]
  dsimp only
  split
  · exact loops_goto ((hkept.record _ rfl rfl).setErr _) hacct
      ⟨rfl, rfl, rfl, rfl, rfl, rfl, rfl, rfl, False.elim⟩
  · refine .commit cand.scanIndex cand.slot cand.preemptTier ?_
    exact {
      round_eq := hround
      stage_eq := hstage
      phase_eq := hphase
      eligible := heligible
      acct_eq := ⟨req, now, by simp [commit, goto, record,
        matchResult, hacct]⟩
      view_eq := by simp [commit, goto, record, hkept.view_eq]
      pc_eq := ⟨req, rfl⟩
      commits_eq := by
        rw [commits_commit, commits_sendInOrder c n.sub rfl, hkept.commits_eq]
        rfl
      handed_subperm := by
        rw [handed_commit]
        refine (handed_sendInOrder c n.sub rfl rfl).subperm.trans ?_
        rw [← hkept.view_eq]
        exact (subperm_cons _).mpr hkept.handed_subperm
      names := fun k name hk => by
        have hk' := hkept.names k name hk
        rwa [nameOf, sub?, subs_commit, sendInOrder_subs] }

theorem loops_stepOffer [BEq F] {ctxDone sendOk : Bool} {now : ℤ} (hround : s.pc = .round r)
    (hstage : r.stage = .negotiating fr n) (hphase : n.phase = .offer)
    (h : c.stepOffer s r fr n ctxDone sendOk now = some s') : Loops c s s' r fr n := by
  rw [stepOffer] at h
  split at h
  · cases h
  · next req hcur =>
    dsimp only at h
    cases h
    split
    · exact loops_breakOff (.of_eq rfl rfl rfl rfl) rfl
        ⟨rfl, rfl, rfl, rfl, rfl, rfl, rfl, rfl, False.elim⟩
    · exact loops_reject _ _ sendOk (.of_eq rfl rfl rfl rfl) rfl
    · next cand hmatch =>
      obtain ⟨conc, heligible⟩ := Matchmaker.eligible_of_matchRequest hmatch
      exact loops_deliverMatch _ cand sendOk now (.of_eq rfl rfl rfl rfl) rfl hround hstage hphase
        ⟨_, conc, heligible⟩

end

theorem step_of_top [BEq F] {l : Label F} (h : c.step st s l = some s') (hround : s.pc = .round r)
    (htop : r.stage = .top) :
    s'.pc = s.pc ∨ ∃ ctxErr, l = .spin ctxErr ∧ s' = c.stepSpin st s r ctxErr := by
  rcases worker_or_spine h with ⟨i, ok, -, hdeliver⟩ | ⟨-, hspine⟩
  · exact Or.inl (kept_stepDeliver hdeliver).2.2
  · have hstage : ∀ r', s.pc = .round r' → r'.stage = .top := fun r' hround' => by
      rw [← Pc.round.inj (hround.symm.trans hround'), htop]
    cases hspine with
    | group info ads hidle => cases hround.symm.trans hidle
    | spin r' ctxErr hround' =>
      exact Or.inr ⟨ctxErr, rfl, by rw [Pc.round.inj (hround.symm.trans hround')]⟩
    | prefetch r' env todo k reply _ hround' hstage' | sub r' fr ctxErr now _ hround' hstage'
    | spinEnd r' fr _ hround' hstage' | top r' fr n now hround' hstage'
    | next r' fr n hround' hstage' | fetch r' fr n reply _ hround' hstage' =>
      cases hstage'.symm.trans (hstage r' hround')
    | offer r' fr n ctxDone sendOk now _ hround' hstage' =>
      cases hstage'.symm.trans (hstage r' hround')
    | leave r' fr n result now hround' hstage' => cases hstage'.symm.trans (hstage r' hround')

theorem move_of_step [BEq F] {l : Label F} (h : c.step st s l = some s') : Move c s s' := by
  rcases worker_or_spine h with ⟨i, ok, -, hdeliver⟩ | ⟨-, hspine⟩
  · obtain ⟨hkept, hacct, hpc⟩ := kept_stepDeliver hdeliver
    exact .kept hkept (.still hacct hpc)
  · cases hspine with
    | group info ads hidle => exact move_stepGroup hidle info ads
    | spin r ctxErr hround hstage => exact move_stepSpin hround hstage ctxErr
    | prefetch r env todo k reply _ hround hstage h => exact move_stepPrefetch hround hstage h
    | sub r fr ctxErr now _ hround hstage h => exact move_stepSub hround hstage h
    | spinEnd r fr _ hround hstage h => exact move_stepSpinEnd hround hstage h
    | top r fr n now hround hstage => exact (loops_stepTop now).move hround hstage
    | next r fr n hround hstage hphase => exact (loops_stepNext hphase).move hround hstage
    | fetch r fr n reply _ hround hstage hphase h =>
      exact (loops_stepFetch hphase h).move hround hstage
    | offer r fr n ctxDone sendOk now _ hround hstage hphase h =>
      exact (loops_stepOffer hround hstage hphase h).move hround hstage
    | leave r fr n result now hround hstage => exact move_stepLeave result now hround hstage

/-! ### Moves within a round -/

inductive RoundMove (c : Cycle F A) (s s' : CycleState F A) (r : Round F) : Round F → Prop where
  | still (hacct : s'.acct = s.acct) : RoundMove c s s' r r
  | main (info : RoundInfo F) (subs : List ℕ) (hmain : r.main = some (info, subs)) :
      RoundMove c s s' r ⟨info, subs, 0, .top, none⟩
  | again (fr : SpinFrame F) (hstage : r.stage = .looping fr) :
      RoundMove c s s' r { r with subs := fr.next, stage := .top }
  | divide (env : SpinEnv F) (ids : List ℕ) (hstage : r.stage = .top) (hids : ids ⊆ r.subs) :
      RoundMove c s s' r { r with subs := ids, spin := r.spin + 1, stage := .prefetching env ids }
  | prefetch (env : SpinEnv F) (todo todo' : List ℕ) (hstage : r.stage = .prefetching env todo) :
      RoundMove c s s' r { r with stage := .prefetching env todo' }
  | begin (todo : List ℕ) (fr : SpinFrame F) (hstage : r.stage = .prefetching fr.env todo)
      (htodo : fr.todo = r.subs) (hnext : fr.next = []) :
      RoundMove c s s' r { r with stage := .looping fr }
  | pass (fr fr' : SpinFrame F) (k : ℕ) (hstage : r.stage = .looping fr) (hk : k ∈ fr.todo)
      (hpasses : Passes fr fr' k) : RoundMove c s s' r { r with stage := .looping fr' }
  | start (fr : SpinFrame F) (n : NegState F) (hstage : r.stage = .looping fr)
      (hacct : Reported c s.acct s'.acct) (hstarted : Started c s s'.acct r fr n) :
      RoundMove c s s' r { r with stage := .negotiating fr n }
  | think (fr : SpinFrame F) (n n' : NegState F) (hstage : r.stage = .negotiating fr n)
      (hacct : s'.acct = s.acct) (hthinks : Thinks fr n n') :
      RoundMove c s s' r { r with stage := .negotiating fr n' }
  | leave (fr fr' : SpinFrame F) (n : NegState F) (hstage : r.stage = .negotiating fr n)
      (hpasses : Passes fr fr' n.sub) : RoundMove c s s' r { r with stage := .looping fr' }
  | commit (fr : SpinFrame F) (n : NegState F) (idx : ℕ) (slot : ClassAd) (tier : PreemptTier)
      (req : Request) (h : Commit c s s' r fr n idx slot tier) :
      RoundMove c s s' r { r with
        stage := .negotiating (fr.charge (c.slotWeightOf slot))
          (n.charge req tier (c.lib.remoteUserOf slot = []) (c.slotWeightOf slot)) }

theorem Move.round (h : Move c s s') {r r' : Round F} (hround : s.pc = .round r)
    (hpc : s'.pc = .round r') : RoundMove c s s' r r' := by
  have hthere : ∀ {r₁ : Round F}, s'.pc = .round r₁ → r' = r₁ := fun h =>
    Pc.round.inj (hpc.symm.trans h)
  have hhere : ∀ {r₁ : Round F}, s.pc = .round r₁ → r₁ = r := fun h =>
    Pc.round.inj (h.symm.trans hround)
  cases h with
  | kept hkept hflow =>
    cases hflow with
    | still hacct hpc' =>
      obtain rfl := hthere (hpc'.trans hround)
      exact .still hacct
    | group _ _ hidle => cases hround.symm.trans hidle
    | finish r₁ _ hround' hpc' =>
      obtain rfl := hhere hround'
      rcases hpc' with hpc' | hpc' | ⟨info, subs, hmain, hpc'⟩
      · cases hpc'.symm.trans hpc
      · cases hpc'.symm.trans hpc
      · obtain rfl := hthere hpc'
        exact .main info subs hmain
    | again r₁ fr _ hround' hstage hpc' =>
      obtain rfl := hhere hround'
      obtain rfl := hthere hpc'
      exact .again fr hstage
    | divide r₁ env ids _ hround' hstage hpc' hids =>
      obtain rfl := hhere hround'
      obtain rfl := hthere hpc'
      exact .divide env ids hstage hids
    | prefetch r₁ env todo todo' _ hround' hstage hpc' =>
      obtain rfl := hhere hround'
      obtain rfl := hthere hpc'
      exact .prefetch env todo todo' hstage
    | «begin» r₁ env todo fr _ hround' hstage hpc' henv _ htodo hnext =>
      obtain rfl := hhere hround'
      obtain rfl := hthere hpc'
      exact .begin todo fr (henv ▸ hstage) htodo hnext
    | pass r₁ fr fr' k _ hround' hstage hpc' hk hpasses =>
      obtain rfl := hhere hround'
      obtain rfl := hthere hpc'
      exact .pass fr fr' k hstage hk hpasses
    | start r₁ fr n hacct hround' hstage hpc' hstarted =>
      obtain rfl := hhere hround'
      obtain rfl := hthere hpc'
      exact .start fr n hstage hacct hstarted
    | think r₁ fr n n' hacct hround' hstage hpc' hthinks =>
      obtain rfl := hhere hround'
      obtain rfl := hthere hpc'
      exact .think fr n n' hstage hacct hthinks
    | leave r₁ fr fr' n _ hround' hstage hpc' hpasses =>
      obtain rfl := hhere hround'
      obtain rfl := hthere hpc'
      exact .leave fr fr' n hstage hpasses
  | commit r₁ fr n idx slot tier hcommit =>
    obtain rfl := hhere hcommit.round_eq
    obtain ⟨req, hpc'⟩ := hcommit.pc_eq
    obtain rfl := hthere hpc'
    exact .commit fr n idx slot tier req hcommit

end

end GolangCollector.Negotiator
