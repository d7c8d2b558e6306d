import GolangCollector.Negotiator.SingleUse
import GolangCollector.Negotiator.SpinRule
import GolangCollector.Negotiator.Traffic

/-! # Open rounds

Every step of a cycle is, for each submitter, a run of its session: the spine opens a round only
with nothing waiting, uses it only while it is open, and ends it before it turns to the next
submitter; a worker takes the oldest operation of its submitter. Which rounds may be open is said
per stage (`Stage.Tidy`), so the sessions of a whole cycle have the lifecycle of `Sessions`, in
compat mode and in fast mode. -/

namespace GolangCollector.Negotiator

open GoStrings Runs List Option Negotiator.Cycle CycleState

variable {F A : Type}

/-! ## Where rounds are open -/

def NegPhase.Running : NegPhase → Prop
  | .returned _ => False
  | _ => True

/-- **Which rounds may be open** at a stage: those of the submitters that the spin has not settled;
that of the submitter under negotiation is, until its loop returns. -/
def Stage.Tidy (isOpen : ℕ → Bool) (subs : List ℕ) : Stage F → Prop
  | .top => ∀ k, isOpen k = false
  | .prefetching _ todo => todo ⊆ subs ∧ ∀ k, isOpen k = true → k ∈ subs
  | .looping fr => ∀ k, isOpen k = true → k ∈ fr.todo
  | .negotiating fr n => fr.todo.head? = some n.sub ∧ (∀ k, isOpen k = true → k ∈ fr.todo) ∧
      (n.phase.Running → isOpen n.sub = true)

@[inherit_doc Stage.Tidy]
def Pc.Tidy (isOpen : ℕ → Bool) : Pc F → Prop
  | .round r => r.stage.Tidy isOpen r.subs
  | _ => ∀ k, isOpen k = false

@[inherit_doc Stage.Tidy]
def CycleState.Tidy (s : CycleState F A) : Prop := s.pc.Tidy s.roundOpen

structure Advance (lossless : Prop) (c : Cycle F A) (s s' : CycleState F A) : Prop where
  traffic : Traffic lossless c s s'
  tidy : s'.Tidy

section

variable {lossless : Prop} {c : Cycle F A} {s s₀ s' : CycleState F A} {k : ℕ} {r : Round F}
  {fr : SpinFrame F} {n : NegState F}

theorem CycleState.Tidy.at_stage (h : s.Tidy) (hround : s.pc = .round r) {stage : Stage F}
    (hstage : r.stage = stage) : stage.Tidy s.roundOpen r.subs := by
  rw [Tidy, hround] at h
  exact hstage ▸ h

theorem Traffic.goto (h : Traffic lossless c s s') (r : Round F) (stage : Stage F) :
    Traffic lossless c s (s'.goto r stage) := h.trans (.of_subs rfl rfl rfl)

theorem Traffic.count (h : Traffic lossless c s s') (f : CycleStats → CycleStats) :
    Traffic lossless c s (s'.count f) := h.trans (.of_subs rfl rfl rfl)

theorem Traffic.endRound (h : Traffic lossless c s s') (k : ℕ) (b : Bool) :
    Traffic lossless c s (s'.endRound k b) := h.trans (traffic_endRound b)

theorem Traffic.advance (h : Traffic lossless c s₀ s) (h' : Advance lossless c s s') :
    Advance lossless c s₀ s' := ⟨h.trans h'.traffic, h'.tidy⟩

theorem Advance.count (h : Advance lossless c s s') (f : CycleStats → CycleStats) :
    Advance lossless c s (s'.count f) := ⟨h.traffic.count f, h.tidy⟩

/-! ### Rounds -/

theorem sameSessions_wrapNext [Zero F] (st : CycleSetup F) (acc : CycleState F A × List ℕ)
    (adIdx : ℕ) : SameSessions acc.1 (c.wrapNext st acc adIdx).1 := by
  rw [wrapNext]
  split
  · exact .refl
  · split
    · exact .refl
    · next sub hsub =>
      obtain ⟨ad, -, hwrap⟩ := bind_eq_some_iff.mp hsub
      obtain ⟨-, -, hclosed, hclean⟩ := wrapSubmitter_eqs hwrap
      have hany : ∀ (p : SubState F → Bool), p sub = false → ∀ j,
          (find? (fun sub => sub.origIdx = j) (acc.1.subs ++ [sub])).any p =
            (acc.1.sub? j).any p := by
        intro p hp j
        rw [find?_append, sub?]
        cases acc.1.subs.find? fun sub => sub.origIdx = j with
        | some x => rfl
        | none =>
          rw [none_or, find?_singleton]
          split <;> simp [hp]
      refine ⟨fun j => session_congr rfl rfl ?_ ?_, rfl, fun j hj => ?_⟩
      · exact hany _ hclosed j
      · exact hany _ hclean j
      · rw [sub?, find?_append, isSome_or]
        exact Bool.or_eq_true_iff.mpr (Or.inl hj)

theorem sameSessions_wrapSubmitters [Zero F] (st : CycleSetup F) (ads : List ℕ) :
    SameSessions s (c.wrapSubmitters st s ads).1 :=
  foldlRecOn (motive := fun acc : CycleState F A × List ℕ => SameSessions s acc.1) ads _ .refl
    fun acc h adIdx _ => h.trans (sameSessions_wrapNext st acc adIdx)

theorem advance_stepGroup [Zero F] [LT F] [DecidableLT F] (st : CycleSetup F)
    (hclosed : ∀ j, s.roundOpen j = false) (info : RoundInfo F) (ads : List ℕ) :
    Advance lossless c s (c.stepGroup st s info ads) := by
  have hsame : SameSessions s (c.wrapSubmitters st s ads).1 := sameSessions_wrapSubmitters st ads
  have hclosed' : ∀ j, (c.wrapSubmitters st s ads).1.roundOpen j = false := fun j =>
    (hsame.open_eq j).trans (hclosed j)
  simp only [stepGroup]
  split <;> exact ⟨hsame.traffic.trans (.of_subs rfl rfl rfl), hclosed'⟩

theorem advance_finishRound (h : Traffic lossless c s s') (hclosed : ∀ j, s'.roundOpen j = false)
    (r : Round F) : Advance lossless c s (s'.finishRound r) := by
  rw [finishRound]
  split <;> exact ⟨h.trans (.of_subs rfl rfl rfl), hclosed⟩

theorem advance_abort (hclosed : ∀ j, s.roundOpen j = false) (r : Round F) :
    Advance lossless c s (Cycle.abort s r) := by
  have hloop : Traffic lossless c s (r.subs.foldl (fun s k => s.endRound k true) s) ∧
      ∀ j, (r.subs.foldl (fun s k => s.endRound k true) s).roundOpen j = false := by
    refine foldlRecOn (motive := fun s' =>
      Traffic lossless c s s' ∧ ∀ j, s'.roundOpen j = false) r.subs _ ⟨.refl, hclosed⟩ ?_
    rintro s' ⟨htraffic, hclosed'⟩ k -
    exact ⟨htraffic.endRound k true, fun j => by
      rw [roundOpen_endRound, hclosed', Bool.false_and]⟩
  exact ⟨hloop.1.trans (.of_subs rfl rfl rfl), hloop.2⟩

theorem sub?_of_mem_spinSubs {sub : SubState F} (h : sub ∈ c.spinSubs s r) :
    s.sub? sub.origIdx = some sub ∧ sub.origIdx ∈ r.subs := by
  have hmem : sub ∈ s.subsOf r.subs := by
    rw [spinSubs] at h
    split at h
    · exact h
    · exact mem_of_mem_filter h
  exact (s.mem_subsOf hmem).symm

section

variable [Zero F] [Add F] [Sub F] [Mul F] [Div F] [IntCast F] [BEq F] [LT F] [LE F] [DecidableLT F]
  [DecidableLE F]

theorem advance_dividePie (st : CycleSetup F) (hclosed : ∀ j, s.roundOpen j = false) :
    Advance lossless c s (c.dividePie st s r) := by
  have hstamped : ∀ sub ∈ (c.spinSubs s r).map (c.stampStarvation s.acct r.info
      (c.spinEnv st s r (c.spinSubs s r))),
      (s.sub? sub.origIdx).map (fun sub => (sub.sessOpen, sub.ioErr)) =
        some (sub.sessOpen, sub.ioErr) := by
    intro sub hsub
    obtain ⟨x, hx, rfl⟩ := mem_map.mp hsub
    have hx' : s.sub? x.origIdx = some x := (sub?_of_mem_spinSubs hx).1
    simp [stampStarvation, hx']
  have hsame : SameSessions s (s.putSubs _) := .putSubs hstamped
  have hclosed' := fun j => (hsame.open_eq j).trans (hclosed j)
  rw [dividePie]
  dsimp only
  split
  · exact advance_finishRound hsame.traffic hclosed' r
  · have hordered : ∀ sub ∈ c.spinOrder (c.spinEnv st s r (c.spinSubs s r)) _, _ :=
      of_mem_spinOrder (fun _ _ _ h => h) hstamped
    have hsame' := hsame.trans (.putSubs fun sub hsub =>
      (s.map_sub?_putSubs _ _ hstamped).trans (hordered sub hsub))
    refine ⟨hsame'.traffic.goto _ _, Subset.refl _, fun j hj => ?_⟩
    cases ((hsame'.open_eq j).trans (hclosed j)).symm.trans hj

theorem advance_stepSpin (st : CycleSetup F) (hclosed : ∀ j, s.roundOpen j = false)
    (ctxErr : Bool) : Advance lossless c s (c.stepSpin st s r ctxErr) := by
  have hcount : Traffic lossless c s
      (s.count fun stats => { stats with pieSpins := stats.pieSpins + 1 }) :=
    .of_subs rfl rfl rfl
  rw [stepSpin]
  split
  · exact advance_abort hclosed r
  · dsimp only
    split
    · exact advance_finishRound hcount hclosed r
    · split
      · exact advance_finishRound hcount hclosed r
      · exact hcount.advance (advance_dividePie st hclosed)

end

theorem roundOpen_beginAndFetch (st : CycleSetup F) (reply : BeginReply) {j : ℕ}
    (h : (c.beginAndFetch st s k reply).roundOpen j = true) : j = k ∨ s.roundOpen j = true := by
  by_cases hj : j = k
  · exact Or.inl hj
  · refine Or.inr ?_
    rw [beginAndFetch] at h
    split at h
    · exact h
    · split at h
      · exact h
      · have hother : ∀ f : SubState F → SubState F, (∀ sub, (f sub).origIdx = sub.origIdx) →
            ∀ es, ((s.updateSub k f).record es).roundOpen j = true → s.roundOpen j = true := by
          intro f hidx es hopen
          have hupdate := (roundOpen_updateSub (s := s) k j hidx).symm.trans hopen
          rwa [if_neg hj] at hupdate
        cases reply <;> refine hother _ ?_ _ h <;> exact fun _ => rfl

theorem advance_stepPrefetch (st : CycleSetup F) {env : SpinEnv F} {todo : List ℕ}
    {reply : BeginReply} (hinline : c.cfg.compatMode = true → s.pending = [])
    (htidy : (Stage.prefetching env todo).Tidy s.roundOpen r.subs)
    (h : c.stepPrefetch st s r env todo k reply = some s') : Advance lossless c s s' := by
  obtain ⟨hsubset, hopen⟩ := htidy
  rw [stepPrefetch] at h
  split at h
  · next hmay =>
    cases h
    have hdrained : (s.session k).waiting = [] := by
      rw [mayPrefetch] at hmay
      split at hmay
      · next hcompat => simp [session, hinline hcompat]
      · exact (drained_iff k).mp (Bool.and_eq_true_iff.mp hmay).2
    have hk : k ∈ r.subs := by
      refine hsubset ?_
      rw [mayPrefetch] at hmay
      split at hmay
      · exact mem_of_head? (by simpa using hmay)
      · refine mem_of_find?_eq_some (of_decide_eq_true (Bool.and_eq_true_iff.mp hmay).1)
    have hopen' : ∀ j, (c.beginAndFetch st s k reply).roundOpen j = true → j ∈ r.subs := by
      intro j hj
      rcases roundOpen_beginAndFetch st reply hj with rfl | hj
      · exact hk
      · exact hopen j hj
    refine ⟨(traffic_beginAndFetch st reply hdrained).goto _ _, ?_⟩
    cases hempty : (todo.erase k).isEmpty with
    | true =>
      rw [Tidy, goto, if_pos rfl]
      exact hopen'
    | false => exact ⟨fun j hj => hsubset (mem_of_mem_erase hj), hopen'⟩
  · cases h

/-! ### Submitters of a spin -/

theorem advance_settle {fr' : SpinFrame F} (h : Traffic lossless c s s')
    (hopen : ∀ j, s'.roundOpen j = true → j ∈ fr.todo) (hhead : fr.todo.head? = some k)
    (htodo : fr'.todo = fr.todo.tail) (b : Bool) :
    Advance lossless c s ((s'.endRound k b).goto r (.looping fr')) := by
  refine ⟨(h.endRound k b).goto _ _, fun j hj => ?_⟩
  have hj' : (s'.endRound k b).roundOpen j = true := hj
  rw [roundOpen_endRound, Bool.and_eq_true, decide_eq_true_iff] at hj'
  obtain ⟨rest, hrest⟩ := head?_eq_some_iff.mp hhead
  have hmem := hopen j hj'.1
  rw [hrest] at hmem
  rw [htodo, hrest, tail_cons]
  exact (mem_cons.mp hmem).resolve_left hj'.2

section

variable [Zero F] [Sub F] [Mul F] [Div F] [IntCast F] [LT F] [LE F] [DecidableLT F] [DecidableLE F]

theorem advance_negotiateOne (st : CycleSetup F) {sub : SubState F} (now : ℤ)
    (hopen : ∀ j, s.roundOpen j = true → j ∈ fr.todo) (hhead : fr.todo.head? = some sub.origIdx)
    (hsub : s.sub? sub.origIdx = some sub) :
    Advance lossless c s (c.negotiateOne st s r fr sub now) := by
  have hreport : Traffic lossless c s (c.reportShare s fr.env sub.name
      (c.calculateSubmitterLimit s.acct sub.name r.info fr.env r.info.isFloor)) :=
    .of_subs rfl rfl rfl
  rw [negotiateOne]
  split
  · refine advance_settle hreport hopen hhead ?_ false
    rfl
  · refine ⟨hreport.goto _ _, hhead, hopen, fun hrunning => ?_⟩
    rw [startNegotiation] at hrunning
    dsimp only at hrunning
    split at hrunning
    · exact hrunning.elim
    · next hfine =>
      simp only [Bool.or_eq_true, Bool.not_eq_true', not_or, Bool.not_eq_false] at hfine
      have hsubOpen : s.roundOpen sub.origIdx = true := by
        rw [roundOpen, hsub, any_some, hfine.2]
      exact hsubOpen

theorem advance_stepSub (st : CycleSetup F) {ctxErr : Bool} {now : ℤ}
    (hopen : ∀ j, s.roundOpen j = true → j ∈ fr.todo)
    (h : c.stepSub st s r fr ctxErr now = some s') : Advance lossless c s s' := by
  rw [stepSub] at h
  split at h
  · cases h
  · next k rest htodo =>
    have hhead : fr.todo.head? = some k := by rw [htodo, head?_cons]
    split_ifs at h with hhalt hquota
    · cases h
      refine advance_settle .refl hopen hhead ?_ false
      rfl
    · cases h
      refine advance_settle .refl hopen hhead ?_ false
      rfl
    · split at h
      · next hnone =>
        cases h
        -- a submitter that is not there has no round to end
        have hclosed : s.endRound k false = s := if_neg (by simp [hnone])
        have hsettle : Advance lossless c s ((s.endRound k false).goto r
            (.looping (settle fr k false))) := by
          refine advance_settle .refl hopen hhead ?_ false
          rfl
        rwa [hclosed] at hsettle
      · next sub hsub =>
        cases h
        obtain rfl : sub.origIdx = k := by simpa using find?_some hsub
        exact advance_negotiateOne st now hopen hhead hsub

end

theorem advance_stepSpinEnd [LT F] [DecidableLT F] (hopen : ∀ j, s.roundOpen j = true → j ∈ fr.todo)
    (h : Cycle.stepSpinEnd s r fr = some s') : Advance lossless c s s' := by
  rw [stepSpinEnd] at h
  split at h
  · next hempty =>
    have hclosed : ∀ j, s.roundOpen j = false := by
      intro j
      by_contra hne
      have hmem := hopen j (by simpa using hne)
      rw [isEmpty_iff.mp hempty] at hmem
      cases hmem
    dsimp only at h
    split at h
    · cases h
      exact advance_finishRound .refl hclosed r
    · cases h
      exact ⟨.of_subs rfl rfl rfl, hclosed⟩
  · cases h

/-! ### The request loop -/

section

variable {fr' : SpinFrame F} {n' : NegState F} {s₁ : CycleState F A}

theorem advance_think (h : Traffic lossless c s s₁) (hopen : ∀ j, s₁.roundOpen j = s.roundOpen j)
    (htidy : (Stage.negotiating fr n).Tidy s.roundOpen r.subs) (htodo : fr'.todo = fr.todo)
    (hsub : n'.sub = n.sub) (hrunning : n'.phase.Running → n.phase.Running) :
    Advance lossless c s (s₁.goto r (.negotiating fr' n')) := by
  obtain ⟨hhead, hmem, hrun⟩ := htidy
  refine ⟨h.goto _ _, by rw [htodo, hsub, hhead], fun j hj => ?_, fun hphase => ?_⟩
  · rw [htodo]
    exact hmem j ((hopen j).symm.trans hj)
  · exact (hopen _).trans (hsub ▸ hrun (hrunning hphase))

theorem advance_breakOff (h : Traffic lossless c s s₁) (hopen : ∀ j, s₁.roundOpen j = s.roundOpen j)
    (htidy : (Stage.negotiating fr n).Tidy s.roundOpen r.subs) (hsub : n'.sub = n.sub)
    (result : MmResult) : Advance lossless c s (Cycle.breakOff s₁ r fr n' result) := by
  obtain ⟨hhead, hmem, -⟩ := htidy
  refine ⟨(h.endRound _ _).goto _ _, hsub ▸ hhead, fun j hj => ?_, False.elim⟩
  have hj' : (s₁.endRound n'.sub false).roundOpen j = true := hj
  rw [roundOpen_endRound, Bool.and_eq_true, hopen] at hj'
  exact hmem j hj'.1

theorem advance_stepTop [LE F] [DecidableLE F] (now : ℤ)
    (htidy : (Stage.negotiating fr n).Tidy s.roundOpen r.subs) (hphase : n.phase = .top) :
    Advance lossless c s (Cycle.stepTop s r fr n now) := by
  have hrunning : n.phase.Running := by rw [hphase]; trivial
  have hstop : ∀ result, Advance lossless c s (breakOff s r fr n result) :=
    advance_breakOff .refl (fun _ => rfl) htidy rfl
  rw [stepTop]
  split
  · exact advance_think .refl (fun _ => rfl) htidy rfl rfl False.elim
  · split
    · exact hstop _
    · split
      · exact hstop _
      · dsimp only
        split
        · refine advance_breakOff .refl (fun _ => rfl) htidy ?_ _
          rfl
        · split
          · split <;>
              exact advance_think .refl (fun _ => rfl) htidy rfl rfl fun _ => hrunning
          · exact advance_think .refl (fun _ => rfl) htidy rfl rfl fun _ => hrunning

theorem advance_stepNext [LE F] [DecidableLE F]
    (htidy : (Stage.negotiating fr n).Tidy s.roundOpen r.subs) (hphase : n.phase = .request) :
    Advance lossless c s (c.stepNext s r fr n) := by
  have hrunning : n.phase.Running := by rw [hphase]; trivial
  have hqueue : ∀ queue, SameSessions s (s.updateSub n.sub fun sub => { sub with queue }) := by
    intro queue
    refine .updateSub ?_ ?_ ?_ <;> exact fun _ => rfl
  rw [stepNext]
  split
  · exact advance_breakOff .refl (fun _ => rfl) htidy rfl _
  · split
    · next req rest _ =>
      exact advance_think (hqueue rest).traffic (hqueue rest).open_eq htidy rfl rfl
        fun _ => hrunning
    · dsimp only
      split
      · exact advance_breakOff (hqueue []).traffic (hqueue []).open_eq htidy rfl _
      · exact advance_think (hqueue []).traffic (hqueue []).open_eq htidy rfl rfl fun _ => hrunning

theorem advance_stepFetch {reply : Option (List Request)}
    (htidy : (Stage.negotiating fr n).Tidy s.roundOpen r.subs) (hphase : n.phase = .fetching)
    (h : Cycle.stepFetch s r fr n reply = some s') : Advance lossless c s s' := by
  have hrunning : n.phase.Running := by rw [hphase]; trivial
  have hopen : s.roundOpen n.sub = true := htidy.2.2 hrunning
  rw [stepFetch] at h
  split at h
  · next hdrained =>
    have htalk : ∀ {s₁}, CarriedOut s s₁ n.sub (some (.fetched n.sub reply)) →
        Traffic lossless c s s₁ := fun hcarried =>
      traffic_talk hcarried rfl trivial rfl hopen ((drained_iff n.sub).mp hdrained)
    cases reply with
    | none =>
      cases h
      have hcarried : CarriedOut s ((s.record [.fetched n.sub none]).setErr n.sub) n.sub
          (some (.fetched n.sub none)) :=
        carriedOut_setErr rfl (isSome_sub?_of_roundOpen hopen)
      exact advance_think (htalk hcarried) hcarried.open_eq htidy rfl rfl False.elim
    | some rs =>
      cases h
      have hcarried : CarriedOut s (s.record [.fetched n.sub (some rs)]) n.sub
          (some (.fetched n.sub (some rs))) := carriedOut_record rfl
      have hsame : SameSessions (s.record [.fetched n.sub (some rs)])
          ((s.record [.fetched n.sub (some rs)]).updateSub n.sub fun sub =>
            { sub with queue := rs, exhausted := rs.isEmpty }) := by
        refine .updateSub ?_ ?_ ?_ <;> exact fun _ => rfl
      exact advance_think ((htalk hcarried).trans hsame.traffic) hsame.open_eq htidy rfl rfl
        fun _ => hrunning
  · cases h

theorem advance_failed {ev : Event F} (hev : ev.session? = some n.sub) (htalk : ev.IsTalk)
    (hfails : ev.succeeded = false) (hidx : ev.deliveredIdx? = none)
    (htidy : (Stage.negotiating fr n).Tidy s.roundOpen r.subs) (hrunning : n.phase.Running)
    (hdrained : (s.session n.sub).waiting = []) (hsub : n'.sub = n.sub)
    (hphase : ¬ n'.phase.Running) :
    Advance lossless c s (((s.record [ev]).setErr n.sub).goto r (.negotiating fr n')) := by
  have hopen : s.roundOpen n.sub = true := htidy.2.2 hrunning
  have hcarried : CarriedOut s ((s.record [ev]).setErr n.sub) n.sub (some ev) :=
    carriedOut_setErr hfails (isSome_sub?_of_roundOpen hopen)
  exact advance_think (traffic_talk hcarried hev htalk hidx hopen hdrained) hcarried.open_eq htidy
    rfl hsub fun h => absurd h hphase

theorem traffic_sendReject (req : Request) (reason : Text)
    (hinline : c.cfg.compatMode = true → s.pending = []) (hopen : s.roundOpen k = true) :
    Traffic lossless c s
      (c.sendInOrder s k (.rejected k req reason true) (.reject req reason)) := by
  rw [sendInOrder]
  split
  · next hcompat =>
    exact traffic_talk (carriedOut_record rfl) rfl trivial rfl hopen
      (by simp [session, hinline hcompat])
  · exact traffic_queueReject req reason hopen

theorem roundOpen_sendInOrder (e : Event F) (op : Op F) (j : ℕ) :
    (c.sendInOrder s k e op).roundOpen j = s.roundOpen j := by
  rw [roundOpen, sub?, sendInOrder_subs]
  rfl

theorem advance_reject (req : Request) (rej : RejectInfo) (sendOk : Bool)
    (hinline : c.cfg.compatMode = true → s.pending = [])
    (htidy : (Stage.negotiating fr n).Tidy s.roundOpen r.subs) (hrunning : n.phase.Running) :
    Advance lossless c s (c.reject s r fr { n with cur := some req } req rej sendOk) := by
  have hopen : s.roundOpen n.sub = true := htidy.2.2 hrunning
  refine (Traffic.of_subs rfl rfl rfl : Traffic lossless c s (s.count fun stats =>
    { stats with rejections := stats.rejections + 1 })).advance ?_
  rw [reject]
  dsimp only
  split
  · next hfailed =>
    have hcompat : c.cfg.compatMode = true := (Bool.and_eq_true_iff.mp hfailed).1
    refine advance_failed rfl trivial rfl rfl htidy hrunning ?_ rfl False.elim
    simp [CycleState.session, CycleState.count, hinline hcompat]
  · split
    · apply advance_breakOff (n := n)
      · exact traffic_sendReject req _ hinline hopen
      · exact roundOpen_sendInOrder _ _
      · exact htidy
      · rfl
    · refine advance_think (traffic_sendReject req _ hinline hopen) (roundOpen_sendInOrder _ _)
        htidy rfl ?_ fun _ => hrunning
      rfl

theorem advance_deliverMatch [Zero F] [One F] [Add F] [Sub F] [IntCast F] [LE F] [DecidableLE F]
    (req : Request) (cand : Candidate F) (sendOk : Bool) (now : ℤ)
    (hinline : c.cfg.compatMode = true → s.pending = [])
    (htidy : (Stage.negotiating fr n).Tidy s.roundOpen r.subs) (hrunning : n.phase.Running)
    (hclean : lossless → c.cfg.compatMode = false → s.broken n.sub = false) :
    Advance lossless c s (c.deliverMatch s r fr n req cand sendOk now) := by
  have hopen : s.roundOpen n.sub = true := htidy.2.2 hrunning
  have hdrained : c.cfg.compatMode = true → (s.session n.sub).waiting = [] := fun hcompat => by
    simp [session, hinline hcompat]
  rw [deliverMatch]
  dsimp only
  split
  · next hfailed =>
    have hcompat : c.cfg.compatMode = true := (Bool.and_eq_true_iff.mp hfailed).1
    exact advance_failed rfl trivial rfl rfl htidy hrunning (hdrained hcompat) rfl False.elim
  · have hsent : Traffic lossless c s (c.commit (c.sendInOrder s n.sub
        (.sent n.sub (c.matchResult s r n req cand) cand.scanIndex true)
        (.sendMatch (c.matchResult s r n req cand) cand.scanIndex)) r fr n req cand
        (c.matchResult s r n req cand) now) := by
      refine traffic_match hopen hdrained hclean ?_ ?_ rfl rfl ?_
      · rfl
      · intro j
        simp [Event.accountedIdx?, eq_comm]
      · rw [subs_commit, sendInOrder_subs]
    refine ⟨hsent, htidy.1, fun j hj => ?_, fun _ => ?_⟩
    · exact htidy.2.1 j ((roundOpen_sendInOrder _ _ j).symm.trans hj)
    · exact (roundOpen_sendInOrder _ _ n.sub).trans hopen

theorem advance_stepOffer [Zero F] [One F] [Add F] [Sub F] [IntCast F] [BEq F] [LT F] [LE F]
    [DecidableLT F] [DecidableLE F] {ctxDone sendOk : Bool} {now : ℤ}
    (hinline : c.cfg.compatMode = true → s.pending = [])
    (htidy : (Stage.negotiating fr n).Tidy s.roundOpen r.subs) (hphase : n.phase = .offer)
    (hclean : lossless → c.cfg.compatMode = false → s.broken n.sub = false)
    (h : c.stepOffer s r fr n ctxDone sendOk now = some s') : Advance lossless c s s' := by
  have hrunning : n.phase.Running := by rw [hphase]; trivial
  rw [stepOffer] at h
  split at h
  · cases h
  · next req hcur =>
    dsimp only at h
    cases h
    split
    · apply advance_breakOff (n := n)
      · exact .of_subs rfl rfl rfl
      · exact fun _ => rfl
      · exact htidy
      · rfl
    · refine Traffic.advance ?_ (advance_reject _ _ sendOk ?_ ?_ hrunning)
      · exact .of_subs rfl rfl rfl
      · exact hinline
      · exact htidy
    · refine Traffic.advance ?_ (advance_deliverMatch _ _ sendOk now ?_ ?_ hrunning ?_)
      · exact .of_subs rfl rfl rfl
      · exact hinline
      · exact htidy
      · exact hclean

theorem advance_stepLeave (result : MmResult) (now : ℤ)
    (htidy : (Stage.negotiating fr n).Tidy s.roundOpen r.subs) :
    Advance lossless c s (Cycle.stepLeave s r fr n result now) := by
  have hsame : SameSessions s (s.updateSub n.sub fun sub =>
      { sub with timeUsed := sub.timeUsed + (now - n.startedAt) }) := by
    refine .updateSub ?_ ?_ ?_ <;> exact fun _ => rfl
  have hsettle : Advance lossless c s (((s.updateSub n.sub fun sub =>
      { sub with timeUsed := sub.timeUsed + (now - n.startedAt) }).endRound n.sub
        (result = .error)).goto r (.looping (settle fr n.sub (result = .resume)))) := by
    refine advance_settle hsame.traffic (fun j hj => ?_) htidy.1 ?_ _
    · exact htidy.2.1 j ((hsame.open_eq j).symm.trans hj)
    · rfl
  exact hsettle.count fun stats =>
    if result = .error then { stats with submittersFailed := stats.submittersFailed + 1 } else stats

end

end

/-! ### Steps -/

def Lossless (c : Cycle F A) (s : CycleState F A) : Label F → Prop
  | .offer _ _ _ => c.cfg.compatMode = true ∨ ∀ n ∈ s.negotiation?, s.broken n.sub = false
  | .deliver i ok => ok = true ∨ ∀ p ∈ s.pending[i]?, (s.session p.1).undelivered = []
  | _ => True

instance (c : Cycle F A) (s : CycleState F A) : (l : Label F) → Decidable (Lossless c s l)
  | .offer _ _ _ => inferInstanceAs (Decidable
      (c.cfg.compatMode = true ∨ ∀ n ∈ s.negotiation?, s.broken n.sub = false))
  | .deliver i ok => inferInstanceAs (Decidable
      (ok = true ∨ ∀ p ∈ s.pending[i]?, (s.session p.1).undelivered = []))
  | .group _ _ => .isTrue trivial
  | .spin _ => .isTrue trivial
  | .prefetch _ _ => .isTrue trivial
  | .sub _ _ => .isTrue trivial
  | .spinEnd => .isTrue trivial
  | .top _ => .isTrue trivial
  | .next => .isTrue trivial
  | .fetch _ => .isTrue trivial
  | .leave _ => .isTrue trivial

section

variable {c : Cycle F A} {s : CycleState F A}

/-- Rounds are open only where they may be, and the queue is in order. -/
structure Orderly (c : Cycle F A) (s : CycleState F A) : Prop where
  queued : Queued c s
  tidy : s.Tidy

theorem orderly_start [Zero F] [IntCast F] {st : CycleSetup F} (a : A) (snap : Cycle.Snapshot) :
    Orderly c (c.start st a snap) ∧
      ∀ k, (c.start st a snap).session k = ⟨[], [], false, false, []⟩ := by
  have hsame : SameSessions ⟨a, .new c.lib (c.trimmedSlots a snap) snap.claimIDs, ∅, [], [],
      ⟨0, 0, 0, 0, 0, 0, 0, 0, 0, 0⟩, .idle, []⟩ (c.start st a snap) :=
    sameSessions_wrapSubmitters st (range st.submitters.length)
  obtain ⟨-, -, -, -, hidle⟩ := start_eqs c st a snap
  have hqueued : Queued c (c.start st a snap) :=
    (hsame.traffic : Traffic False c _ _).queued ⟨by simp, by simp⟩
  refine ⟨⟨hqueued, ?_⟩, fun k => (hsame.session_eq k).trans rfl⟩
  rw [Tidy, hidle]
  exact fun j => (hsame.open_eq j).trans rfl

def CycleState.returned (s : CycleState F A) : Bool :=
  s.pending.isEmpty && match s.pc with
    | .round _ => false
    | _ => true

theorem idle_of_returned (htidy : s.Tidy) (h : s.returned = true) (k : ℕ) :
    (s.session k).waiting = [] ∧ (s.session k).sessOpen = false := by
  rw [CycleState.returned, Bool.and_eq_true, List.isEmpty_iff] at h
  refine ⟨by simp [session, h.1], ?_⟩
  have hpc := h.2
  rw [Tidy] at htidy
  cases hs : s.pc with
  | round r => rw [hs] at hpc; cases hpc
  | idle | stopped => rw [hs] at htidy; exact htidy k

end

variable [Zero F] [One F] [Add F] [Sub F] [Mul F] [Div F] [IntCast F] [BEq F] [LT F] [LE F]
  [DecidableLT F] [DecidableLE F] {lossless : Prop} {c : Cycle F A} {st : CycleSetup F}
  {s s' : CycleState F A} {l : Label F}

theorem advance_of_step (hqueued : Queued c s) (htidy : s.Tidy)
    (hlossless : lossless → Lossless c s l) (h : c.step st s l = some s') :
    Advance lossless c s s' := by
  rcases worker_or_spine h with ⟨i, ok, rfl, hdeliver⟩ | ⟨hinline, hspine⟩
  · obtain ⟨htraffic, hopen⟩ := traffic_stepDeliver hqueued hdeliver fun hl k op hop =>
      (hlossless hl).imp_right fun hnone => hnone (k, op) hop
    refine ⟨htraffic, ?_⟩
    obtain ⟨-, -, hpc⟩ := kept_stepDeliver hdeliver
    rwa [Tidy, hpc, funext hopen]
  · cases hspine with
    | group info ads hidle =>
      rw [Tidy, hidle] at htidy
      exact advance_stepGroup st htidy info ads
    | spin r ctxErr hround hstage =>
      exact advance_stepSpin st (htidy.at_stage hround hstage) ctxErr
    | prefetch r env todo k reply _ hround hstage h =>
      exact advance_stepPrefetch st hinline (htidy.at_stage hround hstage) h
    | sub r fr ctxErr now _ hround hstage h =>
      exact advance_stepSub st (htidy.at_stage hround hstage) h
    | spinEnd r fr _ hround hstage h => exact advance_stepSpinEnd (htidy.at_stage hround hstage) h
    | top r fr n now hround hstage hphase =>
      exact advance_stepTop now (htidy.at_stage hround hstage) hphase
    | next r fr n hround hstage hphase =>
      exact advance_stepNext (htidy.at_stage hround hstage) hphase
    | fetch r fr n reply _ hround hstage hphase h =>
      exact advance_stepFetch (htidy.at_stage hround hstage) hphase h
    | offer r fr n ctxDone sendOk now _ hround hstage hphase h =>
      refine advance_stepOffer hinline (htidy.at_stage hround hstage) hphase
        (fun hl hfast => ?_) h
      rcases hlossless hl with hcompat | hclean
      · rw [hcompat] at hfast
        cases hfast
      · exact hclean n (negotiation?_eq_some hround hstage)
    | leave r fr n result now hround hstage =>
      exact advance_stepLeave result now (htidy.at_stage hround hstage)

theorem orderly_of_run {P : CycleState F A → Label F → Prop} {ls : List (Label F)}
    (hP : lossless → ∀ s l, P s l → Queued c s → Lossless c s l) (hrun : Run (c.step st) P s ls s')
    (h : Orderly c s) : Orderly c s' ∧ ∀ k, SessionRun lossless k (s.session k) (s'.session k) := by
  refine hrun.invariant (I := fun s' => Orderly c s' ∧ ∀ k, SessionRun lossless k (s.session k)
    (s'.session k)) ?_ ⟨h, fun _ => .refl⟩
  rintro s₁ l s₂ hstep hcond ⟨hord, hruns⟩
  have hadvance : Advance lossless c s₁ s₂ :=
    advance_of_step hord.queued hord.tidy (fun hl => hP hl _ _ hcond hord.queued) hstep
  exact ⟨⟨hadvance.traffic.queued hord.queued, hadvance.tidy⟩,
    fun k => (hruns k).trans (hadvance.traffic.runs k)⟩

/-! ## Sessions of a cycle -/

/-- **Sessions are closed once**, in either mode, whatever fails and whenever the context ends. -/
theorem sessions_close_once (c : Cycle F A) (st : CycleSetup F) (a : A) (snap : Cycle.Snapshot)
    (ls : List (Label F)) (s : CycleState F A)
    (h : exec (c.step st) (c.start st a snap) ls = some s) (k : ℕ) :
    ∃ (sessions : List (List (Event F))) (current : List (Event F)),
      (s.log.filter fun e => e.session? = some k) = sessions.flatten ++ current ∧
      (∀ es ∈ sessions, CompleteSession es) ∧ (current = [] ∨ OpenSession current) ∧
      (s.returned = true → current = []) := by
  obtain ⟨horderly, hnone⟩ : Orderly c (c.start st a snap) ∧ _ := orderly_start a snap
  have hrun : Run (c.step st) (fun _ _ => True) (c.start st a snap) ls s :=
    .of_exec h fun _ _ _ => trivial
  obtain ⟨⟨-, htidy⟩, hruns⟩ : Orderly c s ∧ ∀ k, SessionRun False k _ _ :=
    orderly_of_run False.elim hrun horderly
  have hlife : Lifecycle (s.session k) :=
    .of_run (hruns k) (.over [] (by rw [hnone]; rfl) (by simp) (by rw [hnone]) (by rw [hnone]))
  by_cases hreturned : s.returned = true
  · obtain ⟨hwaiting, hclosed⟩ := idle_of_returned htidy hreturned k
    obtain ⟨sessions, htraffic, hsessions⟩ := hlife.sessions_of_idle hwaiting hclosed
    exact ⟨sessions, [], by rw [append_nil]; exact htraffic, hsessions, Or.inl rfl,
      fun _ => rfl⟩
  · cases hlife with
    | «over» sessions htraffic hsessions =>
      exact ⟨sessions, [], by rw [append_nil]; exact htraffic, hsessions, Or.inl rfl,
        fun _ => rfl⟩
    | live sessions current htraffic hsessions hcurrent =>
      exact ⟨sessions, current, htraffic, hsessions, Or.inr hcurrent,
        fun h => absurd h hreturned⟩

def fastCycle : Cycle ℚ (List (Text × ℚ)) := unitCycle false false (fun _ => 1) (-1)

def loseMatch : List (Label ℚ) :=
  [.group flatRound [0], .spin false, .prefetch 0 (.requests [jobs 1]), .sub false 0, .top 0, .next,
    .offer false true 0, .deliver 0 false, .top 0, .leave 0, .deliver 0 true, .spinEnd]

theorem sessions_close_once_loseMatch :
    ∃ s, fastCycle.execFrom [] twoClaims loseMatch = some s ∧ s.returned = true ∧
      (s.log.filter fun e => e.session? = some 0).length = 4 ∧
      ∃ sessions : List (List (Event ℚ)),
        (s.log.filter fun e => e.session? = some 0) = sessions.flatten ∧
        ∀ es ∈ sessions, CompleteSession es := by
  obtain ⟨s, hs, hview⟩ := map_eq_some_iff.mp (by decide +kernel :
    (fastCycle.execFrom [] twoClaims loseMatch).map (fun s =>
      (s.returned, (s.log.filter fun e => e.session? = some 0).length)) = some (true, 4))
  have hreturned : s.returned = true := congrArg Prod.fst hview
  obtain ⟨sessions, current, htraffic, hsessions, -, hnone⟩ :=
    sessions_close_once fastCycle _ _ _ _ s hs 0
  rw [hnone hreturned, append_nil] at htraffic
  exact ⟨s, hs, hreturned, congrArg Prod.snd hview, sessions, htraffic, hsessions⟩

end GolangCollector.Negotiator
