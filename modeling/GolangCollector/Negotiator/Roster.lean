import GolangCollector.Negotiator.Books
import GolangCollector.Negotiator.GroupQuota

/-! # The submitters of a cycle

What a cycle never changes of its submitters: each is made from an ad, once, and is numbered in the
order in which it was made. Only the head of a first spin changes the bands of job priorities, and
the rounds of a cycle hold no other numbers. -/

namespace GolangCollector.Negotiator

open GoStrings Runs List Option Negotiator.Cycle CycleState

variable {F A : Type}

/-! ## The head of a spin, and the allocator -/

theorem CycleState.roster_putSubs (s : CycleState F A) {changed : List (SubState F)}
    (hnodup : (s.roster.map Submitter.origIdx).Nodup)
    (h : ∀ sub ∈ changed, sub.submitter ∈ s.roster) : (s.putSubs changed).roster = s.roster := by
  rw [CycleState.roster, CycleState.putSubs, List.map_map]
  refine map_congr_left fun sub hsub => ?_
  simp only [Function.comp_apply]
  cases hx : changed.find? fun x => x.origIdx = sub.origIdx with
  | none => rfl
  | some x =>
    have hidx : x.origIdx = sub.origIdx := by simpa using find?_some hx
    exact inj_on_of_nodup_map hnodup (h x (mem_of_find?_eq_some hx))
      (mem_map_of_mem hsub) hidx

section

variable {c : Cycle F A} {st : CycleSetup F} {s s' : CycleState F A} {r : Round F} {k : ℕ}

theorem submitter_mem_roster_of_spinSubs {sub : SubState F} (h : sub ∈ c.spinSubs s r) :
    sub.submitter ∈ s.roster := by
  have hmem : sub ∈ s.subsOf r.subs := by
    rw [spinSubs] at h
    split at h
    · exact h
    · exact mem_of_mem_filter h
  exact mem_map_of_mem (mem_of_find?_eq_some (s.mem_subsOf hmem).2)

section

variable [Zero F] [Add F] [Sub F] [Mul F] [Div F] [IntCast F] [BEq F] [LT F] [LE F] [DecidableLT F]
  [DecidableLE F]

/-- The order of a spin, once starvation is stamped on its submitters. -/
def Cycle.stampedOrder (c : Cycle F A) (st : CycleSetup F) (s : CycleState F A) (r : Round F) :
    List (SubState F) :=
  c.spinOrder (c.spinEnv st s r (c.spinSubs s r))
    ((c.spinSubs s r).map (c.stampStarvation s.acct r.info (c.spinEnv st s r (c.spinSubs s r))))

omit [LE F] [DecidableLE F] in
theorem submitter_mem_roster_of_stampedOrder {sub : SubState F} (h : sub ∈ c.stampedOrder st s r) :
    sub.submitter ∈ s.roster := by
  refine of_mem_spinOrder (P := fun sub => sub.submitter ∈ s.roster) (fun _ _ _ h => h) ?_ sub h
  intro x hx
  obtain ⟨y, hy, rfl⟩ := mem_map.mp hx
  have hmem := submitter_mem_roster_of_spinSubs hy
  exact hmem

theorem roster_stepSpin (hnodup : (s.roster.map Submitter.origIdx).Nodup) (ctxErr : Bool) :
    (c.stepSpin st s r ctxErr).roster = s.roster := by
  rw [stepSpin]
  split
  · exact roster_eq_of_banded (of_books_eq (books_abort r)).2.1
  · dsimp only
    split
    · exact roster_eq_of_banded (of_books_eq (books_finishRound r)).2.1
    · split
      · exact roster_eq_of_banded (of_books_eq (books_finishRound r)).2.1
      · rw [dividePie]
        dsimp only
        generalize hs₁ : s.count (fun stats => { stats with pieSpins := stats.pieSpins + 1 }) = s₁
        have hroster : s₁.roster = s.roster := by rw [← hs₁]; rfl
        rw [← hroster] at hnodup ⊢
        have hstamped : (s₁.putSubs ((c.spinSubs s₁ r).map (c.stampStarvation s₁.acct r.info
            (c.spinEnv st s₁ r (c.spinSubs s₁ r))))).roster = s₁.roster := by
          refine s₁.roster_putSubs hnodup fun sub hsub => ?_
          obtain ⟨x, hx, rfl⟩ := mem_map.mp hsub
          have hmem := submitter_mem_roster_of_spinSubs hx
          exact hmem
        split
        · exact (roster_eq_of_banded
            (of_books_eq (books_finishRound r)).2.1).trans hstamped
        · refine (roster_putSubs _ (by rwa [hstamped]) fun sub hsub => ?_).trans hstamped
          rw [hstamped]
          exact submitter_mem_roster_of_stampedOrder hsub

end

/-- **The submitters of some ads**: numbered in order, each of an ad of its own. -/
structure IsRoster [Zero F] (c : Cycle F A) (st : CycleSetup F) (l : List Submitter) : Prop where
  numbered : l.map Submitter.origIdx = List.range l.length
  ads_nodup : (l.map Submitter.adIdx).Nodup
  origin : ∀ x ∈ l, ∃ ad sub, st.submitters[x.adIdx]? = some ad ∧
    c.wrapSubmitter ad x.adIdx x.origIdx = some sub ∧ sub.submitter = x

theorem IsRoster.nodup [Zero F] {l : List Submitter} (h : IsRoster c st l) :
    (l.map Submitter.origIdx).Nodup := by
  rw [h.numbered]
  exact nodup_range

/-- Every number below the count is a submitter's. -/
theorem IsRoster.sub?_isSome [Zero F] (h : IsRoster c st s.roster) (hk : k < s.roster.length) :
    (s.sub? k).isSome = true := by
  have hmem : k ∈ s.roster.map Submitter.origIdx := by
    rw [h.numbered]
    exact mem_range.mpr hk
  obtain ⟨x, hx, rfl⟩ := mem_map.mp hmem
  obtain ⟨sub, hsub, rfl⟩ := mem_map.mp hx
  rw [sub?, find?_isSome]
  exact ⟨sub, hsub, by simp [SubState.submitter]⟩

theorem IsRoster.concat [Zero F] {l : List Submitter} {x : Submitter} (h : IsRoster c st l)
    (hidx : x.origIdx = l.length) (hnew : x.adIdx ∉ l.map Submitter.adIdx)
    (horigin : ∃ ad sub, st.submitters[x.adIdx]? = some ad ∧
      c.wrapSubmitter ad x.adIdx x.origIdx = some sub ∧ sub.submitter = x) :
    IsRoster c st (l ++ [x]) where
  numbered := by
    rw [map_append, h.numbered, length_append, length_singleton, range_succ,
      map_singleton, hidx]
  ads_nodup := by
    rw [map_append, map_singleton]
    exact nodup_append.mpr ⟨h.ads_nodup, nodup_singleton _, fun i hi j hj hij =>
      hnew (by rwa [← mem_singleton.mp hj, ← hij])⟩
  origin y hy := by
    rcases mem_append.mp hy with hy | hy
    · exact h.origin y hy
    · rw [mem_singleton.mp hy]
      exact horigin

/-- **One ad is wrapped**: its submitter is there, or is made. -/
theorem IsRoster.wrapNext [Zero F] {acc : CycleState F A × List ℕ} (adIdx : ℕ)
    (h : IsRoster c st acc.1.roster) (hids : ∀ k ∈ acc.2, k < acc.1.roster.length) :
    IsRoster c st (c.wrapNext st acc adIdx).1.roster ∧
      (∀ k ∈ (c.wrapNext st acc adIdx).2, k < (c.wrapNext st acc adIdx).1.roster.length) ∧
      acc.1.roster <+: (c.wrapNext st acc adIdx).1.roster := by
  obtain ⟨s, out⟩ := acc
  dsimp only at h hids
  simp only [Cycle.wrapNext]
  split
  · next sub hsub =>
    refine ⟨h, fun k hk => ?_, List.prefix_rfl⟩
    rcases List.mem_append.mp hk with hk | hk
    · exact hids k hk
    · rw [List.mem_singleton.mp hk]
      have hmem : sub.origIdx ∈ s.roster.map Submitter.origIdx := by
        rw [CycleState.roster, List.map_map]
        exact List.mem_map_of_mem (f := fun x : SubState F => x.submitter.origIdx)
          (List.mem_of_find?_eq_some hsub)
      rw [h.numbered] at hmem
      exact List.mem_range.mp hmem
  · next hnone =>
    split
    · exact ⟨h, hids, List.prefix_rfl⟩
    · next sub hsub =>
      obtain ⟨ad, had, hwrap⟩ := Option.bind_eq_some_iff.mp hsub
      obtain ⟨hadIdx, horigIdx, -⟩ := wrapSubmitter_eqs hwrap
      have hroster : (s.subs ++ [sub]).map SubState.submitter = s.roster ++ [sub.submitter] := by
        simp [CycleState.roster]
      have hlength : s.roster.length = s.subs.length := List.length_map _
      have hnew : sub.submitter.adIdx ∉ s.roster.map Submitter.adIdx := by
        intro hmem
        rw [CycleState.roster, List.map_map] at hmem
        obtain ⟨x, hx, hidx⟩ := List.mem_map.mp hmem
        exact List.find?_eq_none.mp hnone x hx (decide_eq_true (hidx.trans hadIdx))
      have hgrown : IsRoster c st (s.roster ++ [sub.submitter]) := by
        refine h.concat (horigIdx.trans hlength.symm) hnew ⟨ad, sub, ?_, ?_, rfl⟩
        · change st.submitters[sub.adIdx]? = some ad
          rw [hadIdx]
          exact had
        · change c.wrapSubmitter ad sub.adIdx sub.origIdx = some sub
          rw [hadIdx, horigIdx]
          exact hwrap
      rw [CycleState.roster, hroster]
      refine ⟨hgrown, fun k hk => ?_, List.prefix_append _ _⟩
      rw [List.length_append, List.length_singleton]
      rcases List.mem_append.mp hk with hk | hk
      · exact Nat.lt_succ_of_lt (hids k hk)
      · rw [List.mem_singleton.mp hk, horigIdx, hlength]
        exact Nat.lt_succ_self _

theorem IsRoster.wrapSubmitters [Zero F] (ads : List ℕ) (h : IsRoster c st s.roster) :
    IsRoster c st (c.wrapSubmitters st s ads).1.roster ∧
      (∀ k ∈ (c.wrapSubmitters st s ads).2, k < (c.wrapSubmitters st s ads).1.roster.length) ∧
      s.roster <+: (c.wrapSubmitters st s ads).1.roster := by
  refine foldlRecOn (motive := fun acc : CycleState F A × List ℕ =>
    IsRoster c st acc.1.roster ∧ (∀ k ∈ acc.2, k < acc.1.roster.length) ∧
      s.roster <+: acc.1.roster) ads _ ⟨h, fun _ hk => by simp at hk, prefix_rfl⟩ ?_
  rintro acc ⟨hroster, hids, hgrown⟩ adIdx -
  obtain ⟨hroster', hids', hgrown'⟩ := hroster.wrapNext adIdx hids
  exact ⟨hroster', hids', hgrown.trans hgrown'⟩

/-! ## The numbers that rounds hold -/

/-- A round, and the main one after it, hold numbers of submitters. -/
def Round.Below (count : ℕ) (r : Round F) : Prop :=
  (∀ k ∈ r.subs ++ r.stage.ids, k < count) ∧
    ∀ info subs, r.main = some (info, subs) → ∀ k ∈ subs, k < count

/-- **The submitters of a state**, and the rounds over them. -/
structure Enrolled [Zero F] (c : Cycle F A) (st : CycleSetup F) (s : CycleState F A) : Prop where
  roster : IsRoster c st s.roster
  round : ∀ r, s.pc = .round r → r.Below s.roster.length

theorem enrolled_start [Zero F] [IntCast F] {a : A} {snap : Cycle.Snapshot} :
    Enrolled c st (c.start st a snap) := by
  have hempty : IsRoster c st [] := ⟨rfl, nodup_nil, fun x hx => by cases hx⟩
  refine ⟨?_, fun r hr => by cases (start_eqs c st a snap).2.2.2.2.symm.trans hr⟩
  rw [start]
  refine (IsRoster.wrapSubmitters _ ?_).1
  exact hempty

/-- The allocator's rounds hold the numbers of the wrapped ads. -/
theorem enrolled_stepGroup [Zero F] [LT F] [DecidableLT F] (h : Enrolled c st s)
    (info : RoundInfo F) (ads : List ℕ) :
    Enrolled c st (c.stepGroup st s info ads) ∧
      s.roster <+: (c.stepGroup st s info ads).roster := by
  obtain ⟨hroster, hids, hgrown⟩ := h.roster.wrapSubmitters ads
  simp only [stepGroup]
  split
  · refine ⟨⟨hroster, fun r hr => ?_⟩, hgrown⟩
    obtain rfl := Pc.round.inj hr
    refine ⟨fun k hk => ?_, fun info' subs hmain => by cases hmain; exact hids⟩
    obtain ⟨sub, hsub, rfl⟩ := mem_map.mp
      (show k ∈ map _ _ by simpa [Stage.ids] using hk)
    exact hids _ (mem_subsOf _ (mem_of_mem_filter hsub)).1
  · refine ⟨⟨hroster, fun r hr => ?_⟩, hgrown⟩
    obtain rfl := Pc.round.inj hr
    exact ⟨fun k hk => hids k (by simpa [Stage.ids] using hk), fun _ _ hmain => by cases hmain⟩

section

variable [Zero F] [One F] [Add F] [Sub F] [Mul F] [Div F] [IntCast F] [BEq F] [LT F] [LE F]
  [DecidableLT F] [DecidableLE F]

/-- **A step leaves the submitters**, or is the allocator's call. -/
theorem roster_of_step {l : Label F} (h : Enrolled c st s) (hstep : c.step st s l = some s') :
    (s'.roster = s.roster ∧ ∀ r', s'.pc = .round r' → ∃ r, s.pc = .round r) ∨
      ∃ info ads, s.pc = .idle ∧ s' = c.stepGroup st s info ads := by
  have hquiet : (∀ ctxErr, l ≠ .spin ctxErr) → (∀ info ads, l ≠ .group info ads) →
      s'.roster = s.roster := fun hspin hgroup =>
    roster_eq_of_banded (banded_of_step hstep hspin hgroup)
  rcases worker_or_spine hstep with ⟨i, ok, rfl, hdeliver⟩ | ⟨-, hspine⟩
  · refine Or.inl ⟨hquiet (by simp) (by simp), fun r' hr' => ?_⟩
    exact ⟨r', (kept_stepDeliver hdeliver).2.2.symm.trans hr'⟩
  · cases hspine with
    | group info ads hidle => exact Or.inr ⟨info, ads, hidle, rfl⟩
    | spin r ctxErr hround =>
      exact Or.inl ⟨roster_stepSpin h.roster.nodup ctxErr, fun _ _ => ⟨r, hround⟩⟩
    | prefetch r env todo k reply _ hround | sub r fr ctxErr now _ hround
    | spinEnd r fr _ hround | top r fr n now hround =>
      exact Or.inl ⟨hquiet (by simp) (by simp), fun _ _ => ⟨r, hround⟩⟩
    | next r fr n hround => exact Or.inl ⟨hquiet (by simp) (by simp), fun _ _ => ⟨r, hround⟩⟩
    | fetch r fr n reply _ hround | offer r fr n ctxDone sendOk now _ hround
    | leave r fr n result now hround =>
      exact Or.inl ⟨hquiet (by simp) (by simp), fun _ _ => ⟨r, hround⟩⟩

/-- **Every step keeps the books of submitters.** -/
theorem Enrolled.of_step {l : Label F} (h : Enrolled c st s) (hstep : c.step st s l = some s') :
    Enrolled c st s' := by
  rcases roster_of_step h hstep with ⟨hsame, hwithin⟩ | ⟨info, ads, -, rfl⟩
  · refine ⟨hsame ▸ h.roster, fun r' hr' => ?_⟩
    rw [hsame]
    obtain ⟨r, hr⟩ := hwithin r' hr'
    obtain ⟨hids, hmain⟩ := h.round r hr
    rcases round_of_move (move_of_step hstep) hr hr' with ⟨info, subs, hsome, rfl⟩ | ⟨-, heq, hsub⟩
    · exact ⟨fun k hk => hmain info subs hsome k (by simpa [Stage.ids] using hk),
        fun _ _ hnone => by cases hnone⟩
    · exact ⟨fun k hk => hids k (hsub hk), heq ▸ hmain⟩
  · exact (enrolled_stepGroup h info ads).1

end

end

end GolangCollector.Negotiator
