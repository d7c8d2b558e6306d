import GolangCollector.Negotiator.Partition
import GolangCollector.Negotiator.Roster

/-! # The spins of a round

A round goes on with another spin only if the last one dropped a submitter or cost something, so its
spins are bounded by its submitters and its matches of positive cost. -/

namespace GolangCollector.Negotiator

open GoStrings Runs List Negotiator.Cycle CycleState

/-! ## Counting the spins -/

section

variable {K : Type} [Field K] [LinearOrder K]

/-- **A spin under way**: the spins so far fit the bound. -/
structure SpinFrame.Counted (fr : SpinFrame K) (spin bound : ℕ) : Prop where
  kept_le : fr.todo.length + fr.next.length ≤ fr.origCount
  pie_eq : fr.env.pieLeft + fr.matched.sum = fr.pieLeftOrig
  spins_le : spin + fr.origCount + fr.matched.countP (fun cost => 0 < cost) ≤ bound + 1

/-- **The spins of a round so far** fit a bound. -/
def Stage.Counted (subs : List ℕ) (spin bound : ℕ) : Stage K → Prop
  | .top => spin + subs.length ≤ bound
  | .prefetching _ _ => spin + subs.length ≤ bound + 1
  | .looping fr => fr.Counted spin bound
  | .negotiating fr _ => fr.todo ≠ [] ∧ fr.Counted spin bound

variable {subs : List ℕ} {spin bound : ℕ} {fr : SpinFrame K}

theorem Stage.Counted.spin_le {stage : Stage K} (h : stage.Counted subs spin bound) :
    spin ≤ bound + 1 := by
  cases stage with
  | top => exact le_trans (Nat.le_add_right _ _) (le_trans h (Nat.le_succ _))
  | prefetching env todo => exact le_trans (Nat.le_add_right _ _) h
  | looping fr => exact le_trans (by omega) h.spins_le
  | negotiating fr n => exact le_trans (by omega) h.2.spins_le

theorem SpinFrame.Counted.settle (h : fr.Counted spin bound) (htodo : fr.todo ≠ []) (k : ℕ)
    (keep : Bool) : (Cycle.settle fr k keep).Counted spin bound := by
  refine ⟨?_, h.pie_eq, h.spins_le⟩
  have hlength : fr.todo.length = fr.todo.tail.length + 1 := by
    rw [length_tail, Nat.sub_add_cancel (length_pos_iff.mpr htodo)]
  have hkept := h.kept_le
  cases keep with
  | true =>
    simp only [Cycle.settle, if_true, List.length_append, List.length_singleton]
    omega
  | false =>
    simp only [Cycle.settle, Bool.false_eq_true, if_false]
    omega

variable [IsStrictOrderedRing K]

theorem SpinFrame.Counted.charge (h : fr.Counted spin bound) (cost : K) :
    (fr.charge cost).Counted spin (bound + if 0 < cost then 1 else 0) := by
  refine ⟨h.kept_le, ?_, ?_⟩
  · have hpie := h.pie_eq
    simp only [SpinFrame.charge, sum_append, sum_singleton]
    linarith
  · have hspins := h.spins_le
    simp only [SpinFrame.charge, countP_append, countP_singleton, decide_eq_true_eq]
    split <;> omega

/-- **Progress**: where the pie shrank, something was matched at a cost. -/
theorem SpinFrame.Counted.progress (h : fr.Counted spin bound)
    (hprogress : fr.env.pieLeft < fr.pieLeftOrig ∨ fr.next.length < fr.origCount) :
    spin + fr.next.length ≤ bound := by
  have hspins := h.spins_le
  have hkept := h.kept_le
  rcases hprogress with hpie | hdropped
  · have hsum : 0 < fr.matched.sum := by
      have := h.pie_eq
      linarith
    have hpos : 0 < fr.matched.countP fun cost => 0 < cost := by
      by_contra hnone
      have hnonpos : ∀ cost ∈ fr.matched, cost ≤ 0 := by
        simpa [countP_eq_zero] using hnone
      have hle := sum_le_card_nsmul fr.matched 0 hnonpos
      rw [nsmul_zero] at hle
      exact absurd hle (not_le.mpr hsum)
    omega
  · omega

end

/-! ## Steps of a round -/

section

variable {F A : Type} {c : Cycle F A} {st : CycleSetup F} {s s' : CycleState F A} {r r' : Round F}
  {fr : SpinFrame F} {n : NegState F}

/-- **The same round goes on** in a place. -/
def Pc.Continues (r : Round F) (pc : Pc F) (r' : Round F) : Prop :=
  pc = .round r' ∧ r'.main.isSome = r.main.isSome

theorem not_continues_finishRound : ¬ (s.finishRound r).pc.Continues r r' := by
  rintro ⟨hpc, hmain⟩
  rw [finishRound] at hpc
  split at hpc
  · next info subs hsome =>
    cases hpc
    rw [hsome] at hmain
    cases hmain
  · cases hpc

theorem length_spinOrder_le [BEq F] [LT F] [DecidableLT F] (env : SpinEnv F)
    (subs : List (SubState F)) : (c.spinOrder env subs).length ≤ subs.length := by
  have hsorted : (c.sortSubmitters env.prios subs).length = subs.length :=
    (perm_insertionSort _ subs).length_eq
  rw [spinOrder]
  split
  · dsimp only
    split
    · exact (length_consolidateJobPrios_le _).trans hsorted.le
    · exact hsorted.le
  · exact le_rfl

theorem length_spinSubs_le : (c.spinSubs s r).length ≤ r.subs.length := by
  have hall : (s.subsOf r.subs).length ≤ r.subs.length := length_filterMap_le _ _
  rw [spinSubs]
  split
  · exact hall
  · exact (length_filter_le _ _).trans hall

section

variable [Zero F] [Add F] [Sub F] [Mul F] [Div F] [IntCast F] [BEq F] [LT F] [DecidableLT F]

theorem length_stampedOrder_le : (c.stampedOrder st s r).length ≤ r.subs.length := by
  refine (length_spinOrder_le _ _).trans ?_
  rw [length_map]
  exact length_spinSubs_le

variable [LE F] [DecidableLE F]

/-- **The head of a spin goes on with a divided pie**, in the order of the spin. -/
theorem stepSpin_continues {ctxErr : Bool} (hmain : r'.main.isSome = r.main.isSome)
    (hpc : (c.stepSpin st s r ctxErr).pc = .round r') :
    ctxErr = false ∧ c.spinSubs s r ≠ [] ∧
      r' = { r with
        subs := (c.stampedOrder st s r).map SubState.origIdx
        spin := r.spin + 1
        stage := .prefetching (c.spinEnv st s r (c.spinSubs s r))
          ((c.stampedOrder st s r).map SubState.origIdx) } := by
  cases ctxErr with
  | true => cases hpc
  | false =>
    refine ⟨rfl, ?_⟩
    rw [stepSpin, if_neg Bool.false_ne_true] at hpc
    dsimp only at hpc
    split at hpc
    · exact (not_continues_finishRound ⟨hpc, hmain⟩).elim
    · split at hpc
      · exact (not_continues_finishRound ⟨hpc, hmain⟩).elim
      · next hsome =>
        rw [dividePie] at hpc
        dsimp only at hpc
        split at hpc
        · exact (not_continues_finishRound ⟨hpc, hmain⟩).elim
        · refine ⟨fun hnil => hsome (isEmpty_iff.mpr hnil), ?_⟩
          exact (Pc.round.inj hpc).symm

omit [Add F] [BEq F] in
/-- **The next submitter of a spin** is settled, or its negotiation starts. -/
theorem stepSub_stage {ctxErr : Bool} {now : ℤ} (h : c.stepSub st s r fr ctxErr now = some s') :
    fr.todo ≠ [] ∧ ∃ stage, s'.pc = .round { r with stage } ∧
      ((∃ k keep halted, stage = .looping { Cycle.settle fr k keep with halted }) ∨
        ∃ n, stage = .negotiating fr n) := by
  rw [stepSub] at h
  split at h
  · cases h
  · next k rest htodo =>
    refine ⟨by simp [htodo], ?_⟩
    split_ifs at h
    · cases h
      exact ⟨_, rfl, Or.inl ⟨k, true, fr.halted, rfl⟩⟩
    · cases h
      exact ⟨_, rfl, Or.inl ⟨k, true, true, rfl⟩⟩
    · split at h
      · cases h
        exact ⟨_, rfl, Or.inl ⟨k, false, fr.halted, rfl⟩⟩
      · next sub _ =>
        cases h
        rw [negotiateOne]
        split
        · next result _ =>
          exact ⟨_, rfl, Or.inl ⟨sub.origIdx, decide (result = .resume), fr.halted, rfl⟩⟩
        · exact ⟨_, rfl, Or.inr ⟨_, rfl⟩⟩

end

end

/-! ## The spins of a run -/

section

variable {K A : Type} [Field K] [LinearOrder K] {c : Cycle K A} {st : CycleSetup K}
  {s s' : CycleState K A} {r r' : Round K} {fr : SpinFrame K} {n : NegState K} {bound : ℕ}
  {l : Label K}

/-- The matches of positive cost. -/
def paid (commits : List (Text × ℕ × K)) : ℕ := commits.countP fun p => 0 < p.2.2

/-- **A step keeps count**: with the matches that it adds, the spins fit the bound. -/
def KeepsCount (bound : ℕ) (r : Round K) (l : Label K) (s s' : CycleState K A) : Prop :=
  ∃ new, s'.commits = s.commits ++ new ∧ r.spin + l.spins ≤ bound + 1 ∧
    ∀ r', s'.pc.Continues r r' → r'.spin = r.spin + l.spins ∧
      r'.stage.Counted r'.subs r'.spin (bound + paid new)

/-- Only an offer commits. -/
theorem commits_eq_of_stage (hmove : Move c s s') (hround : s.pc = .round r)
    (hstage : ∀ fr n, r.stage = .negotiating fr n → n.phase ≠ .offer) :
    s'.commits = s.commits := by
  cases hmove with
  | kept hkept => exact hkept.commits_eq
  | commit r' fr n idx slot tier hcommit =>
    obtain rfl := Pc.round.inj (hround.symm.trans hcommit.round_eq)
    exact absurd hcommit.phase_eq (hstage fr n hcommit.stage_eq)

theorem counted_stepSpin {ctxErr : Bool} (hstage : r.stage = .top)
    (hcounted : r.stage.Counted r.subs r.spin bound)
    (hgoes : (c.stepSpin st s r ctxErr).pc.Continues r r') :
    r'.spin = r.spin + (Label.spin (F := K) ctxErr).spins ∧
      r'.stage.Counted r'.subs r'.spin bound := by
  obtain ⟨rfl, -, rfl⟩ := stepSpin_continues hgoes.2 hgoes.1
  have hlength : (c.stampedOrder st s r).length ≤ r.subs.length := length_stampedOrder_le
  rw [hstage] at hcounted
  have hle : r.spin + r.subs.length ≤ bound := hcounted
  refine ⟨rfl, ?_⟩
  change r.spin + 1 + ((c.stampedOrder st s r).map SubState.origIdx).length ≤ bound + 1
  rw [length_map]
  omega

/-- The loop starts with all submitters and nothing matched. -/
theorem counted_stepPrefetch {env : SpinEnv K} {todo : List ℕ} {k : ℕ} {reply : BeginReply}
    (h : c.stepPrefetch st s r env todo k reply = some s')
    (hstage : r.stage = .prefetching env todo) (hcounted : r.stage.Counted r.subs r.spin bound) :
    ∃ stage, s'.pc = .round { r with stage } ∧ stage.Counted r.subs r.spin bound := by
  rw [hstage] at hcounted
  rw [stepPrefetch] at h
  split at h
  · cases h
    refine ⟨_, rfl, ?_⟩
    split
    · exact ⟨le_of_eq (Nat.add_zero _), by simp, hcounted⟩
    · exact hcounted
  · cases h

theorem counted_stepSub {ctxErr : Bool} {now : ℤ} (h : c.stepSub st s r fr ctxErr now = some s')
    (hstage : r.stage = .looping fr) (hcounted : r.stage.Counted r.subs r.spin bound) :
    ∃ stage, s'.pc = .round { r with stage } ∧ stage.Counted r.subs r.spin bound := by
  rw [hstage] at hcounted
  obtain ⟨htodo, stage, hpc, ⟨k, keep, halted, rfl⟩ | ⟨n, rfl⟩⟩ := stepSub_stage h
  · obtain ⟨hkept, hpie, hspins⟩ := hcounted.settle htodo k keep
    exact ⟨_, hpc, hkept, hpie, hspins⟩
  · exact ⟨_, hpc, htodo, hcounted⟩

theorem counted_stepLeave (result : MmResult) (now : ℤ) (hstage : r.stage = .negotiating fr n)
    (hcounted : r.stage.Counted r.subs r.spin bound) :
    ∃ stage, (Cycle.stepLeave s r fr n result now).pc = .round { r with stage } ∧
      stage.Counted r.subs r.spin bound := by
  rw [hstage] at hcounted
  exact ⟨_, rfl, hcounted.2.settle hcounted.1 n.sub _⟩

theorem keepsCount_of_stays (hcommits : s'.commits = s.commits) (hspins : l.spins = 0)
    (hcounted : r.stage.Counted r.subs r.spin bound)
    (h : ∃ stage, s'.pc = .round { r with stage } ∧ stage.Counted r.subs r.spin bound) :
    KeepsCount bound r l s s' := by
  obtain ⟨stage, hpc, hstage⟩ := h
  rw [KeepsCount, hspins]
  refine ⟨[], by rw [hcommits, append_nil], hcounted.spin_le, fun r' hr' => ?_⟩
  obtain rfl := Pc.round.inj (hpc.symm.trans hr'.1)
  exact ⟨rfl, hstage⟩

variable [IsStrictOrderedRing K]

theorem keepsCount_of_loops (hloops : Loops c s s' r fr n) (hstage : r.stage = .negotiating fr n)
    (hspins : l.spins = 0) (hcounted : r.stage.Counted r.subs r.spin bound) :
    KeepsCount bound r l s s' := by
  rw [KeepsCount, hspins]
  have hle := hcounted.spin_le
  rw [hstage] at hcounted
  obtain ⟨htodo, hcounted⟩ := hcounted
  cases hloops with
  | think n' hkept _ hpc =>
    refine ⟨[], by rw [hkept.commits_eq, append_nil], hle, fun r' hr' => ?_⟩
    obtain rfl := Pc.round.inj (hpc.symm.trans hr'.1)
    exact ⟨rfl, htodo, hcounted⟩
  | commit idx slot tier hcommit =>
    obtain ⟨req, hpc⟩ := hcommit.pc_eq
    refine ⟨_, hcommit.commits_eq, hle, fun r' hr' => ?_⟩
    obtain rfl := Pc.round.inj (hpc.symm.trans hr'.1)
    refine ⟨rfl, htodo, ?_⟩
    have hcharged := hcounted.charge (c.slotWeightOf slot)
    simpa [paid, countP_singleton] using hcharged

/-- The end of a spin: it goes on only after progress. -/
theorem counted_stepSpinEnd (h : Cycle.stepSpinEnd s r fr = some s')
    (hstage : r.stage = .looping fr) (hcounted : r.stage.Counted r.subs r.spin bound)
    (hgoes : s'.pc.Continues r r') :
    r'.spin = r.spin ∧ r'.stage.Counted r'.subs r'.spin bound := by
  rw [hstage] at hcounted
  rw [stepSpinEnd] at h
  split at h
  · dsimp only at h
    split at h
    · cases h
      exact (not_continues_finishRound hgoes).elim
    · next hgo =>
      cases h
      obtain rfl := Pc.round.inj hgoes.1
      simp only [Bool.or_eq_true, not_or] at hgo
      exact ⟨rfl, hcounted.progress (by simpa [or_iff_not_imp_left] using hgo.1.1.1)⟩
  · cases h

/-- **Every step of a round keeps count.** -/
theorem keepsCount_of_step (h : c.step st s l = some s') (hround : s.pc = .round r)
    (hcounted : r.stage.Counted r.subs r.spin bound) : KeepsCount bound r l s s' := by
  have hmove := move_of_step h
  rcases worker_or_spine h with ⟨i, ok, rfl, hdeliver⟩ | ⟨-, hspine⟩
  · obtain ⟨hkept, -, hpc⟩ := kept_stepDeliver hdeliver
    exact keepsCount_of_stays hkept.commits_eq rfl hcounted ⟨r.stage, hpc.trans hround, hcounted⟩
  · cases hspine with
    | group info ads hidle => cases hround.symm.trans hidle
    | spin r₁ ctxErr hround' hstage =>
      obtain rfl := Pc.round.inj (hround.symm.trans hround')
      have hcommits := commits_eq_of_stage hmove hround (by simp [hstage])
      refine ⟨[], by rw [hcommits, append_nil], ?_, fun r' hr' =>
        counted_stepSpin hstage hcounted hr'⟩
      have hspins : (Label.spin (F := K) ctxErr).spins ≤ 1 := by
        cases ctxErr <;> simp [Label.spins]
      rw [hstage] at hcounted
      have hle : r.spin + r.subs.length ≤ bound := hcounted
      omega
    | prefetch r₁ env todo k reply _ hround' hstage h =>
      obtain rfl := Pc.round.inj (hround.symm.trans hround')
      exact keepsCount_of_stays (commits_eq_of_stage hmove hround (by simp [hstage])) rfl hcounted
        (counted_stepPrefetch h hstage hcounted)
    | sub r₁ fr ctxErr now _ hround' hstage h =>
      obtain rfl := Pc.round.inj (hround.symm.trans hround')
      exact keepsCount_of_stays (commits_eq_of_stage hmove hround (by simp [hstage])) rfl hcounted
        (counted_stepSub h hstage hcounted)
    | spinEnd r₁ fr _ hround' hstage h =>
      obtain rfl := Pc.round.inj (hround.symm.trans hround')
      have hcommits := commits_eq_of_stage hmove hround (by simp [hstage])
      exact ⟨[], by rw [hcommits, append_nil], hcounted.spin_le, fun r' hr' =>
        counted_stepSpinEnd h hstage hcounted hr'⟩
    | top r₁ fr n now hround' hstage =>
      obtain rfl := Pc.round.inj (hround.symm.trans hround')
      exact keepsCount_of_loops (c := c) (loops_stepTop now) hstage rfl hcounted
    | next r₁ fr n hround' hstage hphase =>
      obtain rfl := Pc.round.inj (hround.symm.trans hround')
      exact keepsCount_of_loops (loops_stepNext hphase) hstage rfl hcounted
    | fetch r₁ fr n reply _ hround' hstage hphase h =>
      obtain rfl := Pc.round.inj (hround.symm.trans hround')
      exact keepsCount_of_loops (c := c) (loops_stepFetch hphase h) hstage rfl hcounted
    | offer r₁ fr n ctxDone sendOk now _ hround' hstage hphase h =>
      obtain rfl := Pc.round.inj (hround.symm.trans hround')
      exact keepsCount_of_loops (loops_stepOffer hround hstage hphase h) hstage rfl hcounted
    | leave r₁ fr n result now hround' hstage hphase =>
      obtain rfl := Pc.round.inj (hround.symm.trans hround')
      have hcommits := commits_eq_of_stage hmove hround (by simp [hstage, hphase])
      exact keepsCount_of_stays hcommits rfl hcounted
        (counted_stepLeave result now hstage hcounted)

/-- The state is in a round, of the floor or a main one. -/
def CycleState.inRoundOf {F A : Type} (s : CycleState F A) (floor : Bool) : Bool :=
  match s.pc with
  | .round r => r.main.isSome == floor
  | _ => false

omit [Field K] [LinearOrder K] [IsStrictOrderedRing K] in
theorem CycleState.of_inRoundOf {floor : Bool} (h : s.inRoundOf floor = true) :
    ∃ r, s.pc = .round r ∧ r.main.isSome = floor := by
  rw [inRoundOf] at h
  split at h
  · next r hpc => exact ⟨r, hpc, by simpa using h⟩
  · cases h

/-- **The spins since a state** fit the bound, and the round counts them. -/
def SpinsBounded (s₀ : CycleState K A) (count : ℕ) (floor : Bool) (s : CycleState K A) : Prop :=
  ∃ new, s.commits = s₀.commits ++ new ∧
    s.stats.pieSpins ≤ s₀.stats.pieSpins + count + paid new + 1 ∧
    ∀ r, s.pc = .round r → r.main.isSome = floor →
      s.stats.pieSpins = s₀.stats.pieSpins + r.spin ∧
        r.stage.Counted r.subs r.spin (count + paid new)

theorem SpinsBounded.of_step {s₀ : CycleState K A} {count : ℕ} {floor : Bool}
    (h : SpinsBounded s₀ count floor s) (hin : s.inRoundOf floor = true)
    (hstep : c.step st s l = some s') : SpinsBounded s₀ count floor s' := by
  obtain ⟨new, hcommits, -, hround⟩ := h
  obtain ⟨r, hpc, hfloor⟩ := of_inRoundOf hin
  obtain ⟨hspins, hcounted⟩ := hround r hpc hfloor
  obtain ⟨new', hcommits', hle, hgoes⟩ := keepsCount_of_step hstep hpc hcounted
  have htally : s'.stats.pieSpins = s.stats.pieSpins + l.spins :=
    congrArg Prod.snd (tally_of_step hstep)
  have hpaid : paid (new ++ new') = paid new + paid new' := countP_append
  refine ⟨new ++ new', by rw [hcommits', hcommits, append_assoc], by omega, ?_⟩
  intro r' hr' hfloor'
  obtain ⟨hspin, hcounted'⟩ := hgoes r' ⟨hr', hfloor'.trans hfloor.symm⟩
  rw [hpaid, ← add_assoc]
  exact ⟨by omega, hcounted'⟩

end

end GolangCollector.Negotiator
