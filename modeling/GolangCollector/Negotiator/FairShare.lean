import Mathlib.Tactic.Linarith
import GolangCollector.Lib.Budget
import GolangCollector.Negotiator.SingleUse
import GolangCollector.Negotiator.SpinRule

/-! # Fair shares

How much a negotiation hands out, against the limit it was given, and a spin against its pie, in
exact arithmetic. Without preemption both bounds are those of the round-up rule. With preemption the
unclaimed slots are held to a limit of their own, which neither the pie nor the floor caps. -/

namespace GolangCollector.Negotiator

open GoStrings Runs Budget Matchmaker List Option Negotiator.Cycle CycleState

/-! ## Costs -/

variable {K : Type}

theorem cappedLimit_le_pieLeft [LinearOrder K] (env : SpinEnv K) (l : SubmitterLimit K) :
    Cycle.cappedLimit env l ≤ env.pieLeft := by
  rw [cappedLimit]
  split
  · exact le_rfl
  · next h => exact not_lt.mp h

def NegState.costs {K : Type} (n : NegState K) : List K := n.matched.map Prod.snd

@[simp] theorem costs_charge [AddCommGroup K] (n : NegState K) (req : Request) (tier : PreemptTier)
    (unclaimed : Bool) (cost : K) :
    (n.charge req tier unclaimed cost).costs = n.costs ++ [cost] := by
  simp [NegState.costs, NegState.charge]

section

variable {K A : Type} [Field K] [LinearOrder K] {c : Cycle K A}

theorem slotWeight_mm (slot : ClassAd) :
    c.lib.slotWeight c.mm.useSlotWeights slot = c.slotWeightOf slot := by
  rw [c.mm_useSlotWeights, slotWeightOf]

structure Spent (n : NegState K) : Prop where
  used_eq : n.limitUsed = n.costs.sum
  nonneg : ∀ x ∈ n.costs, 0 ≤ x

variable {fr : SpinFrame K} {r : Round K}

theorem Spent.of_started {s : CycleState K A} {a' : A} {n : NegState K}
    (h : Started c s a' r fr n) : Spent n := by
  refine ⟨?_, fun x hx => ?_⟩
  · rw [h.used_eq, NegState.costs, h.matched_eq, map_nil, sum_nil]
  · rw [NegState.costs, h.matched_eq] at hx
    cases hx

theorem Spent.think {n n' : NegState K} (h : Spent n) (hthinks : Thinks fr n n') : Spent n' := by
  obtain ⟨hused, hnonneg⟩ := h
  refine ⟨?_, ?_⟩
  · rw [hthinks.used_eq, NegState.costs, hthinks.matched_eq]
    exact hused
  · rw [NegState.costs, hthinks.matched_eq]
    exact hnonneg

theorem Spent.charge {n : NegState K} (h : Spent n) (req : Request) (tier : PreemptTier)
    (unclaimed : Bool) {cost : K} (hcost : 0 ≤ cost) :
    Spent (n.charge req tier unclaimed cost) := by
  refine ⟨?_, fun x hx => ?_⟩
  · rw [costs_charge, sum_append, sum_singleton, ← h.used_eq]
    rfl
  · rw [costs_charge, mem_append, mem_singleton] at hx
    rcases hx with hx | rfl
    · exact h.nonneg x hx
    · exact hcost

variable [IsStrictOrderedRing K]

theorem slotWeightOf_nonneg (slot : ClassAd) : 0 ≤ c.slotWeightOf slot := by
  have hfilter : ∀ {x : Option K} {f : K}, x.filter (fun f => 0 ≤ f) = some f → 0 ≤ f :=
    fun h => by simpa using (filter_eq_some_iff.mp h).2
  rw [slotWeightOf, MatchLibrary.slotWeight]
  split
  · exact zero_le_one
  · split
    · next f hf => exact hfilter hf
    · cases hcpus : (c.lib.evalNumber slot "Cpus").filter fun f => 0 ≤ f with
      | none => exact zero_le_one
      | some f => exact hfilter hcpus

end

/-! ## Limits -/

section

variable {K : Type} [LinearOrder K] [AddCommGroup K] {x limit : K} {ri : RoundInfo K}
  {env : SpinEnv K}

theorem clampZero_eq_max : clampZero x = max x 0 := by
  rw [clampZero]
  split
  · next h => exact (max_eq_right h.le).symm
  · next h => exact (max_eq_left (not_lt.mp h)).symm

theorem clampZero_nonneg : 0 ≤ clampZero x := by
  rw [clampZero_eq_max]
  exact le_max_right _ _

theorem capByQuota_nonneg (h : 0 ≤ limit) : 0 ≤ capByQuota ri env limit := by
  rw [capByQuota]
  split
  · split
    · exact h
    · dsimp only
      split
      · exact clampZero_nonneg
      · exact h
  · exact h

omit [AddCommGroup K] in
theorem capByFloor_nonneg [Zero K] {isFloorRound : Bool} {floor : K}
    (hfloor : isFloorRound = true → 0 ≤ floor) (h : 0 ≤ limit) :
    0 ≤ capByFloor isFloorRound floor limit := by
  rw [capByFloor]
  split
  · next hcap =>
    rw [Bool.and_eq_true] at hcap
    exact hfloor hcap.1
  · exact h

end

/-! ## Without preemption -/

section

variable {K A : Type} [Field K] [LinearOrder K] {c : Cycle K A}

/-- **The pie of a spin** is overdrawn by less than a slot. -/
structure PieKept (W : K) (fr : SpinFrame K) : Prop where
  limits : fr.env.ignoreSubmitterLimit = false
  total : fr.env.pieLeft + fr.matched.sum = fr.pieLeftOrig
  above : -W < fr.env.pieLeft

structure ShareKept (fr : SpinFrame K) (n : NegState K) : Prop where
  spent : Spent n
  limit_le : n.limit ≤ fr.env.pieLeft + n.limitUsed
  share : Within (max n.limit 0) n.costs

def fairShare (W : K) : SpinAssertion K A where
  divided _ _ env := 0 < env.pieLeft ∧ env.ignoreSubmitterLimit = false
  between _ _ fr := PieKept W fr
  within _ _ fr n := PieKept W fr ∧ ShareKept fr n

def WeighsAtMost (c : Cycle K A) (W : K) (s : CycleState K A) : Prop :=
  ∀ slot ∈ s.view.slots, c.slotWeightOf slot ≤ W

theorem PieKept.pass {W : K} {fr fr' : SpinFrame K} {k : ℕ} (h : PieKept W fr)
    (hpasses : Passes fr fr' k) : PieKept W fr' := by
  obtain ⟨hlimits, htotal, habove⟩ := h
  rw [← hpasses.env_eq] at hlimits htotal habove
  rw [← hpasses.matched_eq, ← hpasses.orig_eq] at htotal
  exact ⟨hlimits, htotal, habove⟩

section

variable {W : K} {s s' : CycleState K A} {r : Round K} {fr : SpinFrame K} {n : NegState K}
  {idx : ℕ} {slot : ClassAd} {tier : PreemptTier} (h : Commit c s s' r fr n idx slot tier)
include h

theorem fits_of_commit (hoff : c.cfg.considerPreemption = false) :
    Fits n.limitUsed n.limit (c.slotWeightOf slot) := by
  obtain ⟨job, conc, heligible⟩ := h.eligible
  have hmm : c.mm.considerPreemption = false := c.mm_considerPreemption.trans hoff
  have hlimit := heligible.limit
  rw [slotWeight_mm] at hlimit
  cases heligible.tier_eq with
  | off =>
    simp only [Permitted, hmm] at hlimit
    exact hlimit
  | unclaimed hon | rank hon | prio hon => simp [hmm] at hon

theorem le_of_commit (hW : WeighsAtMost c W s) : c.slotWeightOf slot ≤ W := by
  obtain ⟨job, conc, heligible⟩ := h.eligible
  exact hW slot (mem_of_getElem? heligible.slot_eq)

theorem working_of_commit : n.phase.Working := by
  rw [h.phase_eq]
  trivial

/-- A match is committed only below the limit. -/
theorem limitUsed_lt_of_commit (hpie : PieKept W fr) (hready : NegReady fr n) :
    n.limitUsed < n.limit :=
  not_le.mp fun hused => by simpa [hpie.limits] using (hready (working_of_commit h)).2.2 hused

end

variable [IsStrictOrderedRing K]

theorem fairShare_isInductive (hoff : c.cfg.considerPreemption = false) {W : K} (hW0 : 0 ≤ W) :
    (fairShare W).IsInductive c (WeighsAtMost c W) where
  divide _ _ h := ⟨not_le.mp (h.pie hoff), by
    cases hignores : SpinEnv.ignoreSubmitterLimit _ with
    | false => rfl
    | true => simpa [hoff] using (h.ignores_iff.mp hignores).2⟩
  begin h henv horig hmatched := by
    obtain ⟨hpie, hignores⟩ := h
    refine ⟨henv ▸ hignores, ?_, ?_⟩
    · rw [henv, hmatched, sum_nil, add_zero, horig]
    · rw [henv]
      linarith
  report h _ := h
  pass h hpasses := h.pass hpasses
  start _ _ _ h _ hstarted := by
    refine ⟨h, .of_started hstarted, ?_, ?_⟩
    · rw [hstarted.limit_eq, hstarted.used_eq, add_zero]
      exact cappedLimit_le_pieLeft _ _
    · rw [NegState.costs, hstarted.matched_eq]
      exact within_nil (le_max_right _ _)
  think h hthinks := by
    obtain ⟨hpie, hspent, hle, hshare⟩ := h
    refine ⟨hpie, hspent.think hthinks, ?_, ?_⟩
    · rw [hthinks.limit_eq, hthinks.used_eq]
      exact hle
    · rw [hthinks.limit_eq, NegState.costs, hthinks.matched_eq]
      exact hshare
  commit {s s' r fr n idx slot tier} hW hready h hcommit req := by
    obtain ⟨hpie, hspent, hle, hshare⟩ := h
    have hcost := slotWeightOf_nonneg (c := c) slot
    have hbound := le_of_commit hcommit hW
    have hleft := limitUsed_lt_of_commit hcommit hpie hready
    refine ⟨⟨hpie.limits, ?_, ?_⟩, hspent.charge req tier _ hcost, ?_, ?_⟩
    · have htotal := hpie.total
      simp only [SpinFrame.charge, sum_append, sum_singleton]
      linarith
    · simp only [SpinFrame.charge]
      linarith
    · simp only [SpinFrame.charge, NegState.charge]
      linarith
    · have hfits := fits_of_commit hcommit hoff
      rw [hspent.used_eq] at hfits
      rw [costs_charge]
      exact (within_concat hspent.nonneg hcost hfits).mono (le_max_left _ _)
  leave h hpasses := h.1.pass hpasses

end

/-- **Fair shares without preemption**: a negotiation keeps to its limit or takes one slot, and a
spin overdraws its pie by less than the heaviest slot. -/
theorem fair_share_without_preemption {K A : Type} [Field K] [LinearOrder K] [IsStrictOrderedRing K]
    (c : Cycle K A) (hoff : c.cfg.considerPreemption = false) (st : CycleSetup K) (a : A)
    (snap : Cycle.Snapshot) (ls : List (Label K)) (s : CycleState K A)
    (h : exec (c.step st) (c.start st a snap) ls = some s) (W : K) (hW0 : 0 ≤ W)
    (hW : ∀ slot ∈ (c.startView a snap).slots, c.slotWeightOf slot ≤ W) :
    (∀ n, s.negotiation? = some n → Within (max n.limit 0) n.costs) ∧
    ∀ fr, s.frame? = some fr →
      -W < fr.env.pieLeft ∧ fr.matched.sum < fr.pieLeftOrig + W := by
  have hind : (fairShare W).IsInductive c (WeighsAtMost c W) := fairShare_isInductive hoff hW0
  have hinv : SingleUse c (c.startView a snap) s ∧ (fairShare W).Holds s := by
    refine (Run.of_exec (P := fun _ _ => True) h fun _ _ _ => trivial).invariant
      (I := fun s => SingleUse c (c.startView a snap) s ∧ (fairShare W).Holds s)
      (fun s l s' hstep _ hI => ?_) ⟨singleUse_start, ?_⟩
    · have hweighs : WeighsAtMost c W s := by
        intro slot hslot
        rw [hI.1.slots_eq] at hslot
        exact hW slot hslot
      have hmove := move_of_step hstep
      exact ⟨hI.1.of_move hmove, hind.holds_of_move hweighs hmove hI.2⟩
    · exact SpinAssertion.holds_start
  refine ⟨fun n hn => ?_, fun fr hfr => ?_⟩
  · obtain ⟨r, fr, hpc, hstage⟩ := of_negotiation? hn
    exact (hinv.2.at_stage hpc hstage).2.2.share
  · have hpie : PieKept W fr := by
      obtain ⟨r, hpc, hstage | ⟨n, hstage⟩⟩ := of_frame? hfr
      · exact hinv.2.at_stage hpc hstage
      · exact (hinv.2.at_stage hpc hstage).2.1
    have htotal := hpie.total
    have habove := hpie.above
    exact ⟨habove, by linarith⟩

def oneSlot : Cycle.Snapshot where
  slots := [slotAt "a" "x"]
  submitters := [submitterAd "u", submitterAd "v"]
  claimIDs := none

def overdraw : List (Label ℚ) :=
  [.group flatRound [0, 1], .spin false, .prefetch 0 (.requests [jobs 1]),
    .prefetch 1 (.requests [jobs 1]), .sub false 0, .top 0, .next, .offer false true 0, .top 0,
    .deliver 0 true, .leave 0, .sub false 0, .top 0]

theorem fair_share_without_preemption_oneSlot :
    ∃ s fr, plainCycle.execFrom [("v", 10)] oneSlot overdraw = some s ∧
      s.frame? = some fr ∧ fr.env.pieLeft = -1 / 2 ∧ -1 < fr.env.pieLeft ∧
      fr.matched.sum < fr.pieLeftOrig + 1 := by
  obtain ⟨s, hs, hview⟩ := bind_eq_some_iff.mp (by decide +kernel :
    (plainCycle.execFrom [("v", 10)] oneSlot overdraw).bind
      (fun s => s.frame?.map fun fr => fr.env.pieLeft) = some (-1 / 2))
  obtain ⟨fr, hfr, hpie⟩ := map_eq_some_iff.mp hview
  have hbound := (fair_share_without_preemption plainCycle rfl _ _ _ _ s hs 1 zero_le_one
    fun _ _ => le_rfl).2 fr hfr
  exact ⟨s, fr, hs, hfr, hpie, hbound⟩

theorem nothing_exceeds_negative_limit :
    ∃ s n, plainCycle.execFrom [("v", 10)] oneSlot overdraw = some s ∧
      s.negotiation? = some n ∧ n.phase = .returned .resume ∧ n.limit = -1 / 2 ∧ n.costs = [] ∧
      ¬ Within n.limit n.costs := by
  obtain ⟨s, hs, hview⟩ := bind_eq_some_iff.mp (by decide +kernel :
    (plainCycle.execFrom [("v", 10)] oneSlot overdraw).bind
      (fun s => s.negotiation?.map fun n => (n.phase, n.limit, n.costs)) =
        some (.returned .resume, -1 / 2, []))
  obtain ⟨n, hn, hparts⟩ := map_eq_some_iff.mp hview
  obtain ⟨hphase, hlimit, hcosts⟩ : n.phase = .returned .resume ∧ n.limit = -1 / 2 ∧ n.costs = [] :=
    by simpa using hparts
  refine ⟨s, n, hs, hn, hphase, hlimit, hcosts, ?_⟩
  rw [hlimit, hcosts]
  rintro (hsum | hone)
  · norm_num at hsum
  · simp at hone

/-! ## With preemption -/

def NegState.sharedCosts {K : Type} (n : NegState K) : List K :=
  (n.matched.filter fun p => p.1 ≠ .rank).map Prod.snd

theorem sharedCosts_charge [Add K] (n : NegState K) (req : Request) (tier : PreemptTier)
    (unclaimed : Bool) (cost : K) : (n.charge req tier unclaimed cost).sharedCosts =
      n.sharedCosts ++ if tier = .rank then [] else [cost] := by
  by_cases h : tier = .rank <;> simp [NegState.sharedCosts, NegState.charge, filter_append, h]

def NegState.prioCosts {K : Type} (n : NegState K) : List K :=
  (n.matched.filter fun p => p.1 = .prio).map Prod.snd

theorem prioCosts_charge [Add K] (n : NegState K) (req : Request) (tier : PreemptTier)
    (unclaimed : Bool) (cost : K) : (n.charge req tier unclaimed cost).prioCosts =
      n.prioCosts ++ if tier = .prio then [cost] else [] := by
  by_cases h : tier = .prio <;> simp [NegState.prioCosts, NegState.charge, filter_append, h]

theorem sharedCosts_split [AddCommGroup K] {n : NegState K}
    (h : n.sharedCosts.sum = n.prioCosts.sum + n.limitUsedUnclaimed) (req : Request)
    {unclaimed : Bool} (htier : unclaimed = decide (tier = .none)) (cost : K) :
    (n.charge req tier unclaimed cost).sharedCosts.sum =
      (n.charge req tier unclaimed cost).prioCosts.sum +
        (n.charge req tier unclaimed cost).limitUsedUnclaimed := by
  rw [sharedCosts_charge, prioCosts_charge, sum_append, sum_append, h, NegState.charge]
  cases tier <;> simp [htier, add_assoc, add_comm cost]

section

variable {K A : Type} [Field K] [LinearOrder K]

def TurnCapped (c : Cycle K A) (s : CycleState K A) : Prop :=
  ∀ t ∈ s.turn?, 0 ≤ t.2.1.env.pieLeft ∧
    (t.1.info.isFloor = true → 0 ≤ c.acct.getFloor s.acct t.2.2.2) ∧
    (c.calculateSubmitterLimit s.acct t.2.2.2 t.1.info t.2.1.env t.1.info.isFloor).limitUnclaimed ≤
      Cycle.cappedLimit t.2.1.env
        (c.calculateSubmitterLimit s.acct t.2.2.2 t.1.info t.2.1.env t.1.info.isFloor)

def PrioLeavesRoom (c : Cycle K A) (s : CycleState K A) : Prop :=
  ∀ n ∈ s.negotiation?, n.phase = .offer → n.onlyForStartdRank = false → 0 < n.prioCosts.sum →
    ∀ ref ∈ s.view.gather, c.lib.remoteUserOf ref.slot = [] →
      n.prioCosts.sum + max n.limitUnclaimed (c.slotWeightOf ref.slot) ≤ n.limit

structure SharesCapped (c : Cycle K A) (s : CycleState K A) : Prop where
  turn : TurnCapped c s
  prio : PrioLeavesRoom c s

instance (c : Cycle K A) (s : CycleState K A) : Decidable (TurnCapped c s) :=
  inferInstanceAs (Decidable (∀ t ∈ s.turn?, _ ∧ _))

instance (c : Cycle K A) (s : CycleState K A) : Decidable (PrioLeavesRoom c s) :=
  inferInstanceAs (Decidable (∀ n ∈ s.negotiation?, _))

instance (c : Cycle K A) (s : CycleState K A) : Decidable (SharesCapped c s) :=
  decidable_of_iff (TurnCapped c s ∧ PrioLeavesRoom c s)
    ⟨fun h => ⟨h.1, h.2⟩, fun h => ⟨h.turn, h.prio⟩⟩

structure SharedKept (n : NegState K) : Prop where
  spent : Spent n
  limit_nonneg : 0 ≤ n.limit
  unclaimed_le : n.limitUnclaimed ≤ n.limit
  split : n.sharedCosts.sum = n.prioCosts.sum + n.limitUsedUnclaimed
  share : Within n.limit n.sharedCosts

def cappedShare : SpinAssertion K A where
  divided _ _ _ := True
  between _ _ _ := True
  within _ _ _ n := SharedKept n

variable {c : Cycle K A}

theorem calculateSubmitterLimit_nonneg {a : A} {name : Text} {ri : RoundInfo K} {env : SpinEnv K}
    {isFloorRound : Bool} (hfloor : isFloorRound = true → 0 ≤ c.acct.getFloor a name) :
    0 ≤ (c.calculateSubmitterLimit a name ri env isFloorRound).limit := by
  simp only [calculateSubmitterLimit]
  refine capByFloor_nonneg hfloor ?_
  split
  · exact capByQuota_nonneg clampZero_nonneg
  · exact clampZero_nonneg

variable [IsStrictOrderedRing K]

theorem cappedShare_isInductive (hon : c.cfg.considerPreemption = true) :
    cappedShare.IsInductive c (SharesCapped c) where
  divide _ _ _ := trivial
  begin _ _ _ _ := trivial
  report _ _ := trivial
  pass _ _ := trivial
  start {s a' r fr n} hcond hround hstage _ _ hstarted := by
    obtain ⟨hpie, hfloor, hcap⟩ := hcond.turn _
      (turn?_eq_some hround hstage hstarted.head_eq hstarted.name_eq)
    have hnonneg : 0 ≤ n.limit := by
      rw [hstarted.limit_eq, cappedLimit]
      split
      · exact hpie
      · exact calculateSubmitterLimit_nonneg hfloor
    refine ⟨.of_started hstarted, hnonneg, ?_, ?_, ?_⟩
    · rw [hstarted.limitUnclaimed_eq, hstarted.limit_eq]
      exact hcap
    · simp [NegState.sharedCosts, NegState.prioCosts, hstarted.matched_eq,
        hstarted.usedUnclaimed_eq]
    · rw [NegState.sharedCosts, hstarted.matched_eq]
      exact within_nil hnonneg
  think h hthinks := by
    obtain ⟨hspent, hnonneg, hcap, hsplit, hshare⟩ := h
    refine ⟨hspent.think hthinks, ?_, ?_, ?_, ?_⟩
    · rw [hthinks.limit_eq]
      exact hnonneg
    · rw [hthinks.limit_eq, hthinks.limitUnclaimed_eq]
      exact hcap
    · rw [NegState.sharedCosts, NegState.prioCosts, hthinks.matched_eq, hthinks.usedUnclaimed_eq]
      exact hsplit
    · rw [hthinks.limit_eq, NegState.sharedCosts, hthinks.matched_eq]
      exact hshare
  commit {s s' r fr n idx slot tier} hcond hready h hcommit req := by
    obtain ⟨hspent, hnonneg, hcap, hsplit, hshare⟩ := h
    have hcost := slotWeightOf_nonneg (c := c) slot
    obtain ⟨job, conc, heligible⟩ := hcommit.eligible
    have hlimit := heligible.limit
    rw [slotWeight_mm] at hlimit
    have hmm : c.mm.considerPreemption = true := c.mm_considerPreemption.trans hon
    have hsublist : n.sharedCosts.Sublist n.costs := (filter_sublist).map _
    have hnonneg' : ∀ x ∈ n.sharedCosts, 0 ≤ x := fun x hx => hspent.nonneg x (hsublist.subset hx)
    have hless : n.sharedCosts.sum ≤ n.limitUsed := by
      rw [hspent.used_eq]
      exact hsublist.sum_le_sum hspent.nonneg
    have htier : decide (c.lib.remoteUserOf slot = []) = decide (tier = .none) := by
      cases heligible.tier_eq with
      | off hoff => simp [hmm] at hoff
      | unclaimed _ _ huser | rank _ huser | prio _ _ huser => simp [huser]
    refine ⟨hspent.charge req tier _ hcost, hnonneg, hcap, sharedCosts_split hsplit req htier _, ?_⟩
    rw [sharedCosts_charge]
    cases heligible.tier_eq with
    | off hoff => simp [hmm] at hoff
    | rank =>
      rw [if_pos rfl, append_nil]
      exact hshare
    | prio =>
      refine within_concat hnonneg' hcost ?_
      rcases hlimit with hfits | ⟨hnone, hpos⟩
      · exact Or.inl ((add_le_add_left hless _).trans hfits)
      · exact Or.inr ⟨hless.trans hnone, hpos⟩
    | unclaimed _ hall huser =>
      simp only [Permitted, hmm, if_true] at hlimit
      change Fits n.limitUsedUnclaimed n.limitUnclaimed _ at hlimit
      refine within_concat hnonneg' hcost ?_
      change _ ≤ n.limit ∨ _ ∧ 0 < n.limit
      rw [hsplit]
      by_cases hprio : 0 < n.prioCosts.sum
      · -- also a slot that is rounded up fits beside the priority matches
        have hroom : n.prioCosts.sum + max n.limitUnclaimed (c.slotWeightOf slot) ≤ n.limit :=
          hcond.prio n (negotiation?_eq_some hcommit.round_eq hcommit.stage_eq)
          hcommit.phase_eq hall hprio ⟨idx, slot⟩
          (SlotView.mem_gather_iff.mpr ⟨heligible.slot_eq, heligible.live⟩) huser
        have hlimited := le_max_left n.limitUnclaimed (c.slotWeightOf slot)
        have hsingle := le_max_right n.limitUnclaimed (c.slotWeightOf slot)
        left
        rcases hlimit with hfits | ⟨hnone, -⟩ <;> linarith
      · rcases hlimit with hfits | ⟨hnone, hpos⟩
        · exact Or.inl (by linarith)
        · exact Or.inr ⟨by linarith, hpos.trans_le hcap⟩
  leave _ _ := trivial

end

/-- **Fair shares with preemption**: outside of the rank tier, a negotiation keeps to its limit or
takes one slot, where the shares stay capped. -/
theorem fair_share_with_preemption {K A : Type} [Field K] [LinearOrder K] [IsStrictOrderedRing K]
    (c : Cycle K A) (hon : c.cfg.considerPreemption = true) (st : CycleSetup K) (a : A)
    (snap : Cycle.Snapshot) (ls : List (Label K)) (s : CycleState K A)
    (h : Run (c.step st) (fun s _ => SharesCapped c s) (c.start st a snap) ls s) :
    ∀ n, s.negotiation? = some n → Within n.limit n.sharedCosts := by
  intro n hn
  have hholds : cappedShare.Holds s :=
    (cappedShare_isInductive hon).holds_of_run (fun _ _ hcond => hcond) h SpinAssertion.holds_start
  obtain ⟨r, fr, hpc, hstage⟩ := of_negotiation? hn
  exact (hholds.at_stage hpc hstage).2.share

def preemptingCycle : Cycle ℚ (List (Text × ℚ)) :=
  unitCycle true true (fun name => if name = "u" then 1 else 2) (-1)

theorem fair_share_with_preemption_twoClaims :
    ∃ s n, Run (preemptingCycle.step (preemptingCycle.setup 0 [] twoClaims))
        (fun s _ => SharesCapped preemptingCycle s)
        (preemptingCycle.start (preemptingCycle.setup 0 [] twoClaims) [] twoClaims) takeTwo s ∧
      s.negotiation? = some n ∧ n.limit = 2 ∧ n.sharedCosts = [1, 1] ∧
      Within n.limit n.sharedCosts := by
  obtain ⟨s, hs, hview⟩ := bind_eq_some_iff.mp (by decide +kernel :
    (execUnder (preemptingCycle.step (preemptingCycle.setup 0 [] twoClaims))
      (fun s _ => SharesCapped preemptingCycle s)
      (preemptingCycle.start (preemptingCycle.setup 0 [] twoClaims) [] twoClaims) takeTwo).bind
      (fun s => s.negotiation?.map fun n => (n.limit, n.sharedCosts)) = some (2, [1, 1]))
  obtain ⟨n, hn, hparts⟩ := map_eq_some_iff.mp hview
  have hrun := Run.of_execUnder hs
  exact ⟨s, n, hrun, hn, congrArg Prod.fst hparts, congrArg Prod.snd hparts,
    fair_share_with_preemption preemptingCycle rfl _ _ _ _ s hrun n hn⟩

def sixSlots : Cycle.Snapshot where
  slots := [slotAt "a" "x", slotAt "b" "x", slotAt "c" "x", slotAt "d" "x", slotAt "e" "x",
    slotAt "f" "x"]
  submitters := [submitterAd "u", submitterAd "v"]
  claimIDs := none

def takeOneAndTwo : List (Label ℚ) :=
  [.group flatRound [0, 1], .spin false, .prefetch 0 (.requests [jobs 1]),
    .prefetch 1 (.requests [jobs 2]), .sub false 0, .top 0, .next, .offer false true 0, .top 0,
    .next, .fetch (some []), .next, .deliver 0 true, .leave 0, .sub false 0, .top 0, .next,
    .offer false true 0, .top 0, .offer false true 0]

theorem unclaimed_exceed_the_pie :
    ∃ s n, preemptingCycle.execFrom [("u", 7 / 2)] sixSlots takeOneAndTwo = some s ∧
      s.negotiation? = some n ∧ n.limit = 3 / 2 ∧ n.sharedCosts = [1, 1] ∧
      ¬ Within n.limit n.sharedCosts := by
  obtain ⟨s, hs, hview⟩ := bind_eq_some_iff.mp (by decide +kernel :
    (preemptingCycle.execFrom [("u", 7 / 2)] sixSlots takeOneAndTwo).bind
      (fun s => s.negotiation?.map fun n => (n.limit, n.sharedCosts)) = some (3 / 2, [1, 1]))
  obtain ⟨n, hn, hparts⟩ := map_eq_some_iff.mp hview
  have hlimit : n.limit = 3 / 2 := congrArg Prod.fst hparts
  have hcosts : n.sharedCosts = [1, 1] := congrArg Prod.snd hparts
  refine ⟨s, n, hs, hn, hlimit, hcosts, ?_⟩
  rw [hlimit, hcosts]
  rintro (hsum | hone)
  · norm_num at hsum
  · simp at hone

end GolangCollector.Negotiator
