import GolangCollector.Negotiator.FairShare

/-! # Ceilings

The headroom of a submitter is what its ceiling leaves when a negotiation starts, and the head of
the request loop checks it against what the negotiation has used; rank preemptions, which pass the
submitter's limit, do not pass this check. -/

namespace GolangCollector.Negotiator

open GoStrings Runs Matchmaker List Option CycleState

def CycleState.lastMatch? {F A : Type} (s : CycleState F A) (user : Text) : Option F :=
  ((s.commits.filter fun p => p.1 = user).getLast?).map fun p => p.2.2

section

variable {K A : Type} [Field K] [LinearOrder K]

/-- **The accountant charges a submitter** the cost of its matches. -/
structure ChargesUser (c : Cycle K A) (user : Text) : Prop where
  own : ∀ a slot req mc now,
    c.acct.getWeightedResourcesUsed
      (c.acct.addMatch a user (enrichMatchAd c.lib slot req mc) now) user =
      c.acct.getWeightedResourcesUsed a user + c.slotWeightOf slot
  other : ∀ a name ad now, name ≠ user →
    c.acct.getWeightedResourcesUsed (c.acct.addMatch a name ad now) user ≤
      c.acct.getWeightedResourcesUsed a user
  report : ∀ a name share limit,
    c.acct.getWeightedResourcesUsed (c.acct.setSubmitterShare a name share limit) user ≤
      c.acct.getWeightedResourcesUsed a user
  ceiling_match : ∀ a name ad now,
    c.acct.getCeiling (c.acct.addMatch a name ad now) user = c.acct.getCeiling a user
  ceiling_report : ∀ a name share limit,
    c.acct.getCeiling (c.acct.setSubmitterShare a name share limit) user = c.acct.getCeiling a user

structure NeverLowers (c : Cycle K A) (user : Text) : Prop where
  charge : ∀ a name ad now, c.acct.getWeightedResourcesUsed a user ≤
    c.acct.getWeightedResourcesUsed (c.acct.addMatch a name ad now) user
  report : ∀ a name share limit, c.acct.getWeightedResourcesUsed a user ≤
    c.acct.getWeightedResourcesUsed (c.acct.setSubmitterShare a name share limit) user

def underCeiling (c : Cycle K A) (user : Text) (ceiling : K) : SpinAssertion K A where
  divided _ _ _ := True
  between _ _ _ := True
  within a _ _ n := n.name = user →
    c.acct.getWeightedResourcesUsed a user + n.headroom ≤ ceiling + n.limitUsed

variable {c : Cycle K A} {user : Text} {ceiling : K} {s s' : CycleState K A} {r : Round K}
  {fr : SpinFrame K} {n : NegState K} {idx : ℕ} {slot : ClassAd} {tier : PreemptTier}

theorem Commit.used_eq (hcommit : Commit c s s' r fr n idx slot tier)
    (hown : ∀ a slot req mc now, c.acct.getWeightedResourcesUsed
      (c.acct.addMatch a user (enrichMatchAd c.lib slot req mc) now) user =
      c.acct.getWeightedResourcesUsed a user + c.slotWeightOf slot) (hname : n.name = user) :
    c.acct.getWeightedResourcesUsed s'.acct user =
      c.acct.getWeightedResourcesUsed s.acct user + c.slotWeightOf slot := by
  obtain ⟨req, now, hacct⟩ := hcommit.acct_eq
  rw [hacct, hname]
  exact hown _ _ _ _ _

theorem ChargesUser.used_commit_le (h : ChargesUser c user)
    (hcommit : Commit c s s' r fr n idx slot tier) (hname : n.name ≠ user) :
    c.acct.getWeightedResourcesUsed s'.acct user ≤
      c.acct.getWeightedResourcesUsed s.acct user := by
  obtain ⟨req, now, hacct⟩ := hcommit.acct_eq
  rw [hacct]
  exact h.other _ _ _ _ hname

theorem headroom_eq_of_pos {a : A} (hceiling : c.acct.getCeiling a user = ceiling)
    (hnonneg : 0 ≤ ceiling) (hpos : ¬ c.headroom a user ≤ 0) :
    c.headroom a user = ceiling - c.acct.getWeightedResourcesUsed a user := by
  simp only [Cycle.headroom, hceiling, if_pos hnonneg] at hpos ⊢
  split
  · next h =>
    rw [if_pos h] at hpos
    exact absurd le_rfl hpos
  · rfl

theorem lastMatch?_commit (user : Text) (hcommit : Commit c s s' r fr n idx slot tier) :
    s'.lastMatch? user =
      if n.name = user then some (c.slotWeightOf slot) else s.lastMatch? user := by
  rw [lastMatch?, hcommit.commits_eq, filter_append]
  split
  · next h => simp [h]
  · next h => simp [h, lastMatch?]

variable [IsStrictOrderedRing K]

theorem underCeiling_isInductive (hcharges : ChargesUser c user) (hnonneg : 0 ≤ ceiling) :
    (underCeiling c user ceiling).IsInductive c
      (fun s => c.acct.getCeiling s.acct user = ceiling) where
  divide _ _ _ := trivial
  begin _ _ _ _ := trivial
  report _ _ := trivial
  pass _ _ := trivial
  start {s a' r fr n} hceiling _ _ _ hreported hstarted := by
    intro hname
    have hpos := hstarted.headroom_pos
    rw [hstarted.headroom_eq, hname] at hpos
    have hceiling' := hreported.reading (c.acct.getCeiling · user) Eq.refl hcharges.ceiling_report
    rw [hstarted.headroom_eq, hname, hstarted.used_eq,
      headroom_eq_of_pos (hceiling'.trans hceiling) hnonneg hpos]
    linarith
  think h hthinks := by
    intro hname
    rw [hthinks.headroom_eq, hthinks.used_eq]
    exact h (hthinks.name_eq ▸ hname)
  commit {s s' r fr n idx slot tier} _ _ h hcommit req := by
    intro hname
    have hle := h hname
    rw [hcommit.used_eq hcharges.own hname]
    simp only [NegState.charge]
    linarith
  leave _ _ := trivial

theorem used_lt_of_commit (h : (underCeiling c user ceiling).Holds s)
    (hcommit : Commit c s s' r fr n idx slot tier) (hname : n.name = user) :
    c.acct.getWeightedResourcesUsed s.acct user < ceiling := by
  obtain ⟨hready, hwithin⟩ := h.at_stage hcommit.round_eq hcommit.stage_eq
  have hleft := not_le.mp (hready (working_of_commit hcommit)).1
  have hle := hwithin hname
  linarith

structure CeilingInv (c : Cycle K A) (user : Text) (ceiling first : K) (s : CycleState K A) :
    Prop where
  ceiling_eq : c.acct.getCeiling s.acct user = ceiling
  holds : (underCeiling c user ceiling).Holds s
  unmatched : s.lastMatch? user = none → c.acct.getWeightedResourcesUsed s.acct user ≤ first
  matched : ∀ w, s.lastMatch? user = some w →
    c.acct.getWeightedResourcesUsed s.acct user ≤ max first (ceiling + w)

variable {first : K}

theorem CeilingInv.of_move (hcharges : ChargesUser c user) (hnonneg : 0 ≤ ceiling)
    (h : CeilingInv c user ceiling first s) (hmove : Move c s s') :
    CeilingInv c user ceiling first s' := by
  have hceiling := (hmove.reading (c.acct.getCeiling · user) Eq.refl hcharges.ceiling_report
    hcharges.ceiling_match).trans h.ceiling_eq
  have hind := underCeiling_isInductive hcharges hnonneg
  have hholds := hind.holds_of_move h.ceiling_eq hmove h.holds
  have hsame : s'.lastMatch? user = s.lastMatch? user →
      c.acct.getWeightedResourcesUsed s'.acct user ≤ c.acct.getWeightedResourcesUsed s.acct user →
      CeilingInv c user ceiling first s' := fun hlast hused =>
    ⟨hceiling, hholds, fun hnone => hused.trans (h.unmatched (hlast ▸ hnone)),
      fun w hw => hused.trans (h.matched w (hlast ▸ hw))⟩
  cases hmove with
  | kept hkept hflow =>
    exact hsame (by rw [lastMatch?, hkept.commits_eq, lastMatch?])
      (hflow.reported.reading (c.acct.getWeightedResourcesUsed · user) le_refl hcharges.report)
  | commit r fr n idx slot tier hcommit =>
    have hlast := lastMatch?_commit user hcommit
    by_cases hname : n.name = user
    · rw [if_pos hname] at hlast
      have hbelow := used_lt_of_commit h.holds hcommit hname
      refine ⟨hceiling, hholds, fun hnone => by simp [hlast] at hnone, fun w hw => ?_⟩
      obtain rfl : c.slotWeightOf slot = w := some.inj (hlast.symm.trans hw)
      rw [hcommit.used_eq hcharges.own hname]
      exact (add_le_add_left hbelow.le _).trans (le_max_right _ _)
    · rw [if_neg hname] at hlast
      exact hsame hlast (hcharges.used_commit_le hcommit hname)

structure Shut (c : Cycle K A) (user : Text) (ceiling first : K) (s : CycleState K A) : Prop where
  inv : CeilingInv c user ceiling first s
  ceiling_le : ceiling ≤ c.acct.getWeightedResourcesUsed s.acct user
  unmatched : ∀ p ∈ s.commits, p.1 ≠ user

theorem Shut.of_move (hcharges : ChargesUser c user) (hlowers : NeverLowers c user)
    (hnonneg : 0 ≤ ceiling) (h : Shut c user ceiling first s) (hmove : Move c s s') :
    Shut c user ceiling first s' := by
  have hused := hmove.reading (R := (· ≥ ·)) (c.acct.getWeightedResourcesUsed · user) le_refl
    hlowers.report hlowers.charge
  refine ⟨h.inv.of_move hcharges hnonneg hmove, h.ceiling_le.trans hused, ?_⟩
  cases hmove with
  | kept hkept hflow =>
    rw [hkept.commits_eq]
    exact h.unmatched
  | commit r fr n idx slot tier hcommit =>
    rw [hcommit.commits_eq]
    intro p hp
    rcases mem_append.mp hp with hp | hp
    · exact h.unmatched p hp
    · obtain rfl := mem_singleton.mp hp
      exact fun hname => (used_lt_of_commit h.inv.holds hcommit hname).not_ge h.ceiling_le

end

/-- **Ceilings**: a match is committed for a submitter only while its usage is below its ceiling. -/
theorem matched_only_below_ceiling {K A : Type} [Field K] [LinearOrder K] [IsStrictOrderedRing K]
    (c : Cycle K A) (st : CycleSetup K) (a : A) (snap : Cycle.Snapshot) (user : Text)
    (hcharges : ChargesUser c user) (hceiling : 0 ≤ c.acct.getCeiling a user)
    (ls : List (Label K)) (s : CycleState K A)
    (h : exec (c.step st) (c.start st a snap) ls = some s) :
    let ceiling := c.acct.getCeiling a user
    let used := fun a => c.acct.getWeightedResourcesUsed a user
    (∀ l s' idx cost, c.step st s l = some s' → s'.commits = s.commits ++ [(user, idx, cost)] →
      used s.acct < ceiling) ∧
    (s.lastMatch? user = none → used s.acct ≤ used a) ∧
    (∀ w, s.lastMatch? user = some w → used s.acct ≤ max (used a) (ceiling + w)) ∧
    (NeverLowers c user → ceiling ≤ used a → ∀ p ∈ s.commits, p.1 ≠ user) := by
  intro ceiling used
  obtain ⟨hacct, -, hcommits, -⟩ := start_eqs c st a snap
  have hrun := Run.of_exec (P := fun _ _ => True) h fun _ _ _ => trivial
  have hstart : CeilingInv c user ceiling (used a) (c.start st a snap) := by
    refine ⟨by rw [hacct], SpinAssertion.holds_start, fun _ => by rw [hacct], fun w hw => ?_⟩
    simp [lastMatch?, hcommits] at hw
  have hinv := hrun.invariant (I := CeilingInv c user ceiling (used a))
    (fun _ _ _ hstep _ hI => hI.of_move hcharges hceiling (move_of_step hstep)) hstart
  refine ⟨fun l s' idx cost hstep hmore => ?_, hinv.unmatched, hinv.matched,
    fun hlowers habove => ?_⟩
  · cases move_of_step hstep with
    | kept hkept hflow => simp [hkept.commits_eq] at hmore
    | commit r fr n idx' slot tier hcommit =>
      rw [hcommit.commits_eq] at hmore
      have hname : n.name = user := congrArg Prod.fst
        (singleton_inj.mp (append_cancel_left hmore))
      exact used_lt_of_commit hinv.holds hcommit hname
  · have hshut : Shut c user ceiling (used a) (c.start st a snap) := by
      refine ⟨hstart, by rw [hacct]; exact habove, ?_⟩
      rw [hcommits]
      exact fun p hp => by cases hp
    exact (hrun.invariant (I := Shut c user ceiling (used a)) (fun _ _ _ hstep _ hI =>
      hI.of_move hcharges hlowers hceiling (move_of_step hstep)) hshut).unmatched

def cappedCycle : Cycle ℚ (List (Text × ℚ)) :=
  { unitCycle false true (fun _ => 1) (3 / 2) with
    acct := { ledgerAccounting (fun _ => 1) (3 / 2) with
      getWeightedResourcesUsed := fun ledger name =>
        ((ledger.filter fun p => p.1 = name).map Prod.snd).sum } }

theorem chargesUser_cappedCycle (user : Text) : ChargesUser cappedCycle user where
  own a slot req mc now := by
    have hcost : cappedCycle.slotWeightOf slot = 1 := rfl
    rw [hcost]
    change (((((user, 1) :: a).filter fun p => p.1 = user).map Prod.snd).sum : ℚ) = _
    rw [filter_cons_of_pos (by simp), map_cons, sum_cons, add_comm]
    rfl
  other a name ad now hname := by
    change (((((name, 1) :: a).filter fun p => p.1 = user).map Prod.snd).sum : ℚ) ≤ _
    rw [filter_cons_of_neg (by simpa using hname)]
    exact le_rfl
  report _ _ _ _ := le_rfl
  ceiling_match _ _ _ _ := rfl
  ceiling_report _ _ _ _ := rfl

theorem neverLowers_cappedCycle (user : Text) : NeverLowers cappedCycle user where
  charge a name ad now := by
    change _ ≤ (((((name, 1) :: a).filter fun p => p.1 = user).map Prod.snd).sum : ℚ)
    rw [filter_cons]
    split
    · rw [map_cons, sum_cons]
      exact le_add_of_nonneg_left zero_le_one
    · exact le_rfl
  report _ _ _ _ := le_rfl

theorem matched_only_below_ceiling_twoClaims :
    (∃ s, cappedCycle.execFrom [] twoClaims takeTwo = some s ∧
      s.lastMatch? "u" = some 1 ∧
      cappedCycle.acct.getWeightedResourcesUsed s.acct "u" = 2 ∧
      cappedCycle.acct.getWeightedResourcesUsed s.acct "u" ≤
        max (cappedCycle.acct.getWeightedResourcesUsed [] "u") (3 / 2 + 1)) ∧
    ∃ s, cappedCycle.execFrom [("u", 3 / 2)] twoClaims (takeTwo.take 4) = some s ∧
      ∀ p ∈ s.commits, p.1 ≠ "u" := by
  refine ⟨?_, ?_⟩
  · obtain ⟨s, hs, hview⟩ := map_eq_some_iff.mp (by decide +kernel :
      (cappedCycle.execFrom [] twoClaims takeTwo).map (fun s => (s.lastMatch? "u",
        cappedCycle.acct.getWeightedResourcesUsed s.acct "u")) = some (some 1, 2))
    have hlast : s.lastMatch? "u" = some 1 := congrArg Prod.fst hview
    exact ⟨s, hs, hlast, congrArg Prod.snd hview,
      (matched_only_below_ceiling cappedCycle _ [] twoClaims "u" (chargesUser_cappedCycle _)
        (by decide +kernel) _ s hs).2.2.1 1 hlast⟩
  · obtain ⟨s, hs⟩ := isSome_iff_exists.mp (by decide +kernel :
      (cappedCycle.execFrom [("u", 3 / 2)] twoClaims (takeTwo.take 4)).isSome = true)
    exact ⟨s, hs, (matched_only_below_ceiling cappedCycle _ [("u", 3 / 2)] twoClaims
      "u" (chargesUser_cappedCycle _) (by decide +kernel) _ s hs).2.2.2
      (neverLowers_cappedCycle _) (by decide +kernel)⟩

end GolangCollector.Negotiator
