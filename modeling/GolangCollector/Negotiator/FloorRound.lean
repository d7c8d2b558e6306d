import GolangCollector.Negotiator.Ceiling
import GolangCollector.Negotiator.Partition

/-! # Floor rounds

A submitter whose usage is below its floor is negotiated first, in a round of its own. The limit of
such a round is capped by the floor itself, not by what the floor leaves over the usage, and it is
computed anew for every ad of the submitter. -/

namespace GolangCollector.Negotiator

open GoStrings Runs Matchmaker Option CycleState

def CycleState.inFloorRound {F A : Type} (s : CycleState F A) : Bool :=
  match s.pc with
  | .round r => r.info.isFloor
  | _ => false

section

variable {K A : Type} [Field K] [LinearOrder K]

/-- **The accountant charges a submitter under its floor.** -/
structure ChargesFloored (c : Cycle K A) (user : Text) : Prop where
  own : ∀ a slot req mc now,
    c.acct.getWeightedResourcesUsed
      (c.acct.addMatch a user (enrichMatchAd c.lib slot req mc) now) user =
      c.acct.getWeightedResourcesUsed a user + c.slotWeightOf slot
  report : ∀ a name share limit,
    c.acct.getWeightedResourcesUsed (c.acct.setSubmitterShare a name share limit) user ≤
      c.acct.getWeightedResourcesUsed a user
  floor_match : ∀ a name ad now,
    c.acct.getFloor (c.acct.addMatch a name ad now) user = c.acct.getFloor a user
  floor_report : ∀ a name share limit,
    c.acct.getFloor (c.acct.setSubmitterShare a name share limit) user = c.acct.getFloor a user

def Cycle.floorRoom (c : Cycle K A) (a : A) (user : Text) : K :=
  max (c.acct.getFloor a user - c.acct.getWeightedResourcesUsed a user) 0

def Cycle.FloorCovers (c : Cycle K A) (user : Text) (s : CycleState K A) : Prop :=
  ∀ t ∈ s.turn?, t.2.2.2 = user → t.1.info.isFloor = true →
    c.acct.getWeightedResourcesUsed s.acct user ≤ 0 ∨
    t.2.1.env.pieLeft ≤ c.floorRoom s.acct user ∨
    t.2.1.env.maxPrio / (t.2.1.env.prios user * t.2.1.env.normalFactor) *
      t.2.1.env.slotWeightTotal - c.acct.getWeightedResourcesUsed s.acct user ≤
        c.floorRoom s.acct user ∨
    t.1.info.name ≠ [] ∧ ∃ quota ∈ t.1.info.quota,
      quota - t.2.1.env.groupusage ≤ c.floorRoom s.acct user

instance (c : Cycle K A) (user : Text) (s : CycleState K A) : Decidable (c.FloorCovers user s) :=
  inferInstanceAs (Decidable (∀ t ∈ s.turn?, _ → _ → _ ∨ _ ∨ _ ∨ _))

structure FloorKept (c : Cycle K A) (user : Text) (floor : K) (a : A) (n : NegState K) : Prop where
  spent : Spent n
  room : n.limit ≤ 0 ∨ c.acct.getWeightedResourcesUsed a user + n.limit ≤ floor + n.limitUsed

def upToFloor (c : Cycle K A) (user : Text) (floor : K) : SpinAssertion K A where
  divided _ _ _ := True
  between _ _ _ := True
  within a info _ n := info.isFloor = true → n.name = user → FloorKept c user floor a n

variable {c : Cycle K A} {user : Text} {floor : K} {s s' : CycleState K A} {r : Round K}
  {fr : SpinFrame K} {n : NegState K} {idx : ℕ} {slot : ClassAd} {tier : PreemptTier}

theorem limit_le_floor (a : A) (name : Text) (ri : RoundInfo K) (env : SpinEnv K) :
    (c.calculateSubmitterLimit a name ri env true).limit ≤ c.acct.getFloor a name := by
  have hcap : ∀ floor limit : K, capByFloor true floor limit ≤ floor := by
    intro floor limit
    simp only [capByFloor, Bool.true_and, decide_eq_true_eq]
    split
    · exact le_rfl
    · next h => exact not_lt.mp h
  exact hcap _ _

variable [IsStrictOrderedRing K]

section

variable (hoff : c.cfg.considerPreemption = false)
include hoff

theorem limit_room_of_started (hcovers : c.FloorCovers user s) {a' : A} (hround : s.pc = .round r)
    (hstage : r.stage = .looping fr) (hstarted : Started c s a' r fr n) (hname : n.name = user)
    (hfloor : r.info.isFloor = true) :
    n.limit ≤ 0 ∨ c.acct.getWeightedResourcesUsed s.acct user + n.limit ≤
      c.acct.getFloor s.acct user := by
  have hturn := turn?_eq_some hround hstage hstarted.head_eq hstarted.name_eq
  have hlimit := hstarted.limit_eq
  rw [hname, hfloor] at hlimit
  -- three of the four bounds are of one kind: the limit is at most what the floor leaves
  have hroom : n.limit ≤ c.floorRoom s.acct user → n.limit ≤ 0 ∨
      c.acct.getWeightedResourcesUsed s.acct user + n.limit ≤ c.acct.getFloor s.acct user := by
    intro hle
    rcases le_max_iff.mp hle with hle | hle
    · exact .inr (by linarith)
    · exact .inl hle
  rcases hcovers _ hturn hname hfloor with hnone | hpie | hshare | ⟨hgroup, quota, hquota, hle⟩
  · have hcap : n.limit ≤ c.acct.getFloor s.acct user :=
      hlimit.trans_le ((cappedLimit_le_limit _ _).trans (limit_le_floor _ _ _ _))
    exact .inr (by linarith)
  · exact hroom (hlimit.trans_le ((cappedLimit_le_pieLeft _ _).trans hpie))
  · refine hroom (hlimit.trans_le ((cappedLimit_le_limit _ _).trans ?_))
    exact (limit_le_share _ _ _ _ _).trans (max_le hshare (le_max_right _ _))
  · refine hroom (hlimit.trans_le ((cappedLimit_le_limit _ _).trans ?_))
    exact (limit_le_headroom hoff hgroup hquota _ _ _ _).trans (max_le hle (le_max_right _ _))

theorem upToFloor_isInductive (hcharges : ChargesFloored c user) :
    (upToFloor c user floor).IsInductive c
      (fun s => c.acct.getFloor s.acct user = floor ∧ c.FloorCovers user s) where
  divide _ _ _ := trivial
  begin _ _ _ _ := trivial
  report _ _ := trivial
  pass _ _ := trivial
  start {s a' r fr n} hcond hround hstage _ hreported hstarted := by
    intro hfloor hname
    refine ⟨.of_started hstarted, ?_⟩
    have hused := hreported.reading (R := (· ≤ ·)) (c.acct.getWeightedResourcesUsed · user)
      le_refl hcharges.report
    rw [hstarted.used_eq, add_zero]
    refine (limit_room_of_started hoff hcond.2 hround hstage hstarted hname hfloor).imp_right
      fun hle => ?_
    rw [hcond.1] at hle
    exact (add_le_add_left hused _).trans hle
  think h hthinks := by
    intro hfloor hname
    obtain ⟨hspent, hroom⟩ := h hfloor (hthinks.name_eq ▸ hname)
    refine ⟨hspent.think hthinks, ?_⟩
    rw [hthinks.limit_eq, hthinks.used_eq]
    exact hroom
  commit {s s' r fr n idx slot tier} _ _ h hcommit req := by
    intro hfloor hname
    obtain ⟨hspent, hroom⟩ := h hfloor hname
    refine ⟨hspent.charge req tier _ (slotWeightOf_nonneg (c := c) slot), hroom.imp_right
      fun hle => ?_⟩
    rw [hcommit.used_eq hcharges.own hname]
    simp only [NegState.charge]
    linarith
  leave _ _ := trivial

theorem FloorKept.used_lt (h : FloorKept c user floor s.acct n)
    (hcommit : Commit c s s' r fr n idx slot tier) (hpos : 0 < c.slotWeightOf slot) :
    c.acct.getWeightedResourcesUsed s.acct user < floor := by
  have hnonneg : 0 ≤ n.limitUsed := h.spent.used_eq ▸ List.sum_nonneg h.spent.nonneg
  rcases fits_of_commit hcommit hoff with hfits | ⟨hnone, hlimit⟩
  · rcases h.room with hle | hle <;> linarith
  · rcases h.room with hle | hle <;> linarith

end

end

def flooredCycle : Cycle ℚ (List (Text × ℚ)) :=
  { plainCycle with
    acct := { cappedCycle.acct with getCeiling := fun _ _ => -1, getFloor := fun _ _ => 2 }
    mm_considerPreemption := plainCycle_considerPreemption
    mm_useSlotWeights := plainCycle_useSlotWeights }

theorem chargesFloored_flooredCycle (user : Text) : ChargesFloored flooredCycle user where
  own := (chargesUser_cappedCycle user).own
  report := (chargesUser_cappedCycle user).report
  floor_match _ _ _ _ := rfl
  floor_report _ _ _ _ := rfl

def fillFloor (P : CycleState ℚ (List (Text × ℚ)) → Prop) [DecidablePred P]
    (snap : Cycle.Snapshot) (ls : List (Label ℚ)) : Option (CycleState ℚ (List (Text × ℚ))) :=
  execUnder (flooredCycle.step (flooredCycle.setup 0 [] snap)) (fun s _ => P s)
    (flooredCycle.start (flooredCycle.setup 0 [] snap) [("u", 1)] snap) ls

def fourForOne : Cycle.Snapshot := { fourSlots with submitters := [submitterAd "u"] }

end GolangCollector.Negotiator
