import GolangCollector.Accountant.Priorities
import GolangCollector.Accountant.Ticks
import GolangCollector.Lib.Proportion
import GolangCollector.Negotiator.GroupQuota

/-! # Shares partition the pie

The accountant behind the cycle's interface, and what a spin divides by its priorities. -/

namespace GolangCollector.Negotiator

open GoStrings Runs Accountant List

/-! ## The accountant as the cycle sees it -/

/-- **The accountant of a cycle.** That a reading of a priority writes, no later one can tell. -/
def accounting {F : Type} [Zero F] [One F] [Add F] [Sub F] [Mul F] [Div F] [IntCast F] [BEq F]
    [LT F] [LE F] [DecidableLT F] [DecidableLE F] (lib : Accountant.Library F) :
    Accounting F (Accountant F) where
  getPriority a name := (a.getPriority name).1
  getWeightedResourcesUsed := Accountant.getWeightedResourcesUsed
  getCeiling := Accountant.getCeiling lib
  getFloor := Accountant.getFloor lib
  getLimit := Accountant.getLimit
  addMatch := Accountant.addMatch lib
  setSubmitterShare a name share limit := (a.setSubmitterShare name share limit).getD a

/-! ## One division -/

section

variable {K : Type} [Field K] [LinearOrder K] (prios : Text → K) (subs : List (SubState K))

def namesOf (subs : List (SubState K)) : Finset Text := (subs.map SubState.name).toFinset

omit [LinearOrder K] in
theorem normalFactorOf_eq (maxPrio : K) :
    normalFactorOf prios maxPrio subs = Proportion.norm maxPrio prios (namesOf subs) := by
  have hround : (fun (acc : List Text × K) (sub : SubState K) =>
      if sub.name ∈ acc.1 then acc else (sub.name :: acc.1, acc.2 + maxPrio / prios sub.name)) =
      Proportion.countOnce SubState.name fun k => maxPrio / prios k := by
    funext acc sub
    by_cases h : sub.name ∈ acc.1 <;> simp [Proportion.countOnce, h]
  rw [normalFactorOf, hround, Proportion.foldl_countOnce, Proportion.norm, namesOf]

theorem le_maxPrioOf {sub : SubState K} (h : sub ∈ subs) :
    prios sub.name ≤ maxPrioOf prios subs := by
  have hloop : ∀ (subs : List (SubState K)) (acc : K),
      acc ≤ subs.foldl (fun acc sub => if acc < prios sub.name then prios sub.name else acc) acc ∧
      ∀ sub ∈ subs, prios sub.name ≤
        subs.foldl (fun acc sub => if acc < prios sub.name then prios sub.name else acc) acc := by
    intro subs
    induction subs with
    | nil => simp
    | cons sub subs ih =>
      intro acc
      rw [foldl_cons, forall_mem_cons]
      obtain ⟨hacc, hrest⟩ := ih (if acc < prios sub.name then prios sub.name else acc)
      refine ⟨le_trans ?_ hacc, le_trans ?_ hacc, hrest⟩
      · split
        · next hlt => exact hlt.le
        · exact le_rfl
      · split
        · exact le_rfl
        · next hlt => exact not_lt.mp hlt
  exact (hloop subs _).2 sub h

theorem maxPrioOf_pos (hprios : ∀ name, 0 < prios name) (hsubs : subs ≠ []) :
    0 < maxPrioOf prios subs := by
  obtain ⟨sub, hsub⟩ := exists_mem_of_ne_nil subs hsubs
  exact (hprios sub.name).trans_le (le_maxPrioOf prios subs hsub)

end

section

variable {K A : Type} [Field K] [LinearOrder K] {c : Cycle K A}

theorem capByQuota_le (ri : RoundInfo K) (env : SpinEnv K) (limit : K) :
    capByQuota ri env limit ≤ limit := by
  rw [capByQuota]
  split
  · split
    · exact le_rfl
    · dsimp only
      split
      · next h => exact h.le
      · exact le_rfl
  · exact le_rfl

theorem limit_le_share (a : A) (name : Text) (ri : RoundInfo K) (env : SpinEnv K)
    (isFloorRound : Bool) :
    (c.calculateSubmitterLimit a name ri env isFloorRound).limit ≤
      max ((c.calculateSubmitterLimit a name ri env isFloorRound).share * env.slotWeightTotal -
        c.acct.getWeightedResourcesUsed a name) 0 := by
  simp only [Cycle.calculateSubmitterLimit]
  rw [← clampZero_eq_max]
  refine (capByFloor_le _ _ _).trans ?_
  split
  · exact capByQuota_le _ _ _
  · exact le_rfl

theorem share_spinEnv (st : CycleSetup K) (s : CycleState K A) (r : Round K)
    (subs : List (SubState K)) (a : A) (name : Text) (isFloorRound : Bool) :
    (c.calculateSubmitterLimit a name r.info (c.spinEnv st s r subs) isFloorRound).share =
      Proportion.share (maxPrioOf (c.acct.getPriority s.acct) subs) (c.acct.getPriority s.acct)
        (namesOf subs) name := by
  rw [Proportion.share, ← normalFactorOf_eq]
  rfl

omit [Field K] [LinearOrder K] in
theorem namesOf_nonempty {subs : List (SubState K)} (h : subs ≠ []) : (namesOf subs).Nonempty := by
  obtain ⟨sub, hsub⟩ := exists_mem_of_ne_nil subs h
  exact ⟨sub.name, mem_toFinset.mpr (mem_map_of_mem hsub)⟩

variable [IsStrictOrderedRing K]

theorem untrimmedTotal_nonneg (start : ℤ) (sigAttrs : Text) (snap : Cycle.Snapshot) :
    0 ≤ (c.setup start sigAttrs snap).untrimmedTotal := by
  refine foldlRecOn (motive := fun acc : K × K => 0 ≤ acc.1) snap.slots _ le_rfl ?_
  intro acc hacc slot _
  exact add_nonneg hacc (slotWeightOf_nonneg (c := c) slot)

omit [IsStrictOrderedRing K] in
theorem slotWeightTotal_nonneg {st : CycleSetup K} (htotal : 0 ≤ st.untrimmedTotal)
    (s : CycleState K A) {r : Round K} (hquota : ∀ quota ∈ r.info.quota, 0 ≤ quota)
    (subs : List (SubState K)) : 0 ≤ (c.spinEnv st s r subs).slotWeightTotal := by
  rw [Cycle.spinEnv]
  dsimp only
  split
  · next quota hsome =>
    split
    · exact hquota quota hsome
    · exact htotal
  · exact htotal

end

/-! ## Usage is never negative -/

section

variable {K : Type} [Field K] [LinearOrder K] [IsStrictOrderedRing K] {lib : Accountant.Library K}
  {a : Accountant K}

def UsageNonneg (a : Accountant K) : Prop := ∀ name, 0 ≤ a.getWeightedResourcesUsed name

theorem usageNonneg_checkMatches (slots : List ClassAd) (T : ℤ) :
    UsageNonneg (a.checkMatches lib slots T) := by
  intro name
  rw [getWeightedResourcesUsed, weightedUsed_checkMatches]
  refine sum_nonneg fun x hx => ?_
  obtain ⟨cl, hcl, rfl⟩ := mem_map.mp hx
  exact mul_nonneg (Nat.cast_nonneg _) (weight_nonneg_of_mem_claims lib a slots hcl)

omit [LinearOrder K] [IsStrictOrderedRing K] in
theorem weightedUsed_setSubmitterShare (name : Text) (share limit : K)
    (user : Text) : ((a.setSubmitterShare name share limit).getD a).getWeightedResourcesUsed user =
      a.getWeightedResourcesUsed user := by
  rw [setSubmitterShare, setAttrs]
  split
  · rfl
  · simp [getWeightedResourcesUsed, Store.floatOf, Store.getFloat, Store.sets, Store.attr?_set]

theorem weightedUsed_le_addMatch (name : Text) (ad : ClassAd) (now : ℤ) (user : Text) :
    a.getWeightedResourcesUsed user ≤
      (a.addMatch lib name ad now).getWeightedResourcesUsed user := by
  have hadded := weightedUsed_addMatch lib a ⟨name, ad, now⟩ user
  have hcharged : 0 ≤ chargedWeight lib a ⟨name, ad, now⟩ := by
    rw [chargedWeight]
    split
    · exact getSlotWeight_nonneg lib a _
    · exact le_rfl
  refine le_of_le_of_eq ?_ hadded.symm
  exact le_add_of_nonneg_right (mul_nonneg (Nat.cast_nonneg _) hcharged)

theorem UsageNonneg.of_move {c : Cycle K (Accountant K)} (hacct : c.acct = accounting lib)
    {s s' : CycleState K (Accountant K)} (hmove : Move c s s') (h : UsageNonneg s.acct) :
    UsageNonneg s'.acct := by
  intro user
  refine hmove.reading (R := (· ≥ ·)) (·.getWeightedResourcesUsed user) le_refl
    (fun a name share limit => ?_) (fun a name ad now => ?_) |>.trans' (h user)
  · rw [hacct]
    exact (weightedUsed_setSubmitterShare name share limit user).ge
  · rw [hacct]
    exact weightedUsed_le_addMatch _ _ _ user

end

/-! ## The partition -/

/-- **Shares form a partition of the pie**, by positive priorities, whatever was stored. -/
theorem shares_partition_the_pie {K : Type} [Field K] [LinearOrder K] [IsStrictOrderedRing K]
    (lib : Accountant.Library K) {c : Cycle K (Accountant K)} (hacct : c.acct = accounting lib)
    (cfg : Config K) (store : Store K) (calls : List (Call K)) (slots : List ClassAd) (T start : ℤ)
    (sigAttrs : Text) (snap : Cycle.Snapshot) {ls : List (Label K)}
    {s : CycleState K (Accountant K)}
    (hrun : Run (c.step (c.setup start sigAttrs snap)) (fun _ _ => True)
      (c.start (c.setup start sigAttrs snap)
        ((calls.foldl (fun a call => a.perform lib call) (new lib cfg store)).checkMatches lib slots
          T) snap) ls s)
    {r : Round K} (hquota : ∀ quota ∈ r.info.quota, 0 ≤ quota) {subs : List (SubState K)}
    (hsubs : subs ≠ []) (isFloorRound : Bool) :
    let env := c.spinEnv (c.setup start sigAttrs snap) s r subs
    let limitOf := fun name => c.calculateSubmitterLimit s.acct name r.info env isFloorRound
    (∀ name, 0 < env.prios name ∧
      ∀ read, ((s.acct.getPriority read).2.getPriority name).1 = env.prios name) ∧
    0 < env.normalFactor ∧
    ∑ name ∈ namesOf subs, (limitOf name).share = 1 ∧
    (∀ x y, env.prios x ≤ env.prios y → (limitOf y).share ≤ (limitOf x).share) ∧
    ∑ name ∈ namesOf subs, (limitOf name).limit ≤ env.slotWeightTotal := by
  intro env limitOf
  have hread : c.acct.getPriority s.acct = fun name => (s.acct.getPriority name).1 := by
    rw [hacct]
    rfl
  have hpos : ∀ name, 0 < c.acct.getPriority s.acct name := fun name => by
    rw [hread]
    exact getPriority_pos s.acct name
  have husage : UsageNonneg s.acct := by
    refine hrun.invariant (I := fun s => UsageNonneg s.acct)
      (fun _ _ _ hstep _ h => h.of_move hacct (move_of_step hstep)) ?_
    rw [(start_eqs c _ _ snap).1]
    exact usageNonneg_checkMatches slots T
  have hmax := maxPrioOf_pos _ subs hpos hsubs
  have hnames := namesOf_nonempty hsubs
  have hshare : ∀ name, (limitOf name).share = Proportion.share _ _ (namesOf subs) name :=
    fun name => share_spinEnv _ s r subs s.acct name isFloorRound
  have hnorm := Proportion.norm_pos hmax hpos hnames
  refine ⟨fun name => ⟨hpos name, fun read => ?_⟩, ?_, ?_, fun x y hxy => ?_, ?_⟩
  · rw [getPriority_getPriority]
    exact (congrFun hread name).symm
  · rw [← normalFactorOf_eq] at hnorm
    exact hnorm
  · rw [Finset.sum_congr rfl fun name _ => hshare name]
    exact Proportion.sum_share hnorm.ne'
  · rw [hshare, hshare]
    exact Proportion.share_anti hmax hpos hnames hxy
  · have hwhole : 0 ≤ env.slotWeightTotal :=
      slotWeightTotal_nonneg (untrimmedTotal_nonneg start sigAttrs snap) s hquota subs
    refine Proportion.sum_le_whole hmax hpos hnames hwhole
      (c.acct.getWeightedResourcesUsed s.acct) (fun name => ?_) fun name => ?_
    · rw [hacct]
      exact husage name
    · rw [← hshare]
      exact limit_le_share s.acct name r.info env isFloorRound

def accountedCycle : Cycle ℚ (Accountant ℚ) :=
  { plainCycle with
    acct := accounting Accountant.literalLibrary
    mm_considerPreemption := plainCycle_considerPreemption
    mm_useSlotWeights := plainCycle_useSlotWeights }

theorem shares_partition_the_pie_two_names :
    let snap : Cycle.Snapshot :=
      ⟨[slotAt "slot1" "addr", slotAt "slot2" "addr"],
        [submitterAd "u@d", submitterAd "v@d", submitterAd "u@d"], none⟩
    let a := (fresh.perform Accountant.literalLibrary (.setPriority "u@d" (-3))).checkMatches
      Accountant.literalLibrary snap.slots 0
    let st := accountedCycle.setup 0 [] snap
    let s := accountedCycle.start st a snap
    let r : Round ℚ := ⟨flatRound, [], 0, .top, none⟩
    let env := accountedCycle.spinEnv st s r s.subs
    let limitOf := fun name => accountedCycle.calculateSubmitterLimit s.acct name r.info env false
    ∑ name ∈ namesOf s.subs, (limitOf name).share = 1 ∧
      ∑ name ∈ namesOf s.subs, (limitOf name).limit ≤ env.slotWeightTotal ∧
      (limitOf "u@d").share = 1 / 2 := by
  intro snap a st s r env limitOf
  obtain ⟨-, -, hsum, -, hlimits⟩ := shares_partition_the_pie Accountant.literalLibrary
    (c := accountedCycle) rfl plainConfig .empty [.setPriority "u@d" (-3)] snap.slots 0 0
    [] snap (.nil s)
    (r := r) (by simp [r, flatRound]) (show s.subs ≠ [] by decide +kernel) false
  exact ⟨hsum, hlimits, by decide +kernel⟩

end GolangCollector.Negotiator
