import GolangCollector.Accountant.Conservation

/-! # What a tick does to settings

A tick purges the record of a customer that is idle, has no usage and no stored factor, once its
priority has decayed (`accountant/priority.go`). The rule does not look at the other things that are
kept on a record, so that a ceiling or a floor, the time of the round robin or a weighted usage goes
with it. -/

namespace GolangCollector.Accountant

open GoStrings Negotiator Store Option

section

variable {K : Type} [Field K] [LinearOrder K] (lib : Library K)

namespace Record

def HoldsSetting (r : Record K) : Prop :=
  r.has .ceiling ∨ r.has .floor ∨ r.floatOf .weightedAccumulatedUsage ≠ 0 ∨
    r.has .roundRobinTime ∨ (r.getFloat .priorityFactor).isSome ∨
    0 < r.intOf lib.truncate .resourcesUsed

def ticked : List Attr :=
  [.priority, .accumulatedUsage, .weightedAccumulatedUsage, .beginUsageTime, .lastUsageTime,
    .unchargedTime, .weightedUnchargedTime, .submitterShare, .submitterLimit]

/-- Record `r'` has what is kept on `r`. -/
structure Keeps (r r' : Record K) : Prop where
  /-- What no tick writes is as it was. -/
  settings : ∀ attr, attr ∉ ticked → r'.attr? attr = r.attr? attr
  /-- With resources in use the accumulated usage does not go down. -/
  usage : 0 < r.intOf lib.truncate .resourcesUsed →
    r.floatOf .accumulatedUsage ≤ r'.floatOf .accumulatedUsage ∧
      r.weightedAccum ≤ r'.weightedAccum
  /-- Without, it is as it was. -/
  unchanged : ¬ 0 < r.intOf lib.truncate .resourcesUsed →
    r'.attr? .accumulatedUsage = r.attr? .accumulatedUsage ∧
      r'.attr? .weightedAccumulatedUsage = r.attr? .weightedAccumulatedUsage

theorem Keeps.refl (r : Record K) : r.Keeps lib r :=
  ⟨fun _ _ => rfl, fun _ => ⟨le_rfl, le_rfl⟩, fun _ => ⟨rfl, rfl⟩⟩

def charge (r : Record K) (timePassed : K) : K :=
  (r.intOf lib.truncate .resourcesUsed : K) * timePassed +
    (r.intOf lib.truncate .unchargedTime : K)

def weightedCharge (r : Record K) (timePassed : K) : K :=
  r.floatOf .weightedResourcesUsed * timePassed + r.floatOf .weightedUnchargedTime

variable {lib} {r r' : Record K} {T : ℤ} {timePassed aging : K}

theorem purged_eq_false_iff :
    r.purged lib timePassed aging = false ↔
      (r.getFloat .priorityFactor).isSome ∨ r.intOf lib.truncate .resourcesUsed ≠ 0 ∨
        r.floatOf .accumulatedUsage + (r.intOf lib.truncate .unchargedTime : K) ≠ 0 ∨
        minPriority ≤ r.realPriority * aging + r.weightedRecentUsage timePassed * (1 - aging) := by
  rw [← Bool.not_eq_true, purged]
  simp only [Bool.and_eq_true, decide_eq_true_eq, beq_iff_eq, isNone_iff_eq_none,
    newPriority, newAccum, isSome_iff_ne_none]
  constructor
  · intro h
    by_contra hnone
    simp only [not_or, not_not, not_le] at hnone
    obtain ⟨hfactor, hused, haccum, hprio⟩ := hnone
    refine h ⟨⟨⟨decide_eq_true hprio, hused⟩, ?_⟩, hfactor⟩
    rw [hused, Int.cast_zero, zero_mul, add_zero, haccum]
  · rintro h ⟨⟨⟨hprio, hused⟩, haccum⟩, hfactor⟩
    rw [hused, Int.cast_zero, zero_mul, add_zero] at haccum
    rcases h with h | h | h | h
    · exact h hfactor
    · exact h hused
    · exact h haccum
    · exact not_le.mpr (of_decide_eq_true hprio) h

theorem attr?_tick_of_notMem (h : r.tick lib T timePassed aging = some r') {attr : Attr}
    (hattr : attr ∉ ticked) : r'.attr? attr = r.attr? attr := by
  simp only [ticked, List.mem_cons, List.not_mem_nil, or_false, not_or] at hattr
  rw [attr?_tick h attr (by simp [hattr])]
  simp [hattr]

variable [IsStrictOrderedRing K]

theorem keeps_tick_iff (h : r.tick lib T timePassed aging = some r') :
    r.Keeps lib r' ↔
      (0 < r.intOf lib.truncate .resourcesUsed →
        0 ≤ r.charge lib timePassed ∧ 0 ≤ r.weightedCharge timePassed) ∧
      (¬ 0 < r.intOf lib.truncate .resourcesUsed →
        r.charge lib timePassed = 0 ∧ r.weightedCharge timePassed = 0) := by
  have haccum := accumulated_tick h
  have hweighted := attr?_tick_weightedAccumulated h
  have hplain := attr?_tick_accumulated h
  have hnewAccum : r.newAccum lib timePassed =
      r.floatOf .accumulatedUsage + r.charge lib timePassed := by rw [newAccum, charge, add_assoc]
  have hnewWeighted : r.newWeightedAccum timePassed =
      r.weightedAccum + r.weightedCharge timePassed := by
    rw [newWeightedAccum, weightedCharge, add_assoc]
  have hnew : r.newWeightedAccum timePassed ≠ r.weightedAccum →
      r'.weightedAccum = r.newWeightedAccum timePassed := by
    intro hsame
    rw [weightedAccum, getFloat, hweighted, if_neg hsame]
    rfl
  constructor
  · refine fun hkeeps => ⟨fun hused => ?_, fun hidle => ?_⟩
    · obtain ⟨hle, hweightedLe⟩ := hkeeps.usage hused
      rw [haccum, hnewAccum] at hle
      refine ⟨nonneg_of_le_add_right hle, ?_⟩
      -- where nothing is charged by weight, nothing goes below zero
      by_cases hsame : r.newWeightedAccum timePassed = r.weightedAccum
      · rw [hnewWeighted] at hsame
        exact (add_eq_left.mp hsame).ge
      · rw [hnew hsame, hnewWeighted] at hweightedLe
        exact nonneg_of_le_add_right hweightedLe
    · obtain ⟨hsameAttr, hsameWeighted⟩ := hkeeps.unchanged hidle
      have hfloat : r'.floatOf .accumulatedUsage = r.floatOf .accumulatedUsage := by
        rw [floatOf, floatOf, getFloat, getFloat, hsameAttr]
      have hkept : r'.weightedAccum = r.weightedAccum := by
        rw [weightedAccum, weightedAccum, getFloat, getFloat, hsameWeighted, hfloat]
      rw [haccum, hnewAccum] at hfloat
      refine ⟨add_eq_left.mp hfloat, by_contra fun hcharged => hcharged ?_⟩
      have hsame : r.newWeightedAccum timePassed ≠ r.weightedAccum := by
        rwa [hnewWeighted, Ne, add_eq_left]
      rw [hnew hsame, hnewWeighted] at hkept
      exact add_eq_left.mp hkept
  · rintro ⟨hcharged, hnothing⟩
    refine ⟨fun attr hattr => attr?_tick_of_notMem h hattr, fun hused => ?_,
      fun hidle => ⟨?_, ?_⟩⟩
    · obtain ⟨hle, hweightedLe⟩ := hcharged hused
      have hgrown : r.floatOf .accumulatedUsage ≤ r'.floatOf .accumulatedUsage := by
        rw [haccum, hnewAccum]
        exact le_add_of_nonneg_right hle
      refine ⟨hgrown, ?_⟩
      by_cases hsame : r.newWeightedAccum timePassed = r.weightedAccum
      · rw [weightedAccum, weightedAccum, getFloat, getFloat, hweighted, if_pos hsame]
        cases (r.attr? .weightedAccumulatedUsage).bind AttrValue.toFloat with
        | none => exact hgrown
        | some w => exact le_rfl
      · rw [hnew hsame, hnewWeighted]
        exact le_add_of_nonneg_right hweightedLe
    · rw [hplain, if_pos]
      rw [hnewAccum, (hnothing hidle).1, add_zero]
    · rw [hweighted, if_pos]
      rw [hnewWeighted, (hnothing hidle).2, add_zero]

end Record

variable {lib} {a : Accountant K} {c : Text} {r : Record K}

end

end GolangCollector.Accountant
