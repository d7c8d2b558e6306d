import Mathlib.Algebra.Order.Field.Basic
import GolangCollector.Accountant.Accounts

/-! # Effective priorities

Reading a priority may write: a name without a legal factor gets one, and a stored priority below
the least one is raised (`accountant/priority.go`). Whatever is stored, the value that is read is at
least one half; and what is written is what the reading stands for, so that no later reading can
tell. -/

namespace GolangCollector.Accountant

open GoStrings Store Option

section

variable {K : Type} [Field K] [LinearOrder K] (a : Accountant K) (name : Text)

/-- The factor that counts: the stored one if it is legal, else the chosen one. -/
def effectiveFactor : K :=
  ((a.store.getFloat .customer name .priorityFactor).filter fun v => 1 ≤ v).getD
    (clampFactor (a.chosenFactor name))

/-- The priority that counts for a name, before its factor. -/
def basePriority : K :=
  clampPriority ((a.store.getFloat .customer name .priority).getD minPriority)

/-! ## What a reading writes -/

theorem attr?_getPriorityFactor (tbl : Table) (key : Text) (attr : Attr) :
    (a.getPriorityFactor name).2.store.attr? tbl key attr =
      if (tbl = .customer ∧ key = name ∧ attr = .priorityFactor) ∧
          (a.store.getFloat .customer name .priorityFactor).filter (fun v => 1 ≤ v) = none then
        some (.float (a.effectiveFactor name))
      else a.store.attr? tbl key attr := by
  rw [getPriorityFactor, effectiveFactor]
  split
  · next v hv => simp [hv]
  · next hv => simp [hv, attr?_set]

@[simp] theorem getPriorityFactor_cfg : (a.getPriorityFactor name).2.cfg = a.cfg := by
  rw [getPriorityFactor]
  split <;> rfl

@[simp] theorem getPriorityFactor_fst :
    (a.getPriorityFactor name).1 = a.effectiveFactor name := by
  rw [getPriorityFactor, effectiveFactor]
  split
  · next v hv => rw [hv, getD_some]
  · next hv => rw [hv, getD_none]

theorem getFloat_getPriorityFactor_priority (key : Text) :
    (a.getPriorityFactor name).2.store.getFloat .customer key .priority =
      a.store.getFloat .customer key .priority := by
  rw [getFloat, attr?_getPriorityFactor, if_neg (by simp), getFloat]

/-- **The value of a reading.** -/
theorem getPriority_fst :
    (a.getPriority name).1 = a.basePriority name * a.effectiveFactor name := by
  rw [getPriority, basePriority, clampPriority]
  dsimp only
  rw [getFloat_getPriorityFactor_priority, getPriorityFactor_fst]
  split <;> rfl

/-- **What a reading writes**: a legal factor, and the least priority. -/
theorem attr?_getPriority (tbl : Table) (key : Text) (attr : Attr) :
    (a.getPriority name).2.store.attr? tbl key attr =
      if (tbl = .customer ∧ key = name ∧ attr = .priority) ∧
          (a.store.getFloat .customer name .priority).getD minPriority < minPriority then
        some (.float minPriority)
      else (a.getPriorityFactor name).2.store.attr? tbl key attr := by
  rw [getPriority]
  dsimp only
  rw [getFloat_getPriorityFactor_priority]
  split
  · next hlow => simp [hlow, attr?_set]
  · next hlow => simp [hlow]

@[simp] theorem getPriority_cfg : (a.getPriority name).2.cfg = a.cfg := by
  rw [getPriority]
  dsimp only
  split <;> exact getPriorityFactor_cfg a name

theorem attr?_getPriority_of_notMem {tbl : Table} {key : Text} {attr : Attr}
    (h : tbl = .customer → key = name → attr ∉ [Attr.priority, .priorityFactor]) :
    (a.getPriority name).2.store.attr? tbl key attr = a.store.attr? tbl key attr := by
  simp only [List.mem_cons, List.not_mem_nil, or_false, not_or] at h
  rw [attr?_getPriority, if_neg fun h' => (h h'.1.1 h'.1.2.1).1 h'.1.2.2, attr?_getPriorityFactor,
    if_neg fun h' => (h h'.1.1 h'.1.2.1).2 h'.1.2.2]

/-! ## What is read -/

theorem minPriority_pos [IsStrictOrderedRing K] : (0 : K) < minPriority := by
  rw [minPriority]
  exact div_pos one_pos (add_pos one_pos one_pos)

theorem minPriority_le_clampPriority (p : K) : minPriority ≤ clampPriority p := by
  rw [clampPriority]
  split
  · exact le_rfl
  · next h => exact not_lt.mp h

theorem one_le_clampFactor (f : K) : 1 ≤ clampFactor f := by
  rw [clampFactor]
  split
  · exact le_rfl
  · next h => exact not_lt.mp h

theorem one_le_effectiveFactor : 1 ≤ a.effectiveFactor name := by
  rw [effectiveFactor]
  cases h : (a.store.getFloat .customer name .priorityFactor).filter fun v => 1 ≤ v with
  | none => exact one_le_clampFactor _
  | some v => simpa using (filter_eq_some_iff.mp h).2

/-- **An effective priority is at least one half**, whatever is stored. -/
theorem minPriority_le_getPriority [IsStrictOrderedRing K] : minPriority ≤ (a.getPriority name).1 := by
  rw [getPriority_fst]
  have hbase : minPriority ≤ a.basePriority name := minPriority_le_clampPriority _
  calc minPriority ≤ a.basePriority name := hbase
    _ ≤ a.basePriority name * a.effectiveFactor name :=
      le_mul_of_one_le_right (minPriority_pos.le.trans hbase) (one_le_effectiveFactor a name)

theorem getPriority_pos [IsStrictOrderedRing K] : 0 < (a.getPriority name).1 :=
  minPriority_pos.trans_le (minPriority_le_getPriority a name)

theorem chosenFactor_congr {a a' : Accountant K} (h : a'.cfg = a.cfg) :
    a'.chosenFactor = a.chosenFactor := by
  obtain ⟨cfg, store, last⟩ := a
  obtain ⟨cfg', store', last'⟩ := a'
  cases h
  rfl

theorem effectiveFactor_getPriority (key : Text) :
    (a.getPriority name).2.effectiveFactor key = a.effectiveFactor key := by
  have hlegal := one_le_effectiveFactor a name
  rw [effectiveFactor, chosenFactor_congr (getPriority_cfg a name), getFloat,
    attr?_getPriority, if_neg (by simp), attr?_getPriorityFactor]
  split
  · next h =>
    obtain ⟨⟨-, rfl, -⟩, -⟩ := h
    rw [bind_some, AttrValue.toFloat, filter_some, if_pos (by simpa using hlegal),
      getD_some]
  · rfl

theorem basePriority_getPriority (key : Text) :
    (a.getPriority name).2.basePriority key = a.basePriority key := by
  rw [basePriority, getFloat, attr?_getPriority]
  split
  · next h =>
    obtain ⟨⟨-, rfl, -⟩, hlow⟩ := h
    simp [AttrValue.toFloat, basePriority, clampPriority, hlow]
  · rw [← getFloat, getFloat_getPriorityFactor_priority, basePriority]

/-- **No reading changes a later one.** -/
theorem getPriority_getPriority (key : Text) :
    ((a.getPriority name).2.getPriority key).1 = (a.getPriority key).1 := by
  rw [getPriority_fst, effectiveFactor_getPriority, basePriority_getPriority, getPriority_fst]

end

end GolangCollector.Accountant
