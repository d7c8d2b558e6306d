import Mathlib.Order.WithBot
import Mathlib.Data.Int.Cast.Defs

/-! # Go floats, with their NaN

A `float64` as comparisons see it: a number of a linearly ordered type, or the one value NaN, which
is neither equal to, below, nor above anything, itself included. Arithmetic is that of the numbers,
and NaN absorbs. -/

/-- A float: a number of `R`, or NaN. -/
inductive GoFloat (R : Type) where
  | nan
  | num (r : R)
  deriving Repr

namespace GoFloat

variable {R : Type}

/-! ## Comparisons -/

def IsNum : GoFloat R → Prop
  | nan => False
  | num _ => True

instance : DecidablePred (IsNum : GoFloat R → Prop)
  | nan => .isFalse id
  | num _ => .isTrue trivial

@[simp] theorem isNum_num (r : R) : (num r).IsNum := trivial

@[simp] theorem not_isNum_nan : ¬ (nan : GoFloat R).IsNum := id

protected def beq [DecidableEq R] : GoFloat R → GoFloat R → Bool
  | num a, num b => a = b
  | _, _ => false

instance [DecidableEq R] : BEq (GoFloat R) := ⟨GoFloat.beq⟩

protected def Lt [LT R] : GoFloat R → GoFloat R → Prop
  | num a, num b => a < b
  | _, _ => False

instance [LT R] : LT (GoFloat R) := ⟨GoFloat.Lt⟩

protected def Le [LE R] : GoFloat R → GoFloat R → Prop
  | num a, num b => a ≤ b
  | _, _ => False

instance [LE R] : LE (GoFloat R) := ⟨GoFloat.Le⟩

instance [LT R] [DecidableLT R] : DecidableLT (GoFloat R)
  | num a, num b => inferInstanceAs (Decidable (a < b))
  | nan, _ => .isFalse id
  | num _, nan => .isFalse id

instance [LE R] [DecidableLE R] : DecidableLE (GoFloat R)
  | num a, num b => inferInstanceAs (Decidable (a ≤ b))
  | nan, _ => .isFalse id
  | num _, nan => .isFalse id

@[simp] theorem num_beq_num [DecidableEq R] (a b : R) : (num a == num b) = decide (a = b) := rfl

@[simp] theorem nan_beq [DecidableEq R] (b : GoFloat R) : (nan == b) = false := rfl

@[simp] theorem beq_nan [DecidableEq R] (a : GoFloat R) : (a == nan) = false := by
  cases a <;> rfl

@[simp] theorem num_lt_num [LT R] (a b : R) : num a < num b ↔ a < b := Iff.rfl

@[simp] theorem not_nan_lt [LT R] (b : GoFloat R) : ¬ nan < b := id

@[simp] theorem not_lt_nan [LT R] (a : GoFloat R) : ¬ a < nan := by
  cases a <;> exact id

/-! ## Arithmetic -/

instance [Zero R] : Zero (GoFloat R) := ⟨num 0⟩

instance [One R] : One (GoFloat R) := ⟨num 1⟩

instance [IntCast R] : IntCast (GoFloat R) := ⟨fun i => num i⟩

protected def add [Add R] : GoFloat R → GoFloat R → GoFloat R
  | num a, num b => num (a + b)
  | _, _ => nan

instance [Add R] : Add (GoFloat R) := ⟨GoFloat.add⟩

/-! ## Numbers as the elements of a linear order -/

def toWithBot : GoFloat R → WithBot R
  | nan => ⊥
  | num r => r

section

variable [LinearOrder R] {a b : GoFloat R}

theorem beq_iff_toWithBot_eq (ha : a.IsNum) (hb : b.IsNum) :
    (a == b) = true ↔ a.toWithBot = b.toWithBot := by
  cases a with
  | nan => exact ha.elim
  | num a =>
    cases b with
    | nan => exact hb.elim
    | num b => simp [toWithBot]

theorem lt_iff_toWithBot_lt (ha : a.IsNum) (hb : b.IsNum) :
    a < b ↔ a.toWithBot < b.toWithBot := by
  cases a with
  | nan => exact ha.elim
  | num a =>
    cases b with
    | nan => exact hb.elim
    | num b => simp [toWithBot]

end

end GoFloat
