import Mathlib.Algebra.Order.Ring.Int

/-! # Go's 64-bit integers

An `int64` is an `Int` in the 64-bit range, and its arithmetic wraps: `wrap` reduces an exact result
to the range. Sums and differences of two `int64`s leave the range by at most one period, so they
wrap by at most one multiple of `2 ^ 64` (`wrap_of_above`, `wrap_of_below`). -/

namespace GoInt

/-- The `int64` range. -/
def IsInt64 (x : Int) : Prop := -9223372036854775808 ≤ x ∧ x < 9223372036854775808

instance (x : Int) : Decidable (IsInt64 x) := inferInstanceAs (Decidable (_ ∧ _))

def wrap (x : Int) : Int := x.bmod 18446744073709551616

theorem wrap_of_isInt64 {x : Int} (h : IsInt64 x) : wrap x = x := by
  rw [wrap, Int.bmod_eq_of_le]
  · have := h.1; omega
  · have := h.2; omega

theorem wrap_of_above {x : Int} (h : 9223372036854775808 ≤ x) (h' : x < 27670116110564327424) :
    wrap x = x - 18446744073709551616 := by
  have hperiod := Int.add_bmod_right (x - 18446744073709551616) 18446744073709551616
  rw [Nat.cast_ofNat, sub_add_cancel] at hperiod
  rw [wrap, hperiod, Int.bmod_eq_of_le] <;> omega

theorem wrap_of_below {x : Int} (h : -27670116110564327424 ≤ x) (h' : x < -9223372036854775808) :
    wrap x = x + 18446744073709551616 := by
  have hperiod := Int.add_bmod_right x 18446744073709551616
  rw [Nat.cast_ofNat] at hperiod
  rw [wrap, ← hperiod, Int.bmod_eq_of_le] <;> omega

theorem wrap_cases {x : Int} (h : -27670116110564327424 ≤ x) (h' : x < 27670116110564327424) :
    (IsInt64 x ∧ wrap x = x) ∨
      (9223372036854775808 ≤ x ∧ wrap x = x - 18446744073709551616) ∨
        (x < -9223372036854775808 ∧ wrap x = x + 18446744073709551616) := by
  by_cases hlow : x < -9223372036854775808
  · exact Or.inr (Or.inr ⟨hlow, wrap_of_below h hlow⟩)
  · by_cases hhigh : 9223372036854775808 ≤ x
    · exact Or.inr (Or.inl ⟨hhigh, wrap_of_above hhigh h'⟩)
    · have hin : IsInt64 x := ⟨by omega, by omega⟩
      exact Or.inl ⟨hin, wrap_of_isInt64 hin⟩

theorem lt_wrap_sub_iff_wrap_add_lt {a b c : Int} (ha : IsInt64 a) (hb : IsInt64 b)
    (hc : IsInt64 c) :
    (c < wrap (a - b) ↔ wrap (b + c) < a) ↔ (IsInt64 (a - b) ↔ IsInt64 (b + c)) := by
  obtain ⟨ha, ha'⟩ := ha
  obtain ⟨hb, hb'⟩ := hb
  obtain ⟨hc, hc'⟩ := hc
  have hsub := wrap_cases (x := a - b) (by omega) (by omega)
  have hadd := wrap_cases (x := b + c) (by omega) (by omega)
  simp only [IsInt64] at hsub hadd ⊢
  -- nine cases, linear in each; the mixed ones are where the verdicts differ
  rcases hsub with ⟨hs, hws⟩ | ⟨hs, hws⟩ | ⟨hs, hws⟩ <;>
    rcases hadd with ⟨hd, hwd⟩ | ⟨hd, hwd⟩ | ⟨hd, hwd⟩ <;>
      rw [hws, hwd] <;> omega

end GoInt
