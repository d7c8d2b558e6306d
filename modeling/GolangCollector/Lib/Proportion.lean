import Mathlib.Algebra.BigOperators.Field
import Mathlib.Algebra.Order.BigOperators.Group.Finset
import Mathlib.Algebra.Order.Field.Basic

/-! # Shares in inverse proportion

A whole is divided among finitely many parties in inverse proportion to their prices: the share of
`i` is `M / (p i * N)`, where `N` is the sum of `M / p j` over the parties and `M` any positive
scale. First, how a loop over records visits each key once. -/

namespace Proportion

open List

/-! ## A loop that counts each key once -/

section

variable {α κ M : Type} [DecidableEq κ] [AddCommMonoid M]

def countOnce (key : α → κ) (g : κ → M) (acc : List κ × M) (x : α) : List κ × M :=
  if key x ∈ acc.1 then acc else (key x :: acc.1, acc.2 + g (key x))

theorem foldl_countOnce (key : α → κ) (g : κ → M) (xs : List α) :
    (xs.foldl (countOnce key g) ([], 0)).2 = ∑ k ∈ (xs.map key).toFinset, g k := by
  -- the keys seen and those to come are disjoint
  have hloop : ∀ (xs : List α) (seen : List κ) (m : M),
      (xs.foldl (countOnce key g) (seen, m)).2 =
        m + ∑ k ∈ (xs.map key).toFinset \ seen.toFinset, g k := by
    intro xs
    induction xs with
    | nil => simp
    | cons x xs ih =>
      intro seen m
      rw [foldl_cons, countOnce, map_cons, toFinset_cons]
      by_cases hseen : key x ∈ seen
      · rw [if_pos hseen, ih, Finset.insert_sdiff_of_mem _ (by simpa using hseen)]
      · rw [if_neg hseen, ih, Finset.insert_sdiff_of_notMem _ (by simpa using hseen),
          toFinset_cons, add_assoc]
        congr 1
        have hsplit : insert (key x) ((xs.map key).toFinset \ seen.toFinset) =
            insert (key x) ((xs.map key).toFinset \ insert (key x) seen.toFinset) := by
          ext k
          by_cases hk : k = key x <;> simp [hk]
        rw [hsplit, Finset.sum_insert (by simp)]
  simpa using hloop xs [] 0

end

/-! ## Shares -/

variable {ι K : Type} [Field K] (M : K) (p : ι → K) (S : Finset ι)

def norm : K := ∑ j ∈ S, M / p j

/-- The share of a party. -/
def share (i : ι) : K := M / (p i * norm M p S)

variable {M p S}

theorem sum_share (hnorm : norm M p S ≠ 0) : ∑ i ∈ S, share M p S i = 1 := by
  have hterm : ∀ i ∈ S, share M p S i = M / p i / norm M p S := fun i _ => by
    rw [share, div_mul_eq_div_div]
  rw [Finset.sum_congr rfl hterm, ← Finset.sum_div, ← norm, div_self hnorm]

variable [LinearOrder K] [IsStrictOrderedRing K]

theorem norm_pos (hM : 0 < M) (hp : ∀ i, 0 < p i) (hS : S.Nonempty) : 0 < norm M p S :=
  Finset.sum_pos (fun i _ => div_pos hM (hp i)) hS

theorem share_nonneg (hM : 0 < M) (hp : ∀ i, 0 < p i) (hS : S.Nonempty) (i : ι) :
    0 ≤ share M p S i :=
  div_nonneg hM.le (mul_pos (hp i) (norm_pos hM hp hS)).le

theorem share_anti (hM : 0 < M) (hp : ∀ i, 0 < p i) (hS : S.Nonempty) {i j : ι} (h : p i ≤ p j) :
    share M p S j ≤ share M p S i := by
  have hnorm := norm_pos hM hp hS
  exact div_le_div_of_nonneg_left hM.le (mul_pos (hp i) hnorm)
    (mul_le_mul_of_nonneg_right h hnorm.le)

theorem sum_le_whole (hM : 0 < M) (hp : ∀ i, 0 < p i) (hS : S.Nonempty) {whole : K}
    (hwhole : 0 ≤ whole) (used : ι → K) {given : ι → K} (hused : ∀ i, 0 ≤ used i)
    (hgiven : ∀ i, given i ≤ max (share M p S i * whole - used i) 0) :
    ∑ i ∈ S, given i ≤ whole := by
  have hshare := share_nonneg hM hp hS
  calc ∑ i ∈ S, given i ≤ ∑ i ∈ S, share M p S i * whole := by
        refine Finset.sum_le_sum fun i _ => (hgiven i).trans (max_le ?_ ?_)
        · exact sub_le_self _ (hused i)
        · exact mul_nonneg (hshare i) hwhole
    _ = whole := by rw [← Finset.sum_mul, sum_share (norm_pos hM hp hS).ne', one_mul]

end Proportion
