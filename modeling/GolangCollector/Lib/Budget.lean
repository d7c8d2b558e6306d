import Mathlib.Algebra.BigOperators.Group.Finset.Piecewise
import Mathlib.Algebra.Order.BigOperators.Group.List

/-! # Spending under a limit with a round-up rule

Nonnegative costs are spent one after the other. A cost is admitted if it still fits under the
limit, or if nothing has been spent yet and the limit is positive. Then the total stays within the
limit, unless it is one single positive cost. First, how a loop adds up. -/

namespace Budget

open List

theorem reading_foldl {S β M : Type} [AddMonoid M] (I : S → Prop) (read : S → M) {f : S → β → S}
    {g : β → M} (hI : ∀ s x, I s → I (f s x)) (h : ∀ s x, I s → read (f s x) = read s + g x)
    (xs : List β) {s : S} (hs : I s) : read (xs.foldl f s) = read s + (xs.map g).sum := by
  induction xs generalizing s with
  | nil => simp
  | cons x xs ih =>
    rw [foldl_cons, ih (hI s x hs), h s x hs, map_cons, sum_cons, add_assoc]

theorem sum_map_filter {β M : Type} [AddMonoid M] (p : β → Prop) [DecidablePred p] (f : β → M)
    (xs : List β) :
    ((xs.filter fun x => p x).map f).sum = (xs.map fun x => if p x then f x else 0).sum := by
  induction xs with
  | nil => rfl
  | cons x xs ih => by_cases h : p x <;> simp [h, ih]

theorem sum_map_eq_sum_keys {β κ M : Type} [AddCommMonoid M] [DecidableEq κ] (key : β → κ)
    (f : β → M) {keys : Finset κ} {xs : List β} (h : ∀ x ∈ xs, key x ∈ keys) :
    (xs.map f).sum = ∑ k ∈ keys, ((xs.filter fun x => key x = k).map f).sum := by
  induction xs with
  | nil => simp
  | cons x xs ih =>
    rw [forall_mem_cons] at h
    have hcons : ∀ k, (((x :: xs).filter fun x => key x = k).map f).sum =
        (if key x = k then f x else 0) + ((xs.filter fun x => key x = k).map f).sum := fun k => by
      by_cases hk : key x = k <;> simp [hk]
    rw [map_cons, sum_cons, ih h.2, Finset.sum_congr rfl fun k _ => hcons k,
      Finset.sum_add_distrib, Finset.sum_ite_eq, if_pos h.1]

theorem sum_map_of_changed {α M : Type} [AddCommMonoid M] [DecidableEq α] {xs ys : List α}
    {f g : α → M} {k : α} (hxs : xs.Nodup) (hys : ys.Nodup) (hf : ∀ x, x ∉ xs → f x = 0)
    (hg : ∀ y, y ∉ ys → g y = 0) (hsame : ∀ x, x ≠ k → g x = f x) :
    (ys.map g).sum + f k = (xs.map f).sum + g k := by
  -- over a set that has all keys of both, only the terms at `k` differ
  let keys := insert k (xs.toFinset ∪ ys.toFinset)
  have htotal : ∀ {zs : List α} {e : α → M}, zs.Nodup → (∀ z, z ∉ zs → e z = 0) →
      zs.toFinset ⊆ keys → (zs.map e).sum = e k + ∑ x ∈ keys.erase k, e x := by
    intro zs e hzs he hsub
    rw [← sum_toFinset e hzs, Finset.add_sum_erase keys e (Finset.mem_insert_self _ _)]
    exact Finset.sum_subset hsub fun x _ hx => he x (by simpa using hx)
  have hrest : ∑ x ∈ keys.erase k, g x = ∑ x ∈ keys.erase k, f x :=
    Finset.sum_congr rfl fun x hx => hsame x (Finset.ne_of_mem_erase hx)
  rw [htotal hxs hf (fun x hx => by simp [keys, mem_toFinset.mp hx]),
    htotal hys hg (fun x hx => by simp [keys, mem_toFinset.mp hx]), hrest]
  rw [add_right_comm, add_comm (g k), add_right_comm]

variable {K : Type} [AddCommGroup K] [LinearOrder K] [IsOrderedAddMonoid K] {limit cost : K}
  {costs : List K}

/-- **A total is within a limit**, or is one positive cost. -/
def Within (limit : K) (costs : List K) : Prop :=
  costs.sum ≤ limit ∨ (costs.filter fun x => 0 < x).length = 1

omit [IsOrderedAddMonoid K] in
theorem within_nil (h : 0 ≤ limit) : Within limit [] := Or.inl (by simpa using h)

omit [IsOrderedAddMonoid K] in
theorem Within.mono {limit' : K} (h : Within limit costs) (hle : limit ≤ limit') :
    Within limit' costs :=
  h.imp_left fun hsum => hsum.trans hle

section

variable (hnonneg : ∀ x ∈ costs, 0 ≤ x)
include hnonneg

theorem eq_zero_of_sum_nonpos (hsum : costs.sum ≤ 0) : ∀ x ∈ costs, x = 0 := by
  have hzero : costs.sum = 0 := le_antisymm hsum (sum_nonneg hnonneg)
  exact fun _ => all_zero_of_le_zero_le_of_sum_eq_zero hnonneg hzero

theorem countP_nsmul_le_sum {w : K} (hw : ∀ x ∈ costs, 0 < x → w ≤ x) :
    costs.countP (fun x => 0 < x) • w ≤ costs.sum := by
  induction costs with
  | nil => simp
  | cons x costs ih =>
    rw [forall_mem_cons] at hnonneg hw
    have hrest := ih hnonneg.2 hw.2
    rw [countP_cons, sum_cons]
    split
    · next hpos =>
      rw [add_nsmul, one_nsmul, add_comm]
      exact add_le_add (hw.1 (of_decide_eq_true hpos)) hrest
    · rw [add_zero]
      exact hrest.trans (le_add_of_nonneg_left hnonneg.1)

theorem within_concat (hcost : 0 ≤ cost)
    (hadmitted : costs.sum + cost ≤ limit ∨ costs.sum ≤ 0 ∧ 0 < limit) :
    Within limit (costs ++ [cost]) := by
  rcases hadmitted with hfits | ⟨hnone, hpos⟩
  · exact Or.inl (by simpa using hfits)
  · have hzero := eq_zero_of_sum_nonpos hnonneg hnone
    rcases hcost.lt_or_eq with hlt | rfl
    · -- the cost is the only positive one
      have hfilter : costs.filter (fun x => 0 < x) = [] :=
        filter_eq_nil_iff.mpr fun x hx => by simp [hzero x hx]
      exact Or.inr (by simp [filter_append, hfilter, hlt])
    · refine Or.inl ?_
      rw [sum_append, sum_singleton, add_zero]
      exact hnone.trans hpos.le

end

end Budget
