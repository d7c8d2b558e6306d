import GolangCollector.Lib.Sharing
import Mathlib.Algebra.Order.Floor.Ring
import Mathlib.Data.List.Sort
import Mathlib.Tactic.Positivity

/-! # Round robin

Whole units of a surplus go to the parties in turn. In each sweep a party gets up to an equal part,
at least one unit, and the sweep stops early when less than that is left. A sweep counts who is
still waiting among those it has visited, and the next one divides by the count: if a sweep stops
early then either it has visited all who wait, or less than a unit is left, so the count is right
whenever it is used. -/

namespace Sharing

open List

variable {ι F : Type} [Field F] [LinearOrder F]

/-! ## Whole numbers -/

def Whole (x : F) : Prop := ∃ k : ℤ, (k : F) = x

section

omit [LinearOrder F]

theorem whole_zero : Whole (0 : F) := ⟨0, Int.cast_zero⟩

theorem whole_intCast (k : ℤ) : Whole (k : F) := ⟨k, rfl⟩

theorem Whole.add {x y : F} (hx : Whole x) (hy : Whole y) : Whole (x + y) := by
  obtain ⟨k, rfl⟩ := hx
  obtain ⟨l, rfl⟩ := hy
  exact ⟨k + l, Int.cast_add k l⟩

theorem Whole.sub {x y : F} (hx : Whole x) (hy : Whole y) : Whole (x - y) := by
  obtain ⟨k, rfl⟩ := hx
  obtain ⟨l, rfl⟩ := hy
  exact ⟨k - l, Int.cast_sub k l⟩

theorem whole_sum {xs : List F} (h : ∀ x ∈ xs, Whole x) : Whole xs.sum := by
  induction xs with
  | nil => exact whole_zero
  | cons x xs ih =>
    rw [forall_mem_cons] at h
    rw [sum_cons]
    exact h.1.add (ih h.2)

end

theorem Whole.min {x y : F} (hx : Whole x) (hy : Whole y) : Whole (min x y) := by
  rcases min_choice x y with h | h <;> rwa [h]

variable [IsStrictOrderedRing F]

theorem Whole.one_le {x : F} (hx : Whole x) (hpos : 0 < x) : 1 ≤ x := by
  obtain ⟨k, rfl⟩ := hx
  exact_mod_cast Int.add_one_le_of_lt (Int.cast_pos.mp hpos)

variable [FloorRing F]

theorem Whole.floor {x : F} (hx : Whole x) : (⌊x⌋ : F) = x := by
  obtain ⟨k, rfl⟩ := hx
  rw [Int.floor_intCast]

/-! ## A sweep -/

inductive Observation (F : Type) where
  | divisor (outstanding : ℕ)
  | running (surplus : F)

def Observation.Sound : Observation F → Prop
  | divisor outstanding => outstanding ≠ 0
  | running surplus => 0 ≤ surplus

structure Sweep (ι F : Type) where
  bids : List (Bid ι F)
  surplus : F
  outstanding : ℕ
  sumalloc : F
  log : List (Observation F)

def sweep (amax : F) : List (Bid ι F) → F → Sweep ι F
  | [], surplus => ⟨[], surplus, 0, 0, []⟩
  | b :: bids, surplus =>
    if 0 < b.wants then
      let alloc := min b.wants amax
      let b' := b.give alloc
      let left := surplus - alloc
      if left < amax then
        -- not enough for the next one
        ⟨b' :: bids, left, waiting [b'], alloc, [.running left]⟩
      else
        let rest := sweep amax bids left
        ⟨b' :: rest.bids, rest.surplus, waiting [b'] + rest.outstanding, alloc + rest.sumalloc,
          .running left :: rest.log⟩
    else
      let rest := sweep amax bids surplus
      { rest with bids := b :: rest.bids }

omit [IsStrictOrderedRing F] [FloorRing F] in
theorem surplus_sweep (amax : F) (bids : List (Bid ι F)) (surplus : F) :
    (sweep amax bids surplus).surplus = surplus - (sweep amax bids surplus).sumalloc := by
  induction bids generalizing surplus with
  | nil => rw [sweep, sub_zero]
  | cons b bids ih =>
    rw [sweep]
    dsimp only
    split_ifs
    · rfl
    · rw [ih, sub_sub]
    · exact ih surplus

structure SweepSpec (bids : List (Bid ι F)) (s : Sweep ι F) : Prop where
  served : List.Forall₂ Served bids s.bids
  whole : ∀ b ∈ s.bids, Whole b.wants ∧ Whole b.gets
  paid : paid s.bids = paid bids + s.sumalloc
  nonneg : 0 ≤ s.surplus
  counted : s.outstanding = waiting s.bids ∨ s.surplus < 1
  sumalloc_nonneg : 0 ≤ s.sumalloc
  gives : 0 < waiting bids → 1 ≤ s.sumalloc
  sound : ∀ o ∈ s.log, o.Sound

omit [IsStrictOrderedRing F] [FloorRing F] in
theorem waiting_cons (b : Bid ι F) (bids : List (Bid ι F)) :
    waiting (b :: bids) = waiting [b] + waiting bids := by
  rw [waiting, waiting, waiting, countP_cons, countP_singleton, add_comm]

theorem sweep_spec {amax : F} (hamax : 1 ≤ amax) (hwhole : Whole amax) {bids : List (Bid ι F)}
    (hbids : ∀ b ∈ bids, 0 ≤ b.wants ∧ Whole b.wants ∧ Whole b.gets) {surplus : F}
    (hnext : amax ≤ surplus) (hall : waiting bids * amax ≤ surplus ∨ amax = 1) :
    SweepSpec bids (sweep amax bids surplus) := by
  -- on the parties to visit; there is enough for the next one as long as the sweep goes on
  induction bids generalizing surplus with
  | nil =>
    rw [sweep]
    exact ⟨.nil, by simp, by simp [paid], by linarith, .inl rfl, le_rfl, by simp [waiting], by simp⟩
  | cons b bids ih =>
    rw [forall_mem_cons] at hbids
    obtain ⟨⟨hwants, hwholewants, hwholegets⟩, hbids⟩ := hbids
    by_cases hopen : 0 < b.wants
    · rw [waiting_cons, show waiting [b] = 1 by simp [waiting, hopen]] at hall
      set alloc := min b.wants amax with halloc
      have hwholealloc : Whole alloc := hwholewants.min hwhole
      have hone : 1 ≤ alloc := le_min (hwholewants.one_le hopen) hamax
      have hserved : Served b (b.give alloc) := ⟨alloc, by linarith, min_le_left _ _, rfl⟩
      have hnew : Whole (b.give alloc).wants ∧ Whole (b.give alloc).gets :=
        ⟨hwholewants.sub hwholealloc, hwholegets.add hwholealloc⟩
      have hle : alloc ≤ amax := min_le_right _ _
      have hleft : 0 ≤ surplus - alloc := by linarith
      have hpaid : paid (b.give alloc :: bids) = paid (b :: bids) + alloc := by
        simp only [paid, map_cons, sum_cons, Bid.give]
        ring
      have hrest : waiting bids * amax ≤ surplus - alloc ∨ amax = 1 := by
        refine hall.imp_left fun h => ?_
        push_cast at h
        linarith
      rw [sweep, if_pos hopen]
      dsimp only
      rw [← halloc]
      split_ifs with hstop
      · have hcounted : waiting [b.give alloc] = waiting (b.give alloc :: bids) ∨
            surplus - alloc < 1 := by
          refine hrest.imp (fun h => ?_) hstop.trans_eq
          -- less than one part is left, so nobody waits behind
          have hnone : waiting bids = 0 := by
            by_contra hne
            have hone : (1 : F) ≤ waiting bids := by exact_mod_cast Nat.one_le_iff_ne_zero.mpr hne
            have hmore : amax ≤ waiting bids * amax := le_mul_of_one_le_left (by linarith) hone
            linarith
          rw [waiting_cons _ bids, hnone, add_zero]
        refine ⟨.cons hserved ?_, ?_, hpaid, hleft, hcounted, by linarith, fun _ => hone, ?_⟩
        · exact forall₂_same.mpr fun c hc => served_refl (hbids c hc).1
        · exact forall_mem_cons.mpr ⟨hnew, fun c hc => (hbids c hc).2⟩
        · exact forall_mem_singleton.mpr hleft
      · have hspec := ih hbids (not_lt.mp hstop) hrest
        refine ⟨.cons hserved hspec.served, forall_mem_cons.mpr ⟨hnew, hspec.whole⟩, ?_,
          hspec.nonneg, ?_, add_nonneg (by linarith) hspec.sumalloc_nonneg, fun _ => ?_,
          forall_mem_cons.mpr ⟨hleft, hspec.sound⟩⟩
        · have hbelow := hspec.paid
          simp only [paid, map_cons, sum_cons, Bid.give] at hbelow ⊢
          rw [hbelow]
          ring
        · refine hspec.counted.imp_left fun h => ?_
          rw [waiting_cons _ (Sharing.sweep _ _ _).bids, h]
        · linarith [hspec.sumalloc_nonneg]
    · have hnone : waiting [b] = 0 := by simp [waiting, hopen]
      rw [waiting_cons, hnone, zero_add] at hall
      have hspec := ih hbids hnext hall
      rw [sweep, if_neg hopen]
      refine ⟨.cons (served_refl hwants) hspec.served,
        forall_mem_cons.mpr ⟨⟨hwholewants, hwholegets⟩, hspec.whole⟩, ?_, hspec.nonneg, ?_,
        hspec.sumalloc_nonneg, ?_, hspec.sound⟩
      · have hbelow := hspec.paid
        simp only [paid, map_cons, sum_cons] at hbelow ⊢
        rw [hbelow, add_assoc]
      · refine hspec.counted.imp_left fun h => ?_
        rw [waiting_cons b, hnone, zero_add]
        exact h
      · rw [waiting_cons, hnone, zero_add]
        exact hspec.gives

/-! ## The loop -/

structure Robin (ι F : Type) extends Pot ι F where
  outstanding : ℕ
  log : List (Observation F)

def Robin.amax (r : Robin ι F) : F := max 1 (⌊r.surplus / r.outstanding⌋ : F)

def Robin.sweep (r : Robin ι F) : Sweep ι F := Sharing.sweep r.amax r.bids r.surplus

def Robin.next (r : Robin ι F) : Robin ι F where
  bids := r.sweep.bids
  surplus := r.sweep.surplus
  requested := r.requested - r.sweep.sumalloc
  outstanding := r.sweep.outstanding
  log := r.log ++ .divisor r.outstanding :: r.sweep.log

theorem floor_next_lt {r : Robin ι F} (hsurplus : 1 ≤ r.surplus) (hgives : 1 ≤ r.sweep.sumalloc) :
    ⌊r.next.surplus⌋₊ < ⌊r.surplus⌋₊ := by
  have hnext : r.next.surplus = r.surplus - r.sweep.sumalloc := surplus_sweep _ _ _
  calc ⌊r.next.surplus⌋₊ ≤ ⌊r.surplus - 1⌋₊ := Nat.floor_mono (by rw [hnext]; linarith)
    _ < ⌊r.surplus⌋₊ := by
      rw [Nat.floor_sub_one]
      exact Nat.sub_lt (Nat.floor_pos.mpr hsurplus) one_pos

def robin {ι F : Type} [Field F] [LinearOrder F] [IsStrictOrderedRing F] [FloorRing F]
    (r : Robin ι F) : Robin ι F :=
  if 1 ≤ r.surplus ∧ 0 < r.requested then
    if r.sweep.sumalloc < 1 then r.next else robin r.next
  else r
termination_by ⌊r.surplus⌋₊
decreasing_by
  rename_i hrun hgives
  exact floor_next_lt hrun.1 (not_lt.mp hgives)

/-- **What holds at the head of the loop.** -/
structure Robin.Inv (r : Robin ι F) : Prop where
  bids : ∀ b ∈ r.bids, 0 ≤ b.wants ∧ Whole b.wants ∧ Whole b.gets
  nonneg : 0 ≤ r.surplus
  requested : r.requested = due r.bids
  counted : r.outstanding = waiting r.bids ∨ r.surplus < 1
  sound : ∀ o ∈ r.log, o.Sound

omit [FloorRing F] in
theorem waiting_pos_of_due_pos {bids : List (Bid ι F)} (h : 0 < due bids) : 0 < waiting bids := by
  by_contra hnone
  rw [not_lt, Nat.le_zero, waiting, countP_eq_zero] at hnone
  have hle : (bids.map Bid.wants).sum ≤ (bids.map fun _ => (0 : F)).sum :=
    sum_le_sum fun b hb => by simpa using hnone b hb
  exact absurd h (not_lt.mpr (hle.trans_eq (by simp)))

theorem Robin.Inv.sweep {r : Robin ι F} (h : r.Inv) (hsurplus : 1 ≤ r.surplus)
    (hrequested : 0 < r.requested) :
    SweepSpec r.bids r.sweep ∧ 1 ≤ r.sweep.sumalloc ∧ r.next.Inv := by
  have hcounted : r.outstanding = waiting r.bids := h.counted.resolve_right (not_lt.mpr hsurplus)
  have hwaiting : 0 < waiting r.bids := waiting_pos_of_due_pos (h.requested ▸ hrequested)
  have hone : (1 : F) ≤ r.outstanding := by
    rw [hcounted]
    exact_mod_cast hwaiting
  have hfloor : (⌊r.surplus / r.outstanding⌋ : F) ≤ r.surplus / r.outstanding := Int.floor_le _
  have hspec : SweepSpec r.bids r.sweep := by
    refine sweep_spec (le_max_left _ _) ?_ h.bids (max_le hsurplus ?_) ?_
    · rcases max_choice 1 (⌊r.surplus / r.outstanding⌋ : F) with hmax | hmax
      · rw [hmax]
        exact ⟨1, Int.cast_one⟩
      · rw [hmax]
        exact whole_intCast _
    · exact hfloor.trans (div_le_self h.nonneg hone)
    · rw [← hcounted]
      rcases max_choice 1 (⌊r.surplus / r.outstanding⌋ : F) with hmax | hmax
      · exact .inr hmax
      · refine .inl ?_
        rw [hmax, mul_comm]
        exact (le_div_iff₀ (by linarith)).mp hfloor
  refine ⟨hspec, hspec.gives hwaiting, ?_, hspec.nonneg, ?_, hspec.counted, ?_⟩
  · exact fun b hb => ⟨wants_nonneg_of_forall₂ hspec.served b hb, hspec.whole b hb⟩
  · have hsum := paid_add_due hspec.served
    rw [hspec.paid] at hsum
    change r.requested - r.sweep.sumalloc = due r.sweep.bids
    rw [h.requested]
    linarith
  · refine forall_mem_append.mpr ⟨h.sound, forall_mem_cons.mpr ⟨?_, hspec.sound⟩⟩
    change r.outstanding ≠ 0
    rw [hcounted]
    exact hwaiting.ne'

theorem robin_spec {r : Robin ι F} (h : r.Inv) :
    (robin r).Inv ∧ List.Forall₂ Served r.bids (robin r).bids ∧
      paid (robin r).bids + (robin r).surplus = paid r.bids + r.surplus ∧
      ((robin r).surplus < 1 ∨ (robin r).requested ≤ 0) := by
  induction r using robin.induct with
  | case1 r hrun hnone =>
    exact absurd (h.sweep hrun.1 hrun.2).2.1 (not_le.mpr hnone)
  | case2 r hrun hgives ih =>
    obtain ⟨hspec, -, hinv⟩ := h.sweep hrun.1 hrun.2
    obtain ⟨hend, hserved, hpaid, hstop⟩ := ih hinv
    rw [robin, if_pos hrun, if_neg hgives]
    refine ⟨hend, forall₂_served_trans hspec.served hserved, hpaid.trans ?_, hstop⟩
    change paid r.sweep.bids + r.sweep.surplus = _
    rw [hspec.paid, Robin.sweep, surplus_sweep]
    ring
  | case3 r hrun =>
    rw [robin, if_neg hrun]
    refine ⟨h, forall₂_same.mpr fun b hb => served_refl (h.bids b hb).1, rfl, ?_⟩
    rw [not_and_or, not_le, not_lt] at hrun
    exact hrun

/-! ## Taking turns in an order -/

section

variable {α : Type}

omit [Field F] [LinearOrder F] [IsStrictOrderedRing F] [FloorRing F]

def byNumber (bids : List (Bid (α × ℕ) F)) : List (Bid (α × ℕ) F) :=
  bids.insertionSort fun b c => b.who.2 ≤ c.who.2

theorem map_who_byNumber {l : List α} {bids : List (Bid (α × ℕ) F)}
    (h : (bids.map Bid.who).Perm l.zipIdx) : (byNumber bids).map Bid.who = l.zipIdx := by
  have hnumbers : (l.zipIdx.map Prod.snd).Pairwise (· < ·) := by
    rw [zipIdx_map_snd]
    exact pairwise_lt_range'
  have hperm : ((byNumber bids).map Bid.who).Perm l.zipIdx :=
    ((perm_insertionSort _ bids).map _).trans h
  have hanti : ∀ p q, p ∈ (byNumber bids).map Bid.who → q ∈ l.zipIdx → p.2 ≤ q.2 → q.2 ≤ p.2 →
      p = q := fun p q hp hq hpq hqp =>
    inj_on_of_nodup_map (hnumbers.imp ne_of_lt) (hperm.mem_iff.mp hp) hq (le_antisymm hpq hqp)
  exact hperm.eq_of_pairwise hanti (pairwise_map.mpr (pairwise_insertionSort _ bids))
    ((pairwise_map.mp hnumbers).imp le_of_lt)

end

end Sharing
