import Mathlib.Algebra.BigOperators.Ring.List
import Mathlib.Algebra.Order.BigOperators.Group.List
import Mathlib.Algebra.Order.Field.Basic
import Mathlib.Tactic.Abel
import Mathlib.Tactic.Linarith
import Mathlib.Tactic.Ring

/-! # Sharing a surplus

A surplus is shared out among parties that each want an amount of it. `fill` shares it in proportion
to weights and caps each party at what it wants, until the surplus is gone or no weight is left:
nobody gets more than they want, nothing is lost, and the loop ends because each pass but the last
satisfies someone. -/

namespace Sharing

open List

variable {ι F : Type}

/-- **A party**: what it still wants, and what it has got. -/
structure Bid (ι F : Type) where
  who : ι
  wants : F
  gets : F

/-- Give a party an amount. -/
def Bid.give [Add F] [Sub F] (x : F) (b : Bid ι F) : Bid ι F :=
  { b with wants := b.wants - x, gets := b.gets + x }

/-- **Bids, what is left to share, and what is wanted in all.** -/
structure Pot (ι F : Type) where
  bids : List (Bid ι F)
  surplus : F
  requested : F

theorem forall₂_concat {α β : Type} {R : α → β → Prop} {l : List α} {a : α} {l' : List β}
    (h : List.Forall₂ R (l ++ [a]) l') :
    ∃ xs x, l' = xs ++ [x] ∧ List.Forall₂ R l xs ∧ R a x := by
  induction l generalizing l' with
  | nil =>
    cases h with
    | cons hax hnil =>
      cases hnil
      exact ⟨[], _, rfl, .nil, hax⟩
  | cons b l ih =>
    cases h with
    | cons hby hrest =>
      obtain ⟨xs, x, rfl, hxs, hx⟩ := ih hrest
      exact ⟨_ :: xs, x, rfl, .cons hby hxs, hx⟩

section

variable [AddCommGroup F] [LinearOrder F]

/-- What the parties have got. -/
def paid (bids : List (Bid ι F)) : F := (bids.map Bid.gets).sum

/-- What the parties want. -/
def due (bids : List (Bid ι F)) : F := (bids.map Bid.wants).sum

/-- How many still want something. -/
def waiting (bids : List (Bid ι F)) : ℕ := bids.countP fun b => 0 < b.wants

/-- **A party has been given something it wants**, or nothing. -/
def Served (b b' : Bid ι F) : Prop := ∃ x, 0 ≤ x ∧ x ≤ b.wants ∧ b' = b.give x

theorem Served.who_eq {b b' : Bid ι F} (h : Served b b') : b'.who = b.who := by
  obtain ⟨x, -, -, rfl⟩ := h
  rfl

variable {bids bids' : List (Bid ι F)}

theorem map_who_eq (h : List.Forall₂ Served bids bids') : bids'.map Bid.who = bids.map Bid.who := by
  induction h with
  | nil => rfl
  | cons hb _ ih => rw [map_cons, map_cons, hb.who_eq, ih]

theorem served_refl {b : Bid ι F} (h : 0 ≤ b.wants) : Served b b :=
  ⟨0, le_rfl, h, by rw [Bid.give, sub_zero, add_zero]⟩

variable [IsOrderedAddMonoid F]

theorem Served.wants_nonneg {b b' : Bid ι F} (h : Served b b') : 0 ≤ b'.wants := by
  obtain ⟨x, -, hx, rfl⟩ := h
  exact sub_nonneg.mpr hx

theorem Served.trans {b b' b'' : Bid ι F} (h : Served b b') (h' : Served b' b'') :
    Served b b'' := by
  obtain ⟨x, hx, -, rfl⟩ := h
  obtain ⟨y, hy, hle, rfl⟩ := h'
  refine ⟨x + y, add_nonneg hx hy, ?_, ?_⟩
  · rw [add_comm]
    exact le_sub_iff_add_le.mp hle
  · rw [Bid.give, Bid.give, Bid.give, sub_sub, add_assoc]

omit [IsOrderedAddMonoid F] in
theorem paid_add_due (h : List.Forall₂ Served bids bids') :
    paid bids' + due bids' = paid bids + due bids := by
  simp only [paid, due]
  induction h with
  | nil => rfl
  | cons h _ ih =>
    obtain ⟨x, -, -, rfl⟩ := h
    simp only [map_cons, sum_cons, Bid.give]
    rw [add_add_add_comm, ih]
    abel

theorem wants_nonneg_of_forall₂ (h : List.Forall₂ Served bids bids') :
    ∀ b' ∈ bids', 0 ≤ b'.wants := by
  induction h with
  | nil => exact forall_mem_nil _
  | cons h _ ih => exact forall_mem_cons.mpr ⟨h.wants_nonneg, ih⟩

variable {bids : List (Bid ι F)}

theorem due_nonneg (h : ∀ b ∈ bids, 0 ≤ b.wants) : 0 ≤ due bids :=
  sum_nonneg (forall_mem_map.mpr h)

theorem forall_open_of_forall₂ {P : ι → Prop} (h : List.Forall₂ Served bids bids')
    (hP : ∀ b ∈ bids, 0 < b.wants → P b.who) : ∀ b' ∈ bids', 0 < b'.wants → P b'.who := by
  induction h with
  | nil => exact forall_mem_nil _
  | cons h _ ih =>
    rw [forall_mem_cons] at hP ⊢
    refine ⟨fun hopen => ?_, ih hP.2⟩
    obtain ⟨x, hx, -, rfl⟩ := h
    exact hP.1 (hopen.trans_le (sub_le_self _ hx))

theorem forall₂_served_trans {bids bids' bids'' : List (Bid ι F)}
    (h : List.Forall₂ Served bids bids') (h' : List.Forall₂ Served bids' bids'') :
    List.Forall₂ Served bids bids'' := by
  induction h generalizing bids'' with
  | nil => exact h'
  | cons hb _ ih =>
    cases h' with
    | cons hb' h' => exact .cons (hb.trans hb') (ih h')

end

/-! ## Filling in proportion -/

section

variable [Field F] [LinearOrder F]

/-- The sum of the weights of those who still want something. -/
def openWeight (weight : ι → F) (bids : List (Bid ι F)) : F :=
  (bids.map fun b => if 0 < b.wants then weight b.who else 0).sum

/-- A party's share of the surplus is more than it wants. -/
def Exceeds (weight : ι → F) (surplus z : F) (b : Bid ι F) : Prop :=
  0 < b.wants ∧ b.wants < surplus * (weight b.who / z)

instance (weight : ι → F) (surplus z : F) : DecidablePred (Exceeds weight surplus z) :=
  fun _ => inferInstanceAs (Decidable (_ ∧ _))

/-- What a party gets of the surplus in a pass. -/
def part (weight : ι → F) (surplus z : F) (b : Bid ι F) : F :=
  if 0 < b.wants then
    if b.wants < surplus * (weight b.who / z) then b.wants else surplus * (weight b.who / z)
  else 0

/-- **A pass**: the surplus is shared in proportion, up to the wishes. -/
def pass (weight : ι → F) (p : Pot ι F) : Pot ι F :=
  let z := openWeight weight p.bids
  let sumalloc := (p.bids.map (part weight p.surplus z)).sum
  let neverGt := !p.bids.any fun b => Exceeds weight p.surplus z b
  let surplus := p.surplus - sumalloc
  { bids := p.bids.map fun b => b.give (part weight p.surplus z b)
    surplus := if neverGt ∨ surplus < 0 then 0 else surplus
    requested := p.requested - sumalloc }

theorem give_part_of_not_pos (weight : ι → F) (surplus z : F) {b : Bid ι F} (h : ¬ 0 < b.wants) :
    b.give (part weight surplus z b) = b := by
  rw [part, if_neg h, Bid.give, sub_zero, add_zero]

theorem wants_of_exceeds {weight : ι → F} {surplus z : F} {b : Bid ι F}
    (h : Exceeds weight surplus z b) : (b.give (part weight surplus z b)).wants = 0 := by
  rw [part, if_pos h.1, if_pos h.2]
  exact sub_self b.wants

/-- Fewer have a property if nobody gains it and somebody loses it. -/
theorem countP_lt {α : Type} {p q : α → Bool} {l : List α} (h : ∀ a ∈ l, q a → p a) {a : α}
    (ha : a ∈ l) (hp : p a) (hq : ¬ q a) : l.countP q < l.countP p := by
  obtain ⟨s, t, rfl⟩ := append_of_mem ha
  have hs : s.countP q ≤ s.countP p :=
    countP_mono_left fun x hx => h x (mem_append_left _ hx)
  have ht : t.countP q ≤ t.countP p :=
    countP_mono_left fun x hx => h x (mem_append_right _ (mem_cons_of_mem _ hx))
  rw [countP_append, countP_append, countP_cons_of_pos hp,
    countP_cons_of_neg hq]
  omega

/-- **A pass that is not the last one satisfies somebody.** -/
theorem measure_pass_lt {weight : ι → F} {p : Pot ι F} (h : 0 < p.surplus) :
    (waiting (pass weight p).bids + if 0 < (pass weight p).surplus then 1 else 0) <
      waiting p.bids + if 0 < p.surplus then 1 else 0 := by
  set z := openWeight weight p.bids with hz
  have hwaiting : waiting (pass weight p).bids =
      p.bids.countP fun b => 0 < (b.give (part weight p.surplus z b)).wants := by
    rw [waiting, pass, countP_map]
    rfl
  have himp : ∀ b ∈ p.bids, decide (0 < (b.give (part weight p.surplus z b)).wants) = true →
      decide (0 < b.wants) = true := by
    intro b _ hb
    rw [decide_eq_true_iff] at hb ⊢
    by_contra hnot
    rw [give_part_of_not_pos _ _ _ hnot] at hb
    exact hnot hb
  rw [hwaiting, waiting, if_pos h]
  by_cases hexceeds : ∃ b ∈ p.bids, Exceeds weight p.surplus z b
  · obtain ⟨b, hb, hex⟩ := hexceeds
    have hlt := countP_lt himp hb (decide_eq_true hex.1) (by simp [wants_of_exceeds hex])
    split_ifs <;> omega
  · have hle := countP_mono_left himp
    have hzero : (pass weight p).surplus = 0 := by
      rw [pass]
      exact if_pos (.inl (by simpa using hexceeds))
    rw [hzero, if_neg (lt_irrefl _)]
    omega

/-- **The loop**: passes as long as there is a surplus and a weight. -/
def fill (weight : ι → F) (p : Pot ι F) : Pot ι F :=
  if 0 < p.surplus then
    if openWeight weight p.bids ≤ 0 then p else fill weight (pass weight p)
  else p
termination_by waiting p.bids + if 0 < p.surplus then 1 else 0
decreasing_by exact measure_pass_lt ‹_›

variable [IsStrictOrderedRing F] {weight : ι → F} {p : Pot ι F}

omit [IsStrictOrderedRing F] in
/-- Without the caps, a pass shares out the whole surplus. -/
theorem sum_shares (hz : 0 < openWeight weight bids) (surplus : F) :
    (bids.map fun b => if 0 < b.wants then surplus * (weight b.who / openWeight weight bids)
      else 0).sum = surplus := by
  have hterm : (fun b : Bid ι F => if 0 < b.wants then
      surplus * (weight b.who / openWeight weight bids) else 0) =
      fun b => (if 0 < b.wants then weight b.who else 0) * (surplus / openWeight weight bids) := by
    funext b
    split_ifs
    · exact mul_div_left_comm _ _ _
    · rw [zero_mul]
  rw [hterm, sum_map_mul_right]
  exact mul_div_cancel₀ _ hz.ne'

/-- **A pass gives nobody more than they want, and the surplus at most.** -/
theorem pass_spec (hwants : ∀ b ∈ p.bids, 0 ≤ b.wants)
    (hweight : ∀ b ∈ p.bids, 0 < b.wants → 0 ≤ weight b.who) (hsurplus : 0 < p.surplus)
    (hz : 0 < openWeight weight p.bids) :
    List.Forall₂ Served p.bids (pass weight p).bids ∧
      paid (pass weight p).bids + (pass weight p).surplus = paid p.bids + p.surplus ∧
      0 ≤ (pass weight p).surplus ∧
      paid (pass weight p).bids + (pass weight p).requested = paid p.bids + p.requested := by
  set z := openWeight weight p.bids with hzdef
  set x := part weight p.surplus z with hx
  have hpart : ∀ b ∈ p.bids, 0 ≤ x b ∧ x b ≤ b.wants ∧
      x b ≤ if 0 < b.wants then p.surplus * (weight b.who / z) else 0 := by
    intro b hb
    rw [hx, part]
    split_ifs with hopen hmore
    · exact ⟨hopen.le, le_rfl, hmore.le⟩
    · exact ⟨mul_nonneg hsurplus.le (div_nonneg (hweight b hb hopen) hz.le), not_lt.mp hmore,
        le_rfl⟩
    · exact ⟨le_rfl, hwants b hb, le_rfl⟩
  have hpaid : paid (pass weight p).bids = paid p.bids + (p.bids.map x).sum := by
    rw [paid, paid, pass, map_map, ← sum_map_add]
    rfl
  have hle : (p.bids.map x).sum ≤ p.surplus := by
    calc (p.bids.map x).sum
        ≤ (p.bids.map fun b => if 0 < b.wants then p.surplus * (weight b.who / z) else 0).sum :=
          sum_le_sum fun b hb => (hpart b hb).2.2
      _ = p.surplus := sum_shares hz p.surplus
  -- the rest is set to zero only if it is zero
  have hleft : (pass weight p).surplus = p.surplus - (p.bids.map x).sum := by
    rw [pass]
    dsimp only
    split_ifs with hset
    · obtain hnever | hneg := hset
      · have heq : p.bids.map x =
            p.bids.map fun b => if 0 < b.wants then p.surplus * (weight b.who / z) else 0 := by
          refine map_congr_left fun b hb => ?_
          have hnot : ¬ Exceeds weight p.surplus z b := by
            have hall := hnever
            simp only [Bool.not_eq_true', any_eq_false, decide_eq_true_eq] at hall
            exact hall b hb
          rw [hx, part]
          split_ifs with hopen hmore
          · exact absurd ⟨hopen, hmore⟩ hnot
          · rfl
          · rfl
        rw [heq, sum_shares hz, sub_self]
      · exact absurd (sub_nonneg.mpr hle) (not_le.mpr hneg)
    · rfl
  refine ⟨?_, ?_, ?_, ?_⟩
  · rw [pass]
    refine forall₂_map_right_iff.mpr (forall₂_same.mpr fun b hb => ?_)
    exact ⟨x b, (hpart b hb).1, (hpart b hb).2.1, rfl⟩
  · rw [hpaid, hleft]
    ring
  · rw [hleft]
    exact sub_nonneg.mpr hle
  · rw [hpaid, pass]
    ring

/-- **The loop shares until nothing is left, or nobody with a weight wants more.** -/
theorem fill_spec (hwants : ∀ b ∈ p.bids, 0 ≤ b.wants)
    (hweight : ∀ b ∈ p.bids, 0 < b.wants → 0 ≤ weight b.who) (hsurplus : 0 ≤ p.surplus) :
    List.Forall₂ Served p.bids (fill weight p).bids ∧
      paid (fill weight p).bids + (fill weight p).surplus = paid p.bids + p.surplus ∧
      0 ≤ (fill weight p).surplus ∧
      paid (fill weight p).bids + (fill weight p).requested = paid p.bids + p.requested ∧
      (0 < (fill weight p).surplus → openWeight weight (fill weight p).bids ≤ 0) := by
  have hrefl : Forall₂ Served p.bids p.bids :=
    forall₂_same.mpr fun b hb => served_refl (hwants b hb)
  induction p using fill.induct weight with
  | case1 p hpos hz =>
    rw [fill, if_pos hpos, if_pos hz]
    exact ⟨hrefl, rfl, hsurplus, rfl, fun _ => hz⟩
  | case2 p hpos hz ih =>
    rw [fill, if_pos hpos, if_neg hz]
    obtain ⟨hserved, hpaid, hleft, hrequested⟩ :=
      pass_spec hwants hweight hpos (not_le.mp hz)
    have hwants' := wants_nonneg_of_forall₂ hserved
    obtain ⟨hserved', hpaid', hleft', hrequested', hend⟩ := ih hwants'
      (forall_open_of_forall₂ (P := fun i => 0 ≤ weight i) hserved hweight) hleft
      (forall₂_same.mpr fun b hb => served_refl (hwants' b hb))
    exact ⟨forall₂_served_trans hserved hserved', hpaid'.trans hpaid, hleft',
      hrequested'.trans hrequested, hend⟩
  | case3 p hpos =>
    rw [fill, if_neg hpos]
    exact ⟨hrefl, rfl, hsurplus, rfl, fun h => absurd h hpos⟩

theorem due_eq_zero_of_openWeight (hwants : ∀ b ∈ bids, 0 ≤ b.wants) (hweight : ∀ i, 0 < weight i)
    (h : openWeight weight bids ≤ 0) : due bids = 0 := by
  refine sum_eq_zero fun x hx => ?_
  obtain ⟨b, hb, rfl⟩ := mem_map.mp hx
  refine (hwants b hb).antisymm' (not_lt.mp fun hopen => ?_)
  have hle : weight b.who ≤ openWeight weight bids := by
    refine single_le_sum (fun x hx => ?_) _ (mem_map.mpr ⟨b, hb, if_pos hopen⟩)
    obtain ⟨c, -, rfl⟩ := mem_map.mp hx
    split_ifs
    · exact (hweight c.who).le
    · exact le_rfl
  exact absurd (hle.trans h) (not_le.mpr (hweight b.who))

/-- **With positive weights, a surplus that is wanted is used up.** -/
theorem fill_surplus_eq_zero (hwants : ∀ b ∈ p.bids, 0 ≤ b.wants) (hweight : ∀ i, 0 < weight i)
    (hsurplus : 0 ≤ p.surplus) (hdue : p.surplus ≤ due p.bids) : (fill weight p).surplus = 0 := by
  obtain ⟨hserved, hpaid, hleft, -, hend⟩ :=
    fill_spec hwants (fun b _ _ => (hweight b.who).le) hsurplus
  by_contra hne
  have hpos : 0 < (fill weight p).surplus := lt_of_le_of_ne hleft (Ne.symm hne)
  have hdone := due_eq_zero_of_openWeight (wants_nonneg_of_forall₂ hserved) hweight (hend hpos)
  have hsum := paid_add_due hserved
  linarith

end

end Sharing
