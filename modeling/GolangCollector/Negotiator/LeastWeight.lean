import GolangCollector.Negotiator.FairShare
import GolangCollector.Negotiator.SlotWeights

/-! # The least weight of a pool

`sumSlotWeights` (`cycle/cycle.go`) adds up the weights of the slots and keeps the least one, where
zero stands for "none yet". Zero is a weight too: after a slot that weighs nothing the loop starts
over. `negotiateOne` measures the limit and the headroom of a submitter by the result
(`cycle/spin.go`). -/

namespace GolangCollector.Negotiator

open GoStrings List

section

variable {K : Type} [Field K] [LinearOrder K]

def lesser (least w : K) : K := if least == 0 || w < least then w else least

def IsLeastWeight (ws : List K) (m : K) : Prop := ws = [] ∧ m = 0 ∨ m ∈ ws ∧ ∀ w ∈ ws, m ≤ w

theorem sumSlotWeights_eq (lib : MatchLibrary K) (useSlotWeights : Bool) (slots : List ClassAd) :
    sumSlotWeights lib useSlotWeights slots =
      ((slots.map (lib.slotWeight useSlotWeights)).sum,
        (slots.map (lib.slotWeight useSlotWeights)).foldl lesser 0) := by
  have hloop : ∀ acc : K × K, slots.foldl (fun acc slot =>
      let w := lib.slotWeight useSlotWeights slot
      (acc.1 + w, if acc.2 == 0 || w < acc.2 then w else acc.2)) acc =
      (acc.1 + (slots.map (lib.slotWeight useSlotWeights)).sum,
        (slots.map (lib.slotWeight useSlotWeights)).foldl lesser acc.2) := by
    induction slots with
    | nil => simp
    | cons slot slots ih =>
      intro acc
      rw [foldl_cons, ih]
      simp only [map_cons, sum_cons, foldl_cons, add_assoc, lesser]
  rw [sumSlotWeights, hloop, zero_add]

variable {ws : List K}

theorem foldl_lesser_concat_eq_zero_iff (hws : ∀ w ∈ ws, 0 ≤ w) (w : K) :
    (ws ++ [w]).foldl lesser 0 = 0 ↔ w = 0 := by
  have hnonneg : 0 ≤ ws.foldl lesser 0 := by
    refine foldlRecOn (motive := fun m : K => 0 ≤ m) ws lesser le_rfl fun m hm w hw => ?_
    rw [lesser]
    split
    · exact hws w hw
    · exact hm
  rw [foldl_append, foldl_cons, foldl_nil, lesser]
  simp only [Bool.or_eq_true, beq_iff_eq, decide_eq_true_eq]
  split_ifs with h
  · exact Iff.rfl
  · obtain ⟨hne, hle⟩ := not_or.mp h
    refine iff_of_false hne fun hzero => hle ?_
    rw [hzero]
    exact hnonneg.lt_of_ne' hne

theorem isLeastWeight_foldl_lesser (hws : ∀ w ∈ ws, 0 < w) :
    IsLeastWeight ws (ws.foldl lesser 0) := by
  induction ws using reverseRecOn with
  | nil => exact Or.inl ⟨rfl, rfl⟩
  | append_singleton ws w ih =>
    rw [forall_mem_append, forall_mem_singleton] at hws
    rw [foldl_append, foldl_cons, foldl_nil, lesser]
    simp only [Bool.or_eq_true, beq_iff_eq, decide_eq_true_eq]
    rcases ih hws.1 with ⟨rfl, hzero⟩ | ⟨hmem, hle⟩
    · exact Or.inr (by simp)
    · refine Or.inr ?_
      have hne : ws.foldl lesser 0 ≠ 0 := (hws.1 _ hmem).ne'
      rw [forall_mem_append, forall_mem_singleton]
      split_ifs with h
      · have hlt := h.resolve_left hne
        exact ⟨by simp, fun w' hw' => hlt.le.trans (hle w' hw'), le_rfl⟩
      · exact ⟨mem_append_left _ hmem, hle, not_lt.mp fun hlt => h (Or.inr hlt)⟩

theorem IsLeastWeight.unique {ws' : List K} {m m' : K} (h : IsLeastWeight ws m)
    (h' : IsLeastWeight ws' m') (hperm : ws'.Perm ws) : m' = m := by
  rcases h with ⟨rfl, rfl⟩ | ⟨hmem, hle⟩
  · obtain rfl := hperm.eq_nil
    simpa [IsLeastWeight] using h'
  · rcases h' with ⟨rfl, -⟩ | ⟨hmem', hle'⟩
    · obtain rfl := hperm.nil_eq
      simp at hmem
    · exact le_antisymm (hle' m (hperm.mem_iff.mpr hmem)) (hle m' (hperm.mem_iff.mp hmem'))

end

section

variable {K A : Type} [Field K] [LinearOrder K] (c : Cycle K A)

/-- **The weights of a pool are summed up truly.** -/
structure WeighedTruly (slots : List ClassAd) : Prop where
  total_eq : (sumSlotWeights c.lib (!c.cfg.disableSlotWeights) slots).1 =
    (slots.map c.slotWeightOf).sum
  least : IsLeastWeight (slots.map c.slotWeightOf)
    (sumSlotWeights c.lib (!c.cfg.disableSlotWeights) slots).2
  order : ∀ slots', slots'.Perm slots → sumSlotWeights c.lib (!c.cfg.disableSlotWeights) slots' =
    sumSlotWeights c.lib (!c.cfg.disableSlotWeights) slots
  negotiates : ∀ (start : ℤ) (sigAttrs : Text) (snap : Cycle.Snapshot) (sub : SubState K)
    (env : SpinEnv K) (l : SubmitterLimit K) (headroom : K) (now : ℤ), snap.slots = slots →
    0 < sub.idleJobs → 0 < c.cfg.maxTimePerSubmitter - sub.timeUsed →
    0 < c.cfg.maxTimePerCycle - (now - start) → 0 < Cycle.cappedLimit env l → 0 < headroom →
    (∃ slot ∈ slots, c.slotWeightOf slot ≤ Cycle.cappedLimit env l ∧
      c.slotWeightOf slot ≤ headroom) →
    c.skips (c.setup start sigAttrs snap) sub env (Cycle.cappedLimit env l) headroom now = none

variable {c}

theorem not_skips {st : CycleSetup K} {sub : SubState K} {env : SpinEnv K} {l : SubmitterLimit K}
    {headroom w : K} {now : ℤ} (hidle : 0 < sub.idleJobs)
    (hsubmitter : 0 < c.cfg.maxTimePerSubmitter - sub.timeUsed)
    (hcycle : 0 < c.cfg.maxTimePerCycle - (now - st.cycleStart)) (hheadroom : 0 < headroom)
    (hleast : st.minSlotWeight ≤ w) (hlimit : w ≤ Cycle.cappedLimit env l) (hroom : w ≤ headroom) :
    c.skips st sub env (Cycle.cappedLimit env l) headroom now = none := by
  have hl := hleast.trans hlimit
  have hpie := hl.trans (cappedLimit_le_pieLeft env l)
  rw [Cycle.skips, if_neg (by omega), if_neg (by omega), if_neg (by omega),
    if_neg (by simp [hl, hpie]), if_neg (by simp [hheadroom, hleast.trans hroom])]

variable [IsStrictOrderedRing K]

/-- **The weights of a pool are summed up truly exactly if no slot of it weighs nothing, or all of
them do.** -/
theorem weighed_truly_iff (slots : List ClassAd) :
    WeighedTruly c slots ↔
      (∀ slot ∈ slots, 0 < c.slotWeightOf slot) ∨ ∀ slot ∈ slots, c.slotWeightOf slot = 0 := by
  have hnonneg : ∀ (l : List ClassAd), ∀ w ∈ l.map c.slotWeightOf, 0 ≤ w := fun l w hw => by
    obtain ⟨slot, -, rfl⟩ := mem_map.mp hw
    exact slotWeightOf_nonneg (c := c) slot
  constructor
  · intro h
    by_contra hmixed
    push Not at hmixed
    obtain ⟨⟨p, hp, hzero⟩, q, hq, hne⟩ := hmixed
    -- the slot without weight may come last, and so may the other one
    have hlast : ∀ slot ∈ slots, (sumSlotWeights c.lib (!c.cfg.disableSlotWeights) slots).2 = 0 ↔
        c.slotWeightOf slot = 0 := by
      intro slot hslot
      have hperm := (perm_cons_erase hslot).trans (perm_append_singleton slot _).symm
      rw [← h.order _ hperm.symm, sumSlotWeights_eq, map_append, map_singleton]
      exact foldl_lesser_concat_eq_zero_iff (hnonneg _) _
    have hpzero := le_antisymm hzero (slotWeightOf_nonneg (c := c) p)
    exact hne ((hlast q hq).mp ((hlast p hp).mpr hpzero))
  · intro h
    have hleast : ∀ slots' : List ClassAd, slots'.Perm slots → IsLeastWeight
        (slots'.map c.slotWeightOf) ((slots'.map c.slotWeightOf).foldl lesser 0) := by
      intro slots' hperm
      rcases h with hpos | hzero
      · refine isLeastWeight_foldl_lesser fun w hw => ?_
        obtain ⟨slot, hslot, rfl⟩ := mem_map.mp hw
        exact hpos slot (hperm.mem_iff.mp hslot)
      · have hall : slots'.map c.slotWeightOf = replicate slots'.length 0 :=
          eq_replicate_iff.mpr ⟨length_map _, fun w hw => by
            obtain ⟨slot, hslot, rfl⟩ := mem_map.mp hw
            exact hzero slot (hperm.mem_iff.mp hslot)⟩
        have hfold : ∀ n, (replicate n (0 : K)).foldl lesser 0 = 0 := fun n => by
          induction n with
          | zero => rfl
          | succ n ih => simpa [replicate_succ, lesser] using ih
        rw [hall, hfold]
        cases slots' with
        | nil => exact Or.inl ⟨rfl, rfl⟩
        | cons slot slots' => exact Or.inr (by simp)
    refine ⟨by rw [sumSlotWeights_eq]; rfl, ?_, fun slots' hperm => ?_, ?_⟩
    · rw [sumSlotWeights_eq]
      exact hleast slots (.refl _)
    · rw [sumSlotWeights_eq, sumSlotWeights_eq]
      have hsum := (hperm.map c.slotWeightOf).sum_eq
      have hsame := (hleast slots (.refl _)).unique (hleast slots' hperm) (hperm.map _)
      exact Prod.ext hsum hsame
    · rintro start sigAttrs snap sub env l headroom now rfl hidle hsubmitter hcycle - hheadroom
        ⟨slot, hslot, hlimit, hroom⟩
      refine not_skips hidle hsubmitter hcycle hheadroom ?_ hlimit hroom
      rw [Cycle.setup, sumSlotWeights_eq]
      rcases hleast snap.slots (.refl _) with ⟨hnil, -⟩ | ⟨-, hle⟩
      · simp [map_eq_nil_iff.mp hnil] at hslot
      · exact hle _ (mem_map_of_mem hslot)

end

theorem weighed_truly_two_weights : WeighedTruly weighingCycle [weighedSlot 3 1, weighedSlot 2 1] ∧
    sumSlotWeights weighingCycle.lib true [weighedSlot 3 1, weighedSlot 2 1] = (5, 2) :=
  ⟨(weighed_truly_iff _).mpr (Or.inl (by decide +kernel)), by decide +kernel⟩

theorem least_weight_after_zero :
    let slots := [weighedSlot 0 1, weighedSlot 2 1]
    sumSlotWeights weighingCycle.lib true slots = (2, 2) ∧
      sumSlotWeights weighingCycle.lib true slots.reverse = (2, 0) ∧
      weighingCycle.slotWeightOf (weighedSlot 0 1) = 0 ∧
      weighingCycle.skips (weighingCycle.setup 0 [] ⟨slots, [], none⟩)
        ⟨0, ⟨[]⟩, [], [], [], [], 1, 0, 0, 0, 0, 0, false, 0, 0, true, [], false, false⟩
        { spin := 2, groupusage := 0, pieLeft := 1, maxPrio := 1, normalFactor := 1
          slotWeightTotal := 2, prios := fun _ => 1, ignoreSubmitterLimit := false } 1 1 0 =
        some .resume := by
  decide +kernel

end GolangCollector.Negotiator
