import GolangCollector.Lib.GoMap
import GolangCollector.Negotiator.Types

/-! # The cycle's view of the slots

Every slot of the trimmed snapshot starts live; `Consume` takes a matched slot out of the view,
unless it is partitionable (`matchmaker/slotview.go`). The canonical scan order is that of the
snapshot. The structure carries its own shape, so that an index is valid in all three lists or in
none, and the counter of live slots is their number. -/

namespace GolangCollector.Negotiator

open GoStrings List

structure CandRef where
  idx : ℕ
  slot : ClassAd
  deriving DecidableEq, Repr

/-- **`SlotView`**: the slots, and which of them are live. -/
structure SlotView where
  slots : List ClassAd
  live : List Bool
  pslot : List Bool
  nlive : ℤ
  /-- The claim ids, by the slot's name and address; none for a nil map. -/
  claimIDs : Option (GoMap Text Text)
  live_length : live.length = slots.length
  pslot_length : pslot.length = slots.length
  nlive_eq : nlive = live.count true

namespace SlotView

variable {F : Type} (lib : MatchLibrary F) (sv : SlotView)

def new (slots : List ClassAd) (claimIDs : Option (GoMap Text Text)) : SlotView where
  slots := slots
  live := List.replicate slots.length true
  pslot := slots.map fun slot => lib.evaluateAttrTrue slot "PartitionableSlot"
  nlive := slots.length
  claimIDs := claimIDs
  live_length := List.length_replicate
  pslot_length := List.length_map _
  nlive_eq := by simp

def len : ℤ := sv.nlive

def isLive (i : ℕ) : Bool := sv.live[i]? == some true

def isPslot (i : ℕ) : Bool := sv.pslot[i]? == some true

def gather : List CandRef :=
  sv.slots.zipIdx.filterMap fun p => if sv.isLive p.2 then some ⟨p.2, p.1⟩ else none

def consume (i : ℕ) : SlotView :=
  if h : sv.isLive i ∧ ¬ sv.isPslot i then
    { sv with
      live := sv.live.set i false
      nlive := sv.nlive - 1
      live_length := by rw [List.length_set, sv.live_length]
      nlive_eq := by
        have hi : sv.live[i]? = some true := by simpa [isLive] using h.1
        obtain ⟨hlt, hget⟩ := List.getElem?_eq_some_iff.mp hi
        have hpos : 0 < sv.live.count true := List.count_pos_iff.mpr (hget ▸ List.getElem_mem hlt)
        rw [List.count_set hlt, hget, sv.nlive_eq]
        have hfalse : (false == true) = false := rfl
        simp only [beq_self_eq_true, if_true, hfalse, Bool.false_eq_true, if_false]
        omega }
  else sv

def claimID (slot : ClassAd) : Option Text :=
  match sv.claimIDs with
  | none => none
  | some ids =>
    match lib.evaluateAttrString slot "Name",
        lib.evaluateAttrString slot "StartdIpAddr" with
    | some name, some addr => ids.lookup (name ++ addr)
    | _, _ => none

/-! ## What consuming changes -/

variable {sv} {i j : ℕ}

@[simp] theorem consume_slots : (sv.consume i).slots = sv.slots := by
  rw [consume]
  split <;> rfl

@[simp] theorem consume_isPslot : (sv.consume i).isPslot j = sv.isPslot j := by
  rw [consume]
  split <;> rfl

@[simp] theorem consume_claimID (slot : ClassAd) :
    (sv.consume i).claimID lib slot = sv.claimID lib slot := by
  rw [consume]
  split <;> rfl

theorem consume_isLive :
    (sv.consume i).isLive j = (sv.isLive j && (j ≠ i || sv.isPslot i)) := by
  rw [consume]
  split
  · next h =>
    by_cases hij : j = i
    · subst hij
      have hlt : j < sv.live.length := by
        have hj : sv.live[j]? = some true := by simpa [isLive] using h.1
        exact (List.getElem?_eq_some_iff.mp hj).1
      simp [isLive, h.2, hlt]
    · simp [isLive, hij, Ne.symm hij]
  · next h =>
    by_cases hij : j = i
    · subst hij
      cases hl : sv.isLive j <;> simp_all
    · simp [hij]

theorem new_isLive (slots : List ClassAd) (claimIDs : Option (GoMap Text Text)) :
    (new lib slots claimIDs).isLive i = decide (i < slots.length) := by
  by_cases h : i < slots.length <;> simp [isLive, new, h]

theorem mem_gather_iff {c : CandRef} :
    c ∈ sv.gather ↔ sv.slots[c.idx]? = some c.slot ∧ sv.isLive c.idx := by
  obtain ⟨idx, slot⟩ := c
  simp only [gather, mem_filterMap, Prod.exists]
  constructor
  · rintro ⟨slot', idx', hmem, hif⟩
    split at hif
    · next hlive =>
      cases hif
      exact ⟨mk_mem_zipIdx_iff_getElem?.mp hmem, hlive⟩
    · cases hif
  · rintro ⟨hslot, hlive⟩
    exact ⟨slot, idx, mk_mem_zipIdx_iff_getElem?.mpr hslot, by simp [hlive]⟩

theorem gather_pairwise : sv.gather.Pairwise fun a b => a.idx < b.idx := by
  rw [gather, pairwise_filterMap]
  have hidx : sv.slots.zipIdx.Pairwise fun p q => p.2 < q.2 := by
    have hrange : (range' 0 sv.slots.length).Pairwise (· < ·) := pairwise_lt_range'
    rwa [← zipIdx_map_snd, pairwise_map] at hrange
  refine hidx.imp fun {p q} hpq a ha b hb => ?_
  split at ha
  · split at hb
    · cases ha
      cases hb
      exact hpq
    · cases hb
  · cases ha

end SlotView

end GolangCollector.Negotiator
