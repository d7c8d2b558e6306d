import GolangCollector.Lib.RoseTree
import Mathlib.Algebra.Order.BigOperators.Group.List

/-! # Handing an amount down a tree

Each node of a tree asks for an amount, and may or may not accept what is handed down to it. A node
caches what it and the nodes below it ask for, as far as they can be reached through nodes that
accept. Handing an amount down keeps the cache right, adds exactly that amount to what the nodes
have, and leaves the subtrees alone that do not accept anything. -/

namespace Handout

open RoseTree List

structure Ledger (α F κ : Type) where
  allocated : α → F
  requested : α → F
  subtreeRequested : α → F
  accepts : α → Bool
  rest : α → κ

namespace Ledger

variable {α F κ : Type} [AddCommGroup F] [LinearOrder F] (L : Ledger α F κ)

def childrenRequest (cs : List (RoseTree α)) : F :=
  (cs.map fun c => if L.accepts c.label then L.subtreeRequested c.label else 0).sum

def Cached (t : RoseTree α) : Prop :=
  ∀ n, Has t n → 0 ≤ L.requested n.label ∧
    L.subtreeRequested n.label = L.requested n.label + L.childrenRequest n.children

structure Granted (a a' : α) : Prop where
  rest : L.rest a' = L.rest a
  accepts : L.accepts a' = L.accepts a
  requested_nonneg : 0 ≤ L.requested a'
  allocated_le : L.allocated a ≤ L.allocated a'
  total : L.allocated a' + L.requested a' = L.allocated a + L.requested a

/-- **An amount has been handed down** to those who accept. -/
inductive Handed : RoseTree α → RoseTree α → Prop
  | node {a a' : α} {cs cs' : List (RoseTree α)} (hgranted : L.Granted a a')
      (hamount : L.subtreeRequested a - L.subtreeRequested a' =
        L.allocated a' - L.allocated a +
          ((cs.map fun c => L.subtreeRequested c.label).sum -
            (cs'.map fun c => L.subtreeRequested c.label).sum))
      (hbelow : List.Forall₂ Handed cs cs')
      (hclosed : List.Forall₂ (fun c c' => L.accepts c.label = false → c' = c) cs cs') :
      Handed (.node a cs) (.node a' cs')

inductive Reaches : RoseTree α → RoseTree α → Prop
  | refl (t : RoseTree α) : Reaches t t
  | child {t c n : RoseTree α} (hc : c ∈ t.children) (haccepts : L.accepts c.label = true)
      (h : Reaches c n) : Reaches t n

variable {L} {cs : List (RoseTree α)}

theorem cached_node {a : α} :
    L.Cached (.node a cs) ↔ (0 ≤ L.requested a ∧
      L.subtreeRequested a = L.requested a + L.childrenRequest cs) ∧ ∀ c ∈ cs, L.Cached c := by
  rw [Cached, forall_has_node]
  rfl

variable {t : RoseTree α}

theorem handed_refl (h : ∀ n, Has t n → 0 ≤ L.requested n.label) : L.Handed t t := by
  induction t using RoseTree.induction with
  | node a cs ih =>
    rw [forall_has_node] at h
    refine .node ⟨rfl, rfl, h.1, le_rfl, rfl⟩ ?_ ?_ ?_
    · rw [sub_self, sub_self, sub_self, add_zero]
    · exact forall₂_same.mpr fun c hc => ih c hc (h.2 c hc)
    · exact forall₂_same.mpr fun _ _ _ => rfl

omit [AddCommGroup F] [LinearOrder F] in
theorem forall₂_zipWith {R : RoseTree α → RoseTree α → Prop} {child : RoseTree α → F → RoseTree α}
    {xs : List F} (h : List.Forall₂ (fun c x => R c (child c x)) cs xs) :
    List.Forall₂ R cs (List.zipWith child cs xs) := by
  induction h with
  | nil => exact .nil
  | cons hc _ ih => exact .cons hc ih

def Hands (L : Ledger α F κ) (x : F) (t t' : RoseTree α) : Prop :=
  L.Handed t t' ∧ L.subtreeRequested t.label - L.subtreeRequested t'.label = x

theorem hands_zero (h : ∀ n, Has t n → 0 ≤ L.requested n.label) : L.Hands 0 t t :=
  ⟨handed_refl h, sub_self _⟩

variable {t t' : RoseTree α}

theorem Hands.relabel {x : F} {a : α} (h : L.Hands x t t') (hrest : L.rest a = L.rest t'.label)
    (haccepts : L.accepts a = L.accepts t'.label)
    (hallocated : L.allocated a = L.allocated t'.label)
    (hrequested : L.requested a = L.requested t'.label)
    (hsubtree : L.subtreeRequested a = L.subtreeRequested t'.label) :
    L.Hands x t (.node a t'.children) := by
  obtain ⟨hhanded, hamount⟩ := h
  cases hhanded with
  | node hgranted hsum hbelow hclosed =>
    rw [label_node] at hrest haccepts hallocated hrequested hsubtree
    refine ⟨.node ⟨hrest.trans hgranted.rest, haccepts.trans hgranted.accepts, ?_, ?_, ?_⟩ ?_
      hbelow hclosed, ?_⟩
    · rw [hrequested]
      exact hgranted.requested_nonneg
    · rw [hallocated]
      exact hgranted.allocated_le
    · rw [hallocated, hrequested]
      exact hgranted.total
    · rw [hallocated, hsubtree]
      exact hsum
    · rw [label_node, label_node, hsubtree]
      exact hamount

def handChild (hand : RoseTree α → F → RoseTree α) (c : RoseTree α) (x : F) : RoseTree α :=
  if 0 < x then hand c x else c

theorem hands_child {hand : RoseTree α → F → RoseTree α} {c : RoseTree α} (hc : L.Cached c) {x : F}
    (hx : 0 ≤ x) (hle : x ≤ if L.accepts c.label then L.subtreeRequested c.label else 0)
    (hhand : 0 < x → x ≤ L.subtreeRequested c.label → L.Hands x c (hand c x)) :
    L.Hands x c (handChild hand c x) ∧ (L.accepts c.label = false → handChild hand c x = c) := by
  rw [handChild]
  split_ifs with hpos
  · cases haccept : L.accepts c.label with
    | false =>
      rw [haccept] at hle
      exact absurd hpos (not_lt.mpr hle)
    | true =>
      rw [haccept, if_pos rfl] at hle
      exact ⟨hhand hpos hle, nofun⟩
  · rw [le_antisymm (not_lt.mp hpos) hx]
    exact ⟨hands_zero fun n hn => (hc n hn).1, fun _ => rfl⟩

theorem hands_zipWith {a a' : α} {xs : List F} {own : F}
    {child : RoseTree α → F → RoseTree α} (hgranted : L.Granted a a')
    (hown : L.allocated a' = L.allocated a + own)
    (hamount : L.subtreeRequested a' = L.subtreeRequested a - (xs.sum + own))
    (hchild : List.Forall₂ (fun c x => L.Hands x c (child c x) ∧
      (L.accepts c.label = false → child c x = c)) cs xs) :
    L.Hands (xs.sum + own) (.node a cs) (.node a' (List.zipWith child cs xs)) := by
  refine ⟨.node hgranted ?_ (forall₂_zipWith (hchild.imp fun _ _ h => h.1.1))
    (forall₂_zipWith (hchild.imp fun _ _ h => h.2)), ?_⟩
  · have hsum : (cs.map fun c => L.subtreeRequested c.label).sum -
        ((zipWith child cs xs).map fun c => L.subtreeRequested c.label).sum = xs.sum := by
      clear hamount
      induction hchild with
      | nil => simp
      | cons hc _ ih =>
        simp only [zipWith_cons_cons, map_cons, sum_cons]
        rw [add_sub_add_comm, hc.1.2, ih]
    rw [hsum, hown, hamount, sub_sub_cancel, add_sub_cancel_left, add_comm]
  · rw [label_node, label_node, hamount, sub_sub_cancel]

theorem Handed.granted (h : L.Handed t t') : L.Granted t.label t'.label := by
  cases h with
  | node hgranted hamount hbelow hclosed => exact hgranted

theorem Handed.forall₂ (h : L.Handed t t') : RoseTree.Forall₂ L.Granted t t' := by
  induction t using RoseTree.induction generalizing t' with
  | node a cs ih =>
    cases h with
    | node hgranted hamount hbelow hclosed =>
      exact .node hgranted
        (((forall₂_and_left _ _).mpr ⟨ih, hbelow⟩).imp fun _ _ h => h.1 h.2)

theorem Handed.total_allocated (h : L.Handed t t') :
    t'.total L.allocated = t.total L.allocated +
      (L.subtreeRequested t.label - L.subtreeRequested t'.label) := by
  induction t using RoseTree.induction generalizing t' with
  | node a cs ih =>
    cases h with
    | @node _ a' _ cs' hgranted hamount hbelow hclosed =>
      have hsum : (cs'.map (total L.allocated)).sum = (cs.map (total L.allocated)).sum +
          ((cs.map fun c => L.subtreeRequested c.label).sum -
            (cs'.map fun c => L.subtreeRequested c.label).sum) := by
        clear hamount hclosed
        induction hbelow with
        | nil => simp
        | cons hc _ ihs =>
          rw [forall_mem_cons] at ih
          simp only [map_cons, sum_cons, ih.1 hc, ihs ih.2]
          abel
      rw [total_node, total_node, hsum, label_node, label_node, hamount]
      abel

theorem Handed.cached (h : L.Handed t t') (ht : L.Cached t) : L.Cached t' := by
  induction t using RoseTree.induction generalizing t' with
  | node a cs ih =>
    cases h with
    | @node _ a' _ cs' hgranted hamount hbelow hclosed =>
      rw [cached_node] at ht ⊢
      -- a child that does not accept is as it was
      have hsum : L.childrenRequest cs - L.childrenRequest cs' =
          (cs.map fun c => L.subtreeRequested c.label).sum -
            (cs'.map fun c => L.subtreeRequested c.label).sum := by
        clear hamount ih ht
        simp only [childrenRequest]
        induction hbelow with
        | nil => simp
        | @cons c c' _ _ hc _ ihs =>
          cases hclosed with
          | cons hclosed hrest =>
            have hchild : (if L.accepts c.label then L.subtreeRequested c.label else 0) -
                (if L.accepts c'.label then L.subtreeRequested c'.label else 0) =
                L.subtreeRequested c.label - L.subtreeRequested c'.label := by
              rw [hc.granted.accepts]
              split_ifs with haccepts
              · rfl
              · rw [hclosed (by simpa using haccepts), sub_self, sub_self]
            simp only [map_cons, sum_cons]
            rw [add_sub_add_comm, add_sub_add_comm, hchild, ihs hrest]
      refine ⟨⟨hgranted.requested_nonneg, ?_⟩, ?_⟩
      · calc L.subtreeRequested a'
            = L.subtreeRequested a - (L.subtreeRequested a - L.subtreeRequested a') := by abel
          _ = L.requested a + L.childrenRequest cs - (L.allocated a' - L.allocated a +
                (L.childrenRequest cs - L.childrenRequest cs')) := by
              rw [hamount, hsum, ht.1.2]
          _ = L.allocated a + L.requested a - L.allocated a' + L.childrenRequest cs' := by abel
          _ = L.requested a' + L.childrenRequest cs' := by
              rw [← hgranted.total, add_sub_cancel_left]
      · intro c' hc'
        obtain ⟨c, hc, hhanded⟩ := exists_of_mem_right hbelow hc'
        exact ih c hc hhanded (ht.2 c hc)

theorem Handed.has_of_not_accepts {t t' c' n : RoseTree α} (h : L.Handed t t')
    (hc' : c' ∈ t'.children) (hn : Has c' n) (haccepts : L.accepts n.label = false) :
    ∃ c ∈ t.children, Has c n := by
  induction t using RoseTree.induction generalizing t' c' with
  | node a cs ih =>
    cases h with
    | @node _ a' _ cs' hgranted hamount hbelow hclosed =>
      have hboth : Forall₂ (fun c c' => L.Handed c c' ∧
          (L.accepts c.label = false → c' = c)) cs cs' :=
        hbelow.mp (fun _ _ h h' => ⟨h, h'⟩) hclosed
      obtain ⟨c, hc, hhanded, hsame⟩ := exists_of_mem_right hboth hc'
      refine ⟨c, hc, ?_⟩
      cases hopen : L.accepts c.label with
      | false =>
        rw [hsame hopen] at hn
        exact hn
      | true =>
        obtain rfl | ⟨d', hd', hn⟩ := has_iff.mp hn
        · -- the child accepts, as it did before
          rw [hhanded.granted.accepts, hopen] at haccepts
          cases haccepts
        · obtain ⟨d, hd, hn⟩ := ih c hc hhanded hd' hn
          exact .child hd hn

section

variable [IsOrderedAddMonoid F]

theorem childrenRequest_nonneg (h : ∀ c ∈ cs, 0 ≤ L.subtreeRequested c.label) :
    0 ≤ L.childrenRequest cs := by
  refine sum_nonneg fun x hx => ?_
  obtain ⟨c, hc, rfl⟩ := mem_map.mp hx
  split_ifs
  · exact h c hc
  · exact le_rfl

theorem Cached.subtreeRequested_nonneg (h : L.Cached t) : 0 ≤ L.subtreeRequested t.label := by
  induction t using RoseTree.induction with
  | node a cs ih =>
    rw [cached_node] at h
    rw [label_node, h.1.2]
    exact add_nonneg h.1.1 (childrenRequest_nonneg fun c hc => ih c hc (h.2 c hc))

theorem Cached.requested_eq_zero {t n : RoseTree α} (h : L.Cached t)
    (hzero : L.subtreeRequested t.label = 0) (hn : L.Reaches t n) : L.requested n.label = 0 := by
  have hboth : ∀ t : RoseTree α, L.Cached t → L.subtreeRequested t.label = 0 →
      L.requested t.label = 0 ∧ L.childrenRequest t.children = 0 := by
    intro t ht hzero
    obtain ⟨hrequested, hcache⟩ := ht t (.refl t)
    refine (add_eq_zero_iff_of_nonneg hrequested (childrenRequest_nonneg fun c hc => ?_)).mp
      (hcache.symm.trans hzero)
    exact Cached.subtreeRequested_nonneg fun n hn => ht n (.child hc hn)
  induction hn with
  | refl t => exact (hboth t h hzero).1
  | @child t c n hc haccepts _ ih =>
    have hbelow : ∀ c ∈ t.children, L.Cached c := fun c hc n hn => h n (.child hc hn)
    refine ih (hbelow c hc) (le_antisymm ?_ (hbelow c hc).subtreeRequested_nonneg)
    rw [← (hboth t h hzero).2]
    refine single_le_sum (fun x hx => ?_) _ (mem_map.mpr ⟨c, hc, if_pos haccepts⟩)
    obtain ⟨d, hd, rfl⟩ := mem_map.mp hx
    split_ifs
    · exact (hbelow d hd).subtreeRequested_nonneg
    · exact le_rfl

end

end Ledger

end Handout
