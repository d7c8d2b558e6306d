import GolangCollector.Accountant.Surplus
import GolangCollector.Lib.RoundRobin
import Mathlib.Data.Rat.Floor

/-! # Whole slots

Where slots have no weights, `recoverRemainders` takes the fractions of slots back from all groups,
and `roundRobin` hands them out again as whole slots, first to those who have waited longest
(`accountant/groupalloc.go`). The model keeps a log of the counts that are divided by and of the
running surplus. Arithmetic is exact. -/

namespace GolangCollector.Accountant

open RoseTree Sharing Handout Handout.Ledger List

variable {F : Type} [Field F] [LinearOrder F] [IsStrictOrderedRing F] [FloorRing F]

/-! ## The model -/

def maxFloat64 : F := (2 ^ 53 - 1) * 2 ^ 971

def roundForPrecision (x : F) : F := ⌊1 / 2 + x⌋

def rrLess (x y : GroupState F) : Bool :=
  if x.subtreeRRTime < y.subtreeRRTime then true
  else if y.subtreeRRTime < x.subtreeRRTime then false
  else if y.subtreeQuota < x.subtreeQuota then true
  else if x.subtreeQuota < y.subtreeQuota then false
  else y.subtreeRequested < x.subtreeRequested

def shareSlots (groups : List (GroupState F)) (surplus requested : F) :
    Robin (GroupState F × ℕ) F :=
  let bids := groups.zipIdx.map fun p => ⟨p, p.1.wants, 0⟩
  let idx := bids.insertionSort fun b c => !rrLess c.who.1 b.who.1
  robin ⟨⟨idx, surplus, requested⟩, waiting bids, []⟩

def markServed (t : GroupTree F) : GroupTree F := .node { t.label with rr := true } t.children

mutual

def roundRobin : GroupTree F → F → GroupTree F × F × List (Observation F)
  | .node n children, surplus =>
    let n := { n with subtreeRequested := (⌊n.subtreeRequested⌋ : F) }
    if n.subtreeRequested ≤ 0 then (.node n children, surplus, [])
    else if surplus < 1 then (.node n children, surplus, [])
    else
      let self := { n with
        acceptSurplus := true
        subtreeQuota := n.quota
        subtreeRRTime := n.rrTime
        subtreeRequested := n.requested }
      let shared := shareSlots (children.map label ++ [self]) surplus n.subtreeRequested
      let allocated := (byNumber shared.bids).map Bid.gets
      let own := allocated.getLastD 0
      let below := roundRobinChildren children allocated
      (.node { self with
          allocated := n.allocated + own
          requested := n.requested - own
          subtreeRequested := shared.requested
          acceptSurplus := n.acceptSurplus
          subtreeQuota := n.subtreeQuota
          subtreeRRTime := n.subtreeRRTime
          rr := n.rr || 0 < own }
        (below.map Prod.fst), shared.surplus, shared.log ++ (below.map Prod.snd).flatten)

def roundRobinChildren : List (GroupTree F) → List F → List (GroupTree F × List (Observation F))
  | [], _ => []
  | c :: cs, [] => (c, []) :: roundRobinChildren cs []
  | c :: cs, x :: xs =>
    let served := roundRobin c x
    (if 0 < x then (markServed served.1, served.2.2) else (c, [])) :: roundRobinChildren cs xs

end

def wholeShare (n : GroupState F) : GroupState F :=
  let surplus := n.allocated - (⌊n.allocated⌋ : F)
  let allocated := roundForPrecision (n.allocated - surplus)
  let requested := roundForPrecision (n.requested + surplus)
  { n with
    allocated
    requested
    subtreeRequested := requested
    subtreeRRTime := if 0 < requested then n.rrTime else maxFloat64 }

mutual

def recoverRemainders : GroupTree F → GroupTree F × F × List (Observation F)
  | .node n children =>
    let surplus := n.allocated - (⌊n.allocated⌋ : F)
    let n := wholeShare n
    if children.isEmpty then (.node n children, surplus, [.running surplus])
    else
      let below := recoverChildren children
      let trees := below.map Prod.fst
      let sums := List.scanl (· + ·) surplus (below.map fun c => c.2.1)
      let n := { n with
        subtreeRequested := n.subtreeRequested + (trees.map fun c =>
          if c.label.acceptSurplus then c.label.subtreeRequested else 0).sum
        subtreeRRTime := trees.foldl (fun t c =>
          if c.label.acceptSurplus ∧ 0 < c.label.subtreeRequested then min t c.label.subtreeRRTime
          else t) n.subtreeRRTime }
      let (root, left, log) :=
        roundRobin (.node n trees) (surplus + (below.map fun c => c.2.1).sum)
      (root, left, (below.map fun c => c.2.2).flatten ++ sums.map .running ++ log)

def recoverChildren : List (GroupTree F) → List (GroupTree F × F × List (Observation F))
  | [] => []
  | c :: cs => recoverRemainders c :: recoverChildren cs

end

theorem recoverChildren_eq (cs : List (GroupTree F)) :
    recoverChildren cs = cs.map recoverRemainders := by
  induction cs with
  | nil => rw [recoverChildren, map_nil]
  | cons c cs ih => rw [recoverChildren, ih, map_cons]

/-! ## Slots in turn -/

omit [IsStrictOrderedRing F] [FloorRing F] in
theorem whole_wants {grp : GroupState F} (h : Whole grp.subtreeRequested) : Whole grp.wants := by
  rw [GroupState.wants]
  split_ifs
  · exact h
  · exact whole_zero

omit [IsStrictOrderedRing F] in
theorem eq_min_floor [IsStrictOrderedRing F] {x surplus requested : F} (hx : Whole x)
    (hle : x ≤ surplus) (hle' : x ≤ requested) (h : surplus - x < 1 ∨ requested ≤ x) :
    x = min (⌊surplus⌋ : F) requested := by
  obtain ⟨k, rfl⟩ := hx
  have hfloor : k ≤ ⌊surplus⌋ := Int.le_floor.mpr hle
  refine le_antisymm (le_min (by exact_mod_cast hfloor) hle') ?_
  obtain hleft | hmet := h
  · refine (min_le_left _ _).trans ?_
    have hlt : ⌊surplus⌋ < k + 1 := Int.floor_lt.mpr (by push_cast; linarith)
    exact_mod_cast Int.lt_add_one_iff.mp hlt
  · exact (min_le_right _ _).trans hmet

theorem shareSlots_spec {groups : List (GroupState F)} {surplus requested : F}
    (hsurplus : 0 ≤ surplus) (hdue : (groups.map GroupState.wants).sum = requested)
    (hwhole : ∀ grp ∈ groups, Whole grp.subtreeRequested) :
    List.Forall₂ (fun grp x => 0 ≤ x ∧ x ≤ grp.wants ∧ Whole x) groups
        ((byNumber (shareSlots groups surplus requested).bids).map Bid.gets) ∧
      ((byNumber (shareSlots groups surplus requested).bids).map Bid.gets).sum =
        min (⌊surplus⌋ : F) requested ∧
      (shareSlots groups surplus requested).surplus = surplus - min (⌊surplus⌋ : F) requested ∧
      (shareSlots groups surplus requested).requested =
        requested - min (⌊surplus⌋ : F) requested ∧
      ∀ o ∈ (shareSlots groups surplus requested).log, o.Sound := by
  set bids : List (Bid (GroupState F × ℕ) F) := groups.zipIdx.map fun p => ⟨p, p.1.wants, 0⟩
    with hbids
  set idx := bids.insertionSort fun b c => !rrLess c.who.1 b.who.1 with hidx
  have hperm : idx.Perm bids := perm_insertionSort _ _
  set r : Robin (GroupState F × ℕ) F := ⟨⟨idx, surplus, requested⟩, waiting bids, []⟩ with hr
  have hshare : shareSlots groups surplus requested = robin r := rfl
  rw [hshare]
  have hfst : groups.zipIdx.map Prod.fst = groups := zipIdx_map_fst 0 groups
  have hstart : ∀ b ∈ idx, b.wants = b.who.1.wants ∧ b.gets = 0 ∧ b.who.1 ∈ groups := by
    intro b hb
    obtain ⟨p, hp, rfl⟩ := mem_map.mp (hperm.mem_iff.mp hb)
    refine ⟨rfl, rfl, ?_⟩
    rw [← hfst]
    exact mem_map_of_mem hp
  have hpaididx : paid idx = 0 :=
    sum_eq_zero (forall_mem_map.mpr fun b hb => (hstart b hb).2.1)
  have hdueidx : due idx = requested := by
    refine (hperm.map _).sum_eq.trans ?_
    rw [← hdue, ← hfst, List.map_map, List.map_map]
    rfl
  have hinv : r.Inv := by
    refine ⟨fun b hb => ?_, hsurplus, hdueidx.symm, .inl (hperm.countP_eq _).symm,
      forall_mem_nil _⟩
    obtain ⟨hwants, hgets, hmem⟩ := hstart b hb
    rw [hwants, hgets]
    exact ⟨b.who.1.wants_nonneg, whole_wants (hwhole _ hmem), whole_zero⟩
  obtain ⟨hend, hserved, hpaid, hstop⟩ := robin_spec hinv
  have hnonneg := hend.nonneg
  have hrequested := hend.requested
  have htotal := paid_add_due hserved
  set bids' := (robin r).bids
  -- in the order of the groups again
  have hwho : (byNumber bids').map (fun b => b.who.1) = groups := by
    have hnumbered : (bids'.map Bid.who).Perm groups.zipIdx := by
      rw [map_who_eq hserved]
      refine (hperm.map _).trans (.of_eq ?_)
      rw [hbids, List.map_map]
      exact map_id _
    rw [← hfst, ← map_who_byNumber hnumbered, List.map_map]
    rfl
  have hgets : ∀ b ∈ bids', 0 ≤ b.gets ∧ b.gets ≤ b.who.1.wants ∧ Whole b.gets := by
    intro b' hb'
    obtain ⟨b, hb, x, hx, hle, rfl⟩ := exists_of_mem_right hserved hb'
    obtain ⟨hwants, hgets, -⟩ := hstart b hb
    have hx' : (b.give x).gets = x := by rw [Bid.give, hgets, zero_add]
    rw [hx']
    exact ⟨hx, hle.trans_eq hwants, hx' ▸ (hend.bids _ hb').2.2⟩
  have hmem : ∀ b ∈ byNumber bids', b ∈ bids' := fun b hb => (mem_insertionSort _).mp hb
  have hsum : ((byNumber bids').map Bid.gets).sum = paid bids' :=
    ((perm_insertionSort _ bids').map _).sum_eq
  have hdue' : 0 ≤ due bids' := due_nonneg fun b hb => (hend.bids b hb).1
  rw [hpaididx, zero_add] at hpaid htotal
  rw [hdueidx] at htotal
  change paid bids' + (robin r).surplus = surplus at hpaid
  have hamount : paid bids' = min (⌊surplus⌋ : F) requested := by
    refine eq_min_floor (whole_sum (forall_mem_map.mpr fun b hb => (hgets b hb).2.2)) ?_ ?_ ?_
    · linarith
    · linarith
    · refine hstop.imp (fun h => ?_) fun h => ?_
      · exact (eq_sub_of_add_eq' hpaid) ▸ h
      · linarith
  refine ⟨?_, hsum.trans hamount, ?_, ?_, hend.sound⟩
  · nth_rewrite 1 [← hwho]
    refine forall₂_map_left_iff.mpr (forall₂_map_right_iff.mpr ?_)
    exact forall₂_same.mpr fun b hb => hgets b (hmem b hb)
  · rw [← hamount]
    exact eq_sub_of_add_eq' hpaid
  · rw [← hamount, hrequested]
    exact eq_sub_of_add_eq' htotal

/-! ## Slots are handed down -/

def Slots (t : GroupTree F) : Prop :=
  ∀ n, Has t n → Whole n.label.allocated ∧ Whole n.label.requested

variable {cs : List (GroupTree F)} {n : GroupState F}

omit [LinearOrder F] [IsStrictOrderedRing F] [FloorRing F] in
theorem slots_node :
    Slots (.node n cs) ↔ (Whole n.allocated ∧ Whole n.requested) ∧ ∀ c ∈ cs, Slots c := by
  rw [Slots, forall_has_node]
  rfl

variable {t : GroupTree F}

omit [IsStrictOrderedRing F] [FloorRing F] in
theorem Slots.whole_subtreeRequested (h : Slots t) (ht : ledger.Cached t) :
    Whole t.label.subtreeRequested := by
  induction t using RoseTree.induction with
  | node n cs ih =>
    rw [slots_node] at h
    rw [cached_node] at ht
    have hcache : n.subtreeRequested = n.requested + ledger.childrenRequest cs := ht.1.2
    rw [label_node, hcache]
    refine h.1.2.add (whole_sum (forall_mem_map.mpr fun c hc => ?_))
    split_ifs
    · exact ih c hc (h.2 c hc) (ht.2 c hc)
    · exact whole_zero

omit [LinearOrder F] [IsStrictOrderedRing F] [FloorRing F] in
theorem Slots.markServed (h : Slots t) : Slots (markServed t) := by
  cases t with
  | node n cs =>
    rw [slots_node] at h
    exact slots_node.mpr h

def serveChild (c : GroupTree F) (x : F) : GroupTree F × List (Observation F) :=
  if 0 < x then (markServed (roundRobin c x).1, (roundRobin c x).2.2) else (c, [])

theorem roundRobinChildren_append {R : GroupTree F → F → Prop} {xs : List F}
    (h : List.Forall₂ R cs xs) (ys : List F) :
    roundRobinChildren cs (xs ++ ys) = List.zipWith serveChild cs xs := by
  induction h with
  | nil => rw [roundRobinChildren, zipWith_nil_left]
  | cons _ _ ih => rw [cons_append, roundRobinChildren, ih, zipWith_cons_cons]; rfl

theorem serveChild_fst (c : GroupTree F) (x : F) :
    (serveChild c x).1 = handChild (fun c x => markServed (roundRobin c x).1) c x := by
  rw [serveChild, handChild]
  split_ifs <;> rfl

structure HandsSlots (t : GroupTree F) (surplus : F)
    (r : GroupTree F × F × List (Observation F)) : Prop where
  hands : ledger.Hands (min (⌊surplus⌋ : F) t.label.subtreeRequested) t r.1
  left : r.2.1 = surplus - min (⌊surplus⌋ : F) t.label.subtreeRequested
  slots : Slots r.1
  sound : ∀ o ∈ r.2.2, o.Sound

theorem roundRobin_spec (ht : ledger.Cached t) (hslots : Slots t) {surplus : F}
    (hsurplus : 0 ≤ surplus) : HandsSlots t surplus (roundRobin t surplus) := by
  induction t using RoseTree.induction generalizing surplus with
  | node n cs ih =>
    have hnonneg : 0 ≤ n.subtreeRequested := ht.subtreeRequested_nonneg
    have hzero : ledger.Hands 0 (.node n cs) (.node n cs) := hands_zero fun m hm => (ht m hm).1
    have hfloor : (⌊n.subtreeRequested⌋ : F) = n.subtreeRequested :=
      (hslots.whole_subtreeRequested ht).floor
    have hreturn : min (⌊surplus⌋ : F) n.subtreeRequested = 0 →
        HandsSlots (.node n cs) surplus (.node n cs, surplus, []) := fun hmin =>
      ⟨by rw [label_node, hmin]; exact hzero, by rw [label_node, hmin, sub_zero], hslots,
        forall_mem_nil _⟩
    rw [roundRobin, hfloor]
    dsimp only
    split_ifs with hmet hnone
    · refine hreturn ?_
      rw [le_antisymm hmet hnonneg]
      exact min_eq_right (by exact_mod_cast Int.floor_nonneg.mpr hsurplus)
    · refine hreturn ?_
      rw [Int.floor_eq_zero_iff.mpr ⟨hsurplus, hnone⟩, Int.cast_zero]
      exact min_eq_left hnonneg
    have hcs : ∀ c ∈ cs, ledger.Cached c := (cached_node.mp ht).2
    have hslotscs := slots_node.mp hslots
    set self := { n with
      acceptSurplus := true, subtreeQuota := n.quota, subtreeRRTime := n.rrTime
      subtreeRequested := n.requested } with hself
    have hwhole : ∀ grp ∈ cs.map label ++ [self], Whole grp.subtreeRequested := by
      rw [forall_mem_append, forall_mem_map, forall_mem_singleton]
      exact ⟨fun c hc => (hslotscs.2 c hc).whole_subtreeRequested (hcs c hc), hslotscs.1.2⟩
    obtain ⟨hshares, hsum, hleft, hrequested, hsound⟩ :=
      shareSlots_spec hsurplus (sum_wants ht (rfl : self.acceptSurplus = true) rfl) hwhole
    set shared := shareSlots (cs.map label ++ [self]) surplus n.subtreeRequested
    -- the last share is the group's own
    obtain ⟨xs, own, hallocated, hxs, hown⟩ := forall₂_concat hshares
    rw [hallocated] at hsum ⊢
    rw [sum_append, sum_singleton] at hsum
    rw [forall₂_map_left_iff] at hxs
    rw [getLastD_concat, roundRobinChildren_append hxs, map_zipWith, map_zipWith]
    -- what a child is served is handed down in its subtree
    have hserve : Forall₂ (fun c x => (ledger.Hands x c (serveChild c x).1 ∧
        (c.label.acceptSurplus = false → (serveChild c x).1 = c)) ∧ Slots (serveChild c x).1 ∧
        ∀ o ∈ (serveChild c x).2, o.Sound) cs xs := by
      refine ((forall₂_and_left _ _).mpr ⟨fun c hc => hc, hxs⟩).imp fun c x ⟨hc, hx⟩ => ?_
      have hspec := ih c hc (hcs c hc) (hslotscs.2 c hc) hx.1
      refine ⟨?_, ?_⟩
      · rw [serveChild_fst]
        refine hands_child (hcs c hc) hx.1 (hx.2.1.trans (wants_label (hcs c hc)).le)
          fun _ hle => ?_
        have hhands := hspec.hands
        rw [hx.2.2.floor, min_eq_left (show x ≤ c.label.subtreeRequested from hle)] at hhands
        exact hhands.relabel rfl rfl rfl rfl rfl
      · rw [serveChild]
        split_ifs
        · exact ⟨hspec.slots.markServed, hspec.sound⟩
        · exact ⟨hslotscs.2 c hc, forall_mem_nil _⟩
    refine ⟨hsum ▸ hands_zipWith (granted_self ?_ hown.1 rfl rfl rfl rfl) rfl ?_
      (hserve.imp fun _ _ h => h.1), hleft, slots_node.mpr ⟨?_, ?_⟩, ?_⟩
    · exact hown.2.1.trans (wants_self ht rfl rfl).le
    · exact hrequested.trans (by rw [hsum]; rfl)
    · exact ⟨hslotscs.1.1.add hown.2.2, hslotscs.1.2.sub hown.2.2⟩
    · intro c' hc'
      obtain ⟨c, x, h, rfl⟩ := exists_of_mem_zipWith hserve hc'
      exact h.2.1
    · rw [forall_mem_append]
      refine ⟨hsound, fun o ho => ?_⟩
      obtain ⟨log, hlog, ho⟩ := mem_flatten.mp ho
      obtain ⟨c, x, h, rfl⟩ := exists_of_mem_zipWith hserve hlog
      exact h.2.2 o ho

/-! ## Fractions are recovered -/

structure WholeShare (g g' : GroupState F) : Prop where
  rest : ledger.rest g' = ledger.rest g
  requested_nonneg : 0 ≤ g'.requested
  floor_le : (⌊g.allocated⌋ : F) ≤ g'.allocated
  total : g'.allocated + g'.requested = (⌊g.allocated⌋ : F) +
    roundForPrecision (g.requested + (g.allocated - (⌊g.allocated⌋ : F)))

theorem roundForPrecision_intCast (k : ℤ) : roundForPrecision (k : F) = k := by
  rw [roundForPrecision, Int.floor_add_intCast]
  norm_num

theorem roundForPrecision_nonneg {x : F} (h : 0 ≤ x) : 0 ≤ roundForPrecision x := by
  rw [roundForPrecision]
  exact_mod_cast Int.floor_nonneg.mpr (by linarith)

theorem allocated_wholeShare (n : GroupState F) :
    (wholeShare n).allocated = (⌊n.allocated⌋ : F) := by
  change roundForPrecision (n.allocated - (n.allocated - (⌊n.allocated⌋ : F))) = _
  rw [sub_sub_cancel, roundForPrecision_intCast]

theorem wholeShare_wholeShare (h : 0 ≤ n.requested) : WholeShare n (wholeShare n) where
  rest := rfl
  requested_nonneg := by
    refine roundForPrecision_nonneg (add_nonneg h ?_)
    exact sub_nonneg.mpr (Int.floor_le _)
  floor_le := (allocated_wholeShare n).ge
  total := by
    rw [allocated_wholeShare]
    rfl

omit [IsStrictOrderedRing F] in
theorem WholeShare.granted {g g' g'' : GroupState F} (h : WholeShare g g')
    (h' : ledger.Granted g' g'') : WholeShare g g'' where
  rest := h'.rest.trans h.rest
  requested_nonneg := h'.requested_nonneg
  floor_le := h.floor_le.trans h'.allocated_le
  total := h'.total.trans h.total

/-- **What `recoverRemainders` leaves.** -/
structure Recovered (t : GroupTree F) (r : GroupTree F × F × List (Observation F)) : Prop where
  cached : ledger.Cached r.1
  slots : Slots r.1
  shares : RoseTree.Forall₂ WholeShare t r.1
  total : r.1.total (·.allocated) + r.2.1 = t.total (·.allocated)
  nonneg : 0 ≤ r.2.1
  met : 1 ≤ r.2.1 → r.1.label.subtreeRequested = 0
  sound : ∀ o ∈ r.2.2, o.Sound

def floored (n : GroupState F) (cs : List (GroupTree F)) : GroupTree F :=
  .node { wholeShare n with
      subtreeRequested := (wholeShare n).subtreeRequested +
        ledger.childrenRequest (cs.map fun c => (recoverRemainders c).1)
      subtreeRRTime := (cs.map fun c => (recoverRemainders c).1).foldl (fun t c =>
        if c.label.acceptSurplus ∧ 0 < c.label.subtreeRequested then min t c.label.subtreeRRTime
        else t) (wholeShare n).subtreeRRTime }
    (cs.map fun c => (recoverRemainders c).1)

def fractions (n : GroupState F) (cs : List (GroupTree F)) : F :=
  n.allocated - (⌊n.allocated⌋ : F) + (cs.map fun c => (recoverRemainders c).2.1).sum

theorem recoverRemainders_of_children (n : GroupState F) (hcs : cs ≠ []) :
    recoverRemainders (.node n cs) =
      ((roundRobin (floored n cs) (fractions n cs)).1,
        (roundRobin (floored n cs) (fractions n cs)).2.1,
        (cs.map fun c => (recoverRemainders c).2.2).flatten ++
          (List.scanl (· + ·) (n.allocated - (⌊n.allocated⌋ : F))
            (cs.map fun c => (recoverRemainders c).2.1)).map .running ++
          (roundRobin (floored n cs) (fractions n cs)).2.2) := by
  have hnot : ¬ cs.isEmpty = true := fun h => hcs (isEmpty_iff.mp h)
  rw [recoverRemainders]
  dsimp only
  rw [if_neg hnot, recoverChildren_eq]
  simp only [List.map_map, floored, fractions, childrenRequest]
  rfl

omit [FloorRing F] in
theorem scanl_nonneg {x : F} (hx : 0 ≤ x) {xs : List F} (hxs : ∀ y ∈ xs, 0 ≤ y) :
    ∀ y ∈ List.scanl (· + ·) x xs, 0 ≤ y := by
  induction xs generalizing x with
  | nil => simpa using hx
  | cons y xs ih =>
    rw [forall_mem_cons] at hxs
    rw [scanl_cons, forall_mem_cons]
    exact ⟨hx, ih (add_nonneg hx hxs.1) hxs.2⟩

omit [IsStrictOrderedRing F] in
theorem whole_wholeShare (n : GroupState F) :
    Whole (wholeShare n).allocated ∧ Whole (wholeShare n).requested :=
  ⟨whole_intCast _, whole_intCast _⟩

theorem fraction_nonneg (n : GroupState F) : 0 ≤ n.allocated - (⌊n.allocated⌋ : F) :=
  sub_nonneg.mpr (Int.floor_le _)

theorem recovered_leaf (h : 0 ≤ n.requested) :
    Recovered (.node n []) (recoverRemainders (.node n [])) where
  cached := cached_node.mpr
    ⟨⟨(wholeShare_wholeShare h).requested_nonneg, (add_zero _).symm⟩, List.forall_mem_nil _⟩
  slots := slots_node.mpr ⟨whole_wholeShare n, List.forall_mem_nil _⟩
  shares := .node (wholeShare_wholeShare h) .nil
  total := by
    change (RoseTree.node (wholeShare n) []).total (·.allocated) +
      (n.allocated - (⌊n.allocated⌋ : F)) = _
    rw [total_node, total_node, allocated_wholeShare]
    simp
  nonneg := fraction_nonneg n
  met hone := absurd hone (not_le.mpr (sub_lt_iff_lt_add'.mpr (Int.lt_floor_add_one _)))
  sound := forall_mem_singleton.mpr (fraction_nonneg n)

theorem recovered_recoverRemainders (hrequested : ∀ n, Has t n → 0 ≤ n.label.requested) :
    Recovered t (recoverRemainders t) := by
  induction t using RoseTree.induction with
  | node n cs ih =>
    by_cases hleaf : cs = []
    · subst hleaf
      exact recovered_leaf (hrequested _ (.refl _))
    have hown : WholeShare n (wholeShare n) := wholeShare_wholeShare (hrequested _ (.refl _))
    have hbelow : ∀ c ∈ cs, Recovered c (recoverRemainders c) := fun c hc =>
      ih c hc fun m hm => hrequested m (.child hc hm)
    have hshares : RoseTree.Forall₂ WholeShare (.node n cs) (floored n cs) :=
      .node ⟨rfl, hown.requested_nonneg, hown.floor_le, hown.total⟩
        (forall₂_map_right_iff.mpr (forall₂_same.mpr fun c hc => (hbelow c hc).shares))
    have hcached : ledger.Cached (floored n cs) := by
      rw [floored, cached_node, forall_mem_map]
      exact ⟨⟨hown.requested_nonneg, rfl⟩, fun c hc => (hbelow c hc).cached⟩
    have hslots : Slots (floored n cs) := by
      rw [floored, slots_node, forall_mem_map]
      exact ⟨whole_wholeShare n, fun c hc => (hbelow c hc).slots⟩
    have hlefts : ∀ x ∈ cs.map fun c => (recoverRemainders c).2.1, 0 ≤ x :=
      forall_mem_map.mpr fun c hc => (hbelow c hc).nonneg
    have htotal : (floored n cs).total (·.allocated) + fractions n cs =
        (RoseTree.node n cs).total (·.allocated) := by
      have hsum : (cs.map (total (·.allocated) ∘ fun c => (recoverRemainders c).1)).sum +
          (cs.map fun c => (recoverRemainders c).2.1).sum = (cs.map (total (·.allocated))).sum := by
        rw [← sum_map_add]
        exact congrArg _ (map_congr_left fun c hc => (hbelow c hc).total)
      rw [floored, fractions, total_node, total_node, List.map_map, ← hsum]
      change (wholeShare n).allocated + _ + _ = _
      rw [allocated_wholeShare]
      ring
    have hfractions : 0 ≤ fractions n cs := add_nonneg (fraction_nonneg n) (sum_nonneg hlefts)
    have hspec := roundRobin_spec hcached hslots hfractions
    rw [recoverRemainders_of_children n hleaf]
    have hfloor : (⌊fractions n cs⌋ : F) ≤ fractions n cs := Int.floor_le _
    refine ⟨hspec.hands.1.cached hcached, hspec.slots,
      hshares.comp (fun _ _ _ h h' => h.granted h') hspec.hands.1.forall₂, ?_, ?_, ?_, ?_⟩
    · have hgiven := hspec.hands.1.total_allocated
      rw [hspec.hands.2] at hgiven
      rw [← htotal, hspec.left]
      exact (congrArg (· + _) hgiven).trans (add_add_sub_cancel _ _ _)
    · rw [hspec.left]
      exact sub_nonneg.mpr ((min_le_left _ _).trans hfloor)
    · intro hone
      rw [hspec.left] at hone
      have hamount := hspec.hands.2
      obtain hless | hmore := le_total (floored n cs).label.subtreeRequested ⌊fractions n cs⌋
      · rw [min_eq_right hless] at hamount
        exact sub_eq_self.mp hamount
      · rw [min_eq_left hmore] at hone
        linarith [Int.lt_floor_add_one (fractions n cs)]
    · rw [forall_mem_append, forall_mem_append]
      refine ⟨⟨fun o ho => ?_, ?_⟩, hspec.sound⟩
      · obtain ⟨log, hlog, ho⟩ := mem_flatten.mp ho
        obtain ⟨c, hc, rfl⟩ := mem_map.mp hlog
        exact (hbelow c hc).sound o ho
      · exact forall_mem_map.mpr (scanl_nonneg (fraction_nonneg n) hlefts)

/-- **Whole slots are recovered**: every group has a whole number of them, and one comes back only
if no demand is left that can be reached. -/
theorem remainders_recovered {F : Type} [Field F] [LinearOrder F] [IsStrictOrderedRing F]
    [FloorRing F] {root : GroupTree F}
    (hroot : ∀ n, Has root n → 0 ≤ n.label.allocated ∧ 0 ≤ n.label.requested) :
    (∀ n, Has (recoverRemainders root).1 n → ∃ k : ℕ, n.label.allocated = k) ∧
      (recoverRemainders root).1.total (·.allocated) + (recoverRemainders root).2.1 =
        root.total (·.allocated) ∧
      (∀ o ∈ (recoverRemainders root).2.2, o.Sound) ∧
      (1 ≤ (recoverRemainders root).2.1 → ∀ n, ledger.Reaches (recoverRemainders root).1 n →
        n.label.requested = 0) ∧
      RoseTree.Forall₂ (fun g g' => g'.allocated ≤ (⌊g.allocated⌋ : F) +
        roundForPrecision (g.requested + (g.allocated - (⌊g.allocated⌋ : F))))
        root (recoverRemainders root).1 := by
  have hrecovered := recovered_recoverRemainders fun n hn => (hroot n hn).2
  refine ⟨fun n hn => ?_, hrecovered.total, hrecovered.sound, fun hone n hn => ?_,
    hrecovered.shares.imp fun g g' h => ?_⟩
  · have hnonneg : 0 ≤ n.label.allocated := by
      refine hrecovered.shares.forall_has (P := fun g => 0 ≤ g.allocated)
        (Q := fun g => 0 ≤ g.allocated) (fun g g' h hg => ?_) (fun m hm => (hroot m hm).1) n hn
      exact le_trans (by exact_mod_cast Int.floor_nonneg.mpr hg) h.floor_le
    obtain ⟨k, hk⟩ := (hrecovered.slots n hn).1
    lift k to ℕ using by rw [← hk] at hnonneg; exact_mod_cast hnonneg
    exact ⟨k, by rw [← hk]; norm_cast⟩
  · exact hrecovered.cached.requested_eq_zero (hrecovered.met hone) hn
  · rw [← h.total]
    exact le_add_of_nonneg_right h.requested_nonneg

def thirdsPool : GroupTree ℚ :=
  let share (name : String) (allocated requested : ℚ) : GroupState ℚ :=
    { sampleGroup name 0 0 requested true with allocated }
  .node (share "<none>" 0 0)
    [.node (share "a" (4 / 3) 2) [], .node (share "b" (4 / 3) 0) [], .node (share "c" (4 / 3) 5) []]

theorem remainders_recovered_thirdsPool :
    (recoverRemainders thirdsPool).1.total (·.allocated) + (recoverRemainders thirdsPool).2.1 = 4 ∧
      (recoverRemainders thirdsPool).1.breadthFirst.map (·.label.allocated) = [0, 1, 1, 2] := by
  have hroot : ∀ n, Has thirdsPool n → 0 ≤ n.label.allocated ∧ 0 ≤ n.label.requested := by
    simp [thirdsPool, forall_has_node, sampleGroup]
    norm_num
  refine ⟨(remainders_recovered hroot).2.1.trans ?_, ?_⟩
  · decide +kernel
  · decide +kernel

end GolangCollector.Accountant
