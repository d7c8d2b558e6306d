import GolangCollector.Accountant.Quotas
import GolangCollector.Lib.Handout
import GolangCollector.Lib.Sharing

/-! # Fair shares and surplus

`fairshare` gives every group what it asks for up to its quota, and what is left over in a subtree
is offered to the group at its root and to the children that accept surplus, which hand it on
(`accountant/groupalloc.go`). Each group caches what its subtree still asks for, and the cache decides
how much is handed down. Arithmetic is exact. -/

namespace GolangCollector.Accountant

open RoseTree Sharing Handout Handout.Ledger List

variable {F : Type} [Field F] [LinearOrder F]

/-! ## The model -/

def surplusWeight (byQuota : Bool) (grp : GroupState F) : F :=
  if byQuota then grp.subtreeQuota else 1

def allocateSurplusLoop (byQuota : Bool) : Pot (GroupState F) F → Pot (GroupState F) F :=
  fill (surplusWeight byQuota)

def shareSurplus (groups : List (GroupState F)) (surplus requested : F) : Pot (GroupState F) F :=
  let bids := groups.map fun grp =>
    ⟨grp, if grp.acceptSurplus ∧ 0 < grp.subtreeRequested then grp.subtreeRequested else 0, 0⟩
  if requested ≤ surplus then
    -- everybody gets what they ask for
    ⟨bids.map fun b => b.give b.wants, surplus - requested, 0⟩
  else
    -- by quota first, and then the groups without quota mop up
    allocateSurplusLoop false (allocateSurplusLoop true ⟨bids, surplus, requested⟩)

mutual

def allocateSurplus : GroupTree F → F → GroupTree F × F
  | .node n children, surplus =>
    if surplus ≤ 0 then (.node n children, 0)
    else if n.subtreeRequested ≤ 0 then (.node n children, surplus)
    else
      let self := { n with
        acceptSurplus := true
        subtreeQuota := n.quota
        subtreeRequested := n.requested }
      let shared := shareSurplus (children.map label ++ [self]) surplus n.subtreeRequested
      let allocated := shared.bids.map Bid.gets
      let own := allocated.getLastD 0
      (.node { self with
          allocated := n.allocated + own
          requested := n.requested - own
          subtreeRequested := shared.requested
          acceptSurplus := n.acceptSurplus
          subtreeQuota := n.subtreeQuota }
        (allocateChildren children allocated), shared.surplus)

def allocateChildren : List (GroupTree F) → List F → List (GroupTree F)
  | [], _ => []
  | c :: cs, [] => c :: cs
  | c :: cs, x :: xs => (if 0 < x then (allocateSurplus c x).1 else c) :: allocateChildren cs xs

end

def quotaShare (n : GroupState F) : GroupState F :=
  let allocated := min n.requested n.quota
  let requested := n.requested - allocated
  { n with allocated, requested, subtreeRequested := requested }

mutual

def fairshare : GroupTree F → GroupTree F × F
  | .node n children =>
    let n := quotaShare n
    let surplus := n.quota - n.allocated
    if children.isEmpty then (.node n children, surplus)
    else
      let below := fairshareChildren children
      let surplus := surplus + (below.map Prod.snd).sum
      let subtreeRequested := n.subtreeRequested + (below.map fun c =>
        if c.1.label.acceptSurplus then c.1.label.subtreeRequested else 0).sum
      allocateSurplus (.node { n with subtreeRequested } (below.map Prod.fst)) surplus

def fairshareChildren : List (GroupTree F) → List (GroupTree F × F)
  | [] => []
  | c :: cs => fairshare c :: fairshareChildren cs

end

theorem fairshareChildren_eq (cs : List (GroupTree F)) : fairshareChildren cs = cs.map fairshare := by
  induction cs with
  | nil => rw [fairshareChildren, map_nil]
  | cons c cs ih => rw [fairshareChildren, ih, map_cons]

/-! ## A share of the surplus -/

def GroupState.wants (grp : GroupState F) : F :=
  if grp.acceptSurplus ∧ 0 < grp.subtreeRequested then grp.subtreeRequested else 0

theorem GroupState.wants_nonneg (grp : GroupState F) : 0 ≤ grp.wants := by
  rw [wants]
  split_ifs with h
  · exact h.2.le
  · exact le_rfl

section

variable [IsStrictOrderedRing F]

theorem allocateSurplusLoop_spec (byQuota : Bool) {p : Pot (GroupState F) F}
    (hwants : ∀ b ∈ p.bids, 0 ≤ b.wants)
    (hweight : ∀ b ∈ p.bids, 0 < b.wants → 0 ≤ b.who.subtreeQuota) (hsurplus : 0 ≤ p.surplus) :
    List.Forall₂ Served p.bids (allocateSurplusLoop byQuota p).bids ∧
      paid (allocateSurplusLoop byQuota p).bids + (allocateSurplusLoop byQuota p).surplus =
        paid p.bids + p.surplus ∧
      0 ≤ (allocateSurplusLoop byQuota p).surplus ∧
      paid (allocateSurplusLoop byQuota p).bids + (allocateSurplusLoop byQuota p).requested =
        paid p.bids + p.requested := by
  have hnonneg : ∀ b ∈ p.bids, 0 < b.wants → 0 ≤ surplusWeight byQuota b.who := by
    intro b hb hopen
    rw [surplusWeight]
    split_ifs
    · exact hweight b hb hopen
    · exact zero_le_one
  obtain ⟨hserved, hpaid, hleft, hrequested, -⟩ := fill_spec hwants hnonneg hsurplus
  exact ⟨hserved, hpaid, hleft, hrequested⟩

theorem shareSurplus_spec {groups : List (GroupState F)} {surplus requested : F}
    (hsurplus : 0 ≤ surplus) (hdue : (groups.map GroupState.wants).sum = requested)
    (hweight : ∀ grp ∈ groups, grp.acceptSurplus = true → 0 ≤ grp.subtreeQuota) :
    List.Forall₂ (fun grp x => 0 ≤ x ∧ x ≤ grp.wants) groups
        ((shareSurplus groups surplus requested).bids.map Bid.gets) ∧
      ((shareSurplus groups surplus requested).bids.map Bid.gets).sum = min surplus requested ∧
      (shareSurplus groups surplus requested).surplus = surplus - min surplus requested ∧
      (shareSurplus groups surplus requested).requested = requested - min surplus requested := by
  set bids : List (Bid (GroupState F) F) := groups.map fun grp => ⟨grp, grp.wants, 0⟩ with hbids
  have hshare : shareSurplus groups surplus requested =
      if requested ≤ surplus then ⟨bids.map fun b => b.give b.wants, surplus - requested, 0⟩
      else allocateSurplusLoop false (allocateSurplusLoop true ⟨bids, surplus, requested⟩) := rfl
  have hwants : ∀ b ∈ bids, 0 ≤ b.wants := by
    rw [hbids, forall_mem_map]
    exact fun grp _ => grp.wants_nonneg
  have hpaid : paid bids = 0 := by
    rw [paid, hbids, List.map_map]
    exact sum_eq_zero fun x hx => by
      obtain ⟨grp, -, rfl⟩ := mem_map.mp hx
      rfl
  have hduebids : due bids = requested := by
    rw [due, hbids, List.map_map, ← hdue]
    rfl
  -- what a group has been given from nothing is at most what it wants
  have hserved : ∀ bids', Forall₂ Served bids bids' →
      Forall₂ (fun grp x => 0 ≤ x ∧ x ≤ grp.wants) groups (bids'.map Bid.gets) := by
    intro bids' h
    rw [hbids, forall₂_map_left_iff] at h
    refine forall₂_map_right_iff.mpr (h.imp fun grp b' hb => ?_)
    obtain ⟨x, hx, hle, rfl⟩ := hb
    simpa [Bid.give] using ⟨hx, hle⟩
  rw [hshare]
  split_ifs with hplenty
  · have hall : Forall₂ Served bids (bids.map fun b => b.give b.wants) :=
      forall₂_map_right_iff.mpr
        (forall₂_same.mpr fun b hb => ⟨b.wants, hwants b hb, le_rfl, rfl⟩)
    rw [min_eq_right hplenty, sub_self]
    refine ⟨hserved _ hall, ?_, rfl, rfl⟩
    rw [← hduebids, due, List.map_map]
    refine congrArg _ (map_congr_left fun b hb => ?_)
    rw [hbids] at hb
    obtain ⟨grp, -, rfl⟩ := mem_map.mp hb
    exact zero_add _
  · have hless := not_le.mp hplenty
    rw [min_eq_left hless.le, sub_self]
    have hopen : ∀ b ∈ bids, 0 < b.wants → 0 ≤ b.who.subtreeQuota := by
      rw [hbids, forall_mem_map]
      intro grp hgrp hpos
      refine hweight grp hgrp ?_
      by_contra hnot
      exact absurd hpos (by simp [GroupState.wants, hnot])
    obtain ⟨hserved₁, hpaid₁, hleft₁, hrequested₁⟩ :=
      allocateSurplusLoop_spec true (p := ⟨bids, surplus, requested⟩) hwants hopen hsurplus
    set p₁ := allocateSurplusLoop true ⟨bids, surplus, requested⟩
    have hwants₁ := wants_nonneg_of_forall₂ hserved₁
    obtain ⟨hserved₂, hpaid₂, -, hrequested₂⟩ := allocateSurplusLoop_spec false hwants₁
      (forall_open_of_forall₂ (P := fun grp => 0 ≤ grp.subtreeQuota) hserved₁ hopen) hleft₁
    have hdue₁ := paid_add_due hserved₁
    rw [hpaid, hduebids] at hdue₁
    rw [hpaid] at hpaid₁ hrequested₁
    -- the second loop leaves nothing, as more is wanted than there is
    have hnone : (allocateSurplusLoop false p₁).surplus = 0 := by
      refine fill_surplus_eq_zero hwants₁ (fun _ => one_pos) hleft₁ ?_
      have hsurplus₁ : p₁.surplus = surplus - paid p₁.bids := by linarith
      linarith
    have hgiven : paid (allocateSurplusLoop false p₁).bids = surplus := by linarith
    exact ⟨hserved _ (forall₂_served_trans hserved₁ hserved₂), hgiven, hnone, by linarith⟩

end

/-! ## A surplus is handed down -/

def ledger : Handout.Ledger (GroupState F) F (GroupState F) where
  allocated := (·.allocated)
  requested := (·.requested)
  subtreeRequested := (·.subtreeRequested)
  accepts := (·.acceptSurplus)
  rest grp := { grp with
    allocated := 0
    requested := 0
    subtreeRequested := 0
    rr := false
    subtreeRRTime := 0 }

variable [IsStrictOrderedRing F]

theorem granted_self {n n' : GroupState F} {own : F} (hle : own ≤ n.requested)
    (hown : 0 ≤ own) (hrest : ledger.rest n' = ledger.rest n)
    (haccept : n'.acceptSurplus = n.acceptSurplus) (hallocated : n'.allocated = n.allocated + own)
    (hrequested : n'.requested = n.requested - own) : ledger.Granted n n' where
  rest := hrest
  accepts := haccept
  requested_nonneg := by
    change 0 ≤ n'.requested
    rw [hrequested]
    exact sub_nonneg.mpr hle
  allocated_le := by
    change n.allocated ≤ n'.allocated
    rw [hallocated]
    exact le_add_of_nonneg_right hown
  total := by
    change n'.allocated + n'.requested = n.allocated + n.requested
    rw [hallocated, hrequested]
    ring

theorem wants_label {c : GroupTree F} (hc : ledger.Cached c) :
    c.label.wants = if c.label.acceptSurplus then c.label.subtreeRequested else 0 := by
  have hnonneg : 0 ≤ c.label.subtreeRequested := hc.subtreeRequested_nonneg
  rw [GroupState.wants]
  obtain hpos | hzero := hnonneg.lt_or_eq
  · simp [hpos]
  · simp [← hzero]

variable {cs : List (GroupTree F)}

omit [IsStrictOrderedRing F] in
theorem wants_self {n self : GroupState F} (ht : ledger.Cached (.node n cs))
    (haccept : self.acceptSurplus = true) (hself : self.subtreeRequested = n.requested) :
    self.wants = n.requested := by
  have hrequested : 0 ≤ n.requested := (cached_node.mp ht).1.1
  rw [GroupState.wants, haccept, hself]
  obtain hpos | hzero := hrequested.lt_or_eq
  · exact if_pos ⟨rfl, hpos⟩
  · exact (if_neg fun h => h.2.ne hzero).trans hzero

theorem sum_wants {n self : GroupState F} (ht : ledger.Cached (.node n cs))
    (haccept : self.acceptSurplus = true) (hself : self.subtreeRequested = n.requested) :
    ((cs.map label ++ [self]).map GroupState.wants).sum = n.subtreeRequested := by
  obtain ⟨⟨-, hcache⟩, hcs⟩ := cached_node.mp ht
  rw [List.map_append, List.sum_append, List.map_map, List.map_singleton, List.sum_singleton,
    wants_self ht haccept hself, add_comm]
  refine (congrArg _ (congrArg _ (map_congr_left fun c hc => ?_))).trans hcache.symm
  exact wants_label (hcs c hc)

omit [IsStrictOrderedRing F] in
theorem allocateChildren_append {R : GroupTree F → F → Prop} {xs : List F}
    (h : List.Forall₂ R cs xs) (ys : List F) :
    allocateChildren cs (xs ++ ys) =
      List.zipWith (handChild fun c x => (allocateSurplus c x).1) cs xs := by
  induction h with
  | nil => rw [allocateChildren, zipWith_nil_left]
  | cons _ _ ih => rw [cons_append, allocateChildren, ih, zipWith_cons_cons, handChild]

theorem allocateSurplus_spec {t : GroupTree F} (ht : ledger.Cached t)
    (hquota : ∀ n, Has t n → 0 ≤ n.label.quota)
    (hsub : ∀ c ∈ t.children, ∀ n, Has c n → n.label.acceptSurplus = true →
      0 ≤ n.label.subtreeQuota) {surplus : F} (hsurplus : 0 ≤ surplus) :
    ledger.Hands (min surplus t.label.subtreeRequested) t (allocateSurplus t surplus).1 ∧
      (allocateSurplus t surplus).2 = surplus - min surplus t.label.subtreeRequested := by
  induction t using RoseTree.induction generalizing surplus with
  | node n cs ih =>
    have hnonneg : 0 ≤ n.subtreeRequested := ht.subtreeRequested_nonneg
    have hzero : ledger.Hands 0 (.node n cs) (.node n cs) := hands_zero fun m hm => (ht m hm).1
    rw [allocateSurplus, label_node]
    split_ifs with hnone hmet
    · rw [le_antisymm hnone hsurplus, min_eq_left hnonneg, sub_self]
      exact ⟨hzero, rfl⟩
    · rw [le_antisymm hmet hnonneg, min_eq_right hsurplus, sub_zero]
      exact ⟨hzero, rfl⟩
    have hcs : ∀ c ∈ cs, ledger.Cached c := (cached_node.mp ht).2
    rw [forall_has_node] at hquota
    rw [children_node] at hsub
    dsimp only
    set self := { n with
      acceptSurplus := true, subtreeQuota := n.quota, subtreeRequested := n.requested } with hself
    have hweight : ∀ grp ∈ cs.map label ++ [self], grp.acceptSurplus = true →
        0 ≤ grp.subtreeQuota := by
      rw [forall_mem_append, forall_mem_map, forall_mem_singleton]
      exact ⟨fun c hc => hsub c hc c (.refl c), fun _ => hquota.1⟩
    obtain ⟨hshares, hsum, hleft, hrequested⟩ :=
      shareSurplus_spec hsurplus (sum_wants ht (rfl : self.acceptSurplus = true) rfl) hweight
    set shared := shareSurplus (cs.map label ++ [self]) surplus n.subtreeRequested
    -- the last share is the group's own
    obtain ⟨xs, own, hallocated, hxs, hown⟩ := forall₂_concat hshares
    rw [hallocated] at hsum ⊢
    rw [sum_append, sum_singleton] at hsum
    rw [forall₂_map_left_iff] at hxs
    rw [getLastD_concat, allocateChildren_append hxs]
    refine ⟨hsum ▸ hands_zipWith (granted_self ?_ hown.1 rfl rfl rfl rfl) rfl ?_ ?_, hleft⟩
    · exact hown.2.trans (wants_self ht rfl rfl).le
    · exact hrequested.trans (by rw [hsum]; rfl)
    · refine ((forall₂_and_left _ _).mpr ⟨fun c hc => hc, hxs⟩).imp fun c x ⟨hc, hx⟩ => ?_
      refine hands_child (hcs c hc) hx.1 (hx.2.trans (wants_label (hcs c hc)).le)
        fun _ hle => ?_
      have hhands := (ih c hc (hcs c hc) (hquota.2 c hc)
        (fun d hd m hm => hsub c hc m (.child hd hm)) hx.1).1
      rwa [min_eq_left (show x ≤ c.label.subtreeRequested from hle)] at hhands

/-! ## Fair shares -/

structure FairShare (g g' : GroupState F) : Prop where
  rest : ledger.rest g' = ledger.rest g
  requested_nonneg : 0 ≤ g'.requested
  min_le : min g.requested g.quota ≤ g'.allocated
  total : g'.allocated + g'.requested = g.requested

omit [IsStrictOrderedRing F] in
theorem FairShare.unchanged {g g' : GroupState F} (h : FairShare g g') :
    g'.acceptSurplus = g.acceptSurplus ∧ g'.quota = g.quota ∧ g'.subtreeQuota = g.subtreeQuota :=
  ⟨congrArg (·.acceptSurplus) h.rest, congrArg (·.quota) h.rest, congrArg (·.subtreeQuota) h.rest⟩

omit [IsStrictOrderedRing F] in
theorem FairShare.granted {g g' g'' : GroupState F} (h : FairShare g g')
    (h' : ledger.Granted g' g'') : FairShare g g'' where
  rest := h'.rest.trans h.rest
  requested_nonneg := h'.requested_nonneg
  min_le := h.min_le.trans h'.allocated_le
  total := h'.total.trans h.total

/-- **What `fairshare` leaves.** -/
structure FairShared (t t' : GroupTree F) (surplus : F) : Prop where
  cached : ledger.Cached t'
  shares : RoseTree.Forall₂ FairShare t t'
  total : t'.total (·.allocated) + surplus = t.total (·.quota)
  nonneg : 0 ≤ surplus
  met : 0 < surplus → t'.label.subtreeRequested = 0
  capped : ∀ c ∈ t'.children, ∀ n, Has c n → n.label.acceptSurplus = false →
    n.total (·.allocated) ≤ n.total (·.quota)

omit [IsStrictOrderedRing F] in
theorem total_quota_eq {t t' : GroupTree F} (h : RoseTree.Forall₂ FairShare t t') :
    t'.total (·.quota) = t.total (·.quota) := by
  have hmap : t.map (·.quota) = t'.map (·.quota) := h.map_eq fun _ _ h => h.unchanged.2.1.symm
  have htotal := congrArg (total id) hmap
  rw [total_map, total_map] at htotal
  exact htotal.symm

theorem fairShare_quotaShare (n : GroupState F) : FairShare n (quotaShare n) where
  rest := rfl
  requested_nonneg := sub_nonneg.mpr (min_le_left _ _)
  min_le := le_rfl
  total := add_sub_cancel _ _

theorem FairShared.of_hands {t t₁ t' : GroupTree F} {surplus left : F} (hcached : ledger.Cached t₁)
    (hshares : RoseTree.Forall₂ FairShare t t₁)
    (htotal : t₁.total (·.allocated) + surplus = t.total (·.quota))
    (hcapped : ∀ c ∈ t₁.children, ∀ n, Has c n → n.label.acceptSurplus = false →
      n.total (·.allocated) ≤ n.total (·.quota))
    (hhands : ledger.Hands (min surplus t₁.label.subtreeRequested) t₁ t')
    (hleft : left = surplus - min surplus t₁.label.subtreeRequested) : FairShared t t' left where
  cached := hhands.1.cached hcached
  shares := hshares.comp (fun _ _ _ h h' => h.granted h') hhands.1.forall₂
  total := by
    have hgiven := hhands.1.total_allocated
    rw [hhands.2] at hgiven
    rw [← htotal, hleft]
    exact (congrArg (· + _) hgiven).trans (add_add_sub_cancel _ _ _)
  nonneg := by
    rw [hleft]
    exact sub_nonneg.mpr (min_le_left _ _)
  met := by
    intro hpos
    rw [hleft, sub_pos, min_lt_iff] at hpos
    have hless := hpos.resolve_left (lt_irrefl _)
    have hamount := hhands.2
    rw [min_eq_right hless.le] at hamount
    exact sub_eq_self.mp hamount
  capped := by
    intro c' hc' n hn haccept
    obtain ⟨c, hc, hn⟩ := hhands.1.has_of_not_accepts hc' hn haccept
    exact hcapped c hc n hn haccept

def gathered (n : GroupState F) (cs : List (GroupTree F)) : GroupTree F :=
  .node { quotaShare n with
      subtreeRequested := (quotaShare n).subtreeRequested +
        ledger.childrenRequest (cs.map fun c => (fairshare c).1) }
    (cs.map fun c => (fairshare c).1)

def pooled (n : GroupState F) (cs : List (GroupTree F)) : F :=
  n.quota - (quotaShare n).allocated + (cs.map fun c => (fairshare c).2).sum

omit [IsStrictOrderedRing F] in
theorem fairshare_of_children (n : GroupState F) (hcs : cs ≠ []) :
    fairshare (.node n cs) = allocateSurplus (gathered n cs) (pooled n cs) := by
  have hnot : ¬ cs.isEmpty = true := fun h => hcs (isEmpty_iff.mp h)
  rw [fairshare]
  dsimp only
  rw [if_neg hnot, fairshareChildren_eq, List.map_map, List.map_map, List.map_map, gathered, pooled,
    childrenRequest, List.map_map]
  rfl

theorem fairShared_leaf (n : GroupState F) :
    FairShared (.node n []) (.node (quotaShare n) []) (n.quota - (quotaShare n).allocated) where
  cached := by
    rw [cached_node]
    exact ⟨⟨(fairShare_quotaShare n).requested_nonneg, (add_zero _).symm⟩, forall_mem_nil _⟩
  shares := .node (fairShare_quotaShare n) .nil
  total := by simp
  nonneg := sub_nonneg.mpr (min_le_right _ _)
  met := by
    intro hpos
    have hless : n.requested < n.quota :=
      (min_lt_iff.mp (sub_pos.mp hpos)).resolve_right (lt_irrefl _)
    exact sub_eq_zero.mpr (min_eq_left hless.le).symm
  capped := by simp

theorem fairShared_fairshare {t : GroupTree F} (hquota : ∀ n, Has t n → 0 ≤ n.label.quota)
    (hsub : ∀ c ∈ t.children, ∀ n, Has c n → n.label.acceptSurplus = true →
      0 ≤ n.label.subtreeQuota) :
    FairShared t (fairshare t).1 (fairshare t).2 := by
  induction t using RoseTree.induction with
  | node n cs ih =>
    by_cases hleaf : cs = []
    · subst hleaf
      exact fairShared_leaf n
    have hfair : ∀ c ∈ cs, FairShared c (fairshare c).1 (fairshare c).2 := fun c hc =>
      ih c hc (fun m hm => hquota m (.child hc hm)) fun d hd m hm => hsub c hc m (.child hd hm)
    have hown := fairShare_quotaShare n
    have hshares : RoseTree.Forall₂ FairShare (.node n cs) (gathered n cs) :=
      .node ⟨rfl, hown.requested_nonneg, hown.min_le, hown.total⟩
        (forall₂_map_right_iff.mpr (forall₂_same.mpr fun c hc => (hfair c hc).shares))
    have hcached : ledger.Cached (gathered n cs) := by
      rw [gathered, cached_node, forall_mem_map]
      exact ⟨⟨hown.requested_nonneg, rfl⟩, fun c hc => (hfair c hc).cached⟩
    have hpooled : 0 ≤ pooled n cs := by
      refine add_nonneg (sub_nonneg.mpr (min_le_right _ _)) (sum_nonneg fun x hx => ?_)
      obtain ⟨c, hc, rfl⟩ := mem_map.mp hx
      exact (hfair c hc).nonneg
    have htotal : (gathered n cs).total (·.allocated) + pooled n cs =
        (RoseTree.node n cs).total (·.quota) := by
      have hsum : (cs.map (total (·.allocated) ∘ fun c => (fairshare c).1)).sum +
          (cs.map fun c => (fairshare c).2).sum = (cs.map (total (·.quota))).sum := by
        rw [← sum_map_add]
        exact congrArg _ (map_congr_left fun c hc => (hfair c hc).total)
      rw [gathered, pooled, total_node, total_node, List.map_map, ← hsum]
      change (quotaShare n).allocated + _ + (n.quota - (quotaShare n).allocated + _) = _
      ring
    have hquota' : ∀ m, Has (gathered n cs) m → 0 ≤ m.label.quota :=
      hshares.forall_has (P := fun g => 0 ≤ g.quota) (Q := fun g => 0 ≤ g.quota)
        (fun _ _ h hq => hq.trans_eq h.unchanged.2.1.symm) hquota
    have hsub' : ∀ c ∈ (gathered n cs).children, ∀ m, Has c m → m.label.acceptSurplus = true →
        0 ≤ m.label.subtreeQuota := by
      rw [gathered, children_node, forall_mem_map]
      intro c hc
      refine (hfair c hc).shares.forall_has
        (P := fun g => g.acceptSurplus = true → 0 ≤ g.subtreeQuota)
        (Q := fun g => g.acceptSurplus = true → 0 ≤ g.subtreeQuota) (fun _ _ h hq => ?_) (hsub c hc)
      rw [h.unchanged.1, h.unchanged.2.2]
      exact hq
    obtain ⟨hhands, hleft⟩ := allocateSurplus_spec hcached hquota' hsub' hpooled
    rw [fairshare_of_children n hleaf]
    refine .of_hands hcached hshares htotal ?_ hhands hleft
    intro c' hc' m hm haccept
    obtain ⟨c, hc, rfl⟩ := mem_map.mp hc'
    obtain rfl | ⟨d, hd, hm⟩ := has_iff.mp hm
    · -- the child itself keeps to what its subtree has
      rw [total_quota_eq (hfair c hc).shares, ← (hfair c hc).total]
      exact le_add_of_nonneg_right (hfair c hc).nonneg
    · exact (hfair c hc).capped d hd m hm haccept

/-- **Fair share and surplus**: what is allocated and returned makes up the quotas, and a surplus
comes back only if all demand is met that can be reached. -/
theorem fairshare_distributes_surplus {F : Type} [Field F] [LinearOrder F] [IsStrictOrderedRing F]
    {root : GroupTree F} (hquota : ∀ n, Has root n → 0 ≤ n.label.quota)
    (hsub : ∀ c ∈ root.children, ∀ n, Has c n → n.label.acceptSurplus = true →
      0 ≤ n.label.subtreeQuota) :
    (fairshare root).1.total (·.allocated) + (fairshare root).2 = root.total (·.quota) ∧
      RoseTree.Forall₂ (fun g g' => min g.requested g.quota ≤ g'.allocated ∧
        g'.allocated ≤ g.requested ∧ g'.acceptSurplus = g.acceptSurplus ∧
        g'.subtreeQuota = g.subtreeQuota ∧ g'.quota = g.quota) root (fairshare root).1 ∧
      (∀ n, Has (fairshare root).1 n → n.label.acceptSurplus = false →
        n.total (·.allocated) ≤ n.total (·.quota)) ∧
      (0 < (fairshare root).2 → ∀ n, ledger.Reaches (fairshare root).1 n →
        n.label.requested = 0) := by
  have hfair := fairShared_fairshare hquota hsub
  refine ⟨hfair.total, hfair.shares.imp fun g g' h => ?_, fun n hn haccept => ?_, fun hpos n hn => ?_⟩
  · refine ⟨h.min_le, ?_, h.unchanged.1, h.unchanged.2.2, h.unchanged.2.1⟩
    rw [← h.total]
    exact le_add_of_nonneg_right h.requested_nonneg
  · obtain rfl | ⟨c, hc, hn⟩ := has_iff.mp hn
    · rw [total_quota_eq hfair.shares, ← hfair.total]
      exact le_add_of_nonneg_right hfair.nonneg
    · exact hfair.capped c hc n hn haccept
  · exact hfair.cached.requested_eq_zero (hfair.met hpos) hn

def sampleGroup (name : String) (quota subtreeQuota requested : ℚ) (acceptSurplus : Bool) :
    GroupState ℚ :=
  ⟨⟨name.toList, subtreeQuota, true, acceptSurplus, false⟩, ⟨0, 0, false, 0, 0⟩, quota,
    subtreeQuota, requested, 0, 0, 0, []⟩

def sparePool : GroupTree ℚ :=
  .node (sampleGroup "<none>" 8 10 1 true)
    [.node (sampleGroup "a" 0 0 20 true) [], .node (sampleGroup "b" 2 2 6 true) [],
      .node (sampleGroup "c" 0 0 5 false) []]

theorem fairshare_distributes_surplus_sparePool :
    (fairshare sparePool).1.total (·.allocated) + (fairshare sparePool).2 = 10 ∧
      (fairshare sparePool).1.breadthFirst.map (·.label.allocated) = [1, 3, 6, 0] := by
  have hquota : ∀ n, Has sparePool n → 0 ≤ n.label.quota := by
    simp [sparePool, forall_has_node, sampleGroup]
  have hsub : ∀ c ∈ sparePool.children, ∀ n, Has c n → n.label.acceptSurplus = true →
      0 ≤ n.label.subtreeQuota := by
    simp [sparePool, forall_has_node, sampleGroup]
  refine ⟨(fairshare_distributes_surplus hquota hsub).1.trans ?_, ?_⟩
  · decide +kernel
  · decide +kernel

theorem fairshare_overspends :
    let root : GroupTree ℚ := .node (sampleGroup "<none>" 10 10 0 true)
      [.node (sampleGroup "a" 0 (-1) 20 true) [], .node (sampleGroup "b" 0 3 20 true) []]
    (∀ n, Has root n → 0 ≤ n.label.quota ∧ 0 ≤ n.label.requested) ∧
      root.total (·.quota) = 10 ∧
      (fairshare root).1.total (·.allocated) + (fairshare root).2 = 15 := by
  intro root
  refine ⟨?_, ?_, ?_⟩
  · simp [root, forall_has_node, sampleGroup]
  · decide +kernel
  · decide +kernel

end GolangCollector.Accountant
