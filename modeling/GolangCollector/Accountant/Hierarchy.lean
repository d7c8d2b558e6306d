import Mathlib.Tactic.LinearCombination
import GolangCollector.Accountant.Held

/-! # The usage of a group's subtree

A match adds its weight to the hierarchical usage of its group and of every dotted ancestor of the
group, and the end of the match takes it off again (`accountant/usage.go`). `CheckMatches` sets the
weighted usage of every group to zero and charges the claimed slots again, but the hierarchical
usage keeps what it had and gets the charges on top. A tick may purge the record of an ancestor that
is used only through its subtree. -/

namespace GolangCollector.Accountant

open GoStrings Negotiator Runs List Store Option

/-! ## Groups and their ancestors -/

def Below (g name : Text) : Prop := name = g ∨ g ++ ['.'] <+: name

instance (g name : Text) : Decidable (Below g name) := inferInstanceAs (Decidable (_ ∨ _))

theorem dot_prefix_iff {g front tail : Text} (h : '.' ∉ tail) :
    g ++ ['.'] <+: front ++ '.' :: tail ↔ Below g front := by
  constructor
  · rintro ⟨rest, hrest⟩
    rw [append_assoc, singleton_append, append_eq_append_iff] at hrest
    rcases hrest with ⟨more, rfl, hmore⟩ | ⟨more, rfl, hmore⟩
    · -- the group ends at the last dot or before it
      cases more with
      | nil => exact Or.inl (append_nil _)
      | cons c more =>
        rw [← (cons.inj hmore).1]
        exact Or.inr ⟨more, by simp⟩
    · cases more with
      | nil => exact Or.inl (append_nil _).symm
      | cons c more =>
        rw [cons_append, cons.injEq] at hmore
        exact absurd (hmore.2 ▸ by simp) h
  · rintro (rfl | hbelow)
    · exact ⟨tail, by simp⟩
    · exact hbelow.trans (prefix_append _ _)

theorem Below.length_le {g name : Text} (h : Below g name) : g.length ≤ name.length := by
  rcases h with rfl | h
  · exact le_rfl
  · exact le_trans (by simp) h.length_le

theorem mem_ancestorWalk {n : ℕ} {group part : Text} (hn : group.length ≤ n) :
    part ∈ ancestorWalk n group ↔ part ≠ [] ∧ Below part group := by
  have hnil : ¬ (part ≠ [] ∧ Below part []) := by
    rintro ⟨hne, rfl | hpre⟩
    · exact hne rfl
    · simp at hpre
  induction n generalizing group with
  | zero =>
    rw [length_eq_zero_iff.mp (Nat.le_zero.mp hn)]
    simpa [ancestorWalk] using hnil
  | succ n ih =>
    rw [ancestorWalk]
    split
    · next hempty =>
      rw [hempty]
      simpa using hnil
    · next hne =>
      rw [mem_cons]
      cases hcut : cutLast '.' group with
      | none =>
        -- without a dot the group is its only ancestor
        have hdot : '.' ∉ group := by
          rw [← cutLast_isSome_iff, hcut]
          exact Bool.false_ne_true
        have hself : Below part group ↔ part = group := by
          refine ⟨fun h => h.elim Eq.symm fun hpre => ?_, fun h => Or.inl h.symm⟩
          exact absurd (hpre.subset (by simp)) hdot
        rw [hself]
        simp only [not_mem_nil, or_false]
        exact ⟨fun h => ⟨h ▸ hne, h⟩, And.right⟩
      | some p =>
        obtain ⟨front, tail⟩ := p
        obtain ⟨rfl, htail⟩ := cutLast_eq_some_iff.mp hcut
        have hfront : front.length ≤ n := by
          rw [length_append, length_cons] at hn
          omega
        have hwalk : part ∈ ancestorWalk n front ↔ part ≠ [] ∧ Below part front := ih hfront
        have hsplit : Below part (front ++ '.' :: tail) ↔
            front ++ '.' :: tail = part ∨ Below part front :=
          or_congr_right (dot_prefix_iff htail)
        dsimp only
        rw [hwalk, hsplit]
        constructor
        · rintro (rfl | h)
          · exact ⟨hne, Or.inl rfl⟩
          · exact ⟨h.1, Or.inr h.2⟩
        · rintro ⟨hpart, h | h⟩
          · exact Or.inl h.symm
          · exact Or.inr ⟨hpart, h⟩

theorem nodup_ancestorWalk {n : ℕ} {group : Text} (hn : group.length ≤ n) :
    (ancestorWalk n group).Nodup := by
  induction n generalizing group with
  | zero => exact nodup_nil
  | succ n ih =>
    rw [ancestorWalk]
    split
    · exact nodup_nil
    · cases hcut : cutLast '.' group with
      | none => exact nodup_singleton group
      | some p =>
        obtain ⟨front, tail⟩ := p
        obtain ⟨rfl, -⟩ := cutLast_eq_some_iff.mp hcut
        have hfront : front.length ≤ n := by
          rw [length_append, length_cons] at hn
          omega
        refine nodup_cons.mpr ⟨fun hmem => ?_, ih hfront⟩
        have hlonger := ((mem_ancestorWalk hfront).mp hmem).2.length_le
        rw [length_append, length_cons] at hlonger
        omega

structure Grouped (customer : Text) : Prop where
  submitter : '@' ∈ customer
  group : '@' ∉ assignedGroupName customer
  named : ¬ Below [] (assignedGroupName customer)

instance (customer : Text) : Decidable (Grouped customer) :=
  decidable_of_iff ('@' ∈ customer ∧ '@' ∉ assignedGroupName customer ∧
    ¬ Below [] (assignedGroupName customer)) ⟨fun h => ⟨h.1, h.2.1, h.2.2⟩,
      fun h => ⟨h.submitter, h.group, h.named⟩⟩

theorem Grouped.mem_ancestorChain {customer : Text} (h : Grouped customer) {part : Text} :
    part ∈ ancestorChain (assignedGroupName customer) ↔
      Below part (assignedGroupName customer) := by
  rw [ancestorChain, mem_ancestorWalk le_rfl, and_iff_right_iff_imp]
  rintro hbelow rfl
  exact h.named hbelow

theorem Grouped.bookings_eq {customer g : Text} (h : Grouped customer) (hg : '@' ∉ g) :
    bookings customer g = if g = assignedGroupName customer then 1 else 0 := by
  have hne : g ≠ customer := fun heq => hg (heq ▸ h.submitter)
  rw [bookings, if_neg hne, zero_add]

/-! ## The hierarchical usage after each part of a call -/

section

variable {K : Type} [Field K] [LinearOrder K] {lib : Library K} {a : Accountant K} {s : Store K}

omit [LinearOrder K] in
theorem hier_rollUp (group : Text) (change : K → K) (c : Text) :
    (s.rollUp group change).floatOf c .hierWeightedResourcesUsed =
      if c ∈ ancestorChain group then change (s.floatOf c .hierWeightedResourcesUsed)
      else s.floatOf c .hierWeightedResourcesUsed := by
  have hset : ∀ (s : Store K) (part : Text) (v : K),
      (s.set .customer part .hierWeightedResourcesUsed (.float v)).floatOf c
        .hierWeightedResourcesUsed =
      if c = part then v else s.floatOf c .hierWeightedResourcesUsed := by
    intro s part v
    by_cases hc : c = part <;> simp [floatOf, getFloat, attr?_set, hc,
      AttrValue.toFloat]
  rw [rollUp]
  have hnodup := nodup_ancestorWalk (le_refl group.length)
  rw [← ancestorChain] at hnodup
  generalize ancestorChain group = parts at hnodup ⊢
  induction parts generalizing s with
  | nil => simp
  | cons part parts ih =>
    rw [nodup_cons] at hnodup
    rw [foldl_cons, ih hnodup.2, hset]
    by_cases hc : c = part
    · subst hc
      simp [hnodup.1]
    · simp [hc]

theorem hier_addMatchLocked (customer res limits : Text) (w : K) (T : ℤ) (c : Text) :
    (a.addMatchLocked lib customer res w limits T).store.floatOf c .hierWeightedResourcesUsed =
      if c ∈ ancestorChain (assignedGroupName customer) then
        a.store.floatOf c .hierWeightedResourcesUsed + w
      else a.store.floatOf c .hierWeightedResourcesUsed := by
  have hbooked : ∀ s : Store K, ((s.bookMatch lib customer w (T - a.lastUpdate)).bookMatch lib
      (assignedGroupName customer) w (T - a.lastUpdate)).floatOf c .hierWeightedResourcesUsed =
      s.floatOf c .hierWeightedResourcesUsed := fun s => by
    refine floatOf_congr ?_
    rw [attr?_bookMatch_of_ne (by simp), attr?_bookMatch_of_ne (by simp)]
  have hheld : ∀ s : Store K, (s.holdResource res customer w limits T).floatOf c
      .hierWeightedResourcesUsed = s.floatOf c .hierWeightedResourcesUsed := fun s => by
    rw [floatOf, getFloat, attr?_holdResource_of_ne (by simp), floatOf,
      getFloat]
  rw [addMatchLocked]
  dsimp only
  split
  · rw [floatOf, getFloat, attr?_changeLimits_of_ne (by simp), ← getFloat,
      ← floatOf, hheld, hier_rollUp, hbooked]
  · rw [hheld, hier_rollUp, hbooked]

theorem hier_settle (m : Holding K) (charged : ℤ) (c : Text) :
    (s.settle lib m charged).floatOf c .hierWeightedResourcesUsed =
      if c ∈ ancestorChain (assignedGroupName m.customer) then
        if s.floatOf c .hierWeightedResourcesUsed - m.weight < 0 then 0
        else s.floatOf c .hierWeightedResourcesUsed - m.weight
      else s.floatOf c .hierWeightedResourcesUsed := by
  have hunbooked : ((s.unbookMatch lib m.customer m.weight charged).unbookMatch lib
      (assignedGroupName m.customer) m.weight charged).floatOf c .hierWeightedResourcesUsed =
      s.floatOf c .hierWeightedResourcesUsed := by
    refine floatOf_congr ?_
    rw [attr?_unbookMatch_of_ne (by simp), attr?_unbookMatch_of_ne (by simp)]
  rw [settle, floatOf, getFloat, attr?_changeLimits_of_ne (by simp),
    ← getFloat, ← floatOf, hier_rollUp, hunbooked]

omit [LinearOrder K] in
theorem hier_clearUsage (slots : List ClassAd) (c : Text) :
    (a.clearUsage lib slots).store.floatOf c .hierWeightedResourcesUsed =
      a.store.floatOf c .hierWeightedResourcesUsed := by
  refine floatOf_congr ?_
  rw [attr?_clearUsage_customer, if_neg (by simp)]

theorem Record.usage_tick {r r' : Record K} {T : ℤ} {timePassed aging : K}
    (h : r.tick lib T timePassed aging = some r') :
    r'.floatOf .weightedResourcesUsed = r.floatOf .weightedResourcesUsed ∧
      r'.floatOf .hierWeightedResourcesUsed = r.floatOf .hierWeightedResourcesUsed := by
  constructor <;>
  · rw [floatOf, getFloat, attr?_tick h _ (by simp)]
    simp [floatOf, getFloat]

end

/-! ## The usage below a group -/

section

variable {K : Type} [Field K] [LinearOrder K] {lib : Library K}

def Store.usageBelow (s : Store K) (g : Text) : K :=
  (((s.keys .customer).filter fun name => isGroupName name ∧ Below g name).map fun name =>
    s.floatOf name .weightedResourcesUsed).sum

def Holding.weightFor (g : Text) (m : Holding K) : K :=
  if assignedGroupName m.customer = g then m.weight else 0

def Store.groupHeld (lib : Library K) (s : Store K) (g : Text) : K :=
  ((s.keys .resource).map fun res =>
    ((s.holding? lib.truncate res).map (Holding.weightFor g)).getD 0).sum

omit [LinearOrder K] in
theorem Store.floatOf_of_notMem {s : Store K} {c : Text} (h : c ∉ s.keys .customer) (attr : Attr) :
    s.floatOf c attr = 0 :=
  floatOf_of_none _ (by simpa [mem_keys] using h)

variable (s s' : Store K)

omit [LinearOrder K] in
theorem usageBelow_of_changed {k : Text} {δ : K} (hk : '@' ∉ k)
    (h : ∀ name, '@' ∉ name → s'.floatOf name .weightedResourcesUsed =
      s.floatOf name .weightedResourcesUsed + if name = k then δ else 0) (g : Text) :
    s'.usageBelow g = s.usageBelow g + if Below g k then δ else 0 := by
  have hterm : ∀ (s : Store K) (name : Text), name ∉ s.keys .customer →
      (if isGroupName name ∧ Below g name then s.floatOf name .weightedResourcesUsed else 0) = 0 :=
    fun s name hname => by rw [floatOf_of_notMem hname, ite_self]
  have htotal := Budget.sum_map_of_changed (k := k) nodup_keys nodup_keys (hterm s)
    (hterm s') (fun name hname => by
      by_cases hgroup : '@' ∈ name
      · simp [isGroupName, hgroup]
      · rw [h name hgroup, if_neg hname, add_zero])
  rw [← Budget.sum_map_filter, ← Budget.sum_map_filter, h k hk, if_pos rfl] at htotal
  change s'.usageBelow g + _ = s.usageBelow g + _ at htotal
  by_cases hbelow : Below g k
  · have hcond : isGroupName k ∧ Below g k := ⟨by simp [isGroupName, hk], hbelow⟩
    rw [if_pos hcond, if_pos hcond] at htotal
    rw [if_pos hbelow]
    linear_combination htotal
  · rw [if_neg fun h => hbelow h.2, if_neg fun h => hbelow h.2] at htotal
    rw [if_neg hbelow]
    linear_combination htotal

omit [LinearOrder K] in
theorem usageBelow_congr (h : ∀ name, '@' ∉ name →
    s'.floatOf name .weightedResourcesUsed = s.floatOf name .weightedResourcesUsed) (g : Text) :
    s'.usageBelow g = s.usageBelow g := by
  have hsame := usageBelow_of_changed s s' (k := []) (δ := 0) (by simp)
    (fun name hname => by rw [h name hname, ite_self, add_zero]) g
  rwa [ite_self, add_zero] at hsame

omit [LinearOrder K] in
theorem groupHeld_of_changed {res : Text}
    (h : ∀ r, r ≠ res → s'.holding? lib.truncate r = s.holding? lib.truncate r) (g : Text) :
    s'.groupHeld lib g + ((s.holding? lib.truncate res).map (Holding.weightFor g)).getD 0 =
      s.groupHeld lib g + ((s'.holding? lib.truncate res).map (Holding.weightFor g)).getD 0 := by
  have hterm : ∀ (s : Store K) (r : Text), r ∉ s.keys .resource →
      ((s.holding? lib.truncate r).map (Holding.weightFor g)).getD 0 = 0 := fun s r hr => by
    rw [holding?_of_notMem hr]
    rfl
  exact Budget.sum_map_of_changed nodup_keys nodup_keys (hterm s) (hterm s')
    fun r hr => by rw [h r hr]

omit [LinearOrder K] in
theorem groupHeld_congr (h : ∀ r, s'.holding? lib.truncate r = s.holding? lib.truncate r)
    (g : Text) : s'.groupHeld lib g = s.groupHeld lib g := by
  have hsame := groupHeld_of_changed s s' (fun r (_ : r ≠ []) => h r) g
  rw [h] at hsame
  exact add_right_cancel hsame

/-! ## The invariant -/

variable {s s'} [IsStrictOrderedRing K] {a : Accountant K}

/-- **The hierarchical usage of a group is that of its subtree.** -/
structure RolledUp (lib : Library K) (a : Accountant K) : Prop where
  hier_eq : ∀ g, '@' ∉ g → a.store.floatOf g .hierWeightedResourcesUsed = a.store.usageBelow g
  held_le : ∀ g, '@' ∉ g → a.store.groupHeld lib g ≤ a.store.floatOf g .weightedResourcesUsed
  holding : ∀ res m, a.store.holding? lib.truncate res = some m →
    0 ≤ m.weight ∧ Grouped m.customer

namespace RolledUp

section

variable (h : RolledUp lib a)
include h

omit [IsStrictOrderedRing K] in
theorem weightFor_nonneg (g res : Text) :
    0 ≤ ((a.store.holding? lib.truncate res).map (Holding.weightFor g)).getD 0 := by
  cases hm : a.store.holding? lib.truncate res with
  | none => exact le_rfl
  | some m =>
    rw [map_some, getD_some, Holding.weightFor]
    split
    · exact (h.holding res m hm).1
    · exact le_rfl

theorem groupHeld_nonneg (g : Text) : 0 ≤ a.store.groupHeld lib g := by
  refine sum_nonneg fun x hx => ?_
  obtain ⟨res, -, rfl⟩ := mem_map.mp hx
  exact h.weightFor_nonneg g res

theorem used_nonneg {g : Text} (hg : '@' ∉ g) : 0 ≤ a.store.floatOf g .weightedResourcesUsed :=
  (h.groupHeld_nonneg g).trans (h.held_le g hg)

theorem weight_le {res : Text} {m : Holding K} (hm : a.store.holding? lib.truncate res = some m) :
    m.weight ≤ a.store.floatOf (assignedGroupName m.customer) .weightedResourcesUsed := by
  refine le_trans ?_ (h.held_le _ (h.holding res m hm).2.group)
  have hmem : res ∈ a.store.keys .resource := by
    by_contra habsent
    rw [holding?_of_notMem habsent] at hm
    cases hm
  have hterm : m.weight = ((a.store.holding? lib.truncate res).map
      (Holding.weightFor (assignedGroupName m.customer))).getD 0 := by
    rw [hm, map_some, getD_some, Holding.weightFor, if_pos rfl]
  rw [hterm]
  refine single_le_sum (fun x hx => ?_) _ (mem_map_of_mem hmem)
  obtain ⟨r, -, rfl⟩ := mem_map.mp hx
  exact h.weightFor_nonneg _ r

theorem used_le_usageBelow {g name : Text} (hname : '@' ∉ name) (hbelow : Below g name) :
    a.store.floatOf name .weightedResourcesUsed ≤ a.store.usageBelow g := by
  have hnonneg : ∀ x ∈ ((a.store.keys .customer).filter fun name =>
      isGroupName name ∧ Below g name).map fun name =>
        a.store.floatOf name .weightedResourcesUsed, 0 ≤ x := by
    intro x hx
    obtain ⟨n, hn, rfl⟩ := mem_map.mp hx
    exact h.used_nonneg
      (by simpa [isGroupName] using (of_decide_eq_true (mem_filter.mp hn).2).1)
  by_cases hmem : name ∈ a.store.keys .customer
  · refine single_le_sum hnonneg _ (mem_map_of_mem ?_)
    exact mem_filter.mpr ⟨hmem, decide_eq_true ⟨by simp [isGroupName, hname], hbelow⟩⟩
  · rw [floatOf_of_notMem hmem]
    exact sum_nonneg hnonneg

theorem addMatchLocked {customer : Text} (hcustomer : Grouped customer) {w : K} (hw : 0 ≤ w)
    (res limits : Text) (T : ℤ) : RolledUp lib (a.addMatchLocked lib customer res w limits T) := by
  have hused : ∀ name, '@' ∉ name →
      (a.addMatchLocked lib customer res w limits T).store.floatOf name .weightedResourcesUsed =
        a.store.floatOf name .weightedResourcesUsed +
          if name = assignedGroupName customer then w else 0 := by
    intro name hname
    rw [weightedUsed_addMatchLocked, hcustomer.bookings_eq hname]
    split <;> simp
  refine ⟨fun g hg => ?_, fun g hg => ?_, fun r m hm => ?_⟩
  · rw [hier_addMatchLocked, usageBelow_of_changed _ _ hcustomer.group hused, ← h.hier_eq g hg]
    simp only [hcustomer.mem_ancestorChain]
    split <;> simp
  · have hheld := groupHeld_of_changed a.store
      (a.addMatchLocked lib customer res w limits T).store
      (fun r hr => by rw [holding?_addMatchLocked, if_neg hr]) g
    rw [holding?_addMatchLocked lib a T customer res limits w res, if_pos rfl, map_some,
      getD_some, Holding.weightFor] at hheld
    simp only [eq_comm (a := assignedGroupName customer)] at hheld
    have hold := h.weightFor_nonneg g res
    have hbefore := h.held_le g hg
    rw [hused g hg]
    linarith
  · rw [holding?_addMatchLocked] at hm
    split at hm
    · cases hm
      exact ⟨hw, hcustomer⟩
    · exact h.holding r m hm

theorem removeMatch (res : Text) (T : ℤ) : RolledUp lib (a.removeMatch lib res T) := by
  have hheld : ∀ g, (a.removeMatch lib res T).store.groupHeld lib g +
      ((a.store.holding? lib.truncate res).map (Holding.weightFor g)).getD 0 =
        a.store.groupHeld lib g := by
    intro g
    have hchanged := groupHeld_of_changed a.store (a.removeMatch lib res T).store
      (fun r hr => by rw [holding?_removeMatch, if_neg hr]) g
    rw [holding?_removeMatch, if_pos rfl, map_none, getD_none, add_zero] at hchanged
    exact hchanged
  have hholding : ∀ r m, (a.removeMatch lib res T).store.holding? lib.truncate r = some m →
      0 ≤ m.weight ∧ Grouped m.customer := by
    intro r m hm
    rw [holding?_removeMatch] at hm
    split at hm
    · cases hm
    · exact h.holding r m hm
  cases hm : a.store.holding? lib.truncate res with
  | none =>
    have hsame : ∀ c attr, (a.removeMatch lib res T).store.floatOf c attr =
        a.store.floatOf c attr := fun c attr => by
      refine floatOf_congr ?_
      rw [attr?_removeMatch_of_none T hm, if_neg (by simp)]
    refine ⟨fun g hg => ?_, fun g hg => ?_, hholding⟩
    · rw [hsame, usageBelow_congr _ _ fun name _ => hsame name _, h.hier_eq g hg]
    · have hkept := hheld g
      rw [hm, map_none, getD_none, add_zero] at hkept
      rw [hsame, hkept]
      exact h.held_le g hg
  | some m =>
    obtain ⟨hweight, hcustomer⟩ := h.holding res m hm
    have hle := h.weight_le hm
    have hused : ∀ name, '@' ∉ name →
        (a.removeMatch lib res T).store.floatOf name .weightedResourcesUsed =
          a.store.floatOf name .weightedResourcesUsed +
            if name = assignedGroupName m.customer then -m.weight else 0 := by
      intro name hname
      have hbookings := hcustomer.bookings_eq hname
      have hbound : bookings m.customer name * m.weight ≤
          a.store.floatOf name .weightedResourcesUsed := by
        rw [hbookings]
        split
        · next hgroup => rw [hgroup, Nat.cast_one, one_mul]; exact hle
        · rw [Nat.cast_zero, zero_mul]; exact h.used_nonneg hname
      rw [floatOf_removeMatch T hm, weightedUsed_settle _ hweight hbound, hbookings]
      split <;> push_cast <;> ring
    refine ⟨fun g hg => ?_, fun g hg => ?_, hholding⟩
    · rw [floatOf_removeMatch T hm, hier_settle, usageBelow_of_changed _ _ hcustomer.group hused,
        ← h.hier_eq g hg]
      simp only [hcustomer.mem_ancestorChain]
      split
      · next hbelow =>
        -- the usage of the subtree has the weight of the match in it
        have hroom := h.used_le_usageBelow hcustomer.group hbelow
        rw [h.hier_eq g hg, if_neg (by linarith), sub_eq_add_neg]
      · rw [add_zero]
    · have hkept := hheld g
      rw [hm, map_some, getD_some, Holding.weightFor] at hkept
      simp only [eq_comm (a := assignedGroupName m.customer)] at hkept
      have hbefore := h.held_le g hg
      rw [hused g hg]
      split at hkept
      · next hgroup => rw [if_pos hgroup]; linarith
      · next hgroup => rw [if_neg hgroup]; linarith

theorem clearUsage (slots : List ClassAd)
    (hzero : ∀ g, '@' ∉ g → a.store.floatOf g .weightedResourcesUsed = 0) :
    RolledUp lib (a.clearUsage lib slots) := by
  have hholding : ∀ r m, (a.clearUsage lib slots).store.holding? lib.truncate r = some m →
      a.store.holding? lib.truncate r = some m := by
    intro r m hm
    rw [holding?_clearUsage] at hm
    split at hm
    · cases hm
    · exact hm
  refine ⟨fun g hg => ?_, fun g hg => ?_, fun r m hm => h.holding r m (hholding r m hm)⟩
  · rw [hier_clearUsage, usageBelow_congr a.store _ fun name hname => by
      rw [weightedUsed_clearUsage, hzero name hname], h.hier_eq g hg]
  · rw [weightedUsed_clearUsage]
    refine (sum_eq_zero fun x hx => ?_).le
    obtain ⟨r, -, rfl⟩ := List.mem_map.mp hx
    cases hm : (a.clearUsage lib slots).store.holding? lib.truncate r with
    | none => rfl
    | some m =>
      have hbefore := hholding r m hm
      obtain ⟨hweight, hcustomer⟩ := h.holding r m hbefore
      have hle := h.weight_le hbefore
      rw [hzero _ hcustomer.group] at hle
      rw [map_some, getD_some, Holding.weightFor, le_antisymm hle hweight, ite_self]

theorem updatePriorities {T : ℤ}
    (hkept : a.lastUpdate < T → ∀ g r, '@' ∉ g → a.store.record? .customer g = some r →
      r.floatOf .hierWeightedResourcesUsed ≠ 0 → r.purged lib ((T - a.lastUpdate : ℤ) : K)
        (lib.halfPow (((T - a.lastUpdate : ℤ) : K) / a.cfg.halfLife)) = false) :
    RolledUp lib (a.updatePriorities lib T) := by
  have hholding : ∀ r, (a.updatePriorities lib T).store.holding? lib.truncate r =
      a.store.holding? lib.truncate r := fun r =>
    holding?_congr (attr?_updatePriorities_resource T r)
  have hsame : ∀ g, '@' ∉ g →
      (a.updatePriorities lib T).store.floatOf g .weightedResourcesUsed =
        a.store.floatOf g .weightedResourcesUsed ∧
      (a.updatePriorities lib T).store.floatOf g .hierWeightedResourcesUsed =
        a.store.floatOf g .hierWeightedResourcesUsed := by
    intro g hg
    by_cases hlt : a.lastUpdate < T
    · obtain ⟨hrec, htick⟩ | ⟨r, hrec, ⟨hpurged, htick⟩ | ⟨r', hticked, htick⟩⟩ :=
        updatePriorities_cases lib hlt g
      · simp only [floatOf_of_none _ htick, floatOf_of_none _ hrec, and_self]
      · -- nothing is in use below a group that is purged
        have hnone : r.floatOf .hierWeightedResourcesUsed = 0 := by
          by_contra hne
          rw [hkept hlt g r hg hrec hne] at hpurged
          cases hpurged
        have hroom := h.used_le_usageBelow hg (Or.inl rfl : Below g g)
        rw [← h.hier_eq g hg, floatOf_of_some _ hrec, floatOf_of_some _ hrec, hnone] at hroom
        have hnonneg := h.used_nonneg hg
        rw [floatOf_of_some _ hrec] at hnonneg
        simp only [floatOf_of_some _ hrec, floatOf_of_none _ htick, hnone,
          le_antisymm hroom hnonneg, and_self]
      · simp only [floatOf_of_some _ hrec, floatOf_of_some _ htick, Record.usage_tick hticked,
          and_self]
    · simp only [floatOf, getFloat,
        attr?_updatePriorities_of_le lib (not_lt.mp hlt), and_self]
  refine ⟨fun g hg => ?_, fun g hg => ?_, fun r m hm => h.holding r m (hholding r ▸ hm)⟩
  · rw [(hsame g hg).2, usageBelow_congr _ _ fun name hname => (hsame name hname).1,
      h.hier_eq g hg]
  · rw [(hsame g hg).1, groupHeld_congr _ _ hholding]
    exact h.held_le g hg

end

end RolledUp

/-! ## Runs -/

omit [IsStrictOrderedRing K] in
theorem Record.weightedRecentUsage_of_hier {r : Record K}
    (h : 0 < r.floatOf .hierWeightedResourcesUsed) (timePassed : K) :
    r.weightedRecentUsage timePassed = r.floatOf .hierWeightedResourcesUsed := by
  rw [floatOf] at h ⊢
  rw [weightedRecentUsage]
  cases hhier : r.getFloat .hierWeightedResourcesUsed with
  | none => simp [hhier] at h
  | some hier =>
    rw [hhier, Option.getD_some] at h
    simp [Option.filter, h]

def RollsUp (lib : Library K) (a : Accountant K) : Call K → Prop
  | .addMatch submitter slot _ => (getResourceName lib slot).isSome → Grouped submitter
  | .removeMatch _ _ => True
  | .checkMatches slots _ =>
    (∀ g, '@' ∉ g → a.store.floatOf g .weightedResourcesUsed = 0) ∧
      ∀ cl ∈ claims lib a slots, Grouped cl.customer
  | .updatePriorities T => a.lastUpdate < T → ∀ g r, '@' ∉ g →
      a.store.record? .customer g = some r → r.floatOf .hierWeightedResourcesUsed ≠ 0 →
      let aging := lib.halfPow (((T - a.lastUpdate : ℤ) : K) / a.cfg.halfLife)
      r.intOf lib.truncate .resourcesUsed ≠ 0 ∨
        r.floatOf .accumulatedUsage + (r.intOf lib.truncate .unchargedTime : K) ≠ 0 ∨
        (r.getFloat .priorityFactor).isSome ∨
        minPriority ≤
          r.realPriority * aging + r.floatOf .hierWeightedResourcesUsed * (1 - aging)
  | _ => False

theorem RolledUp.perform (h : RolledUp lib a) {call : Call K} (hcall : RollsUp lib a call) :
    RolledUp lib (a.perform lib call) := by
  cases call with
  | addMatch submitter slot T =>
    simp only [Accountant.perform, addMatch]
    cases hres : getResourceName lib slot with
    | none => exact h
    | some res =>
      exact h.addMatchLocked (hcall (by rw [hres]; rfl)) (getSlotWeight_nonneg lib a slot)
        res _ T
  | removeMatch res T => exact h.removeMatch res T
  | checkMatches slots T =>
    refine foldlRecOn (motive := RolledUp lib) _ _ (h.clearUsage slots hcall.1) ?_
    intro a' ha' cl hcl
    exact ha'.addMatchLocked (hcall.2 cl hcl) (weight_nonneg_of_mem_claims lib a slots hcl) _ _ T
  | updatePriorities T =>
    refine h.updatePriorities fun hlt g r hg hrec hhier => ?_
    have hpos : 0 < r.floatOf .hierWeightedResourcesUsed := by
      refine lt_of_le_of_ne ?_ (Ne.symm hhier)
      have hnonneg := (h.used_nonneg hg).trans (h.used_le_usageBelow hg (Or.inl rfl : Below g g))
      rwa [← h.hier_eq g hg, floatOf_of_some _ hrec] at hnonneg
    have hkeeps := hcall hlt g r hg hrec hhier
    simp only [Record.purged, Record.newPriority, Record.weightedRecentUsage_of_hier hpos,
      Record.newAccum, Bool.and_eq_false_imp, Bool.and_eq_true, decide_eq_true_eq, beq_iff_eq,
      isNone_eq_false_iff, and_imp]
    intro hdecayed hunused hnone
    rcases hkeeps with hused | haccum | hfactor | hprio
    · exact absurd hunused hused
    · rw [hunused, Int.cast_zero, zero_mul, add_zero] at hnone
      exact absurd hnone haccum
    · exact hfactor
    · exact absurd hprio (not_le.mpr hdecayed)
  | _ => exact hcall.elim

omit [IsStrictOrderedRing K] in
theorem rolledUp_new (cfg : Config K) : RolledUp lib (new lib cfg .empty) := by
  have hfree : ∀ res, (new lib cfg .empty).store.holding? lib.truncate res = none := fun res => by
    rw [holding?, remoteUser?, getString, attr?_new_empty cfg (by simp)]
    rfl
  refine ⟨fun g _ => ?_, fun g _ => ?_, fun res m hm => ?_⟩
  · rw [floatOf_new_empty cfg (by simp), usageBelow]
    refine (sum_eq_zero fun x hx => ?_).symm
    obtain ⟨name, -, rfl⟩ := List.mem_map.mp hx
    exact floatOf_new_empty cfg (by simp) name
  · rw [floatOf_new_empty cfg (by simp), groupHeld]
    refine (sum_eq_zero fun x hx => ?_).le
    obtain ⟨res, -, rfl⟩ := List.mem_map.mp hx
    rw [hfree]
    rfl
  · rw [hfree] at hm
    cases hm

/-- **The hierarchical usage of a group is the usage of its subtree** after calls that roll it up.
-/
theorem hierarchical_usage_is_subtree_usage (cfg : Config K) {calls : List (Call K)}
    (hrun : Run (fun a call => some (a.perform lib call)) (RollsUp lib) (new lib cfg .empty) calls
      a) :
    ∀ g, '@' ∉ g →
      a.store.floatOf g .hierWeightedResourcesUsed = a.store.usageBelow g ∧
      ∀ r, a.store.record? .customer g = some r → 0 < a.store.usageBelow g →
        ∀ timePassed, r.weightedRecentUsage timePassed = a.store.usageBelow g := by
  have hrolled : RolledUp lib a := by
    refine hrun.invariant (I := RolledUp lib) ?_ (rolledUp_new cfg)
    intro a call a' hstep hcall h
    cases hstep
    exact h.perform hcall
  intro g hg
  refine ⟨hrolled.hier_eq g hg, fun r hrec hpos timePassed => ?_⟩
  rw [← hrolled.hier_eq g hg, floatOf_of_some _ hrec] at hpos ⊢
  exact Record.weightedRecentUsage_of_hier hpos timePassed

end

theorem hierarchical_usage_is_subtree_usage_three_matches :
    let calls : List (Call ℚ) := [.addMatch "g.h.u@d" (claimedSlot "slot1" "g.h.u@d") 10,
      .addMatch "g.h.v@d" (claimedSlot "slot2" "g.h.v@d") 10,
      .addMatch "g.w@d" (claimedSlot "slot3" "g.w@d") 10, .updatePriorities 20,
      .removeMatch "slot2@" 30]
    let a := calls.foldl (perform literalLibrary) fresh
    a.store.floatOf "g" .hierWeightedResourcesUsed = a.store.usageBelow "g" ∧
      a.store.usageBelow "g" = 4 := by
  intro calls a
  -- with this library priorities do not decay
  have hprio : ∀ (b : Accountant ℚ) (T : ℤ), RollsUp literalLibrary b (.updatePriorities T) := by
    intro b T _ g r _ _ _
    refine Or.inr (Or.inr (Or.inr ?_))
    simp only [literalLibrary, mul_one, sub_self, mul_zero, add_zero]
    exact minPriority_le_clampPriority _
  have hrun : Run (fun a call => some (a.perform literalLibrary call)) (RollsUp literalLibrary)
      (new literalLibrary plainConfig .empty) calls a := by
    refine .cons rfl ?_ (.cons rfl ?_ (.cons rfl ?_ (.cons rfl (hprio _ 20)
      (.cons rfl trivial (.nil _)))))
    · exact fun _ => by decide +kernel
    · exact fun _ => by decide +kernel
    · exact fun _ => by decide +kernel
  exact ⟨(hierarchical_usage_is_subtree_usage plainConfig hrun "g" (by decide)).1,
    by decide +kernel⟩

theorem checkMatches_rolls_up_twice :
    let slot := claimedSlot "slot1" "g.u@d"
    let a :=
      (fresh.addMatch literalLibrary "g.u@d" slot 0).checkMatches literalLibrary [slot] 0
    a.store.floatOf "g" .hierWeightedResourcesUsed = 4 ∧
      a.store.usageBelow "g" = 2 := by
  decide +kernel

end GolangCollector.Accountant
