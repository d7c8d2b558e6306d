import Mathlib.Tactic.Linarith
import GolangCollector.Accountant.Ticks

/-! # What a resource's record says

`addMatchLocked` writes the customer, the weight, the time and the limits of a match on the record
of its resource; `RemoveMatch` reads them back to undo what the match was booked with
(`accountant/usage.go`). -/

namespace GolangCollector.Accountant

open GoStrings Negotiator List Store Option

/-! ## What an end of a match takes back -/

section

variable {K : Type} [Field K] [LinearOrder K] {lib : Library K} {s : Store K} {name : Text} {w : K}
  {charged : ℤ}

theorem attr?_unbookMatch_of_ne {tbl : Table} {key : Text} {attr : Attr}
    (h : tbl = .customer → attr ∉ [Attr.resourcesUsed, .weightedResourcesUsed, .unchargedTime,
      .weightedUnchargedTime]) :
    (s.unbookMatch lib name w charged).attr? tbl key attr = s.attr? tbl key attr := by
  simp only [mem_cons, not_mem_nil, or_false, not_or] at h
  simp only [unbookMatch, sets, foldl_cons, foldl_nil, attr?_set]
  grind

theorem used_unbookMatch (c : Text) :
    (s.unbookMatch lib name w charged).intOf lib.truncate c .resourcesUsed =
      if c = name ∧ 0 < s.intOf lib.truncate c .resourcesUsed then
        s.intOf lib.truncate c .resourcesUsed - 1
      else s.intOf lib.truncate c .resourcesUsed := by
  have hattr : (s.unbookMatch lib name w charged).attr? .customer c .resourcesUsed =
      if c = name then some (.int (if 0 < s.intOf lib.truncate name .resourcesUsed then
        s.intOf lib.truncate name .resourcesUsed - 1
      else s.intOf lib.truncate name .resourcesUsed))
      else s.attr? .customer c .resourcesUsed := by
    simp [unbookMatch, sets, attr?_set]
  rw [intOf, getInt, hattr]
  by_cases h : c = name
  · subst h
    rw [if_pos rfl]
    by_cases hpos : 0 < s.intOf lib.truncate c .resourcesUsed <;> simp [hpos, AttrValue.toInt]
  · rw [if_neg h, if_neg fun h' => h h'.1, intOf, getInt]

theorem weightedUsed_unbookMatch (c : Text) :
    (s.unbookMatch lib name w charged).floatOf c .weightedResourcesUsed =
      if c = name then
        if s.floatOf c .weightedResourcesUsed - w < 0 then 0
        else s.floatOf c .weightedResourcesUsed - w
      else s.floatOf c .weightedResourcesUsed := by
  have hattr : (s.unbookMatch lib name w charged).attr? .customer c .weightedResourcesUsed =
      if c = name then some (.float (if s.floatOf name .weightedResourcesUsed - w < 0 then 0
        else s.floatOf name .weightedResourcesUsed - w))
      else s.attr? .customer c .weightedResourcesUsed := by
    simp [unbookMatch, sets, attr?_set]
  rw [floatOf, getFloat, hattr]
  by_cases h : c = name
  · subst h
    rw [if_pos rfl, if_pos rfl]
    rfl
  · rw [if_neg h, if_neg h, floatOf, getFloat]

theorem uncharged_unbookMatch (c : Text) :
    (s.unbookMatch lib name w charged).intOf lib.truncate c .unchargedTime =
      s.intOf lib.truncate c .unchargedTime + if c = name then charged else 0 := by
  by_cases h : c = name <;>
    simp [unbookMatch, sets, intOf, getInt, attr?_set, h,
      AttrValue.toInt]

theorem weightedUncharged_unbookMatch (c : Text) :
    (s.unbookMatch lib name w charged).floatOf c .weightedUnchargedTime =
      s.floatOf c .weightedUnchargedTime + if c = name then charged * w else 0 := by
  by_cases h : c = name <;>
    simp [unbookMatch, sets, floatOf, getFloat, attr?_set, h,
      AttrValue.toFloat]

end

/-! ## Holdings -/

/-- A match, as the record of its resource has it. -/
structure Holding (F : Type) where
  customer : Text
  weight : F
  began : ℤ
  /-- Empty where no limits are recorded. -/
  limits : Text

def Store.limitsOf {F : Type} (s : Store F) (res : Text) : Text :=
  (s.getString .resource res .matchedConcurrencyLimits).getD []

def Store.holding? {F : Type} [One F] [IntCast F] (truncate : F → ℤ) (s : Store F) (res : Text) :
    Option (Holding F) :=
  (s.remoteUser? res).map fun customer =>
    ⟨customer, (s.getFloat .resource res .slotWeight).getD 1,
      (s.getInt truncate .resource res .startTime).getD 0, s.limitsOf res⟩

section

variable {F : Type} [One F] [IntCast F] {truncate : F → ℤ} {s s' : Store F} {res : Text}

theorem Store.holding?_congr
    (h : ∀ attr, s'.attr? .resource res attr = s.attr? .resource res attr) :
    s'.holding? truncate res = s.holding? truncate res := by
  simp only [holding?, remoteUser?, limitsOf, getString, getFloat, getInt, h]

theorem Store.holding?_of_notMem (h : res ∉ s.keys .resource) : s.holding? truncate res = none := by
  have habsent : s.record? .resource res = none := by simpa [mem_keys] using h
  rw [holding?, remoteUser?, getString, attr?, habsent]
  rfl

theorem Store.remoteUser?_of_holding {m : Holding F} (h : s.holding? truncate res = some m) :
    s.remoteUser? res = some m.customer := by
  obtain ⟨customer, huser, rfl⟩ := map_eq_some_iff.mp h
  exact huser

theorem Store.limits_of_holding {m : Holding F} (h : s.holding? truncate res = some m) :
    m.limits = s.limitsOf res := by
  obtain ⟨customer, -, rfl⟩ := map_eq_some_iff.mp h
  rfl

end

section

variable {K : Type} [Field K] [LinearOrder K] (lib : Library K)

def Store.settle (s : Store K) (m : Holding K) (charged : ℤ) : Store K :=
  (((s.unbookMatch lib m.customer m.weight charged).unbookMatch lib (assignedGroupName m.customer)
    m.weight charged).rollUp (assignedGroupName m.customer)
      fun h => if h - m.weight < 0 then 0 else h - m.weight).changeLimits lib
      (fun count inc => count - inc) m.limits

variable {lib} {a : Accountant K} {res : Text} {m : Holding K} (T : ℤ)

theorem removeMatch_of_holding (h : a.store.holding? lib.truncate res = some m) :
    a.removeMatch lib res T =
      { a with
        store := (a.store.settle lib m (T - max m.began a.lastUpdate)).deleteRecord .resource res
      } := by
  have huser := remoteUser?_of_holding h
  rw [remoteUser?, getString, attr?] at huser
  cases hrec : a.store.record? .resource res with
  | none => simp [hrec] at huser
  | some rec =>
    rw [hrec, bind_some, ← Record.getString] at huser
    have hm : m = ⟨m.customer, (rec.getFloat .slotWeight).getD 1,
        rec.intOf lib.truncate .startTime,
        (rec.getString .matchedConcurrencyLimits).getD []⟩ := by
      obtain ⟨customer, -, rfl⟩ := map_eq_some_iff.mp h
      simp only [limitsOf, getString, getFloat, getInt, attr?, hrec,
        bind_some, Record.intOf, Record.getFloat, Record.getInt, Record.getString]
    rw [removeMatch]
    simp only [hrec, huser]
    rw [hm, settle]
    congr 2
    -- an empty list gives nothing back
    cases hlimits : rec.getString .matchedConcurrencyLimits with
    | none => rfl
    | some limits =>
      cases limits with
      | nil => rfl
      | cons c cs => rfl

theorem attr?_removeMatch_of_none (h : a.store.holding? lib.truncate res = none) (tbl : Table)
    (key : Text) (attr : Attr) :
    (a.removeMatch lib res T).store.attr? tbl key attr =
      if tbl = .resource ∧ key = res then none else a.store.attr? tbl key attr := by
  rw [holding?, map_eq_none_iff, remoteUser?, getString, attr?] at h
  cases hrec : a.store.record? .resource res with
  | none =>
    simp only [removeMatch, hrec]
    split
    · next hkey => rw [hkey.1, hkey.2, attr?, hrec, bind_none]
    · rfl
  | some rec =>
    rw [hrec, bind_some, ← Record.getString] at h
    simp only [removeMatch, hrec, h]
    exact attr?_deleteRecord

@[simp] theorem removeMatch_lastUpdate : (a.removeMatch lib res T).lastUpdate = a.lastUpdate := by
  rw [removeMatch]
  split
  · rfl
  · split <;> rfl

@[simp] theorem removeMatch_cfg : (a.removeMatch lib res T).cfg = a.cfg := by
  rw [removeMatch]
  split
  · rfl
  · split <;> rfl

/-! ### Readings after a settlement -/

section

variable (s : Store K) (m : Holding K) (charged : ℤ)

theorem attr?_settle_resource (key : Text) (attr : Attr) :
    (s.settle lib m charged).attr? .resource key attr = s.attr? .resource key attr := by
  rw [settle, attr?_changeLimits_of_ne (by simp), attr?_rollUp_of_ne (by simp),
    attr?_unbookMatch_of_ne (by simp), attr?_unbookMatch_of_ne (by simp)]

theorem attr?_settle_customer {c : Text} {attr : Attr} (h : attr ≠ .hierWeightedResourcesUsed) :
    (s.settle lib m charged).attr? .customer c attr =
      ((s.unbookMatch lib m.customer m.weight charged).unbookMatch lib
        (assignedGroupName m.customer) m.weight charged).attr? .customer c attr := by
  rw [settle, attr?_changeLimits_of_ne (by simp), attr?_rollUp_of_ne fun _ => h]

variable {s m}

theorem used_settle {c : Text}
    (h : (bookings m.customer c : ℤ) ≤ s.intOf lib.truncate c .resourcesUsed) :
    (s.settle lib m charged).intOf lib.truncate c .resourcesUsed =
      s.intOf lib.truncate c .resourcesUsed - bookings m.customer c := by
  rw [intOf, getInt, attr?_settle_customer s m charged (by simp), ← getInt,
    ← intOf, used_unbookMatch, used_unbookMatch]
  rw [bookings] at h ⊢
  split_ifs at h ⊢ <;> grind

theorem weightedUsed_settle [IsStrictOrderedRing K] {c : Text} (hweight : 0 ≤ m.weight)
    (h : bookings m.customer c * m.weight ≤ s.floatOf c .weightedResourcesUsed) :
    (s.settle lib m charged).floatOf c .weightedResourcesUsed =
      s.floatOf c .weightedResourcesUsed - bookings m.customer c * m.weight := by
  rw [floatOf, getFloat, attr?_settle_customer s m charged (by simp), ← getFloat,
    ← floatOf, weightedUsed_unbookMatch, weightedUsed_unbookMatch]
  rw [bookings] at h ⊢
  split_ifs at h ⊢ <;> push_cast at h ⊢ <;> linarith

/-- The time is charged, once for each booking. -/
theorem uncharged_settle (c : Text) :
    (s.settle lib m charged).intOf lib.truncate c .unchargedTime =
      s.intOf lib.truncate c .unchargedTime + bookings m.customer c * charged := by
  rw [intOf, getInt, attr?_settle_customer s m charged (by simp), ← getInt,
    ← intOf, uncharged_unbookMatch, uncharged_unbookMatch, bookings]
  split_ifs <;> push_cast <;> ring

@[inherit_doc uncharged_settle]
theorem weightedUncharged_settle (c : Text) :
    (s.settle lib m charged).floatOf c .weightedUnchargedTime =
      s.floatOf c .weightedUnchargedTime + bookings m.customer c * (charged * m.weight) := by
  rw [floatOf, getFloat, attr?_settle_customer s m charged (by simp), ← getFloat,
    ← floatOf, weightedUncharged_unbookMatch, weightedUncharged_unbookMatch, bookings]
  split_ifs <;> push_cast <;> ring

theorem attr?_settle_of_notMem {c : Text} {attr : Attr}
    (h : attr ∉ [Attr.resourcesUsed, .weightedResourcesUsed, .unchargedTime,
      .weightedUnchargedTime, .hierWeightedResourcesUsed]) :
    (s.settle lib m charged).attr? .customer c attr = s.attr? .customer c attr := by
  simp only [mem_cons, not_mem_nil, or_false, not_or] at h
  rw [attr?_settle_customer s m charged h.2.2.2.2, attr?_unbookMatch_of_ne (by simp [h]),
    attr?_unbookMatch_of_ne (by simp [h])]

end

/-! ### What is held after each call -/

theorem attr?_removeMatch_resource (key : Text) (attr : Attr) :
    (a.removeMatch lib res T).store.attr? .resource key attr =
      if key = res then none else a.store.attr? .resource key attr := by
  cases h : a.store.holding? lib.truncate res with
  | none => simp [attr?_removeMatch_of_none T h]
  | some m =>
    rw [removeMatch_of_holding T h, attr?_deleteRecord, attr?_settle_resource]
    simp

theorem holding?_removeMatch (key : Text) :
    (a.removeMatch lib res T).store.holding? lib.truncate key =
      if key = res then none else a.store.holding? lib.truncate key := by
  split
  · next h =>
    rw [holding?, remoteUser?, getString, attr?_removeMatch_resource, if_pos h]
    rfl
  · next h => exact holding?_congr fun attr => by rw [attr?_removeMatch_resource, if_neg h]

section

variable (h : a.store.holding? lib.truncate res = some m)
include h

theorem attr?_removeMatch_customer (c : Text) (attr : Attr) :
    (a.removeMatch lib res T).store.attr? .customer c attr =
      (a.store.settle lib m (T - max m.began a.lastUpdate)).attr? .customer c attr := by
  rw [removeMatch_of_holding T h, attr?_deleteRecord, if_neg (by simp)]

theorem intOf_removeMatch (c : Text) (attr : Attr) :
    (a.removeMatch lib res T).store.intOf lib.truncate c attr =
      (a.store.settle lib m (T - max m.began a.lastUpdate)).intOf lib.truncate c attr := by
  rw [intOf, getInt, attr?_removeMatch_customer T h, intOf, getInt]

theorem floatOf_removeMatch (c : Text) (attr : Attr) :
    (a.removeMatch lib res T).store.floatOf c attr =
      (a.store.settle lib m (T - max m.began a.lastUpdate)).floatOf c attr := by
  rw [floatOf, getFloat, attr?_removeMatch_customer T h, floatOf, getFloat]

end

variable (lib a) in
theorem attr?_addMatchLocked_resource (customer res limits : Text) (w : K) (r : Text)
    (attr : Attr) :
    (a.addMatchLocked lib customer res w limits T).store.attr? .resource r attr =
      (a.store.holdResource res customer w limits T).attr? .resource r attr := by
  have hbooked : ∀ key attr, (((a.store.bookMatch lib customer w (T - a.lastUpdate)).bookMatch lib
      (assignedGroupName customer) w (T - a.lastUpdate)).rollUp (assignedGroupName customer)
        fun h => h + w).attr? .resource key attr = a.store.attr? .resource key attr := by
    intro key attr
    rw [attr?_rollUp_of_ne (by simp), attr?_bookMatch_of_ne (by simp),
      attr?_bookMatch_of_ne (by simp)]
  have hheld : ∀ s s' : Store K,
      (∀ key attr, s'.attr? .resource key attr = s.attr? .resource key attr) →
      (s'.holdResource res customer w limits T).attr? .resource r attr =
        (s.holdResource res customer w limits T).attr? .resource r attr := by
    intro s s' h
    simp only [holdResource, sets, writeIf]
    split <;> simp [attr?_set, h]
  rw [addMatchLocked]
  dsimp only
  split
  · rw [attr?_changeLimits_of_ne (by simp), hheld _ _ hbooked]
  · exact hheld _ _ hbooked

variable (lib a) in
theorem holding?_addMatchLocked (customer res limits : Text) (w : K) (r : Text) :
    (a.addMatchLocked lib customer res w limits T).store.holding? lib.truncate r =
      if r = res then
        some ⟨customer, w, T, if limits ≠ [] then limits else a.store.limitsOf res⟩
      else a.store.holding? lib.truncate r := by
  rw [holding?_congr (attr?_addMatchLocked_resource lib a T customer res limits w r)]
  split
  · next h =>
    subst h
    by_cases hl : limits = [] <;>
      simp [holding?, remoteUser?, limitsOf, getString, getFloat,
        getInt, holdResource, writeIf, sets, attr?_set, hl,
        AttrValue.toText, AttrValue.toFloat, AttrValue.toInt]
  · next h =>
    exact holding?_congr fun attr => attr?_holdResource_of_ne fun _ => h

omit [LinearOrder K] in
theorem attr?_clearUsage_resource (slots : List ClassAd) (res : Text) (attr : Attr) :
    (a.clearUsage lib slots).store.attr? .resource res attr =
      if a.stale lib slots res = true then none else a.store.attr? .resource res attr := by
  have hrest : ∀ s : Store K, (((s.keys .customer).foldl
      (fun s name => s.set .customer name .weightedResourcesUsed (.float 0)) s).clearLimits).attr?
        .resource res attr = s.attr? .resource res attr := fun s => by
    rw [clearLimits, attr?_foldl_set, if_neg (by simp), attr?_foldl_set,
      if_neg (by simp)]
  rw [clearUsage]
  dsimp only
  rw [hrest, attr?, record?_foldl_deleteRecord]
  cases hstale : a.stale lib slots res with
  | false => simp [hstale, attr?]
  | true => cases hrec : a.store.record? .resource res <;> simp [hstale, Store.mem_keys, hrec]

omit [LinearOrder K] in
theorem holding?_clearUsage (slots : List ClassAd) (res : Text) :
    (a.clearUsage lib slots).store.holding? lib.truncate res =
      if a.stale lib slots res = true then none else a.store.holding? lib.truncate res := by
  split
  · next h =>
    rw [holding?, remoteUser?, getString, attr?_clearUsage_resource, if_pos h]
    rfl
  · next h => exact holding?_congr fun attr => by rw [attr?_clearUsage_resource, if_neg h]

theorem attr?_updatePriorities_resource (key : Text) (attr : Attr) :
    (a.updatePriorities lib T).store.attr? .resource key attr =
      a.store.attr? .resource key attr := by
  have hclock : (a.setLastUpdate T).store.attr? .resource key attr =
      a.store.attr? .resource key attr := by
    rw [setLastUpdate, attr?_set, if_neg (by simp)]
  rw [updatePriorities]
  dsimp only
  split_ifs
  · rfl
  · exact hclock
  · rw [← hclock, attr?, record?_foldl_updateOnePriority nodup_keys, if_neg (by simp),
      attr?]

end

end GolangCollector.Accountant
