import Mathlib.Algebra.Order.Field.Basic
import Mathlib.Tactic.Ring
import GolangCollector.Accountant.Accounts
import GolangCollector.Lib.Budget

/-! # What a match is booked on

`addMatchLocked` books a match on the record of its customer and on that of the customer's group, on
the resource's record and on the limits it names (`accountant/usage.go`, `accountant/limits.go`).
Each reading of the store changes by an amount that depends on the match alone. -/

namespace GolangCollector.Accountant

open GoStrings Negotiator List Store Option

/-! ## What each part of a match leaves alone -/

namespace Store

section

variable {F : Type} {s : Store F} {tbl : Table} {key : Text} {attr : Attr} {lib : Library F}

theorem attr?_holdResource_of_ne {res customer limits : Text} {w : F} {T : ℤ}
    (h : tbl = .resource → key ≠ res) :
    (s.holdResource res customer w limits T).attr? tbl key attr = s.attr? tbl key attr :=
  attr?_sets_of_ne _ fun h' => h h'.1 h'.2

variable [Zero F] [IntCast F]

theorem attr?_rollUp_of_ne {group : Text} {change : F → F}
    (h : tbl = .customer → attr ≠ .hierWeightedResourcesUsed) :
    (s.rollUp group change).attr? tbl key attr = s.attr? tbl key attr := by
  refine foldlRecOn (motive := fun s' : Store F => s'.attr? tbl key attr = _) _ _ rfl ?_
  intro s' hs' part _
  rw [attr?_set, if_neg (fun h' => h h'.1 h'.2.2), hs']

theorem attr?_changeLimits_of_ne [One F] [LE F] [DecidableLE F] {change : F → F → F}
    {limits : Text} (h : tbl ≠ .acct) :
    (s.changeLimits lib change limits).attr? tbl key attr = s.attr? tbl key attr := by
  refine foldlRecOn (motive := fun s' : Store F => s'.attr? tbl key attr = _) _ _ rfl ?_
  intro s' hs' p _
  rw [setLimit, attr?_set, if_neg (fun h' => h h'.1), hs']

theorem attr?_bookMatch_of_ne [Add F] [Sub F] [Mul F] {name : Text} {w : F} {delta : ℤ}
    (h : tbl = .customer → attr ∉ [Attr.resourcesUsed, .weightedResourcesUsed, .unchargedTime,
      .weightedUnchargedTime]) :
    (s.bookMatch lib name w delta).attr? tbl key attr = s.attr? tbl key attr := by
  simp only [mem_cons, not_mem_nil, or_false, not_or] at h
  simp only [bookMatch, sets, foldl_cons, foldl_nil, attr?_set]
  grind

end

/-! ## What a booking adds -/

section

variable {K : Type} [Ring K] (lib : Library K) (s : Store K) (name c : Text) (w : K) (delta : ℤ)

theorem intOf_bookMatch_resourcesUsed :
    (s.bookMatch lib name w delta).intOf lib.truncate c .resourcesUsed =
      s.intOf lib.truncate c .resourcesUsed + if c = name then 1 else 0 := by
  by_cases h : c = name <;> simp [bookMatch, sets, intOf, getInt, attr?_set, h, AttrValue.toInt]

theorem floatOf_bookMatch_weightedResourcesUsed :
    (s.bookMatch lib name w delta).floatOf c .weightedResourcesUsed =
      s.floatOf c .weightedResourcesUsed + if c = name then w else 0 := by
  by_cases h : c = name <;>
    simp [bookMatch, sets, floatOf, getFloat, attr?_set, h, AttrValue.toFloat]

theorem intOf_bookMatch_unchargedTime :
    (s.bookMatch lib name w delta).intOf lib.truncate c .unchargedTime =
      s.intOf lib.truncate c .unchargedTime - if c = name then delta else 0 := by
  by_cases h : c = name <;> simp [bookMatch, sets, intOf, getInt, attr?_set, h, AttrValue.toInt]

theorem floatOf_bookMatch_weightedUnchargedTime :
    (s.bookMatch lib name w delta).floatOf c .weightedUnchargedTime =
      s.floatOf c .weightedUnchargedTime - if c = name then delta * w else 0 := by
  by_cases h : c = name <;>
    simp [bookMatch, sets, floatOf, getFloat, attr?_set, h, AttrValue.toFloat]

end

end Store

/-- How often a match of a customer is booked on a name. -/
def bookings (customer name : Text) : ℕ :=
  (if name = customer then 1 else 0) + if name = assignedGroupName customer then 1 else 0

section

variable {K : Type} [Field K] [LinearOrder K] {lib : Library K} {a : Accountant K}
  {customer res limits : Text} {w : K} {T : ℤ}

theorem attr?_addMatchLocked_customer {c : Text} {attr : Attr}
    (h : attr ≠ .hierWeightedResourcesUsed) :
    (a.addMatchLocked lib customer res w limits T).store.attr? .customer c attr =
      ((a.store.bookMatch lib customer w (T - a.lastUpdate)).bookMatch lib
        (assignedGroupName customer) w (T - a.lastUpdate)).attr? .customer c attr := by
  rw [addMatchLocked]
  dsimp only
  have hrest : ∀ s : Store K, ((s.rollUp (assignedGroupName customer) fun h => h + w).holdResource
      res customer w limits T).attr? .customer c attr = s.attr? .customer c attr := fun s => by
    rw [attr?_holdResource_of_ne (by simp), attr?_rollUp_of_ne fun _ => h]
  split
  · rw [attr?_changeLimits_of_ne (by simp), hrest]
  · exact hrest _

theorem intOf_addMatchLocked {c : Text} {attr : Attr} (h : attr ≠ .hierWeightedResourcesUsed) :
    (a.addMatchLocked lib customer res w limits T).store.intOf lib.truncate c attr =
      ((a.store.bookMatch lib customer w (T - a.lastUpdate)).bookMatch lib
        (assignedGroupName customer) w (T - a.lastUpdate)).intOf lib.truncate c attr := by
  rw [intOf, getInt, attr?_addMatchLocked_customer h, intOf, getInt]

theorem floatOf_addMatchLocked {c : Text} {attr : Attr} (h : attr ≠ .hierWeightedResourcesUsed) :
    (a.addMatchLocked lib customer res w limits T).store.floatOf c attr =
      ((a.store.bookMatch lib customer w (T - a.lastUpdate)).bookMatch lib
        (assignedGroupName customer) w (T - a.lastUpdate)).floatOf c attr := by
  rw [floatOf, getFloat, attr?_addMatchLocked_customer h, floatOf, getFloat]

theorem attr?_addMatchLocked_of_notMem {c : Text} {attr : Attr}
    (h : attr ∉ [Attr.resourcesUsed, .weightedResourcesUsed, .unchargedTime,
      .weightedUnchargedTime, .hierWeightedResourcesUsed]) :
    (a.addMatchLocked lib customer res w limits T).store.attr? .customer c attr =
      a.store.attr? .customer c attr := by
  simp only [mem_cons, not_mem_nil, or_false, not_or] at h
  rw [attr?_addMatchLocked_customer h.2.2.2.2, attr?_bookMatch_of_ne,
    attr?_bookMatch_of_ne] <;> simp [h]

variable (lib a customer res limits w T)

@[simp] theorem addMatchLocked_lastUpdate :
    (a.addMatchLocked lib customer res w limits T).lastUpdate = a.lastUpdate := rfl

theorem used_addMatchLocked (c : Text) :
    (a.addMatchLocked lib customer res w limits T).store.intOf lib.truncate c .resourcesUsed =
      a.store.intOf lib.truncate c .resourcesUsed + bookings customer c := by
  rw [intOf_addMatchLocked (by simp), intOf_bookMatch_resourcesUsed,
    intOf_bookMatch_resourcesUsed, bookings]
  push_cast
  ring

theorem weightedUsed_addMatchLocked (c : Text) :
    (a.addMatchLocked lib customer res w limits T).store.floatOf c .weightedResourcesUsed =
      a.store.floatOf c .weightedResourcesUsed + bookings customer c * w := by
  rw [floatOf_addMatchLocked (by simp), floatOf_bookMatch_weightedResourcesUsed,
    floatOf_bookMatch_weightedResourcesUsed, bookings]
  split_ifs <;> push_cast <;> ring

/-- The time since the last tick is charged in advance, once for each booking. -/
theorem uncharged_addMatchLocked (c : Text) :
    (a.addMatchLocked lib customer res w limits T).store.intOf lib.truncate c .unchargedTime =
      a.store.intOf lib.truncate c .unchargedTime - bookings customer c * (T - a.lastUpdate) := by
  rw [intOf_addMatchLocked (by simp), intOf_bookMatch_unchargedTime,
    intOf_bookMatch_unchargedTime, bookings]
  split_ifs <;> push_cast <;> ring

@[inherit_doc uncharged_addMatchLocked]
theorem weightedUncharged_addMatchLocked (c : Text) :
    (a.addMatchLocked lib customer res w limits T).store.floatOf c .weightedUnchargedTime =
      a.store.floatOf c .weightedUnchargedTime -
        bookings customer c * ((T - a.lastUpdate : ℤ) * w) := by
  rw [floatOf_addMatchLocked (by simp), floatOf_bookMatch_weightedUnchargedTime,
    floatOf_bookMatch_weightedUnchargedTime, bookings]
  split_ifs <;> push_cast <;> ring

theorem remoteUser?_addMatchLocked (r : Text) :
    (a.addMatchLocked lib customer res w limits T).store.remoteUser? r =
      if r = res then some customer else a.store.remoteUser? r := by
  have hheld : ∀ s : Store K, (s.holdResource res customer w limits T).remoteUser? r =
      if r = res then some customer else s.remoteUser? r := fun s => by
    rw [remoteUser?, getString, remoteUser?, getString]
    split
    · next h =>
      subst h
      cases hl : decide (limits ≠ []) <;>
        simp [holdResource, hl, writeIf, sets, attr?_set, AttrValue.toText]
    · next h => rw [attr?_holdResource_of_ne fun _ => h]
  have hbooked : ∀ s : Store K, (((s.bookMatch lib customer w (T - a.lastUpdate)).bookMatch lib
      (assignedGroupName customer) w (T - a.lastUpdate)).rollUp (assignedGroupName customer)
        fun h => h + w).remoteUser? r = s.remoteUser? r := fun s => by
    rw [remoteUser?, getString, attr?_rollUp_of_ne (by simp),
      attr?_bookMatch_of_ne (by simp), attr?_bookMatch_of_ne (by simp),
      remoteUser?, getString]
  rw [addMatchLocked]
  dsimp only
  split
  · rw [remoteUser?, getString, attr?_changeLimits_of_ne (by simp),
      ← getString, ← remoteUser?, hheld, hbooked]
  · rw [hheld, hbooked]

end

/-! ## Limits -/

def limitIncrement {F : Type} [Zero F] [One F] [Add F] [LE F] [DecidableLE F] (lib : Library F)
    (limits name : Text) : F :=
  ((((splitLimits limits).filterMap (parseConcurrencyLimit lib.toMatchLibrary)).filter
    fun p => p.1 = toLower name).map Prod.snd).sum

theorem limitKey_inj {n m : Text} : limitKey n = limitKey m ↔ toLower n = toLower m := by
  rw [limitKey, limitKey, append_cancel_left_eq]

theorem Store.getLimit_setLimit {F : Type} [Zero F] [IntCast F] (s : Store F) (m n : Text) (v : F) :
    (s.setLimit m v).getLimit n = if toLower n = toLower m then v else s.getLimit n := by
  rw [getLimit, getFloat, setLimit, attr?_set]
  by_cases h : toLower n = toLower m
  · rw [if_pos ⟨rfl, limitKey_inj.mpr h, rfl⟩, if_pos h]
    rfl
  · rw [if_neg fun h' => h (limitKey_inj.mp h'.2.1), if_neg h]
    rfl

theorem toLower_of_mem_tokens {F : Type} [Zero F] [One F] [LE F] [DecidableLE F]
    {lib : MatchLibrary F} {tokens : List Text} {p : Text × F}
    (h : p ∈ tokens.filterMap (parseConcurrencyLimit lib)) :
    toLower p.1 = p.1 := by
  obtain ⟨tok, -, hp⟩ := mem_filterMap.mp h
  simp only [parseConcurrencyLimit, parseLimitToken, ite_none_right_eq_some,
    some.injEq] at hp
  obtain ⟨-, rfl⟩ := hp
  exact toLower_toLower _

section

variable {K : Type} [Field K] [LinearOrder K] (lib : Library K)

theorem Store.getLimit_changeLimits_of {change : K → K → K} {g : K → K}
    (hchange : ∀ count inc, change count inc = count + g inc) (s : Store K) (limits n : Text) :
    (s.changeLimits lib change limits).getLimit n = s.getLimit n +
      ((((splitLimits limits).filterMap (parseConcurrencyLimit lib.toMatchLibrary)).filter
        fun p => p.1 = toLower n).map fun p => g p.2).sum := by
  have hstep : ∀ (s : Store K) (p : Text × K), True →
      (s.setLimit p.1 (change (s.getLimit p.1) p.2)).getLimit n =
        s.getLimit n + if toLower p.1 = toLower n then g p.2 else 0 := fun s p _ => by
    rw [getLimit_setLimit, hchange]
    by_cases h : toLower n = toLower p.1
    · rw [if_pos h, if_pos h.symm, getLimit, getLimit, limitKey_inj.mpr h.symm]
    · rw [if_neg h, if_neg (Ne.symm h), add_zero]
  rw [changeLimits, Budget.reading_foldl (fun _ => True) (fun s : Store K => s.getLimit n)
    (fun _ _ h => h) hstep _ trivial, Budget.sum_map_filter]
  congr 2
  refine map_congr_left fun p hp => ?_
  rw [toLower_of_mem_tokens hp]

theorem Store.getLimit_changeLimits (s : Store K) (limits n : Text) :
    (s.changeLimits lib (fun count inc => count + inc) limits).getLimit n =
      s.getLimit n + limitIncrement lib limits n :=
  s.getLimit_changeLimits_of lib (g := id) (fun _ _ => rfl) limits n

theorem Store.getLimit_changeLimits_sub (s : Store K) (limits n : Text) :
    (s.changeLimits lib (fun count inc => count - inc) limits).getLimit n =
      s.getLimit n - limitIncrement lib limits n := by
  rw [s.getLimit_changeLimits_of lib (g := Neg.neg) (fun _ _ => sub_eq_add_neg _ _) limits n,
    limitIncrement, sub_eq_add_neg, List.sum_neg, List.map_map]
  rfl

@[simp] theorem limitIncrement_nil (n : Text) : limitIncrement lib [] n = 0 := by
  simp [limitIncrement, splitLimits, fieldsFunc]

theorem getLimit_addMatchLocked (a : Accountant K) (customer res limits : Text) (w : K) (T : ℤ)
    (n : Text) : (a.addMatchLocked lib customer res w limits T).store.getLimit n =
      a.store.getLimit n + limitIncrement lib limits n := by
  have hrest : ∀ s : Store K, ((((s.bookMatch lib customer w (T - a.lastUpdate)).bookMatch lib
      (assignedGroupName customer) w (T - a.lastUpdate)).rollUp (assignedGroupName customer)
        fun h => h + w).holdResource res customer w limits T).getLimit n = s.getLimit n := by
    intro s
    rw [Store.getLimit, Store.getFloat, Store.attr?_holdResource_of_ne (by simp),
      attr?_rollUp_of_ne (by simp), attr?_bookMatch_of_ne (by simp),
      Store.attr?_bookMatch_of_ne (by simp), Store.getLimit, Store.getFloat]
  rw [addMatchLocked]
  dsimp only
  split
  · rw [getLimit_changeLimits, hrest]
  · next h =>
    obtain rfl : limits = [] := not_not.mp h
    rw [hrest, limitIncrement_nil, add_zero]

/-! ## The rebuild -/

variable (a : Accountant K) (slots : List ClassAd)

omit [LinearOrder K] in
@[simp] theorem clearUsage_lastUpdate : (a.clearUsage lib slots).lastUpdate = a.lastUpdate := by
  rw [clearUsage]

omit [LinearOrder K] in
@[simp] theorem clearUsage_cfg : (a.clearUsage lib slots).cfg = a.cfg := by
  rw [clearUsage]

omit [LinearOrder K] in
theorem attr?_clearUsage_customer (c : Text) (attr : Attr) :
    (a.clearUsage lib slots).store.attr? .customer c attr =
      if (a.store.record? .customer c).isSome ∧ attr = .weightedResourcesUsed then some (.float 0)
      else a.store.attr? .customer c attr := by
  have hlimits : ∀ s : Store K, s.clearLimits.attr? .customer c attr = s.attr? .customer c attr :=
    fun s => by rw [clearLimits, attr?_foldl_set, if_neg (by simp)]
  rw [clearUsage, hlimits, attr?_foldl_set, attr?, record?_foldl_deleteRecord]
  simp [Store.mem_keys, Store.record?_foldl_deleteRecord, Store.attr?]

omit [LinearOrder K] in
theorem weightedUsed_clearUsage (c : Text) :
    (a.clearUsage lib slots).store.floatOf c .weightedResourcesUsed = 0 := by
  rw [floatOf, getFloat, attr?_clearUsage_customer]
  cases h : a.store.record? .customer c <;> simp [attr?, h, AttrValue.toFloat]

omit [LinearOrder K] in
theorem getLimit_clearUsage (n : Text) : (a.clearUsage lib slots).store.getLimit n = 0 := by
  have hzero : ∀ s : Store K, s.clearLimits.getLimit n = 0 := fun s => by
    have hhead : limitKeyHead.isPrefixOf (limitKey n) = true := by
      rw [List.isPrefixOf_iff_prefix, limitKey]
      exact prefix_append _ _
    rw [Store.getLimit, Store.getFloat, Store.clearLimits, Store.attr?_foldl_set]
    cases h : s.record? .acct (limitKey n) with
    | none => simp [Store.attr?, h, Store.mem_keys]
    | some r => simp [Store.mem_keys, h, hhead, AttrValue.toFloat]
  simp only [clearUsage, hzero]

def claims (a : Accountant K) (slots : List ClassAd) : List (Claim K) :=
  slots.filterMap (a.claim? lib)

theorem reading_checkMatches {M : Type} [AddMonoid M] (T : ℤ) (read : Accountant K → M)
    (g : Claim K → M)
    (hstep : ∀ (a' : Accountant K) (cl : Claim K), a'.lastUpdate = a.lastUpdate →
      read (a'.addMatchLocked lib cl.customer cl.res cl.weight cl.limits T) = read a' + g cl) :
    read (a.checkMatches lib slots T) =
      read (a.clearUsage lib slots) + ((claims lib a slots).map g).sum := by
  rw [checkMatches]
  refine Budget.reading_foldl (fun a' : Accountant K => a'.lastUpdate = a.lastUpdate) read ?_ hstep
    _ (clearUsage_lastUpdate lib a slots)
  intro a' cl h
  exact h

theorem weightedUsed_checkMatches (T : ℤ) (c : Text) :
    (a.checkMatches lib slots T).store.floatOf c .weightedResourcesUsed =
      ((claims lib a slots).map fun cl => (bookings cl.customer c : K) * cl.weight).sum := by
  have hsum := reading_checkMatches lib a slots T
    (fun a' => a'.store.floatOf c .weightedResourcesUsed)
    (fun cl => (bookings cl.customer c : K) * cl.weight)
    fun a' cl _ => weightedUsed_addMatchLocked lib a' cl.customer cl.res cl.limits cl.weight T c
  rw [hsum, weightedUsed_clearUsage, zero_add]

theorem getLimit_checkMatches (T : ℤ) (n : Text) :
    (a.checkMatches lib slots T).store.getLimit n =
      ((claims lib a slots).map fun cl => limitIncrement lib cl.limits n).sum := by
  have hsum := reading_checkMatches lib a slots T (fun a' => a'.store.getLimit n)
    (fun cl => limitIncrement lib cl.limits n)
    fun a' cl _ => getLimit_addMatchLocked lib a' cl.customer cl.res cl.limits cl.weight T n
  rw [hsum, getLimit_clearUsage, zero_add]

omit [LinearOrder K] in
theorem sum_bookings (cls : List (Claim K)) (c : Text) :
    (cls.map fun cl => (bookings cl.customer c : K) * cl.weight).sum =
      ((cls.filter fun cl => cl.customer = c).map Claim.weight).sum +
        ((cls.filter fun cl => assignedGroupName cl.customer = c).map Claim.weight).sum := by
  rw [Budget.sum_map_filter, Budget.sum_map_filter, ← sum_map_add]
  congr 1
  refine map_congr_left fun cl _ => ?_
  simp only [bookings, eq_comm (a := c)]
  split_ifs <;> push_cast <;> ring

theorem claims_congr {a a' : Accountant K} (h : a'.cfg = a.cfg) : claims lib a' = claims lib a := by
  have hclaim : a'.claim? lib = a.claim? lib := by
    funext ad
    simp only [claim?, isClaimed, getSlotWeight, h]
  funext slots
  rw [claims, claims, hclaim]

theorem checkMatches_frame (T : ℤ) : (a.checkMatches lib slots T).cfg = a.cfg ∧
    (a.checkMatches lib slots T).lastUpdate = a.lastUpdate := by
  rw [checkMatches]
  refine foldlRecOn (motive := fun a' : Accountant K =>
    a'.cfg = a.cfg ∧ a'.lastUpdate = a.lastUpdate) _ _
    ⟨clearUsage_cfg lib a slots, clearUsage_lastUpdate lib a slots⟩ ?_
  intro a' h cl _
  exact h

@[simp] theorem checkMatches_cfg (T : ℤ) : (a.checkMatches lib slots T).cfg = a.cfg :=
  (checkMatches_frame lib a slots T).1

@[simp] theorem checkMatches_lastUpdate (T : ℤ) :
    (a.checkMatches lib slots T).lastUpdate = a.lastUpdate := (checkMatches_frame lib a slots T).2

theorem getSlotWeight_nonneg [IsStrictOrderedRing K] (slot : ClassAd) :
    0 ≤ a.getSlotWeight lib slot := by
  rw [getSlotWeight]
  split
  · exact zero_le_one
  · cases h : (lib.getAsFloat slot "SlotWeight").filter fun w => 0 ≤ w with
    | none => exact zero_le_one
    | some w => simpa using (filter_eq_some_iff.mp h).2

theorem weight_nonneg_of_mem_claims [IsStrictOrderedRing K] {cl : Claim K}
    (h : cl ∈ claims lib a slots) : 0 ≤ cl.weight := by
  obtain ⟨ad, -, hcl⟩ := mem_filterMap.mp h
  simp only [claim?, bind_eq_bind, bind_eq_some_iff, some.injEq] at hcl
  obtain ⟨_, -, _, -, rfl⟩ := hcl
  exact getSlotWeight_nonneg lib a ad

def AgreeOnUsage (a a' : Accountant K) : Prop :=
  (∀ c, a'.getWeightedResourcesUsed c = a.getWeightedResourcesUsed c) ∧
    ∀ n, a'.getLimit n = a.getLimit n

/-- **`CheckMatches` is an authoritative rebuild** from the claimed, named slots, in any order. -/
theorem checkMatches_rebuilds (T : ℤ) :
    (∀ c, (a.checkMatches lib slots T).getWeightedResourcesUsed c =
      (((claims lib a slots).filter fun cl => cl.customer = c).map Claim.weight).sum +
        (((claims lib a slots).filter fun cl => assignedGroupName cl.customer = c).map
          Claim.weight).sum) ∧
    (∀ n, (a.checkMatches lib slots T).getLimit n =
      ((claims lib a slots).map fun cl => limitIncrement lib cl.limits n).sum) ∧
    (∀ (a' : Accountant K) (slots' : List ClassAd) (T' : ℤ), a'.cfg = a.cfg → slots'.Perm slots →
      AgreeOnUsage (a.checkMatches lib slots T) (a'.checkMatches lib slots' T')) ∧
    ∀ T', AgreeOnUsage (a.checkMatches lib slots T)
      ((a.checkMatches lib slots T).checkMatches lib slots T') := by
  have hfrom : ∀ (a' : Accountant K) (slots' : List ClassAd) (T' : ℤ), a'.cfg = a.cfg →
      slots'.Perm slots →
      AgreeOnUsage (a.checkMatches lib slots T) (a'.checkMatches lib slots' T') := by
    intro a' slots' T' hcfg hperm
    have hclaims : (claims lib a' slots').Perm (claims lib a slots) := by
      rw [claims_congr lib hcfg]
      exact hperm.filterMap _
    constructor
    · intro c
      rw [getWeightedResourcesUsed, weightedUsed_checkMatches, getWeightedResourcesUsed,
        weightedUsed_checkMatches]
      exact (hclaims.map _).sum_eq
    · intro n
      rw [getLimit, getLimit_checkMatches, getLimit, getLimit_checkMatches]
      exact (hclaims.map _).sum_eq
  refine ⟨fun c => ?_, fun n => ?_, hfrom, fun T' => hfrom _ slots T' (by simp) (.refl slots)⟩
  · rw [getWeightedResourcesUsed, weightedUsed_checkMatches, sum_bookings]
  · rw [getLimit, getLimit_checkMatches]

end

theorem checkMatches_rebuilds_two_claims :
    let slots := [claimedSlot "slot1" "g.u@d", claimedSlot "slot2" "g.u@d"]
    let before := fresh.addMatch literalLibrary "v@d" (claimedSlot "slot3" "v@d") 5
    fresh.cfg = before.cfg ∧ slots.reverse.Perm slots ∧
      (fresh.checkMatches literalLibrary slots.reverse 7).getWeightedResourcesUsed "g" =
        (before.checkMatches literalLibrary slots 9).getWeightedResourcesUsed "g" ∧
      (before.checkMatches literalLibrary slots 9).getWeightedResourcesUsed "g" = 4 := by
  intro slots before
  have hcfg : fresh.cfg = before.cfg := rfl
  have hrebuilt := checkMatches_rebuilds literalLibrary before slots 9
  refine ⟨hcfg, slots.reverse_perm, ?_, by decide +kernel⟩
  exact (hrebuilt.2.2.1 fresh slots.reverse 7 hcfg slots.reverse_perm).1 _

theorem checkMatches_skips_unnamed_slot :
    let slot := unnamedSlot "g.u@d"
    fresh.isClaimed literalLibrary slot = some "g.u@d".toList ∧
      assignedGroupName "g.u@d".toList = "g".toList ∧ fresh.getSlotWeight literalLibrary slot = 2 ∧
      (fresh.checkMatches literalLibrary [slot] 0).getWeightedResourcesUsed "g".toList = 0 := by
  decide +kernel

end GolangCollector.Accountant
