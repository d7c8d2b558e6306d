import GolangCollector.Negotiator.SingleUse

/-! # The claim ids of a snapshot

The claim ids of a snapshot come from the startds' private ads, under name and address put together.
Where no name holds a `<` and every address begins with one, the key is read in one way only. -/

namespace GolangCollector.Negotiator

open GoStrings Runs List Option Negotiator.Cycle

section

variable {F : Type} (lib : MatchLibrary F)

/-! ## Private ads -/

def splitTokens (s : Text) : List Text := fieldsFunc (· ∈ [',', ' ', '\t', '\n', '\r']) s

def nonEmptyString (ad : ClassAd) (attr : String) : Option Text :=
  (lib.evaluateAttrString ad attr.toList).filter (· ≠ [])

def identityPvt (pvt : ClassAd) : Option (Text × Text) := do
  some (← nonEmptyString lib pvt "Name", ← nonEmptyString lib pvt "MyAddress")

def claimKeyPvt (pvt : ClassAd) : Option Text := (identityPvt lib pvt).map fun i => i.1 ++ i.2

def claimIDFromPvt (pvt : ClassAd) : Option Text :=
  nonEmptyString lib pvt "ClaimId" <|> nonEmptyString lib pvt "Capability" <|>
    (nonEmptyString lib pvt "ClaimIdList").bind fun list => (splitTokens list).find? (· ≠ [])

def buildClaimIDs (pvtAds : List ClassAd) : GoMap Text Text :=
  pvtAds.foldl (fun out pvt =>
    match claimKeyPvt lib pvt, claimIDFromPvt lib pvt with
    | some key, some id => out.insert key id
    | _, _ => out) ∅

theorem lookup_buildClaimIDs (pvtAds : List ClassAd) (key : Text) :
    (buildClaimIDs lib pvtAds).lookup key = pvtAds.reverse.findSome? fun pvt =>
      if claimKeyPvt lib pvt = some key then claimIDFromPvt lib pvt else none := by
  -- from the last ad backwards: it alone decides when it has the key and a claim
  induction pvtAds using reverseRecOn with
  | nil => rfl
  | append_singleton pvtAds pvt ih =>
    rw [reverse_append, reverse_singleton, singleton_append, findSome?_cons, ← ih, buildClaimIDs,
      foldl_append, ← buildClaimIDs, foldl_cons, foldl_nil]
    by_cases hkey : claimKeyPvt lib pvt = some key
    · rw [if_pos hkey, hkey]
      cases claimIDFromPvt lib pvt with
      | none => rfl
      | some id => exact AList.lookup_insert _
    · rw [if_neg hkey]
      split
      · next k id hk _ => exact AList.lookup_insert_ne fun h => hkey (h ▸ hk)
      · rfl

/-! ## Slots -/

def slotIdentity (slot : ClassAd) : Option (Text × Text) := do
  some (← lib.evaluateAttrString slot "Name",
    ← lib.evaluateAttrString slot "StartdIpAddr")

def Addressed (i : Text × Text) : Prop := '<' ∉ i.1 ∧ i.2.head? = some '<'

instance : DecidablePred Addressed := fun _ => inferInstanceAs (Decidable (_ ∧ _))

theorem Addressed.eq_of_append_eq {i j : Text × Text} (hi : Addressed i) (hj : Addressed j)
    (h : i.1 ++ i.2 = j.1 ++ j.2) : i = j := by
  obtain ⟨name, addr⟩ := i
  obtain ⟨name', addr'⟩ := j
  obtain ⟨rest, rfl⟩ := head?_eq_some_iff.mp hi.2
  obtain ⟨rest', rfl⟩ := head?_eq_some_iff.mp hj.2
  have hcut := cut_eq_some_iff.mpr ⟨h, hj.1⟩
  rw [cut_eq_some_iff.mpr ⟨rfl, hi.1⟩] at hcut
  cases hcut
  rfl

theorem claimKey_eq (slot : ClassAd) :
    SlotView.claimKey lib slot = (slotIdentity lib slot).map fun i => i.1 ++ i.2 := by
  rw [SlotView.claimKey, slotIdentity]
  cases lib.evaluateAttrString slot "Name" <;>
    cases lib.evaluateAttrString slot "StartdIpAddr" <;> rfl

def ownClaim (pvtAds : List ClassAd) (slot : ClassAd) : Option Text :=
  (slotIdentity lib slot).bind fun i => pvtAds.reverse.findSome? fun pvt =>
    if identityPvt lib pvt = some i then claimIDFromPvt lib pvt else none

variable {lib}

theorem claimKeyPvt_eq_some_iff {pvt : ClassAd} {i : Text × Text} (hi : Addressed i)
    (hpvt : ∀ j ∈ identityPvt lib pvt, Addressed j) :
    claimKeyPvt lib pvt = some (i.1 ++ i.2) ↔ identityPvt lib pvt = some i := by
  rw [claimKeyPvt, map_eq_some_iff]
  refine ⟨fun ⟨j, hj, heq⟩ => ?_, fun h => ⟨i, h, rfl⟩⟩
  rw [hj, (hpvt j hj).eq_of_append_eq hi heq]

theorem claimID_eq_ownClaim {sv : SlotView} {pvtAds : List ClassAd}
    (hids : sv.claimIDs = some (buildClaimIDs lib pvtAds))
    (hpvt : ∀ pvt ∈ pvtAds, ∀ i ∈ identityPvt lib pvt, Addressed i) {slot : ClassAd}
    (hslot : ∀ i ∈ slotIdentity lib slot, Addressed i) :
    sv.claimID lib slot = ownClaim lib pvtAds slot := by
  have hkey : sv.claimID lib slot =
      (slotIdentity lib slot).bind fun i => (buildClaimIDs lib pvtAds).lookup (i.1 ++ i.2) := by
    rw [SlotView.claimID, hids, slotIdentity]
    cases lib.evaluateAttrString slot "Name" <;>
      cases lib.evaluateAttrString slot "StartdIpAddr" <;> rfl
  rw [hkey, ownClaim]
  cases hi : slotIdentity lib slot with
  | none => rfl
  | some i =>
    rw [bind_some, bind_some, lookup_buildClaimIDs, ← head?_filterMap, ← head?_filterMap,
      filterMap_congr]
    intro pvt hmem
    have hmem := mem_reverse.mp hmem
    simp only [claimKeyPvt_eq_some_iff (hslot i hi) (hpvt pvt hmem)]

/-- Slots, private keys and secrets are one to one. -/
structure OneEach (lib : MatchLibrary F) (slots pvtAds : List ClassAd) : Prop where
  slots_nodup : (slots.map (slotIdentity lib)).Nodup
  secrets : ∀ pvt ∈ pvtAds, ∀ pvt' ∈ pvtAds, ∀ id ∈ claimIDFromPvt lib pvt,
    id ∈ claimIDFromPvt lib pvt' → claimKeyPvt lib pvt = claimKeyPvt lib pvt'
  not_null : ∀ pvt ∈ pvtAds, claimIDFromPvt lib pvt ≠ some "null".toList

theorem OneEach.distinctClaims {sv : SlotView} {pvtAds : List ClassAd}
    (h : OneEach lib sv.slots pvtAds) (hids : sv.claimIDs = some (buildClaimIDs lib pvtAds))
    (hslots : ∀ slot ∈ sv.slots, ∀ i ∈ slotIdentity lib slot, Addressed i) :
    sv.DistinctClaims lib := by
  have hfrom : ∀ {ids k id}, ids ∈ sv.claimIDs → ids.lookup k = some id →
      ∃ pvt ∈ pvtAds, claimKeyPvt lib pvt = some k ∧ claimIDFromPvt lib pvt = some id := by
    intro ids k id hmem hk
    cases hids.symm.trans hmem
    rw [lookup_buildClaimIDs] at hk
    obtain ⟨pvt, hpvt, hid⟩ := exists_of_findSome?_eq_some hk
    split_ifs at hid with hpk
    exact ⟨pvt, mem_reverse.mp hpvt, hpk, hid⟩
  refine ⟨fun i j x y key hi hj hx hy => ?_, fun ids hmem k k' id hk hk' => ?_,
    fun ids hmem k hk => ?_⟩
  · rw [claimKey_eq, map_eq_some_iff] at hx hy
    obtain ⟨ix, hix, rfl⟩ := hx
    obtain ⟨iy, hiy, heq⟩ := hy
    obtain rfl := (hslots y (mem_of_getElem? hj) iy hiy).eq_of_append_eq
      (hslots x (mem_of_getElem? hi) ix hix) heq
    refine (getElem?_inj ?_ h.slots_nodup).mp ?_
    · rw [length_map]
      exact (List.getElem?_eq_some_iff.mp hi).1
    · rw [getElem?_map, hi, getElem?_map, hj, map_some, map_some, hix, hiy]
  · obtain ⟨pvt, hpvt, hpk, hid⟩ := hfrom hmem hk
    obtain ⟨pvt', hpvt', hpk', hid'⟩ := hfrom hmem hk'
    exact some.inj (hpk.symm.trans ((h.secrets pvt hpvt pvt' hpvt' id hid hid').trans hpk'))
  · obtain ⟨pvt, hpvt, -, hid⟩ := hfrom hmem hk
    exact h.not_null pvt hpvt hid

end

/-- **A secret goes to the schedd of its own slot, and to no other** where slots and secrets are one
to one. -/
theorem delivered_ownClaim {F A : Type} [Zero F] [One F] [Add F] [Sub F] [Mul F] [Div F]
    [IntCast F] [BEq F] [LT F] [LE F] [DecidableLT F] [DecidableLE F] (c : Cycle F A)
    (st : CycleSetup F) (a : A) (snap : Cycle.Snapshot) (pvtAds : List ClassAd)
    (hids : snap.claimIDs = some (buildClaimIDs c.lib pvtAds))
    (hpvt : ∀ pvt ∈ pvtAds, ∀ i ∈ identityPvt c.lib pvt, Addressed i)
    (hslots : ∀ slot ∈ (c.startView a snap).slots, ∀ i ∈ slotIdentity c.lib slot, Addressed i)
    (ls : List (Label F)) (s : CycleState F A)
    (h : exec (c.step st) (c.start st a snap) ls = some s) :
    (∀ p ∈ s.delivered, p.2 = ((c.startView a snap).slots[p.1]?.bind
      (ownClaim c.lib pvtAds)).getD "null") ∧
    (OneEach c.lib (c.startView a snap).slots pvtAds → ∀ i slot id,
      (c.startView a snap).slots[i]? = some slot → (c.startView a snap).isPslot i = false →
      ownClaim c.lib pvtAds slot = some id → s.delivered.countP (fun p => p.2 = id) ≤ 1) := by
  have hinv := singleUse_of_run (.of_exec h fun _ _ _ => trivial)
  have hown : ∀ {i slot}, (c.startView a snap).slots[i]? = some slot →
      (c.startView a snap).claimID c.lib slot = ownClaim c.lib pvtAds slot :=
    fun hslot => claimID_eq_ownClaim hids hpvt (hslots _ (mem_of_getElem? hslot))
  refine ⟨fun p hp => ?_, fun hone i slot id hi hp hid => ?_⟩
  · obtain ⟨m, -, rfl⟩ := mem_map.mp (hinv.handed.subset (mem_append_left _ hp))
    rw [claimAt]
    cases hslot : (c.startView a snap).slots[m.2.1]? with
    | none => rfl
    | some slot => rw [bind_some, bind_some, hown hslot]
  · exact (hinv.delivered_le (hone.distinctClaims hids hslots) hi ((hown hi).trans hid)).trans
      (hinv.once i hp)

def privateAd (name addr attr id : String) : ClassAd :=
  ⟨[("Name", .lit (.str name.toList)), ("MyAddress", .lit (.str addr.toList)),
    (attr.toList, .lit (.str id.toList))]⟩

def privateAds : List ClassAd :=
  [privateAd "a" "<x>" "ClaimId" "p", privateAd "b" "<y>" "ClaimId" "old",
    privateAd "b" "<y>" "ClaimIdList" ", q r"]

def ownSecrets : Cycle.Snapshot where
  slots := [slotAt "a" "<x>", slotAt "b" "<y>"]
  submitters := [submitterAd "u"]
  claimIDs := some (buildClaimIDs plainCycle.lib privateAds)

theorem delivered_ownClaim_two :
    ∃ s, plainCycle.execFrom [] ownSecrets takeTwo = some s ∧
      s.delivered = [(0, "p".toList), (1, "q".toList)] ∧
      s.delivered.countP (fun p => p.2 = "q".toList) ≤ 1 := by
  obtain ⟨s, hs, hdelivered⟩ := map_eq_some_iff.mp (by decide +kernel :
    (plainCycle.execFrom [] ownSecrets takeTwo).map CycleState.delivered =
      some [(0, "p".toList), (1, "q".toList)])
  exact ⟨s, hs, hdelivered, (delivered_ownClaim _ _ _ _ privateAds rfl (by decide +kernel)
    (by decide +kernel) _ s hs).2 ⟨by decide +kernel, by decide +kernel, by decide +kernel⟩ 1 _ _
    rfl (by decide +kernel) (by decide +kernel)⟩

end GolangCollector.Negotiator
