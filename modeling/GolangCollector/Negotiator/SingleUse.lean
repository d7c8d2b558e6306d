import GolangCollector.Negotiator.Moves

/-! # Single use of slots

What becomes of a slot over all groups, rounds, spins and submitters of a cycle. Claim ids are
looked up under the slot's name and address put together without a separator, so two slots can share
one. -/

namespace GolangCollector.Negotiator

open GoStrings Runs List Option Negotiator.Cycle CycleState

/-! ## Views -/

namespace SlotView

variable {F : Type} (lib : MatchLibrary F) (sv : SlotView)

theorem len_eq : sv.len = (List.range sv.slots.length).countP sv.isLive := by
  have hlive : sv.live = (range sv.slots.length).map fun i => sv.isLive i := by
    refine ext_getElem (by simp [sv.live_length]) fun i hi _ => ?_
    cases h : sv.live[i] <;> simp [isLive, getElem?_eq_getElem hi, h]
  rw [len, sv.nlive_eq, count_eq_countP, hlive, countP_map]
  congr 1
  refine countP_congr fun i _ => ?_
  simp [Function.comp_apply]

def claimKey (slot : ClassAd) : Option Text :=
  match lib.evaluateAttrString slot "Name",
      lib.evaluateAttrString slot "StartdIpAddr" with
  | some name, some addr => some (name ++ addr)
  | _, _ => none

variable {slot : ClassAd}

theorem claimID_eq_some_iff {id : Text} :
    sv.claimID lib slot = some id ↔
      ∃ ids key, sv.claimIDs = some ids ∧ claimKey lib slot = some key ∧
        ids.lookup key = some id := by
  rw [claimID, claimKey]
  cases sv.claimIDs <;> cases lib.evaluateAttrString slot "Name" <;>
    cases lib.evaluateAttrString slot "StartdIpAddr" <;> simp

structure DistinctClaims : Prop where
  keys : ∀ (i j : ℕ) x y key, sv.slots[i]? = some x → sv.slots[j]? = some y →
    claimKey lib x = some key → claimKey lib y = some key → i = j
  ids : ∀ ids ∈ sv.claimIDs, ∀ k k' id, ids.lookup k = some id → ids.lookup k' = some id → k = k'
  not_null : ∀ ids ∈ sv.claimIDs, ∀ k, ids.lookup k ≠ some "null".toList

variable {lib sv}

theorem DistinctClaims.eq_of_claimID (h : sv.DistinctClaims lib) {i j : ℕ} {x y : ClassAd}
    {id : Text} (hi : sv.slots[i]? = some x) (hj : sv.slots[j]? = some y)
    (hx : sv.claimID lib x = some id) (hy : sv.claimID lib y = some id) : i = j := by
  obtain ⟨ids, k, hids, hk, hid⟩ := (sv.claimID_eq_some_iff lib).mp hx
  obtain ⟨ids', k', hids', hk', hid'⟩ := (sv.claimID_eq_some_iff lib).mp hy
  obtain rfl : ids = ids' := some.inj (hids.symm.trans hids')
  obtain rfl : k = k' := h.ids ids hids k k' id hid hid'
  exact h.keys i j x y k hi hj hk hk'

theorem DistinctClaims.ne_null (h : sv.DistinctClaims lib) {x : ClassAd} {id : Text}
    (hx : sv.claimID lib x = some id) : id ≠ "null" := by
  obtain ⟨ids, k, hids, -, hid⟩ := (sv.claimID_eq_some_iff lib).mp hx
  rintro rfl
  exact h.not_null ids hids k hid

end SlotView

/-! ## The invariant -/

section

variable {F A : Type}

def CycleState.commitsAt (s : CycleState F A) (i : ℕ) : ℕ := s.commits.countP fun p => p.2.1 = i

def claimAt (c : Cycle F A) (view : SlotView) (i : ℕ) : Text :=
  (view.slots[i]?.bind (view.claimID c.lib)).getD "null"

/-- **The invariant of single use.** -/
structure SingleUse (c : Cycle F A) (view : SlotView) (s : CycleState F A) : Prop where
  slots_eq : s.view.slots = view.slots
  pslot_eq : ∀ i, s.view.isPslot i = view.isPslot i
  claim_eq : ∀ slot, s.view.claimID c.lib slot = view.claimID c.lib slot
  live_iff : ∀ i, s.view.isLive i = (view.isLive i && (view.isPslot i || s.commitsAt i = 0))
  once : ∀ i, view.isPslot i = false → s.commitsAt i ≤ 1
  handed : s.handed.Subperm (s.commits.map fun p => (p.2.1, claimAt c view p.2.1))

variable {c : Cycle F A} {view : SlotView} {s s' : CycleState F A}

theorem SingleUse.of_kept (h : SingleUse c view s) (hkept : Kept s s') : SingleUse c view s' where
  slots_eq := hkept.view_eq ▸ h.slots_eq
  pslot_eq := hkept.view_eq ▸ h.pslot_eq
  claim_eq := hkept.view_eq ▸ h.claim_eq
  live_iff i := by
    rw [hkept.view_eq, h.live_iff i, commitsAt, commitsAt, hkept.commits_eq]
  once i hi := by
    rw [commitsAt, hkept.commits_eq]
    exact h.once i hi
  handed := by
    rw [hkept.commits_eq]
    exact hkept.handed_subperm.trans h.handed

theorem SingleUse.delivered_le (h : SingleUse c view s) (hdistinct : view.DistinctClaims c.lib)
    {i : ℕ} {id : Text} (hi : view.slots[i]? = some slot)
    (hid : view.claimID c.lib slot = some id) :
    s.delivered.countP (fun p => p.2 = id) ≤ s.commitsAt i := by
  have hpart : s.delivered.Subperm (s.commits.map fun p => (p.2.1, claimAt c view p.2.1)) :=
    (sublist_append_left _ _).subperm.trans h.handed
  refine (hpart.countP_le _).trans ?_
  rw [countP_map, commitsAt]
  refine countP_mono_left fun p _ hp => ?_
  simp only [Function.comp_apply, decide_eq_true_eq, claimAt] at hp ⊢
  cases hclaim : view.slots[p.2.1]?.bind (view.claimID c.lib) with
  | none =>
    rw [hclaim, getD_none] at hp
    exact absurd hp.symm (hdistinct.ne_null hid)
  | some id' =>
    rw [hclaim, getD_some] at hp
    subst hp
    obtain ⟨slot', hslot', hid'⟩ := bind_eq_some_iff.mp hclaim
    exact hdistinct.eq_of_claimID hslot' hi hid' hid

variable [Zero F] [One F] [Add F] [Sub F] [IntCast F] [LT F] [LE F] [DecidableLT F] [DecidableLE F]

theorem CycleState.commitsAt_commit {r : Round F} {fr : SpinFrame F} {n : NegState F} {idx : ℕ}
    {tier : PreemptTier} (h : Commit c s s' r fr n idx slot tier) (i : ℕ) :
    s'.commitsAt i = s.commitsAt i + if i = idx then 1 else 0 := by
  rw [commitsAt, h.commits_eq, countP_append, commitsAt]
  by_cases hi : i = idx
  · simp [hi]
  · simp [hi, Ne.symm hi]

theorem SingleUse.of_commit (h : SingleUse c view s) {r : Round F} {fr : SpinFrame F}
    {n : NegState F} {idx : ℕ} {tier : PreemptTier} (hcommit : Commit c s s' r fr n idx slot tier) :
    SingleUse c view s' := by
  obtain ⟨job, conc, heligible⟩ := hcommit.eligible
  have hlive := heligible.live
  rw [h.live_iff idx, Bool.and_eq_true, Bool.or_eq_true] at hlive
  have hfirst : view.isPslot idx = false → s.commitsAt idx = 0 := fun hp => by
    simpa [hp] using hlive.2
  refine ⟨?_, fun i => ?_, fun x => ?_, fun i => ?_, fun i hi => ?_, ?_⟩
  · rw [hcommit.view_eq, SlotView.consume_slots, h.slots_eq]
  · rw [hcommit.view_eq, SlotView.consume_isPslot, h.pslot_eq]
  · rw [hcommit.view_eq, SlotView.consume_claimID, h.claim_eq]
  · rw [hcommit.view_eq, SlotView.consume_isLive, h.live_iff, h.pslot_eq,
      commitsAt_commit hcommit]
    by_cases hi : i = idx
    · subst hi
      cases hp : view.isPslot i <;> simp
    · simp [hi]
  · rw [commitsAt_commit hcommit]
    split
    · next hidx =>
      subst hidx
      rw [hfirst hi]
    · exact h.once i hi
  · have hclaim : c.claimFor s.view slot = claimAt c view idx := by
      rw [claimFor, h.claim_eq, claimAt, ← h.slots_eq, heligible.slot_eq, bind_some]
    rw [hcommit.commits_eq, map_append, map_singleton, ← hclaim]
    refine hcommit.handed_subperm.trans ?_
    exact ((subperm_cons _).mpr h.handed).trans (perm_append_singleton _ _).symm.subperm

variable [Mul F] [Div F]

theorem SingleUse.of_move (h : SingleUse c view s) (hmove : Move c s s') : SingleUse c view s' := by
  cases hmove with
  | kept hkept => exact h.of_kept hkept
  | commit r fr n idx slot tier hcommit => exact h.of_commit hcommit

/-! ## Runs -/

variable [BEq F] {st : CycleSetup F} {a : A} {snap : Cycle.Snapshot}

def Cycle.startView (c : Cycle F A) (a : A) (snap : Cycle.Snapshot) : SlotView :=
  .new c.lib (c.trimmedSlots a snap) snap.claimIDs

omit [One F] [Add F] [Sub F] [LT F] [LE F] [DecidableLT F] [DecidableLE F] [Mul F] [Div F]
  [BEq F] in
theorem singleUse_start : SingleUse c (c.startView a snap) (c.start st a snap) := by
  obtain ⟨-, hview, hcommits, hhanded, -⟩ := start_eqs c st a snap
  have hnone : ∀ i, (c.start st a snap).commitsAt i = 0 := fun i => by
    rw [commitsAt, hcommits, countP_nil]
  rw [← startView] at hview
  refine ⟨by rw [hview], fun i => by rw [hview], fun slot => by rw [hview], fun i => ?_,
    fun i _ => (hnone i).le.trans zero_le_one, ?_⟩
  · rw [hview, hnone i]
    simp
  · rw [hhanded]
    exact nil_subperm

theorem singleUse_of_run {P : CycleState F A → Label F → Prop} {ls : List (Label F)}
    (h : Run (c.step st) P (c.start st a snap) ls s) : SingleUse c (c.startView a snap) s :=
  h.invariant (I := SingleUse c (c.startView a snap))
    (fun _ _ _ hstep _ hinv => hinv.of_move (move_of_step hstep)) singleUse_start

end

/-- **Single use of static slots**, and of their claim ids where these tell the slots apart. -/
theorem static_slots_used_once {F A : Type} [Zero F] [One F] [Add F] [Sub F] [Mul F] [Div F]
    [IntCast F] [BEq F] [LT F] [LE F] [DecidableLT F] [DecidableLE F] (c : Cycle F A)
    (st : CycleSetup F) (a : A) (snap : Cycle.Snapshot) (ls : List (Label F)) (s : CycleState F A)
    (h : exec (c.step st) (c.start st a snap) ls = some s) :
    (∀ i, (c.startView a snap).isPslot i = false → s.commitsAt i ≤ 1) ∧
    ((c.startView a snap).DistinctClaims c.lib →
      ∀ i slot id, (c.startView a snap).slots[i]? = some slot →
        (c.startView a snap).isPslot i = false →
        (c.startView a snap).claimID c.lib slot = some id →
        s.delivered.countP (fun p => p.2 = id) ≤ 1) ∧
    s.view.len = (List.range (c.startView a snap).slots.length).countP fun i =>
      (c.startView a snap).isPslot i || s.commitsAt i = 0 := by
  have hrun : Run (c.step st) (fun _ _ => True) (c.start st a snap) ls s :=
    .of_exec h fun _ _ _ => trivial
  have hinv := singleUse_of_run hrun
  refine ⟨hinv.once, fun hdistinct i slot id hi hp hid => ?_, ?_⟩
  · exact (hinv.delivered_le hdistinct hi hid).trans (hinv.once i hp)
  · rw [SlotView.len_eq, hinv.slots_eq]
    congr 1
    refine countP_congr fun i hi => ?_
    have hlive : (c.startView a snap).isLive i = true := by
      rw [startView, SlotView.new_isLive]
      exact decide_eq_true (mem_range.mp hi)
    rw [hinv.live_iff i, hlive, Bool.true_and]

def twoClaims : Cycle.Snapshot where
  slots := [slotAt "a" "x", slotAt "b" "y"]
  submitters := [submitterAd "u"]
  claimIDs := some (AList.insert "ax" "p" (AList.singleton "by" "q"))

def takeTwo : List (Label ℚ) :=
  [.group flatRound [0], .spin false, .prefetch 0 (.requests [jobs 2]), .sub false 0, .top 0, .next,
    .offer false true 0, .top 0, .offer false true 0]

theorem twoClaims_distinct : (plainCycle.startView [] twoClaims).DistinctClaims
    plainCycle.lib := by
  have hids : ∀ ids ∈ twoClaims.claimIDs, ∀ k id, ids.lookup k = some id →
      k = "ax" ∧ id = "p" ∨ k = "by" ∧ id = "q" := by
    rintro ids hids k id hk
    cases hids
    have hmem := AList.mem_lookup_iff.mp hk
    simpa [Sigma.ext_iff] using hmem
  refine ⟨fun i j x y key hi hj hx hy => ?_, fun ids hmem k k' id hk hk' => ?_,
    fun ids hmem k hk => ?_⟩
  · have hslots : (plainCycle.startView [] twoClaims).slots =
        [slotAt "a" "x", slotAt "b" "y"] := by decide +kernel
    have hkeys : SlotView.claimKey plainCycle.lib (slotAt "a" "x") ≠
        SlotView.claimKey plainCycle.lib (slotAt "b" "y") := by decide +kernel
    rw [hslots] at hi hj
    rcases i with _ | _ | i <;> rcases j with _ | _ | j <;> simp at hi hj ⊢ <;> subst hi hj
    · exact hkeys (hx.trans hy.symm)
    · exact hkeys (hy.trans hx.symm)
  · rcases hids ids hmem k id hk with ⟨rfl, rfl⟩ | ⟨rfl, rfl⟩ <;>
      rcases hids ids hmem k' _ hk' with ⟨rfl, h⟩ | ⟨rfl, h⟩ <;> simp at h ⊢
  · rcases hids ids hmem k _ hk with ⟨-, h⟩ | ⟨-, h⟩ <;> simp at h

theorem static_slots_used_once_twoClaims :
    ∃ s, plainCycle.execFrom [] twoClaims takeTwo = some s ∧
      s.delivered = [(0, "p".toList), (1, "q".toList)] ∧ s.commitsAt 0 ≤ 1 ∧
      s.delivered.countP (fun p => p.2 = "p".toList) ≤ 1 ∧ s.view.len = 0 := by
  obtain ⟨s, hs, hview⟩ := map_eq_some_iff.mp (by decide +kernel :
    (plainCycle.execFrom [] twoClaims takeTwo).map
      (fun s => (s.delivered, s.view.len)) = some ([(0, "p".toList), (1, "q".toList)], 0))
  obtain ⟨honce, hclaims, -⟩ := static_slots_used_once _ _ _ _ _ s hs
  exact ⟨s, hs, congrArg Prod.fst hview, honce 0 (by decide +kernel),
    hclaims twoClaims_distinct 0 _ _ rfl (by decide +kernel) (by decide +kernel),
    congrArg Prod.snd hview⟩

def oneKey : Cycle.Snapshot where
  slots := [slotAt "ab" "c", slotAt "a" "bc"]
  submitters := [submitterAd "u"]
  claimIDs := some (AList.singleton "abc" "p")

theorem claim_handed_twice :
    let view := plainCycle.startView [] oneKey
    let attr := plainCycle.lib.evaluateAttrString
    view.slots = [slotAt "ab" "c", slotAt "a" "bc"] ∧
    (attr (slotAt "ab" "c") "Name".toList, attr (slotAt "ab" "c") "StartdIpAddr".toList) ≠
      (attr (slotAt "a" "bc") "Name".toList, attr (slotAt "a" "bc") "StartdIpAddr".toList) ∧
    view.pslot = [false, false] ∧
    (plainCycle.execFrom [] oneKey takeTwo).map CycleState.delivered =
      some [(0, "p".toList), (1, "p".toList)] ∧
    let sharedID := AList.insert "ax".toList "p".toList (AList.singleton "by".toList "p".toList)
    (plainCycle.execFrom [] { twoClaims with claimIDs := some sharedID } takeTwo).map
      CycleState.delivered = some [(0, "p".toList), (1, "p".toList)] ∧
    (plainCycle.execFrom [] { twoClaims with claimIDs := some ∅ } takeTwo).map
      CycleState.delivered = some [(0, "null".toList), (1, "null".toList)] := by
  decide +kernel

end GolangCollector.Negotiator
