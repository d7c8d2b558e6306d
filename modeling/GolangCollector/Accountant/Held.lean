import GolangCollector.Lib.Runs
import GolangCollector.Accountant.Holdings
import GolangCollector.Accountant.Priorities

/-! # Resources that are held

`ResourcesUsed` is kept by counting matches up and down; what it stands for is the number of
`Resource` records of a submitter, and opening the accountant sets it to that number. The two stay
equal under calls that make a record for every match they count. `CheckMatches` is in general no
such call: it counts claimed slots again, and it reaps stale records without counting them down. -/

namespace GolangCollector.Accountant

open GoStrings Negotiator Runs List Store Option

/-! ## Counting records -/

namespace Store

variable {F : Type} {s s' : Store F} {u : Text}

def holdings (s : Store F) (u : Text) : Finset Text :=
  (s.keys .resource).toFinset.filter fun res => s.remoteUser? res = some u

theorem mem_holdings {res : Text} : res ∈ s.holdings u ↔ s.remoteUser? res = some u := by
  rw [holdings, Finset.mem_filter, List.mem_toFinset, mem_keys, and_iff_right_iff_imp]
  intro h
  rw [remoteUser?, getString, attr?] at h
  cases hrec : s.record? .resource res with
  | none => simp [hrec] at h
  | some r => rfl

theorem held_eq_card : s.held u = (s.holdings u).card := by
  rw [held, countP_eq_length_filter, ← toFinset_card_of_nodup (nodup_keys.filter _),
    toFinset_filter, holdings]
  simp

theorem held_congr (h : ∀ res, s'.remoteUser? res = s.remoteUser? res) : s'.held u = s.held u := by
  rw [held_eq_card, held_eq_card]
  congr 1
  ext res
  rw [mem_holdings, mem_holdings, h]

theorem held_of_added {res customer : Text} (hfree : s.remoteUser? res = none)
    (h : ∀ r, s'.remoteUser? r = if r = res then some customer else s.remoteUser? r) :
    s'.held u = s.held u + if customer = u then 1 else 0 := by
  rw [held_eq_card, held_eq_card]
  by_cases hu : customer = u
  · subst hu
    have hinsert : s'.holdings customer = insert res (s.holdings customer) := by
      ext r
      rw [mem_holdings, Finset.mem_insert, mem_holdings, h]
      by_cases hr : r = res <;> simp [hr]
    rw [hinsert, Finset.card_insert_of_notMem (by simp [mem_holdings, hfree]), if_pos rfl]
  · have hsame : s'.holdings u = s.holdings u := by
      ext r
      rw [mem_holdings, mem_holdings, h]
      by_cases hr : r = res <;> simp [hr, hu, hfree]
    rw [hsame, if_neg hu, add_zero]

theorem held_of_removed {res customer : Text} (hheld : s.remoteUser? res = some customer)
    (h : ∀ r, s'.remoteUser? r = if r = res then none else s.remoteUser? r) :
    s'.held u + (if customer = u then 1 else 0) = s.held u := by
  have hfree : s'.remoteUser? res = none := by rw [h, if_pos rfl]
  refine (held_of_added hfree fun r => ?_).symm
  rw [h]
  split
  · next hr => rw [hr, hheld]
  · rfl

end Store

/-! ## The invariant -/

section

variable {K : Type} [Field K] [LinearOrder K] {lib : Library K} {a : Accountant K}

/-- **`ResourcesUsed` counts the records of every submitter.** -/
structure Counted (lib : Library K) (a : Accountant K) : Prop where
  used_eq : ∀ u, '@' ∈ u → a.store.intOf lib.truncate u .resourcesUsed = a.store.held u
  grouped : ∀ res u, a.store.remoteUser? res = some u → '@' ∉ assignedGroupName u

omit [Field K] [LinearOrder K] in
theorem Counted.of_eq (h : Counted lib a) {a' : Accountant K}
    (hused : ∀ u, a'.store.intOf lib.truncate u .resourcesUsed =
      a.store.intOf lib.truncate u .resourcesUsed)
    (huser : ∀ res, a'.store.remoteUser? res = a.store.remoteUser? res) : Counted lib a' where
  used_eq u hu := by rw [hused, h.used_eq u hu, held_congr huser]
  grouped res u hres := h.grouped res u (huser res ▸ hres)

/-! ### Matches -/

theorem Counted.addMatchLocked (h : Counted lib a) {customer res limits : Text} {w : K} {T : ℤ}
    (hfree : a.store.remoteUser? res = none) (hgroup : '@' ∉ assignedGroupName customer) :
    Counted lib (a.addMatchLocked lib customer res w limits T) where
  used_eq u hu := by
    rw [used_addMatchLocked, h.used_eq u hu, bookings_of_group hgroup hu,
      held_of_added hfree (remoteUser?_addMatchLocked lib a customer res limits w T)]
    push_cast
    rfl
  grouped r u hr := by
    rw [remoteUser?_addMatchLocked] at hr
    split at hr
    · cases hr
      exact hgroup
    · exact h.grouped r u hr

theorem Counted.foldl_addMatchLocked {T : ℤ} {cls : List (Claim K)}
    (hdistinct : (cls.map Claim.res).Nodup) (h : Counted lib a)
    (hnew : ∀ cl ∈ cls, a.store.remoteUser? cl.res = none ∧ '@' ∉ assignedGroupName cl.customer) :
    Counted lib (cls.foldl (fun a cl => a.addMatchLocked lib cl.customer cl.res cl.weight cl.limits
      T) a) := by
  induction cls generalizing a with
  | nil => exact h
  | cons cl cls ih =>
    rw [map_cons, nodup_cons] at hdistinct
    rw [forall_mem_cons] at hnew
    refine ih hdistinct.2 (h.addMatchLocked hnew.1.1 hnew.1.2) fun cl' hcl' => ⟨?_, ?_⟩
    · have hne : cl'.res ≠ cl.res := fun heq =>
        hdistinct.1 (heq ▸ mem_map_of_mem hcl')
      rw [remoteUser?_addMatchLocked, if_neg hne]
      exact (hnew.2 cl' hcl').1
    · exact (hnew.2 cl' hcl').2

omit [LinearOrder K] in
theorem remoteUser?_clearUsage (slots : List ClassAd) (res : Text) :
    (a.clearUsage lib slots).store.remoteUser? res =
      if a.stale lib slots res = true then none else a.store.remoteUser? res := by
  rw [remoteUser?, getString, attr?_clearUsage_resource, remoteUser?,
    getString]
  split <;> rfl

omit [LinearOrder K] in
theorem used_clearUsage (slots : List ClassAd) (u : Text) :
    (a.clearUsage lib slots).store.intOf lib.truncate u .resourcesUsed =
      a.store.intOf lib.truncate u .resourcesUsed := by
  refine intOf_congr ?_
  rw [attr?_clearUsage_customer, if_neg (by simp)]

/-! ### The end of a match -/

theorem remoteUser?_removeMatch (res : Text) (T : ℤ) (r : Text) :
    (a.removeMatch lib res T).store.remoteUser? r =
      if r = res then none else a.store.remoteUser? r := by
  rw [remoteUser?, getString, attr?_removeMatch_resource, remoteUser?,
    getString]
  split <;> rfl

theorem Counted.removeMatch (h : Counted lib a) (res : Text) (T : ℤ) :
    Counted lib (a.removeMatch lib res T) := by
  have huser : ∀ r, (a.removeMatch lib res T).store.remoteUser? r =
      if r = res then none else a.store.remoteUser? r := remoteUser?_removeMatch res T
  cases hheld : a.store.holding? lib.truncate res with
  | none =>
    -- a record without a customer is not counted, and goes uncounted
    have hnone : a.store.remoteUser? res = none := map_eq_none_iff.mp hheld
    refine h.of_eq (fun u => ?_) fun r => ?_
    · refine intOf_congr ?_
      rw [attr?_removeMatch_of_none T hheld, if_neg (by simp)]
    · rw [huser]
      split
      · next hr => rw [hr, hnone]
      · rfl
  | some m =>
    have hcustomer := remoteUser?_of_holding hheld
    refine ⟨fun u hu => ?_, fun r u hr => ?_⟩
    · have hone := held_of_removed (u := u) hcustomer huser
      have hbookings := bookings_of_group (h.grouped res m.customer hcustomer) hu
      have hcounted :
          (bookings m.customer u : ℤ) ≤ a.store.intOf lib.truncate u .resourcesUsed := by
        rw [h.used_eq u hu, hbookings]
        exact_mod_cast hone ▸ Nat.le_add_left _ _
      rw [intOf_removeMatch T hheld, used_settle _ hcounted, h.used_eq u hu, hbookings, ← hone]
      push_cast
      ring
    · rw [huser] at hr
      split at hr
      · cases hr
      · exact h.grouped r u hr

/-! ### Ticks -/

theorem used_updatePriorities (T : ℤ) (u : Text) :
    (a.updatePriorities lib T).store.intOf lib.truncate u .resourcesUsed =
      a.store.intOf lib.truncate u .resourcesUsed := by
  by_cases hlt : a.lastUpdate < T
  · obtain ⟨hrec, htick⟩ | ⟨r, hrec, ⟨hpurged, htick⟩ | ⟨r', hticked, htick⟩⟩ :=
      updatePriorities_cases lib hlt u
    · rw [intOf_of_none _ _ htick, intOf_of_none _ _ hrec]
    · rw [intOf_of_none _ _ htick, intOf_of_some _ _ hrec, (Record.of_purged hpurged).1]
    · rw [intOf_of_some _ _ htick, intOf_of_some _ _ hrec, Record.used_tick hticked]
  · exact intOf_congr (attr?_updatePriorities_of_le lib (not_lt.mp hlt) u _)

theorem remoteUser?_updatePriorities (T : ℤ) (res : Text) :
    (a.updatePriorities lib T).store.remoteUser? res = a.store.remoteUser? res := by
  rw [remoteUser?, getString, attr?_updatePriorities_resource, remoteUser?,
    getString]

theorem accumulated_updatePriorities {T : ℤ} (hlt : a.lastUpdate < T) (u : Text) :
    (a.updatePriorities lib T).store.floatOf u .accumulatedUsage =
      a.store.floatOf u .accumulatedUsage +
        (a.store.intOf lib.truncate u .resourcesUsed : K) * ((T - a.lastUpdate : ℤ) : K) +
        (a.store.intOf lib.truncate u .unchargedTime : K) := by
  obtain ⟨hrec, htick⟩ | ⟨r, hrec, htick⟩ := updatePriorities_cases lib hlt u
  · simp [floatOf_of_none _ htick, floatOf_of_none _ hrec, intOf_of_none _ _ hrec]
  · rw [floatOf_of_some _ hrec, intOf_of_some _ _ hrec, intOf_of_some _ _ hrec]
    change _ = r.newAccum lib _
    obtain ⟨hpurged, htick⟩ | ⟨r', hticked, htick⟩ := htick
    · rw [floatOf_of_none _ htick, (Record.of_purged hpurged).2]
    · rw [floatOf_of_some _ htick, Record.accumulated_tick hticked]

/-! ### Opening -/

section

variable (held : Text → ℕ) (heldWeight : Text → K)

theorem used_reconcileOne (s : Store K) (name u : Text) :
    (reconcileOne lib held heldWeight s name).intOf lib.truncate u .resourcesUsed =
      if '@' ∈ u ∧ u = name then (held u : ℤ) else s.intOf lib.truncate u .resourcesUsed := by
  rw [reconcileOne]
  by_cases hat : '@' ∈ name
  · rw [if_neg (by simp [isGroupName, hat])]
    dsimp only
    by_cases hu : u = name
    · subst hu
      rw [if_pos ⟨hat, rfl⟩]
      by_cases hsame : s.intOf lib.truncate u .resourcesUsed = held u
      · rw [← hsame, intOf, getInt]
        by_cases hw : s.floatOf u .weightedResourcesUsed = heldWeight u <;>
          simp [hw, writeIf, sets, attr?_set, intOf, getInt]
      · rw [intOf, getInt]
        by_cases hw : s.floatOf u .weightedResourcesUsed = heldWeight u <;>
          simp [hsame, hw, writeIf, sets, attr?_set, AttrValue.toInt]
    · rw [if_neg fun h => hu h.2, intOf, getInt,
        attr?_sets_of_ne _ (by simp [hu]), intOf, getInt]
  · have hskip : ¬ ('@' ∈ u ∧ u = name) := fun h => hat (h.2 ▸ h.1)
    rw [if_pos (by simp [isGroupName, hat]), if_neg hskip]

theorem remoteUser?_reconcileOne (s : Store K) (name res : Text) :
    (reconcileOne lib held heldWeight s name).remoteUser? res = s.remoteUser? res := by
  rw [reconcileOne]
  split
  · rfl
  · dsimp only
    rw [remoteUser?, getString, attr?_sets_of_ne _ (by simp), remoteUser?,
      getString]

theorem used_foldl_reconcileOne (names : List Text) (s : Store K) (u : Text) :
    (names.foldl (reconcileOne lib held heldWeight) s).intOf lib.truncate u .resourcesUsed =
      if '@' ∈ u ∧ u ∈ names then (held u : ℤ) else s.intOf lib.truncate u .resourcesUsed := by
  induction names generalizing s with
  | nil => simp
  | cons name names ih =>
    rw [foldl_cons, ih, used_reconcileOne]
    by_cases hat : '@' ∈ u <;> by_cases hmem : u ∈ names <;> simp [hat, hmem]

end

def Store.Complete (s : Store K) : Prop :=
  ∀ res u, s.remoteUser? res = some u →
    '@' ∉ assignedGroupName u ∧ ('@' ∈ u → (s.attr? .customer u .resourcesUsed).isSome)

theorem counted_new (cfg : Config K) {store : Store K} (h : store.Complete) :
    Counted lib (new lib cfg store) := by
  let a₁ : Accountant K := (Accountant.getPriority
    ⟨cfg.filled, store, (store.getInt lib.truncate .acct [] .lastUpdateTime).getD 0⟩
      rootGroupName).2
  have hnew : (new lib cfg store).store = reconcileResourcesUsed lib a₁.store := rfl
  have hattr : ∀ {tbl key attr}, attr ∉ [Attr.priority, .priorityFactor] →
      a₁.store.attr? tbl key attr = store.attr? tbl key attr := fun hmem =>
    attr?_getPriority_of_notMem _ _ fun _ _ => hmem
  have huser : ∀ res, (new lib cfg store).store.remoteUser? res = store.remoteUser? res := by
    intro res
    have hfold : ∀ names : List Text,
        (names.foldl (reconcileOne lib a₁.store.held a₁.store.heldWeight) a₁.store).remoteUser?
          res = a₁.store.remoteUser? res := fun names =>
      foldlRecOn (motive := fun s : Store K => s.remoteUser? res = a₁.store.remoteUser? res)
        names _ rfl fun s hs name _ => (remoteUser?_reconcileOne _ _ s name res).trans hs
    rw [hnew, reconcileResourcesUsed, hfold, remoteUser?, getString,
      hattr (by simp), remoteUser?, getString]
  refine ⟨fun u hu => ?_, fun res u hres => (h res u (huser res ▸ hres)).1⟩
  have hheld : (new lib cfg store).store.held u = a₁.store.held u := by
    refine held_congr fun res => ?_
    rw [huser, remoteUser?, getString, remoteUser?, getString,
      hattr (by simp)]
  rw [hheld, hnew, reconcileResourcesUsed, used_foldl_reconcileOne]
  split
  · rfl
  · next hkeys =>
    -- a submitter without a record holds nothing
    have habsent : a₁.store.record? .customer u = none := by
      rw [← not_isSome_iff_eq_none]
      exact fun hsome => hkeys ⟨hu, mem_keys.mpr hsome⟩
    have hnone : a₁.store.holdings u = ∅ := by
      refine Finset.eq_empty_of_forall_notMem fun res hres => ?_
      rw [mem_holdings, remoteUser?, getString, hattr (by simp),
        ← getString, ← remoteUser?] at hres
      have hcount := (h res u hres).2 hu
      rw [← hattr (by simp), attr?, habsent] at hcount
      cases hcount
    rw [intOf_of_none _ _ habsent, held_eq_card, hnone]
    rfl

theorem attr?_new_empty (cfg : Config K) {attr : Attr} (h : attr ∉ [Attr.priority, .priorityFactor])
    (tbl : Table) (key : Text) : (new lib cfg .empty).store.attr? tbl key attr = none := by
  let a₁ : Accountant K := (Accountant.getPriority
    ⟨cfg.filled, .empty,
      ((empty : Store K).getInt lib.truncate .acct [] .lastUpdateTime).getD 0⟩
    rootGroupName).2
  have hattr : ∀ {attr}, attr ∉ [Attr.priority, .priorityFactor] → ∀ tbl key,
      a₁.store.attr? tbl key attr = none := fun hmem tbl key =>
    (attr?_getPriority_of_notMem _ _ fun _ _ => hmem).trans rfl
  have hnone : ∀ user, ¬ ∃ res ∈ a₁.store.keys .resource, a₁.store.remoteUser? res = some user := by
    rintro user ⟨res, -, hres⟩
    rw [remoteUser?, getString, hattr (by simp)] at hres
    cases hres
  have hheld : ∀ user, a₁.store.held user = 0 := fun user => by
    rw [held, countP_eq_zero]
    exact fun res hres huser => hnone user ⟨res, hres, of_decide_eq_true huser⟩
  have hheldWeight : ∀ user, a₁.store.heldWeight user = 0 := fun user => by
    rw [heldWeight, filter_eq_nil_iff.mpr fun res hres huser =>
      hnone user ⟨res, hres, of_decide_eq_true huser⟩, foldl_nil]
  -- nothing is held, so there is nothing to reconcile
  have hkept : ∀ name,
      reconcileOne lib a₁.store.held a₁.store.heldWeight a₁.store name = a₁.store := by
    intro name
    rw [reconcileOne, hheld, hheldWeight]
    split
    · rfl
    · simp [intOf, getInt, floatOf, getFloat, hattr, writeIf, sets]
  have hnew : (new lib cfg .empty).store = a₁.store := by
    change (a₁.store.keys .customer).foldl _ a₁.store = a₁.store
    exact foldlRecOn (motive := fun s => s = a₁.store) _ _ rfl
      fun s hs name _ => hs ▸ hkept name
  rw [hnew, hattr h]

theorem floatOf_new_empty (cfg : Config K) {attr : Attr}
    (h : attr ∉ [Attr.priority, .priorityFactor]) (c : Text) :
    (new lib cfg .empty).store.floatOf c attr = 0 := by
  rw [floatOf, getFloat, attr?_new_empty cfg h]
  rfl

theorem Counted.reopen (h : Counted lib a) : Counted lib (a.reopen lib) := by
  rw [Accountant.reopen, openLog_log]
  refine counted_new a.cfg fun res u hres => ⟨h.grouped res u hres, fun hu => ?_⟩
  -- a resource is held, so the count is not zero, and it is stored
  have hpos : 0 < a.store.held u := by
    rw [held_eq_card]
    exact Finset.card_pos.mpr ⟨res, mem_holdings.mpr hres⟩
  have hused := h.used_eq u hu
  rw [intOf, getInt] at hused
  cases hattr : a.store.attr? .customer u .resourcesUsed with
  | some v => rfl
  | none =>
    rw [hattr, bind_none, getD_none] at hused
    omega

/-! ## Runs -/

def CountsOnce (lib : Library K) (a : Accountant K) : Call K → Prop
  | .addMatch submitter slot _ => ∀ res ∈ getResourceName lib slot,
      a.store.remoteUser? res = none ∧ '@' ∉ assignedGroupName submitter
  | .checkMatches slots _ =>
    (∀ res ∈ a.store.keys .resource, a.stale lib slots res = false) ∧
      ((claims lib a slots).map Claim.res).Nodup ∧
      ∀ cl ∈ claims lib a slots,
        a.store.remoteUser? cl.res = none ∧ '@' ∉ assignedGroupName cl.customer
  | .removeMatch _ _ | .updatePriorities _ | .reopen => True
  | _ => False

theorem Counted.perform (h : Counted lib a) {call : Call K} (hcall : CountsOnce lib a call) :
    Counted lib (a.perform lib call) := by
  cases call with
  | addMatch submitter slot now =>
    rw [Accountant.perform, addMatch]
    split
    · exact h
    · next res hres =>
      obtain ⟨hfree, hgroup⟩ := hcall res hres
      exact h.addMatchLocked hfree hgroup
  | removeMatch res now => exact h.removeMatch res now
  | checkMatches slots now =>
    obtain ⟨hlive, hdistinct, hnew⟩ := hcall
    have huser : ∀ res, (a.clearUsage lib slots).store.remoteUser? res =
        a.store.remoteUser? res := by
      intro res
      rw [remoteUser?_clearUsage]
      split
      · next hstale =>
        cases hrec : a.store.record? .resource res with
        | none => rw [remoteUser?, getString, attr?, hrec]; rfl
        | some r =>
          rw [hlive res (mem_keys.mpr (by rw [hrec]; rfl))] at hstale
          cases hstale
      · rfl
    refine (h.of_eq (used_clearUsage slots) huser).foldl_addMatchLocked hdistinct fun cl hcl => ?_
    rw [huser]
    exact hnew cl hcl
  | updatePriorities now =>
    exact h.of_eq (used_updatePriorities now) (remoteUser?_updatePriorities now)
  | reopen => exact h.reopen
  | _ => exact hcall.elim

end

/-- **`ResourcesUsed` counts resources** in every state that is reached by calls that count once. -/
theorem resourcesUsed_counts_resources {K : Type} [Field K] [LinearOrder K] (lib : Library K)
    (cfg : Config K) {store : Store K} (hstore : store.Complete) {calls : List (Call K)}
    {a : Accountant K}
    (hrun : Run (fun a call => some (a.perform lib call)) (CountsOnce lib) (new lib cfg store) calls
      a) :
    ∀ u, '@' ∈ u →
      a.store.intOf lib.truncate u .resourcesUsed = a.store.held u ∧
      ∀ T, a.lastUpdate < T → (a.updatePriorities lib T).store.floatOf u .accumulatedUsage =
        a.store.floatOf u .accumulatedUsage + (a.store.held u : K) * ((T - a.lastUpdate : ℤ) : K) +
          (a.store.intOf lib.truncate u .unchargedTime : K) := by
  have hcounted : Counted lib a := by
    refine hrun.invariant (I := Counted lib) ?_ (counted_new cfg hstore)
    intro a call a' hstep hcall h
    cases hstep
    exact h.perform hcall
  intro u hu
  refine ⟨hcounted.used_eq u hu, fun T hlt => ?_⟩
  rw [accumulated_updatePriorities hlt, hcounted.used_eq u hu]
  simp

theorem resourcesUsed_counts_resources_one_match :
    let u := "u@d".toList
    let a := (fresh.perform literalLibrary (.addMatch u (claimedSlot "slot1" "u@d") 0)).perform
      literalLibrary .reopen
    a.store.intOf literalLibrary.truncate u .resourcesUsed = a.store.held u ∧ a.store.held u = 1 ∧
      (a.updatePriorities literalLibrary 10).store.floatOf u .accumulatedUsage = 10 := by
  intro u a
  have hfree : CountsOnce literalLibrary fresh (.addMatch u (claimedSlot "slot1" "u@d") 0) := by
    intro res hres
    cases hres
    decide +kernel
  have hstore : (empty : Store ℚ).Complete := by
    intro res u hres
    cases hres
  have hopen : CountsOnce literalLibrary
      (fresh.perform literalLibrary (.addMatch u (claimedSlot "slot1" "u@d") 0)) .reopen := trivial
  have hcounts := resourcesUsed_counts_resources literalLibrary plainConfig hstore
    (.cons rfl hfree (.cons rfl hopen (.nil _))) u (by decide)
  have hheld : a.store.held u = 1 := by decide +kernel
  have htick := hcounts.2 10 (by decide +kernel)
  refine ⟨hcounts.1, hheld, htick.trans ?_⟩
  decide +kernel

theorem checkMatches_counts_twice :
    let u := "u@d".toList
    let slot := claimedSlot "slot1" "u@d"
    let a := (fresh.addMatch literalLibrary u slot 0).checkMatches literalLibrary [slot] 0
    a.store.intOf literalLibrary.truncate u .resourcesUsed = 2 ∧ a.store.held u = 1 := by
  decide +kernel

end GolangCollector.Accountant
