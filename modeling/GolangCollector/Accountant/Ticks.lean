import Mathlib.Algebra.BigOperators.Ring.List
import GolangCollector.Accountant.Matches

/-! # Ticks

A decay tick folds the usage since the last tick into the accumulated usage and empties the
uncharged buckets (`accountant/priority.go`). A match that was added in between has been booked in
full from the last tick on, and the bucket takes back the time before it began. -/

namespace GolangCollector.Accountant

open GoStrings Negotiator List Store Option

/-! ## A tick of one record -/

namespace Record

section

variable {F : Type} (r : Record F)

def assignIf (cond : Bool) (a : Attr) (v : AttrValue F) : Record F :=
  if cond then r.assign a v else r

theorem foldl_writeIf (cond : Bool) (a : Attr) (v : AttrValue F) :
    (writeIf cond a v).foldl (fun r p => Record.assign r p.1 p.2) r = r.assignIf cond a v := by
  cases cond <;> rfl

@[simp] theorem attr?_assignIf (cond : Bool) (a b : Attr) (v : AttrValue F) :
    (r.assignIf cond a v).attr? b = if cond = true ∧ b = a then some v else r.attr? b := by
  cases cond <;> simp [assignIf]

end

variable {K : Type} [Field K] [LinearOrder K] (lib : Library K) (r : Record K) (T : ℤ)
  (timePassed aging : K)

def tick : Option (Record K) :=
  if r.purged lib timePassed aging then none
  else some ((r.tickWrites lib T timePassed aging ++ r.shareWrites).foldl
    (fun r p => Record.assign r p.1 p.2) r)

variable {lib r T timePassed aging} {r' : Record K}

theorem purged_of_tick (h : r.tick lib T timePassed aging = some r') :
    r.purged lib timePassed aging = false := by
  rw [tick] at h
  split at h
  · cases h
  · next hpurged => simpa using hpurged

theorem purged_of_none (h : r.tick lib T timePassed aging = none) :
    r.purged lib timePassed aging = true := by
  rw [tick] at h
  split at h
  · next hpurged => exact hpurged
  · cases h

section

variable (h : r.tick lib T timePassed aging = some r')
include h

/-- What a tick makes of a record it keeps. -/
theorem eq_of_tick : r' = (r.tickWrites lib T timePassed aging ++ r.shareWrites).foldl
    (fun r p => Record.assign r p.1 p.2) r := by
  rw [tick, if_neg (by simp [purged_of_tick h])] at h
  exact (some.inj h).symm

theorem attr?_tick (b : Attr)
    (hb : b ∉ [Attr.priority, .beginUsageTime, .lastUsageTime, .submitterShare, .submitterLimit]) :
    r'.attr? b = ((((r.assignIf (r.newAccum lib timePassed != r.floatOf .accumulatedUsage)
      .accumulatedUsage (.float (r.newAccum lib timePassed))).assignIf
      (r.newWeightedAccum timePassed != r.weightedAccum) .weightedAccumulatedUsage
        (.float (r.newWeightedAccum timePassed))).assignIf
      (r.intOf lib.truncate .unchargedTime ≠ 0) .unchargedTime (.int 0)).assignIf
      (r.floatOf .weightedUnchargedTime != 0) .weightedUnchargedTime (.float 0)).attr? b := by
  simp only [mem_cons, not_mem_nil, or_false, not_or] at hb
  rw [eq_of_tick h]
  simp only [tickWrites, shareWrites, flatten_cons, flatten_nil, foldl_append,
    foldl_writeIf, append_nil, attr?_assignIf, hb, and_false, if_false]

theorem attr?_tick_accumulated :
    r'.attr? .accumulatedUsage =
      if r.newAccum lib timePassed = r.floatOf .accumulatedUsage then r.attr? .accumulatedUsage
      else some (.float (r.newAccum lib timePassed)) := by
  rw [attr?_tick h _ (by simp)]
  simp

theorem attr?_tick_weightedAccumulated :
    r'.attr? .weightedAccumulatedUsage =
      if r.newWeightedAccum timePassed = r.weightedAccum then r.attr? .weightedAccumulatedUsage
      else some (.float (r.newWeightedAccum timePassed)) := by
  rw [attr?_tick h _ (by simp)]
  simp

theorem attr?_tick_priority :
    r'.attr? .priority =
      if clampPriority (r.newPriority timePassed aging) = r.realPriority then r.attr? .priority
      else some (.float (clampPriority (r.newPriority timePassed aging))) := by
  rw [eq_of_tick h]
  simp only [tickWrites, shareWrites, flatten_cons, flatten_nil, foldl_append,
    foldl_writeIf, append_nil, attr?_assignIf, reduceCtorEq, and_false, if_false]
  simp

theorem used_tick : r'.intOf lib.truncate .resourcesUsed = r.intOf lib.truncate .resourcesUsed := by
  rw [intOf, getInt, attr?_tick h _ (by simp)]
  simp [intOf, getInt]

theorem accumulated_tick : r'.floatOf .accumulatedUsage = r.newAccum lib timePassed := by
  rw [floatOf, getFloat, attr?_tick h _ (by simp)]
  by_cases hsame : r.newAccum lib timePassed = r.floatOf .accumulatedUsage
  · simp [floatOf, getFloat, hsame]
  · simp [hsame, AttrValue.toFloat]

theorem weightedAccumulated_tick (hkept : (r.getFloat .weightedAccumulatedUsage).isSome) :
    r'.floatOf .weightedAccumulatedUsage = r.floatOf .weightedAccumulatedUsage +
      r.floatOf .weightedResourcesUsed * timePassed + r.floatOf .weightedUnchargedTime := by
  have hweighted : r.weightedAccum = r.floatOf .weightedAccumulatedUsage := by
    obtain ⟨v, hv⟩ := isSome_iff_exists.mp hkept
    simp [weightedAccum, floatOf, hv]
  rw [← hweighted]
  change _ = r.newWeightedAccum timePassed
  rw [floatOf, getFloat, attr?_tick h _ (by simp)]
  by_cases hsame : r.newWeightedAccum timePassed = r.weightedAccum
  · rw [hsame, hweighted]
    simp [floatOf, getFloat]
  · simp [hsame, AttrValue.toFloat]

theorem uncharged_tick :
    r'.intOf lib.truncate .unchargedTime = 0 ∧ r'.floatOf .weightedUnchargedTime = 0 := by
  have htime : r'.attr? .unchargedTime =
      if r.intOf lib.truncate .unchargedTime = 0 then r.attr? .unchargedTime
      else some (.int 0) := by
    rw [attr?_tick h _ (by simp)]
    simp
  have hweighted : r'.attr? .weightedUnchargedTime =
      if r.floatOf .weightedUnchargedTime = 0 then r.attr? .weightedUnchargedTime
      else some (.float 0) := by
    rw [attr?_tick h _ (by simp)]
    simp
  rw [intOf, getInt, htime, floatOf, getFloat, hweighted]
  constructor
  · split
    · next hzero => exact hzero
    · rfl
  · split
    · next hzero => exact hzero
    · rfl

end

theorem of_purged (h : r.purged lib timePassed aging = true) :
    r.intOf lib.truncate .resourcesUsed = 0 ∧ r.newAccum lib timePassed = 0 := by
  simp only [purged, Bool.and_eq_true, decide_eq_true_eq, beq_iff_eq] at h
  exact ⟨h.1.1.2, h.1.2⟩

end Record

/-! ## A tick of the store -/

section

variable {K : Type} [Field K] [LinearOrder K] {lib : Library K} {T : ℤ} {timePassed aging : K}

theorem record?_updateOnePriority (s : Store K) (name : Text) (tbl : Table) (key : Text) :
    (updateOnePriority lib T timePassed aging s name).record? tbl key =
      if tbl = .customer ∧ key = name then
        (s.record? .customer name).bind fun r => r.tick lib T timePassed aging
      else s.record? tbl key := by
  rw [updateOnePriority]
  cases hrec : s.record? .customer name with
  | none =>
    by_cases h : tbl = .customer ∧ key = name
    · rw [if_pos h, h.1, h.2, hrec]
      rfl
    · rw [if_neg h]
  | some r =>
    by_cases h : tbl = .customer ∧ key = name
    · obtain ⟨rfl, rfl⟩ := h
      have hwritten := record?_sets_of_some hrec (r.tickWrites lib T timePassed aging)
      cases hpurged : r.purged lib timePassed aging with
      | true => simp [Record.tick, hpurged, record?_deleteRecord]
      | false =>
        simp [Record.tick, hpurged, record?_sets_of_some hwritten, foldl_append]
    · dsimp only
      rw [if_neg h]
      split
      · rw [record?_deleteRecord, if_neg h, record?_sets_of_ne _ h]
      · rw [record?_sets_of_ne _ h, record?_sets_of_ne _ h]

theorem record?_foldl_updateOnePriority {names : List Text} (hnames : names.Nodup) (s : Store K)
    (tbl : Table) (key : Text) :
    (names.foldl (updateOnePriority lib T timePassed aging) s).record? tbl key =
      if tbl = .customer ∧ key ∈ names then
        (s.record? .customer key).bind fun r => r.tick lib T timePassed aging
      else s.record? tbl key := by
  induction names generalizing s with
  | nil => simp
  | cons name names ih =>
    rw [nodup_cons] at hnames
    rw [foldl_cons, ih hnames.2, record?_updateOnePriority, record?_updateOnePriority]
    by_cases hkey : key = name
    · subst hkey
      by_cases htbl : tbl = .customer <;> simp [htbl, hnames.1]
    · simp [hkey]

variable (lib)

theorem record?_updatePriorities {a : Accountant K} {T : ℤ} (h : a.lastUpdate < T) (c : Text) :
    (a.updatePriorities lib T).store.record? .customer c =
      (a.store.record? .customer c).bind fun r => r.tick lib T ((T - a.lastUpdate : ℤ) : K)
          (lib.halfPow (((T - a.lastUpdate : ℤ) : K) / a.cfg.halfLife)) := by
  have hcustomer : ∀ c, (a.setLastUpdate T).store.record? .customer c =
      a.store.record? .customer c := fun c => by
    rw [setLastUpdate, record?_set, if_neg (by simp)]
  rw [updatePriorities, if_neg (by omega), if_neg (by omega)]
  dsimp only
  rw [record?_foldl_updateOnePriority nodup_keys, hcustomer]
  split
  · rfl
  · next hnone =>
    rw [Store.mem_keys, hcustomer] at hnone
    have habsent : a.store.record? .customer c = none := by
      rw [← not_isSome_iff_eq_none]
      exact fun hsome => hnone ⟨rfl, hsome⟩
    rw [habsent]
    rfl

@[simp] theorem updatePriorities_cfg (a : Accountant K) (T : ℤ) :
    (a.updatePriorities lib T).cfg = a.cfg := by
  rw [updatePriorities]
  dsimp only
  split_ifs <;> rfl

@[simp] theorem updatePriorities_lastUpdate (a : Accountant K) (T : ℤ) :
    (a.updatePriorities lib T).lastUpdate = T := by
  rw [updatePriorities]
  dsimp only
  split_ifs with hsame
  · omega
  · rfl
  · rfl

theorem updatePriorities_cases {a : Accountant K} {T : ℤ} (h : a.lastUpdate < T) (c : Text) :
    a.store.record? .customer c = none ∧
        (a.updatePriorities lib T).store.record? .customer c = none ∨
      ∃ r, a.store.record? .customer c = some r ∧
        (r.purged lib ((T - a.lastUpdate : ℤ) : K)
            (lib.halfPow (((T - a.lastUpdate : ℤ) : K) / a.cfg.halfLife)) = true ∧
          (a.updatePriorities lib T).store.record? .customer c = none ∨
        ∃ r', r.tick lib T ((T - a.lastUpdate : ℤ) : K)
            (lib.halfPow (((T - a.lastUpdate : ℤ) : K) / a.cfg.halfLife)) = some r' ∧
          (a.updatePriorities lib T).store.record? .customer c = some r') := by
  rw [record?_updatePriorities lib h]
  cases a.store.record? .customer c with
  | none => exact .inl ⟨rfl, rfl⟩
  | some r =>
    refine .inr ⟨r, rfl, ?_⟩
    rw [bind_some]
    cases hticked : r.tick lib T ((T - a.lastUpdate : ℤ) : K)
        (lib.halfPow (((T - a.lastUpdate : ℤ) : K) / a.cfg.halfLife)) with
    | none => exact .inl ⟨Record.purged_of_none hticked, rfl⟩
    | some r' => exact .inr ⟨r', rfl, rfl⟩

theorem record?_updatePriorities_of_le {a : Accountant K} {T : ℤ} (h : T ≤ a.lastUpdate)
    (c : Text) :
    (a.updatePriorities lib T).store.record? .customer c = a.store.record? .customer c := by
  rw [updatePriorities]
  dsimp only
  split_ifs with hsame hback
  · rfl
  · rw [setLastUpdate, record?_set, if_neg (by simp)]
  · omega

theorem attr?_updatePriorities_of_le {a : Accountant K} {T : ℤ} (h : T ≤ a.lastUpdate) (c : Text)
    (attr : Attr) :
    (a.updatePriorities lib T).store.attr? .customer c attr = a.store.attr? .customer c attr := by
  rw [attr?, record?_updatePriorities_of_le lib h, attr?]

end

/-! ## Readings of a customer -/

namespace Store

variable {K : Type} [Field K] {s : Store K} {c : Text} {r : Record K}
variable (truncate : K → ℤ) (attr : Attr)

omit [Field K] in
theorem intOf_of_some (h : s.record? .customer c = some r) :
    s.intOf truncate c attr = r.intOf truncate attr := by
  rw [intOf, getInt, attr?, h, bind_some, Record.intOf, Record.getInt]

omit [Field K] in
theorem intOf_of_none (h : s.record? .customer c = none) : s.intOf truncate c attr = 0 := by
  rw [intOf, getInt, attr?, h]
  rfl

theorem floatOf_of_some (h : s.record? .customer c = some r) :
    s.floatOf c attr = r.floatOf attr := by
  rw [floatOf, getFloat, attr?, h, bind_some, Record.floatOf, Record.getFloat]

theorem floatOf_of_none (h : s.record? .customer c = none) : s.floatOf c attr = 0 := by
  rw [floatOf, getFloat, attr?, h]
  rfl

end Store

def Settled {K : Type} [Zero K] [IntCast K] (lib : Library K) (a : Accountant K) (u : Text) :
    Prop :=
  a.store.intOf lib.truncate u .unchargedTime = 0 ∧ a.store.floatOf u .weightedUnchargedTime = 0

section

variable {K : Type} [Field K] [LinearOrder K] {lib : Library K} {a : Accountant K} {T : ℤ}
  {u : Text}

theorem settled_updatePriorities (h : a.lastUpdate < T ∨ Settled lib a u) :
    Settled lib (a.updatePriorities lib T) u := by
  by_cases hlt : a.lastUpdate < T
  · have hrec := record?_updatePriorities lib hlt u
    cases hr : (a.updatePriorities lib T).store.record? .customer u with
    | none =>
      exact ⟨intOf_of_none _ _ hr, floatOf_of_none _ hr⟩
    | some r' =>
      obtain ⟨r, -, htick⟩ := bind_eq_some_iff.mp (hrec.symm.trans hr)
      rw [Settled, intOf_of_some _ _ hr, floatOf_of_some _ hr]
      exact Record.uncharged_tick htick
  · have hsettled := h.resolve_left hlt
    have hkeep := attr?_updatePriorities_of_le lib (not_lt.mp hlt) u
    rw [Settled, intOf, getInt, floatOf, getFloat, hkeep, hkeep]
    exact hsettled

theorem weightedAccumulated_updatePriorities (hlt : a.lastUpdate < T)
    (hkept : (a.store.getFloat .customer u .weightedAccumulatedUsage).isSome)
    (hstays : ((a.updatePriorities lib T).store.record? .customer u).isSome) :
    (a.updatePriorities lib T).store.floatOf u .weightedAccumulatedUsage =
      a.store.floatOf u .weightedAccumulatedUsage +
        a.store.floatOf u .weightedResourcesUsed * ((T - a.lastUpdate : ℤ) : K) +
        a.store.floatOf u .weightedUnchargedTime := by
  obtain ⟨r', hr'⟩ := isSome_iff_exists.mp hstays
  obtain ⟨r, hr, htick⟩ :=
    bind_eq_some_iff.mp ((record?_updatePriorities lib hlt u).symm.trans hr')
  rw [floatOf_of_some _ hr', Record.weightedAccumulated_tick htick,
    floatOf_of_some _ hr, floatOf_of_some _ hr, floatOf_of_some _ hr]
  rw [getFloat, attr?, hr, bind_some] at hkept
  exact hkept

end

/-! ## A cycle -/

structure MatchCall where
  submitter : Text
  slot : ClassAd
  now : ℤ

/-- What a cycle calls: a tick, a rebuild, and its matches. -/
structure CycleCalls where
  time : ℤ
  slots : List ClassAd
  added : List MatchCall

def OneAt (name : Text) : Prop := name.count '@' = 1

instance (name : Text) : Decidable (OneAt name) := inferInstanceAs (Decidable (_ = _))

theorem at_notMem_assignedGroupName {name : Text} (h : OneAt name) :
    '@' ∉ assignedGroupName name := by
  have hroot : '@' ∉ rootGroupName := by decide
  rw [assignedGroupName]
  cases hcut : cutLast '@' name with
  | none => exact hroot
  | some p =>
    obtain ⟨front, back⟩ := p
    obtain ⟨rfl, -⟩ := cutLast_eq_some_iff.mp hcut
    have hfront : '@' ∉ front := by
      rw [OneAt, count_append, count_cons_self] at h
      exact count_eq_zero.mp (by omega)
    dsimp only
    cases hdot : cutLast '.' front with
    | none => exact hroot
    | some q =>
      obtain ⟨group, rest⟩ := q
      obtain ⟨rfl, -⟩ := cutLast_eq_some_iff.mp hdot
      exact fun hmem => hfront (mem_append_left _ hmem)

theorem bookings_of_group {customer u : Text} (hgroup : '@' ∉ assignedGroupName customer)
    (hu : '@' ∈ u) : bookings customer u = if customer = u then 1 else 0 := by
  have hne : u ≠ assignedGroupName customer := fun h => hgroup (h ▸ hu)
  rw [bookings, if_neg hne, add_zero]
  simp only [eq_comm]

section

variable {K : Type} [Field K] [LinearOrder K] (lib : Library K)

def runCycle (a : Accountant K) (cy : CycleCalls) : Accountant K :=
  cy.added.foldl (fun a m => a.addMatch lib m.submitter m.slot m.now)
    ((a.updatePriorities lib cy.time).checkMatches lib cy.slots cy.time)

def chargedWeight (a : Accountant K) (m : MatchCall) : K :=
  if (getResourceName lib m.slot).isSome then a.getSlotWeight lib m.slot else 0

theorem addMatch_frame (a : Accountant K) (m : MatchCall) :
    (a.addMatch lib m.submitter m.slot m.now).lastUpdate = a.lastUpdate ∧
      (a.addMatch lib m.submitter m.slot m.now).cfg = a.cfg := by
  rw [addMatch]
  split <;> exact ⟨rfl, rfl⟩

theorem weightedUsed_addMatch (a : Accountant K) (m : MatchCall) (c : Text) :
    (a.addMatch lib m.submitter m.slot m.now).store.floatOf c .weightedResourcesUsed =
      a.store.floatOf c .weightedResourcesUsed +
        bookings m.submitter c * chargedWeight lib a m := by
  rw [addMatch, chargedWeight]
  split
  · next h => simp [h]
  · next h => simp [h, weightedUsed_addMatchLocked]

theorem weightedUncharged_addMatch (a : Accountant K) (m : MatchCall) (c : Text) :
    (a.addMatch lib m.submitter m.slot m.now).store.floatOf c .weightedUnchargedTime =
      a.store.floatOf c .weightedUnchargedTime +
        -(bookings m.submitter c * ((m.now - a.lastUpdate : ℤ) * chargedWeight lib a m)) := by
  rw [addMatch, chargedWeight]
  split
  · next h => simp [h]
  · next h => simp [h, weightedUncharged_addMatchLocked, sub_eq_add_neg]

theorem reading_runCycle {M : Type} [AddMonoid M] (a : Accountant K) (cy : CycleCalls)
    (read : Accountant K → M) (g : Claim K → M) (g' : MatchCall → M)
    (hclaim : ∀ (a' : Accountant K) (cl : Claim K), a'.lastUpdate = cy.time →
      read (a'.addMatchLocked lib cl.customer cl.res cl.weight cl.limits cy.time) = read a' + g cl)
    (hadded : ∀ (a' : Accountant K) (m : MatchCall), a'.lastUpdate = cy.time ∧ a'.cfg = a.cfg →
      read (a'.addMatch lib m.submitter m.slot m.now) = read a' + g' m) :
    read (runCycle lib a cy) =
      read ((a.updatePriorities lib cy.time).clearUsage lib cy.slots) +
        ((claims lib a cy.slots).map g).sum + (cy.added.map g').sum := by
  have hchecked := reading_checkMatches lib (a.updatePriorities lib cy.time) cy.slots cy.time read g
    fun a' cl h => hclaim a' cl (h.trans (updatePriorities_lastUpdate lib a cy.time))
  rw [claims_congr lib (updatePriorities_cfg lib a cy.time)] at hchecked
  rw [runCycle, ← hchecked]
  refine Budget.reading_foldl (fun a' : Accountant K => a'.lastUpdate = cy.time ∧ a'.cfg = a.cfg)
    read ?_ hadded _ (by simp)
  intro a' m h
  rw [(addMatch_frame lib a' m).1, (addMatch_frame lib a' m).2]
  exact h

theorem runCycle_frame (a : Accountant K) (cy : CycleCalls) :
    (runCycle lib a cy).lastUpdate = cy.time ∧ (runCycle lib a cy).cfg = a.cfg := by
  rw [runCycle]
  refine foldlRecOn (motive := fun a' : Accountant K =>
    a'.lastUpdate = cy.time ∧ a'.cfg = a.cfg) _ _ ⟨by simp, by simp⟩ ?_
  intro a' h m _
  rw [(addMatch_frame lib a' m).1, (addMatch_frame lib a' m).2]
  exact h

theorem chargedWeight_congr {a a' : Accountant K} (h : a'.cfg = a.cfg) :
    chargedWeight lib a' = chargedWeight lib a := by
  funext m
  simp only [chargedWeight, getSlotWeight, h]

variable (a : Accountant K) (cy : CycleCalls) (u : Text)

theorem weightedUsed_runCycle :
    (runCycle lib a cy).store.floatOf u .weightedResourcesUsed =
      ((claims lib a cy.slots).map fun cl => (bookings cl.customer u : K) * cl.weight).sum +
        (cy.added.map fun m => (bookings m.submitter u : K) * chargedWeight lib a m).sum := by
  have hsum := reading_runCycle lib a cy (fun a' => a'.store.floatOf u .weightedResourcesUsed)
    (fun cl => (bookings cl.customer u : K) * cl.weight)
    (fun m => (bookings m.submitter u : K) * chargedWeight lib a m)
    (fun a' cl _ => weightedUsed_addMatchLocked lib a' _ _ _ _ _ u)
    (fun a' m h => by rw [weightedUsed_addMatch, chargedWeight_congr lib h.2])
  rw [hsum, weightedUsed_clearUsage, zero_add]

variable {a cy u}

theorem weightedUncharged_runCycle (h : Settled lib (a.updatePriorities lib cy.time) u) :
    (runCycle lib a cy).store.floatOf u .weightedUnchargedTime =
      (cy.added.map fun m =>
        -((bookings m.submitter u : K) * ((m.now - cy.time : ℤ) * chargedWeight lib a m))).sum := by
  have hsum := reading_runCycle lib a cy (fun a' => a'.store.floatOf u .weightedUnchargedTime)
    (fun _ => 0)
    (fun m => -((bookings m.submitter u : K) * ((m.now - cy.time : ℤ) * chargedWeight lib a m)))
    (fun a' cl h => by rw [weightedUncharged_addMatchLocked, h]; simp)
    (fun a' m h => by rw [weightedUncharged_addMatch, chargedWeight_congr lib h.2, h.1])
  have hcleared : ((a.updatePriorities lib cy.time).clearUsage lib cy.slots).store.floatOf u
      .weightedUnchargedTime = 0 := by
    rw [floatOf, getFloat, attr?_clearUsage_customer, if_neg (by simp)]
    exact h.2
  rw [hsum, hcleared]
  simp

theorem weightedAccumulated_after_runCycle {T : ℤ} (hlt : cy.time < T)
    (hsettled : a.lastUpdate < cy.time ∨ Settled lib a u)
    (hclaims : ∀ cl ∈ claims lib a cy.slots, OneAt cl.customer)
    (hadded : ∀ m ∈ cy.added, OneAt m.submitter) (hu : '@' ∈ u)
    (hkept : ((runCycle lib a cy).store.getFloat .customer u .weightedAccumulatedUsage).isSome)
    (hstays : (((runCycle lib a cy).updatePriorities lib T).store.record? .customer u).isSome) :
    ((runCycle lib a cy).updatePriorities lib T).store.floatOf u .weightedAccumulatedUsage =
      (runCycle lib a cy).store.floatOf u .weightedAccumulatedUsage +
        (((claims lib a cy.slots).filter fun cl => cl.customer = u).map
          fun cl => cl.weight * ((T - cy.time : ℤ) : K)).sum +
        ((cy.added.filter fun m => m.submitter = u).map
          fun m => chargedWeight lib a m * ((T - m.now : ℤ) : K)).sum := by
  have hlast := (runCycle_frame lib a cy).1
  rw [weightedAccumulated_updatePriorities (hlast ▸ hlt) hkept hstays, hlast,
    weightedUsed_runCycle, weightedUncharged_runCycle lib (settled_updatePriorities hsettled)]
  have hheld : ((claims lib a cy.slots).map
      fun cl => (bookings cl.customer u : K) * cl.weight).sum * ((T - cy.time : ℤ) : K) =
      (((claims lib a cy.slots).filter fun cl => cl.customer = u).map
        fun cl => cl.weight * ((T - cy.time : ℤ) : K)).sum := by
    rw [Budget.sum_map_filter, ← sum_map_mul_right]
    congr 1
    refine map_congr_left fun cl hcl => ?_
    rw [bookings_of_group (at_notMem_assignedGroupName (hclaims cl hcl)) hu]
    split_ifs <;> push_cast <;> ring
  have hnew : (cy.added.map fun m => (bookings m.submitter u : K) * chargedWeight lib a m).sum *
      ((T - cy.time : ℤ) : K) + (cy.added.map fun m =>
        -((bookings m.submitter u : K) * ((m.now - cy.time : ℤ) * chargedWeight lib a m))).sum =
      ((cy.added.filter fun m => m.submitter = u).map
        fun m => chargedWeight lib a m * ((T - m.now : ℤ) : K)).sum := by
    rw [Budget.sum_map_filter, ← sum_map_mul_right, ← sum_map_add]
    congr 1
    refine map_congr_left fun m hm => ?_
    rw [bookings_of_group (at_notMem_assignedGroupName (hadded m hm)) hu]
    split_ifs <;> push_cast <;> ring
  rw [← hheld, ← hnew]
  ring

theorem runCycles_ready {before : List CycleCalls} {T : ℤ}
    (htimes : ∀ cy ∈ before, cy.time < T)
    (hstart : before = [] → a.lastUpdate < T ∨ Settled lib a u) :
    (before.foldl (runCycle lib) a).lastUpdate < T ∨
      Settled lib (before.foldl (runCycle lib) a) u := by
  cases before using reverseRecOn with
  | nil => exact hstart rfl
  | append_singleton before cy =>
    left
    rw [foldl_append, foldl_cons, foldl_nil, (runCycle_frame lib _ cy).1]
    exact htimes cy (by simp)

theorem runCycles_cfg (a : Accountant K) (before : List CycleCalls) :
    (before.foldl (runCycle lib) a).cfg = a.cfg :=
  foldlRecOn (motive := fun a' : Accountant K => a'.cfg = a.cfg) before _ rfl
    fun a' h cy _ => (runCycle_frame lib a' cy).2.trans h

/-- **Weighted usage is the exact integral over time** of the weights of named slots. -/
theorem weighted_usage_is_time_integral (a : Accountant K) (before : List CycleCalls)
    (cy : CycleCalls) (T : ℤ) (u : Text)
    (htimes : ((before ++ [cy]).map CycleCalls.time ++ [T]).Pairwise (· < ·))
    (hstart : ∀ first ∈ (before ++ [cy]).head?, a.lastUpdate < first.time ∨ Settled lib a u)
    (hclaims : ∀ cl ∈ claims lib a cy.slots, OneAt cl.customer)
    (hadded : ∀ m ∈ cy.added, OneAt m.submitter) (hu : OneAt u)
    (hkept : (((before ++ [cy]).foldl (runCycle lib) a).store.getFloat .customer u
      .weightedAccumulatedUsage).isSome)
    (hstays : ((((before ++ [cy]).foldl (runCycle lib) a).updatePriorities lib T).store.record?
      .customer u).isSome) :
    (((before ++ [cy]).foldl (runCycle lib) a).updatePriorities lib T).store.floatOf u
        .weightedAccumulatedUsage =
      ((before ++ [cy]).foldl (runCycle lib) a).store.floatOf u .weightedAccumulatedUsage +
        (((claims lib a cy.slots).filter fun cl => cl.customer = u).map
          fun cl => cl.weight * ((T - cy.time : ℤ) : K)).sum +
        ((cy.added.filter fun m => m.submitter = u).map
          fun m => chargedWeight lib a m * ((T - m.now : ℤ) : K)).sum ∧
      Settled lib (((before ++ [cy]).foldl (runCycle lib) a).updatePriorities lib T) u := by
  simp only [map_append, map_cons, map_nil, pairwise_append,
    List.pairwise_singleton, List.mem_append, List.mem_map, List.mem_singleton] at htimes
  have hbefore : ∀ cy' ∈ before, cy'.time < cy.time := fun cy' hcy' =>
    htimes.1.2.2 _ ⟨cy', hcy', rfl⟩ _ rfl
  have hlt : cy.time < T := htimes.2.2 _ (Or.inr rfl) _ rfl
  have hready := runCycles_ready lib (a := a) (u := u) hbefore
    fun hnil => hstart cy (by rw [hnil]; rfl)
  have hcfg := runCycles_cfg lib a before
  have hat : '@' ∈ u := count_pos_iff.mp (by rw [hu]; exact one_pos)
  rw [foldl_append, foldl_cons, foldl_nil] at hkept hstays ⊢
  rw [← claims_congr lib hcfg, ← chargedWeight_congr lib hcfg]
  rw [← claims_congr lib hcfg] at hclaims
  refine ⟨weightedAccumulated_after_runCycle lib hlt hready hclaims hadded hat hkept hstays, ?_⟩
  refine settled_updatePriorities (Or.inl ?_)
  rw [(runCycle_frame lib _ cy).1]
  exact hlt

end

theorem weighted_usage_is_time_integral_two_cycles :
    let u := "u@d".toList
    let slot := claimedSlot "slot1" "u@d"
    let cy₀ : CycleCalls := ⟨10, [slot], []⟩
    let cy : CycleCalls := ⟨20, [slot], [⟨u, claimedSlot "slot2" "u@d", 25⟩]⟩
    let a := [cy₀, cy].foldl (runCycle literalLibrary) fresh
    (a.updatePriorities literalLibrary 30).store.floatOf u .weightedAccumulatedUsage =
        a.store.floatOf u .weightedAccumulatedUsage + 2 * 10 + 2 * 5 ∧
      Settled literalLibrary (a.updatePriorities literalLibrary 30) u := by
  intro u slot cy₀ cy a
  have hstart : ∀ first ∈ ([cy₀] ++ [cy]).head?,
      fresh.lastUpdate < first.time ∨ Settled literalLibrary fresh u := by
    intro first hfirst
    cases hfirst
    exact Or.inl (by decide +kernel)
  obtain ⟨husage, hsettled⟩ := weighted_usage_is_time_integral literalLibrary fresh [cy₀] cy 30 u
    (by decide) hstart (by decide +kernel) (by decide +kernel)
    (by decide +kernel) (by decide +kernel) (by decide +kernel)
  refine ⟨?_, hsettled⟩
  rw [show (a.updatePriorities literalLibrary 30).store.floatOf u .weightedAccumulatedUsage = _ from
    husage]
  decide +kernel

theorem weighted_usage_skips_unnamed_slot :
    let u := "u@d".toList
    let slots := [claimedSlot "slot1" "u@d", unnamedSlot "u@d"]
    let a := [⟨10, slots, []⟩, ⟨20, slots, []⟩].foldl (runCycle literalLibrary) fresh
    (∀ slot ∈ slots, a.isClaimed literalLibrary slot = some u ∧
      a.getSlotWeight literalLibrary slot = 2) ∧
    (a.store.getFloat .customer u .weightedAccumulatedUsage).isSome ∧
    (a.updatePriorities literalLibrary 30).store.floatOf u .weightedAccumulatedUsage =
      a.store.floatOf u .weightedAccumulatedUsage + 2 * 10 ∧
    let slot := claimedSlot "slot1" "u@d"
    let a₀ := [(⟨10, [slot], []⟩ : CycleCalls),
      ⟨20, [slot], [⟨u, claimedSlot "slot2" "u@d", 25⟩]⟩].foldl (runCycle literalLibrary) fresh
    let a₁ := runCycle literalLibrary a₀ ⟨20, [slot], []⟩
    a₀.lastUpdate = 20 ∧ a₀.isClaimed literalLibrary slot = some u ∧
    (a₁.updatePriorities literalLibrary 30).store.floatOf u .weightedAccumulatedUsage =
      a₁.store.floatOf u .weightedAccumulatedUsage + 2 * 10 - 2 * 5 := by
  decide +kernel

end GolangCollector.Accountant
