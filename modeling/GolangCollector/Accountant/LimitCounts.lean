import Mathlib.Tactic.LinearCombination
import GolangCollector.Accountant.Held

/-! # The counts of concurrency limits and the records they stand for

A match counts against the limits of its list, the list is recorded on the match's resource, and the
end of the match gives back what the recorded list names (`accountant/limits.go`,
`accountant/usage.go`). `CheckMatches` sets the counts to zero and counts the claimed slots, but it
keeps the records of slots that are not claimed yet, and the lists of claimed slots whose ads have
none; and `AddMatch` over a recorded resource replaces its list without giving it back. -/

namespace GolangCollector.Accountant

open GoStrings Negotiator Runs List Store Option

/-! ## Lists and what they name -/

section

variable {K : Type} [Field K] [LinearOrder K] [IsStrictOrderedRing K] {lib : Library K}

theorem limitIncrement_nonneg (limits n : Text) : 0 ≤ limitIncrement lib limits n := by
  have hpos : ∀ x : K, 0 ≤ if x ≤ 0 then 1 else x := fun x => by
    split
    · exact zero_le_one
    · next h => exact (not_le.mp h).le
  refine sum_nonneg fun x hx => ?_
  obtain ⟨p, hp, rfl⟩ := mem_map.mp hx
  obtain ⟨tok, -, htok⟩ := mem_filterMap.mp (mem_filter.mp hp).1
  simp only [parseConcurrencyLimit, parseLimitToken, ite_none_right_eq_some,
    some.injEq] at htok
  obtain ⟨-, rfl⟩ := htok
  exact hpos _

end

/-! ## The lists after each call -/

section

variable {K : Type} [Field K] [LinearOrder K] {lib : Library K} {a : Accountant K} (T : ℤ)

theorem limitsOf_addMatchLocked (customer res limits : Text) (w : K) (r : Text) :
    (a.addMatchLocked lib customer res w limits T).store.limitsOf r =
      if r = res ∧ limits ≠ [] then limits else a.store.limitsOf r := by
  rw [limitsOf, getString, attr?_addMatchLocked_resource, limitsOf,
    getString]
  by_cases hr : r = res
  · subst hr
    by_cases hlimits : limits = [] <;>
      simp [holdResource, writeIf, sets, attr?_set, hlimits, AttrValue.toText]
  · rw [attr?_holdResource_of_ne fun _ => hr, if_neg fun h => hr h.1]

theorem limitsOf_removeMatch (res r : Text) :
    (a.removeMatch lib res T).store.limitsOf r = if r = res then [] else a.store.limitsOf r := by
  rw [limitsOf, getString, attr?_removeMatch_resource, limitsOf, getString]
  split <;> rfl

omit [LinearOrder K] in
theorem limitsOf_clearUsage (slots : List ClassAd) (r : Text) :
    (a.clearUsage lib slots).store.limitsOf r =
      if a.stale lib slots r = true then [] else a.store.limitsOf r := by
  rw [limitsOf, getString, attr?_clearUsage_resource, limitsOf, getString]
  split <;> rfl

theorem getLimit_removeMatch {res : Text}
    (h : a.store.remoteUser? res = none → ∀ n, limitIncrement lib (a.store.limitsOf res) n = 0)
    (n : Text) :
    (a.removeMatch lib res T).store.getLimit n =
      a.store.getLimit n - limitIncrement lib (a.store.limitsOf res) n := by
  cases hm : a.store.holding? lib.truncate res with
  | none =>
    rw [Store.getLimit, Store.getFloat, attr?_removeMatch_of_none T hm, if_neg (by simp),
      h (Option.map_eq_none_iff.mp hm) n, sub_zero, Store.getLimit, Store.getFloat]
  | some m =>
    have hrest : ∀ s : Store K, (((s.unbookMatch lib m.customer m.weight
        (T - max m.began a.lastUpdate)).unbookMatch lib (assignedGroupName m.customer) m.weight
        (T - max m.began a.lastUpdate)).rollUp (assignedGroupName m.customer)
          fun h => if h - m.weight < 0 then 0 else h - m.weight).getLimit n = s.getLimit n := by
      intro s
      rw [Store.getLimit, Store.getFloat, Store.attr?_rollUp_of_ne (by simp),
        attr?_unbookMatch_of_ne (by simp), attr?_unbookMatch_of_ne (by simp), Store.getLimit,
        Store.getFloat]
    rw [removeMatch_of_holding T hm, Store.getLimit, Store.getFloat, Store.attr?_deleteRecord,
      if_neg (by simp), ← Store.getFloat, ← Store.getLimit, Store.settle,
      Store.getLimit_changeLimits_sub, hrest, Store.limits_of_holding hm]

end

/-! ## The counts and the records -/

section

variable {K : Type} [Field K] [LinearOrder K] (lib : Library K)

def Store.recorded (s : Store K) (n : Text) : K :=
  ((s.keys .resource).map fun res => limitIncrement lib (s.limitsOf res) n).sum

variable {lib} {a : Accountant K}

theorem limitIncrement_of_notMem {s : Store K} {res : Text} (h : res ∉ s.keys .resource)
    (n : Text) : limitIncrement lib (s.limitsOf res) n = 0 := by
  have habsent : s.record? .resource res = none := by simpa [Store.mem_keys] using h
  rw [limitsOf, getString, attr?, habsent]
  exact limitIncrement_nil lib n

variable (lib) in
theorem recorded_of_changed (s s' : Store K) {res : Text}
    (h : ∀ r, r ≠ res → s'.limitsOf r = s.limitsOf r) (n : Text) :
    s'.recorded lib n + limitIncrement lib (s.limitsOf res) n =
      s.recorded lib n + limitIncrement lib (s'.limitsOf res) n :=
  Budget.sum_map_of_changed nodup_keys nodup_keys
    (fun _ hr => limitIncrement_of_notMem hr n) (fun _ hr => limitIncrement_of_notMem hr n)
    fun r hr => by rw [h r hr]

theorem recorded_eq_sum {s : Store K} {n : Text} {rs : List Text} (hrs : rs.Nodup)
    (h : ∀ res, res ∉ rs → limitIncrement lib (s.limitsOf res) n = 0) :
    s.recorded lib n = (rs.map fun res => limitIncrement lib (s.limitsOf res) n).sum :=
  add_right_cancel (Budget.sum_map_of_changed (k := []) hrs nodup_keys h
    (fun _ hr => limitIncrement_of_notMem hr n) fun _ _ => rfl)

/-- **The counts are those of the records.** -/
structure LimitsCounted (lib : Library K) (a : Accountant K) : Prop where
  count_eq : ∀ n, a.store.getLimit n = a.store.recorded lib n
  user : ∀ res, a.store.remoteUser? res = none →
    ∀ n, limitIncrement lib (a.store.limitsOf res) n = 0

theorem user_addMatchLocked
    (h : ∀ res, a.store.remoteUser? res = none →
      ∀ n, limitIncrement lib (a.store.limitsOf res) n = 0)
    (customer res limits : Text) (w : K) (T : ℤ) (r : Text)
    (hr : (a.addMatchLocked lib customer res w limits T).store.remoteUser? r = none) (n : Text) :
    limitIncrement lib ((a.addMatchLocked lib customer res w limits T).store.limitsOf r) n = 0 := by
  rw [remoteUser?_addMatchLocked] at hr
  split at hr
  · cases hr
  · next hne =>
    rw [limitsOf_addMatchLocked, if_neg fun h => hne h.1]
    exact h r hr n

variable (lib a) in
theorem recorded_addMatchLocked (customer res limits : Text) (w : K) (T : ℤ) (n : Text) :
    (a.addMatchLocked lib customer res w limits T).store.recorded lib n +
        limitIncrement lib (a.store.limitsOf res) n = a.store.recorded lib n +
      limitIncrement lib (if limits ≠ [] then limits else a.store.limitsOf res) n := by
  have hchanged := recorded_of_changed lib a.store
    (a.addMatchLocked lib customer res w limits T).store
    (fun r hr => by rw [limitsOf_addMatchLocked, if_neg fun h => hr h.1]) n
  simpa only [limitsOf_addMatchLocked, true_and] using hchanged

theorem LimitsCounted.addMatchLocked (h : LimitsCounted lib a) {res limits : Text}
    (hnew : limits = [] ∨ ∀ n, limitIncrement lib (a.store.limitsOf res) n = 0) (customer : Text)
    (w : K) (T : ℤ) : LimitsCounted lib (a.addMatchLocked lib customer res w limits T) := by
  refine ⟨fun n => ?_, user_addMatchLocked h.user customer res limits w T⟩
  have hrecorded := recorded_addMatchLocked lib a customer res limits w T n
  rw [getLimit_addMatchLocked, h.count_eq n]
  rcases hnew with rfl | hnone
  · rw [if_neg (by simp)] at hrecorded
    rw [limitIncrement_nil, add_zero, add_right_cancel hrecorded]
  · rw [hnone n, add_zero] at hrecorded
    rw [hrecorded]
    by_cases hlimits : limits = []
    · rw [if_neg (not_not.mpr hlimits), hlimits, limitIncrement_nil, hnone n]
    · rw [if_pos hlimits]

theorem LimitsCounted.removeMatch (h : LimitsCounted lib a) (res : Text) (T : ℤ) :
    LimitsCounted lib (a.removeMatch lib res T) := by
  refine ⟨fun n => ?_, fun r hr n => ?_⟩
  · have hrecorded := recorded_of_changed lib a.store (a.removeMatch lib res T).store
      (fun r hr => by rw [limitsOf_removeMatch, if_neg hr]) n
    rw [limitsOf_removeMatch, if_pos rfl, limitIncrement_nil, add_zero] at hrecorded
    rw [getLimit_removeMatch T (h.user res), h.count_eq n, ← hrecorded, add_sub_cancel_right]
  · rw [limitsOf_removeMatch]
    rw [remoteUser?_removeMatch] at hr
    split
    · exact limitIncrement_nil lib n
    · next hne =>
      rw [if_neg hne] at hr
      exact h.user r hr n

theorem count_eq_foldl_addMatchLocked {T : ℤ} {n : Text} {cls : List (Claim K)}
    (hdistinct : ((cls.filter fun cl => cl.limits ≠ []).map Claim.res).Nodup)
    (h : a.store.getLimit n + ((cls.filter fun cl => cl.limits ≠ []).map fun cl =>
      limitIncrement lib (a.store.limitsOf cl.res) n).sum = a.store.recorded lib n) :
    (cls.foldl (fun a cl => a.addMatchLocked lib cl.customer cl.res cl.weight cl.limits T)
        a).store.getLimit n =
      (cls.foldl (fun a cl => a.addMatchLocked lib cl.customer cl.res cl.weight cl.limits T)
        a).store.recorded lib n := by
  induction cls generalizing a with
  | nil => simpa using h
  | cons cl cls ih =>
    obtain ⟨customer, res, w, limits⟩ := cl
    rw [foldl_cons]
    have hrecorded := recorded_addMatchLocked lib a customer res limits w T n
    by_cases hlimits : limits = []
    · -- a claim without a list changes neither side
      subst hlimits
      rw [filter_cons_of_neg (by simp)] at hdistinct h
      rw [if_neg (not_not.mpr rfl)] at hrecorded
      refine ih hdistinct ?_
      rw [getLimit_addMatchLocked, limitIncrement_nil, add_zero, add_right_cancel hrecorded, ← h]
      simp only [limitsOf_addMatchLocked, ne_eq, not_true_eq_false, and_false, if_false]
    · rw [filter_cons_of_pos (by simp [hlimits])] at hdistinct h
      rw [map_cons, nodup_cons] at hdistinct
      rw [map_cons, sum_cons] at h
      rw [if_pos hlimits] at hrecorded
      refine ih hdistinct.2 ?_
      -- the lists of the resources that are still to be claimed stay
      have hpending : (cls.filter fun cl => cl.limits ≠ []).map (fun cl => limitIncrement lib
          ((a.addMatchLocked lib customer res w limits T).store.limitsOf cl.res) n) =
          (cls.filter fun cl => cl.limits ≠ []).map fun cl =>
            limitIncrement lib (a.store.limitsOf cl.res) n := by
        refine map_congr_left fun cl hcl => ?_
        have hne : cl.res ≠ res := fun heq =>
          hdistinct.1 (mem_map.mpr ⟨cl, hcl, heq⟩)
        rw [limitsOf_addMatchLocked, if_neg fun h => hne h.1]
      rw [hpending, getLimit_addMatchLocked]
      linear_combination h - hrecorded

theorem LimitsCounted.checkMatches (h : LimitsCounted lib a) {slots : List ClassAd} (T : ℤ)
    (hdistinct : (((claims lib a slots).filter fun cl => cl.limits ≠ []).map Claim.res).Nodup)
    (hclaimed : ∀ res, a.stale lib slots res = false →
      (∃ cl ∈ claims lib a slots, cl.res = res ∧ cl.limits ≠ []) ∨
        ∀ n, limitIncrement lib (a.store.limitsOf res) n = 0) :
    LimitsCounted lib (a.checkMatches lib slots T) := by
  have hfold : a.checkMatches lib slots T = (claims lib a slots).foldl
      (fun a cl => a.addMatchLocked lib cl.customer cl.res cl.weight cl.limits T)
      (a.clearUsage lib slots) := rfl
  rw [hfold]
  refine ⟨fun n => count_eq_foldl_addMatchLocked hdistinct ?_, ?_⟩
  · -- after the clearing the lists of the kept records are pending
    have hpending : ∀ res, res ∉ ((claims lib a slots).filter fun cl => cl.limits ≠ []).map
        Claim.res → limitIncrement lib ((a.clearUsage lib slots).store.limitsOf res) n = 0 := by
      intro res hres
      rw [limitsOf_clearUsage]
      split
      · exact limitIncrement_nil lib n
      · next hkept =>
        rcases hclaimed res (by simpa using hkept) with ⟨cl, hcl, rfl, hlimits⟩ | hnone
        · refine absurd (mem_map_of_mem (mem_filter.mpr ⟨hcl, ?_⟩)) hres
          simpa using hlimits
        · exact hnone n
    rw [getLimit_clearUsage, zero_add, recorded_eq_sum hdistinct hpending, List.map_map]
    simp only [Function.comp_def]
  · refine foldlRecOn (motive := fun b : Accountant K => ∀ res,
      b.store.remoteUser? res = none → ∀ n, limitIncrement lib (b.store.limitsOf res) n = 0)
      _ _ ?_ ?_
    · intro res hres n
      rw [remoteUser?_clearUsage] at hres
      rw [limitsOf_clearUsage]
      split
      · exact limitIncrement_nil lib n
      · next hkept =>
        rw [if_neg hkept] at hres
        exact h.user res hres n
    · intro b hb cl _
      exact user_addMatchLocked hb cl.customer cl.res cl.limits cl.weight T

/-! ## Runs -/

def CountsLimits (lib : Library K) (a : Accountant K) : Call K → Prop
  | .addMatch _ slot _ => ∀ res, getResourceName lib slot = some res →
      concurrencyLimitsOf lib slot = [] ∨ ∀ n, limitIncrement lib (a.store.limitsOf res) n = 0
  | .removeMatch _ _ => True
  | .checkMatches slots _ =>
    (((claims lib a slots).filter fun cl => cl.limits ≠ []).map Claim.res).Nodup ∧
      ∀ res, a.stale lib slots res = false →
        (∃ cl ∈ claims lib a slots, cl.res = res ∧ cl.limits ≠ []) ∨
          ∀ n, limitIncrement lib (a.store.limitsOf res) n = 0
  | _ => False

theorem LimitsCounted.perform (h : LimitsCounted lib a) {call : Call K}
    (hcall : CountsLimits lib a call) : LimitsCounted lib (a.perform lib call) := by
  cases call with
  | addMatch submitter slot T =>
    simp only [Accountant.perform, addMatch]
    cases hres : getResourceName lib slot with
    | none => exact h
    | some res => exact h.addMatchLocked (hcall res hres) submitter _ T
  | removeMatch res T => exact h.removeMatch res T
  | checkMatches slots T => exact h.checkMatches T hcall.1 hcall.2
  | _ => exact hcall.elim

theorem limitsCounted_new (cfg : Config K) : LimitsCounted lib (new lib cfg .empty) := by
  have hlists : ∀ res, (new lib cfg .empty).store.limitsOf res = [] := fun res => by
    rw [limitsOf, getString, attr?_new_empty cfg (by simp)]
    rfl
  refine ⟨fun n => ?_, fun res _ n => ?_⟩
  · rw [Store.getLimit, Store.getFloat, attr?_new_empty cfg (by simp), Store.recorded]
    refine (sum_eq_zero fun x hx => ?_).symm
    obtain ⟨res, -, rfl⟩ := List.mem_map.mp hx
    rw [hlists, limitIncrement_nil]
  · rw [hlists, limitIncrement_nil]

/-- **The count of a limit is what the recorded lists name for it** after calls that count once. -/
theorem limit_counts_are_recorded [IsStrictOrderedRing K] (cfg : Config K) {calls : List (Call K)}
    (hrun : Run (fun a call => some (a.perform lib call)) (CountsLimits lib) (new lib cfg .empty)
      calls a) :
    (∀ n, 0 ≤ a.getLimit n ∧ a.getLimit n = a.store.recorded lib n) ∧
      ∀ res T n, (a.removeMatch lib res T).getLimit n =
        a.getLimit n - limitIncrement lib (a.store.limitsOf res) n := by
  have hcounted : LimitsCounted lib a := by
    refine hrun.invariant (I := LimitsCounted lib) ?_ (limitsCounted_new cfg)
    intro a call a' hstep hcall h
    cases hstep
    exact h.perform hcall
  refine ⟨fun n => ⟨?_, hcounted.count_eq n⟩, fun res T n => ?_⟩
  · rw [getLimit, hcounted.count_eq n]
    refine sum_nonneg fun x hx => ?_
    obtain ⟨res, -, rfl⟩ := mem_map.mp hx
    exact limitIncrement_nonneg _ _
  · rw [getLimit, getLimit_removeMatch T (hcounted.user res), getLimit]

end

def limitedSlot (name state limits : String) : ClassAd :=
  ((claimedSlot name "u@d").insert "State" (.lit (.str state.toList))).insert
    "ConcurrencyLimits" (.lit (.str limits.toList))

theorem limit_counts_are_recorded_two_matches :
    let slot := limitedSlot "slot1" "Claimed" "x, y"
    let calls : List (Call ℚ) := [.addMatch "u@d".toList slot 10, .checkMatches [slot] 20,
      .addMatch "u@d".toList (limitedSlot "slot2" "Matched" "y") 20]
    let a := calls.foldl (perform literalLibrary) fresh
    a.getLimit "y".toList = a.store.recorded literalLibrary "y".toList ∧
      a.getLimit "y".toList = 2 := by
  intro slot calls a
  have hname : getResourceName literalLibrary slot = some "slot1@".toList := by decide +kernel
  have hfirst : CountsLimits literalLibrary fresh (.addMatch "u@d".toList slot 10) := by
    intro res _
    refine Or.inr fun n => ?_
    rw [limitsOf, getString, fresh, attr?_new_empty plainConfig (by simp)]
    exact limitIncrement_nil literalLibrary n
  have hcheck : CountsLimits literalLibrary (fresh.perform literalLibrary
      (.addMatch "u@d".toList slot 10)) (.checkMatches [slot] 20) := by
    refine ⟨by decide +kernel, fun res hkept => Or.inl ?_⟩
    -- only the slot's own record is kept
    obtain rfl : res = "slot1@".toList := by
      by_contra hne
      have hlive : (liveSlots literalLibrary [slot]).lookup res = none := by
        simp only [liveSlots, foldl_cons, foldl_nil, hname]
        rw [AList.lookup_insert_ne hne]
        rfl
      simp only [stale, hlive] at hkept
      cases hkept
    decide +kernel
  have hsecond : CountsLimits literalLibrary ((fresh.perform literalLibrary
      (.addMatch "u@d".toList slot 10)).perform literalLibrary (.checkMatches [slot] 20))
      (.addMatch "u@d".toList (limitedSlot "slot2" "Matched" "y") 20) := by
    intro res hres
    obtain rfl : "slot2@".toList = res := some.inj (Eq.trans (by decide +kernel) hres)
    refine Or.inr fun n => ?_
    have hlist : ((fresh.perform literalLibrary (.addMatch "u@d".toList slot 10)).perform
        literalLibrary (.checkMatches [slot] 20)).store.limitsOf "slot2@".toList = [] := by
      decide +kernel
    rw [hlist, limitIncrement_nil]
  have hcounts := limit_counts_are_recorded plainConfig
    (.cons rfl hfirst (.cons rfl hcheck (.cons rfl hsecond (.nil _))))
  exact ⟨(hcounts.1 "y".toList).2, by decide +kernel⟩

theorem checkMatches_forgets_unclaimed_limits :
    let slot := limitedSlot "slot1" "Matched" "x"
    let a :=
      (fresh.addMatch literalLibrary "u@d" slot 0).checkMatches literalLibrary [slot] 0
    a.getLimit "x" = 0 ∧ a.store.recorded literalLibrary "x" = 1 ∧
      (a.removeMatch literalLibrary "slot1@" 0).getLimit "x" = -1 := by
  decide +kernel

end GolangCollector.Accountant
