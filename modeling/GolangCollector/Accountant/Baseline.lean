import GolangCollector.Accountant.Decay

/-! # The first tick

An accountant over a store without a `LastUpdateTime` starts with the time zero
(`accountant/accountant.go`), so its first tick charges and decays the whole time since the epoch.
The documentation of `UpdatePriorities` has it merely establish the baseline. -/

namespace GolangCollector.Accountant

open GoStrings Negotiator List Store Option

variable {K : Type} [Field K] [LinearOrder K] {lib : Library K}

namespace Record

/-- **A record at rest**, which a tick has nothing to do for. -/
structure Resting (lib : Library K) (r : Record K) : Prop where
  noneUncharged : r.NoneUncharged lib
  used : r.intOf lib.truncate .resourcesUsed = 0
  weightedUsed : r.floatOf .weightedResourcesUsed = 0
  priority : clampPriority r.steadyUsage = r.realPriority
  kept : r.steadyUsage < minPriority → ¬ r.Idle lib
  begun : 0 < r.floatOf .accumulatedUsage → r.intOf lib.truncate .beginUsageTime ≠ 0
  shares : ∀ attr ∈ [Attr.submitterShare, .submitterLimit], ∀ v ∈ r.attr? attr, v = .float 0

instance (r : Record K) : Decidable (r.Idle lib) :=
  decidable_of_iff (r.intOf lib.truncate .resourcesUsed = 0 ∧ r.floatOf .accumulatedUsage = 0 ∧
      r.getFloat .priorityFactor = none)
    ⟨fun h => ⟨h.1, h.2.1, h.2.2⟩, fun h => ⟨h.used, h.accumulated, h.factor⟩⟩

instance (r : Record K) : Decidable (r.NoneUncharged lib) :=
  decidable_of_iff (r.intOf lib.truncate .unchargedTime = 0 ∧ r.floatOf .weightedUnchargedTime = 0)
    ⟨fun h => ⟨h.1, h.2⟩, fun h => ⟨h.time, h.weighted⟩⟩

instance (r : Record K) : Decidable (r.Resting lib) :=
  decidable_of_iff (r.NoneUncharged lib ∧ r.intOf lib.truncate .resourcesUsed = 0 ∧
      r.floatOf .weightedResourcesUsed = 0 ∧ clampPriority r.steadyUsage = r.realPriority ∧
      (r.steadyUsage < minPriority → ¬ r.Idle lib) ∧
      (0 < r.floatOf .accumulatedUsage → r.intOf lib.truncate .beginUsageTime ≠ 0) ∧
      ∀ attr ∈ [Attr.submitterShare, .submitterLimit], ∀ v ∈ r.attr? attr, v = .float 0)
    ⟨fun h => ⟨h.1, h.2.1, h.2.2.1, h.2.2.2.1, h.2.2.2.2.1, h.2.2.2.2.2.1, h.2.2.2.2.2.2⟩,
      fun h => ⟨h.1, h.2, h.3, h.4, h.5, h.6, h.7⟩⟩

variable {r r' : Record K} {T : ℤ} {t a : K}

theorem attr?_tick_beginUsageTime (h : r.tick lib T t a = some r') :
    r'.attr? .beginUsageTime =
      if 0 < r.newAccum lib t ∧ r.intOf lib.truncate .beginUsageTime = 0 then some (.int T)
      else r.attr? .beginUsageTime := by
  rw [eq_of_tick h]
  simp only [tickWrites, shareWrites, flatten_cons, flatten_nil, foldl_append,
    foldl_writeIf, append_nil, attr?_assignIf, reduceCtorEq, and_false, if_false]
  simp

theorem attr?_tick_share (h : r.tick lib T t a = some r') {attr : Attr}
    (hattr : attr ∈ [Attr.submitterShare, .submitterLimit]) :
    r'.attr? attr = if r.has attr then some (.float 0) else r.attr? attr := by
  rw [eq_of_tick h]
  simp only [mem_cons, not_mem_nil, or_false] at hattr
  rcases hattr with rfl | rfl
  all_goals
    simp only [tickWrites, shareWrites, flatten_cons, flatten_nil, foldl_append,
      foldl_writeIf, append_nil, attr?_assignIf, reduceCtorEq, and_false, if_false]
    simp

variable [IsStrictOrderedRing K]

theorem resting_of_tick (hT : 0 < T) (ht : 0 < t) (ha : 0 < a) (ha1 : a < 1)
    (h : r.tick lib T t a = some r') (hsame : ∀ attr, r'.attr? attr = r.attr? attr) :
    r.Resting lib := by
  have hint : ∀ attr, r'.intOf lib.truncate attr = r.intOf lib.truncate attr := fun attr => by
    rw [intOf, getInt, hsame, intOf, getInt]
  have hfloat : ∀ attr, r'.floatOf attr = r.floatOf attr := fun attr => by
    rw [floatOf, getFloat, hsame, floatOf, getFloat]
  have hnone : r.NoneUncharged lib :=
    ⟨hint _ ▸ (uncharged_tick h).1, hfloat _ ▸ (uncharged_tick h).2⟩
  have hused : r.intOf lib.truncate .resourcesUsed = 0 := by
    have haccum := accumulated_tick h
    rw [hfloat, newAccum_of_noneUncharged hnone, left_eq_add, mul_eq_zero] at haccum
    exact Int.cast_eq_zero.mp (haccum.resolve_right ht.ne')
  have haccum : r.newAccum lib t = r.floatOf .accumulatedUsage := by
    rw [newAccum_of_noneUncharged hnone, hused, Int.cast_zero, zero_mul, add_zero]
  have hpriority : clampPriority r.steadyUsage = r.realPriority := by
    have hreal := realPriority_tick h
    rw [realPriority, hfloat, ← realPriority, newPriority_eq_mix hnone] at hreal
    exact (clampPriority_mix_eq_iff r.minPriority_le_realPriority ha ha1).mp hreal.symm
  refine ⟨hnone, hused, ?_, hpriority, ?_, ?_, ?_⟩
  · have hweighted := weightedAccum_tick h fun _ => haccum
    rw [weightedAccum, getFloat, hsame, ← getFloat, hfloat, ← weightedAccum,
      newWeightedAccum_of_noneUncharged hnone, left_eq_add, mul_eq_zero] at hweighted
    exact hweighted.resolve_right ht.ne'
  · intro hlow hidle
    have hpurged : r.purged lib t a = true := by
      refine (purged_iff hnone t a).mpr ⟨?_, hidle⟩
      rw [← hpriority, clampPriority_of_lt hlow]
      exact mix_lt le_rfl hlow ha ha1
    rw [purged_of_tick h] at hpurged
    cases hpurged
  · intro hpos hzero
    have hbegin := attr?_tick_beginUsageTime h
    rw [haccum, if_pos ⟨hpos, hzero⟩, hsame] at hbegin
    rw [intOf, getInt, hbegin] at hzero
    exact hT.ne' hzero
  · intro attr hattr v hv
    have hshare := attr?_tick_share h hattr
    rw [hsame, hv, has, mem_def.mp hv, isSome_some, if_pos rfl] at hshare
    exact some.inj hshare

theorem Resting.tick_eq (h : r.Resting lib) (ha : 0 < a) (ha1 : a < 1) :
    ∃ r', r.tick lib T t a = some r' ∧ ∀ attr, r'.attr? attr = r.attr? attr := by
  have hnone := h.noneUncharged
  have hkept : r.purged lib t a = false := by
    rw [← Bool.not_eq_true, purged_iff hnone]
    rintro ⟨hlow, hidle⟩
    exact h.kept (lt_of_mix_lt r.minPriority_le_realPriority ha ha1 hlow) hidle
  have haccum : r.newAccum lib t = r.floatOf .accumulatedUsage := by
    rw [newAccum_of_noneUncharged hnone, h.used, Int.cast_zero, zero_mul, add_zero]
  have hweighted : r.newWeightedAccum t = r.weightedAccum := by
    rw [newWeightedAccum_of_noneUncharged hnone, h.weightedUsed, zero_mul, add_zero]
  have hpriority : clampPriority (r.newPriority t a) = r.realPriority := by
    rw [newPriority_eq_mix hnone]
    exact (clampPriority_mix_eq_iff r.minPriority_le_realPriority ha ha1).mpr h.priority
  have hbegun : (decide (0 < r.floatOf .accumulatedUsage) &&
      decide (r.intOf lib.truncate .beginUsageTime = 0)) = false := by
    by_contra htrue
    simp only [Bool.not_eq_false, Bool.and_eq_true, decide_eq_true_eq] at htrue
    exact h.begun htrue.1 htrue.2
  -- of all that a tick writes only the shares are left
  have hwrites : r.tickWrites lib T t a = [] := by
    simp only [tickWrites, hpriority, haccum, hweighted, hbegun, h.used, hnone.time, hnone.weighted]
    simp [writeIf]
  refine ⟨r.shareWrites.foldl (fun r p => Record.assign r p.1 p.2) r, ?_, fun attr => ?_⟩
  · rw [tick, if_neg (by simp [hkept]), hwrites, nil_append]
  · simp only [shareWrites, foldl_append, foldl_writeIf, attr?_assignIf]
    have hshare : ∀ attr ∈ [Attr.submitterShare, .submitterLimit], r.has attr = true →
        some (.float 0) = r.attr? attr := by
      intro attr hattr hhas
      obtain ⟨v, hv⟩ := isSome_iff_exists.mp hhas
      rw [hv, h.shares attr hattr v hv]
    split
    · next hlimit =>
      rw [hlimit.2]
      exact hshare _ (by simp) hlimit.1
    · split
      · next hsub =>
        rw [hsub.2]
        exact hshare _ (by simp) hsub.1
      · rfl

end Record

/-! ## Setting up an accountant -/

def Call.isSetup {F : Type} : Call F → Bool
  | .setPriority .. | .setPriorityFactor .. | .setCeiling .. | .setFloor .. => true
  | .setAccumUsage .. | .addMatch .. => true
  | _ => false

def setUp (lib : Library K) (cfg : Config K) (store : Store K) (calls : List (Call K)) :
    Accountant K :=
  calls.foldl (perform lib) (new lib cfg store)

omit [Field K] [LinearOrder K] in
theorem setAttrs_frame (a : Accountant K) (submitter : Text)
    (assignments : List (Attr × AttrValue K)) :
    ((a.setAttrs submitter assignments).getD a).lastUpdate = a.lastUpdate ∧
      ((a.setAttrs submitter assignments).getD a).cfg = a.cfg := by
  rw [setAttrs]
  split <;> exact ⟨rfl, rfl⟩

variable (lib) in
theorem perform_frame_of_isSetup (a : Accountant K) {call : Call K} (h : call.isSetup) :
    (a.perform lib call).lastUpdate = a.lastUpdate ∧ (a.perform lib call).cfg = a.cfg := by
  cases call with
  | setPriority | setPriorityFactor | setCeiling | setFloor | setAccumUsage =>
    exact setAttrs_frame a _ _
  | addMatch submitter slot now => exact addMatch_frame lib a ⟨submitter, slot, now⟩
  | _ => cases h

theorem lastUpdate_getPriority (a : Accountant K) (name : Text) :
    (a.getPriority name).2.lastUpdate = a.lastUpdate := by
  have hfactor : (a.getPriorityFactor name).2.lastUpdate = a.lastUpdate := by
    rw [getPriorityFactor]
    split <;> rfl
  rw [getPriority]
  dsimp only
  split <;> exact hfactor

theorem setUp_frame (lib : Library K) (cfg : Config K) {store : Store K}
    (hstore : store.getInt lib.truncate .acct [] .lastUpdateTime = none) {calls : List (Call K)}
    (hcalls : ∀ call ∈ calls, call.isSetup) :
    (setUp lib cfg store calls).lastUpdate = 0 ∧
      (setUp lib cfg store calls).cfg = cfg.filled := by
  have hrun : ∀ (calls : List (Call K)) (a : Accountant K), (∀ call ∈ calls, call.isSetup) →
      (calls.foldl (perform lib) a).lastUpdate = a.lastUpdate ∧
        (calls.foldl (perform lib) a).cfg = a.cfg := by
    intro calls
    induction calls with
    | nil => exact fun _ _ => ⟨rfl, rfl⟩
    | cons call calls ih =>
      intro a h
      obtain ⟨htime, hcfg⟩ := ih (a.perform lib call) fun c hc => h c (mem_cons_of_mem _ hc)
      obtain ⟨htime', hcfg'⟩ := perform_frame_of_isSetup lib a (h call mem_cons_self)
      exact ⟨htime.trans htime', hcfg.trans hcfg'⟩
  obtain ⟨htime, hcfg⟩ := hrun calls (new lib cfg store) hcalls
  refine ⟨htime.trans ?_, hcfg.trans ?_⟩
  · rw [new, hstore]
    exact lastUpdate_getPriority _ _
  · exact getPriority_cfg _ _

structure BaselineOnly (a a' : Accountant K) (T : ℤ) : Prop where
  time : a'.lastUpdate = T
  exists_iff : ∀ c, (a'.store.record? .customer c).isSome = (a.store.record? .customer c).isSome
  attr : ∀ c attr, a'.store.attr? .customer c attr = a.store.attr? .customer c attr
  rest : ∀ tbl key attr, tbl ≠ .customer → ¬ (tbl = .acct ∧ key = [] ∧ attr = .lastUpdateTime) →
    a'.store.attr? tbl key attr = a.store.attr? tbl key attr

theorem attr?_updatePriorities_of_ne (lib : Library K) (a : Accountant K) (T : ℤ) {tbl : Table}
    {key : Text} {attr : Attr} (htbl : tbl ≠ .customer)
    (hattr : ¬ (tbl = .acct ∧ key = [] ∧ attr = .lastUpdateTime)) :
    (a.updatePriorities lib T).store.attr? tbl key attr = a.store.attr? tbl key attr := by
  have htime : (a.setLastUpdate T).store.attr? tbl key attr = a.store.attr? tbl key attr := by
    rw [setLastUpdate, attr?_set, if_neg hattr]
  rw [updatePriorities]
  dsimp only
  split_ifs
  · rfl
  · exact htime
  · rw [← htime, attr?, record?_foldl_updateOnePriority nodup_keys,
      if_neg fun h => htbl h.1, attr?]

/-- **The first tick only sets the baseline** iff no time has passed or every record is at rest. -/
theorem first_tick_sets_baseline_iff [IsStrictOrderedRing K] (cfg : Config K) {store : Store K}
    (hstore : store.getInt lib.truncate .acct [] .lastUpdateTime = none) {calls : List (Call K)}
    (hcalls : ∀ call ∈ calls, call.isSetup) (hdecay : lib.Decays cfg.filled.halfLife) (T : ℤ) :
    BaselineOnly (setUp lib cfg store calls)
        ((setUp lib cfg store calls).updatePriorities lib T) T ↔
      T ≤ 0 ∨ ∀ c, ∀ r ∈ (setUp lib cfg store calls).store.record? .customer c, r.Resting lib := by
  obtain ⟨hzero, hcfg⟩ := setUp_frame lib cfg hstore hcalls
  generalize setUp lib cfg store calls = a at hzero hcfg ⊢
  rcases le_or_gt T 0 with hle | hpos
  · -- the clock does not go forward
    refine iff_of_true ⟨updatePriorities_lastUpdate lib a T, fun c => ?_, fun c attr => ?_,
      fun _ _ _ => attr?_updatePriorities_of_ne lib a T⟩ (Or.inl hle)
    · rw [record?_updatePriorities_of_le lib (hzero ▸ hle)]
    · exact attr?_updatePriorities_of_le lib (hzero ▸ hle) c attr
  · have ha : 0 < lib.halfPow (((T - a.lastUpdate : ℤ) : K) / a.cfg.halfLife) := by
      rw [hzero, sub_zero, hcfg]
      exact hdecay.pos T hpos
    have ha1 : lib.halfPow (((T - a.lastUpdate : ℤ) : K) / a.cfg.halfLife) < 1 := by
      rw [hzero, sub_zero, hcfg]
      exact hdecay.lt_one T hpos
    have ht : (0 : K) < ((T - a.lastUpdate : ℤ) : K) := by
      rw [hzero, sub_zero]
      exact Int.cast_pos.mpr hpos
    have htick := record?_updatePriorities lib (a := a) (T := T) (hzero ▸ hpos)
    rw [or_iff_right hpos.not_ge]
    constructor
    · intro h c r hr
      have hc := htick c
      rw [mem_def.mp hr, bind_some] at hc
      have hsome := h.exists_iff c
      rw [mem_def.mp hr, isSome_some] at hsome
      obtain ⟨r', hr'⟩ := isSome_iff_exists.mp hsome
      refine Record.resting_of_tick hpos ht ha ha1 (hc.symm.trans hr') fun attr => ?_
      have hattr := h.attr c attr
      rwa [attr?, hr', attr?, mem_def.mp hr] at hattr
    · intro h
      have hkept : ∀ c, a.store.record? .customer c = none ∧
            (a.updatePriorities lib T).store.record? .customer c = none ∨
          ∃ r r', a.store.record? .customer c = some r ∧
            (a.updatePriorities lib T).store.record? .customer c = some r' ∧
            ∀ attr, r'.attr? attr = r.attr? attr := by
        intro c
        cases hr : a.store.record? .customer c with
        | none => exact Or.inl ⟨rfl, by rw [htick, hr]; rfl⟩
        | some r =>
          obtain ⟨r', hr', hsame⟩ := (h c r hr).tick_eq ha ha1
          exact Or.inr ⟨r, r', rfl, by rw [htick, hr, bind_some, hr'], hsame⟩
      refine ⟨updatePriorities_lastUpdate lib a T, fun c => ?_, fun c attr => ?_,
        fun _ _ _ => attr?_updatePriorities_of_ne lib a T⟩
      · rcases hkept c with ⟨hr, hr'⟩ | ⟨r, r', hr, hr', -⟩
        · rw [hr, hr']
        · rw [hr, hr']
          rfl
      · rcases hkept c with ⟨hr, hr'⟩ | ⟨r, r', hr, hr', hsame⟩
        · rw [attr?, hr', attr?, hr]
        · rw [attr?, hr', attr?, hr]
          exact hsame attr

theorem first_tick_sets_baseline_factor :
    BaselineOnly (setUp halvingLibrary { plainConfig with halfLife := 1 } .empty
        [.setPriorityFactor "u@d" 2])
      ((setUp halvingLibrary { plainConfig with halfLife := 1 } .empty
        [.setPriorityFactor "u@d" 2]).updatePriorities halvingLibrary 10) 10 := by
  have hdecay : halvingLibrary.Decays
      (Config.filled { plainConfig with halfLife := 1 }).halfLife := by
    have hhalf : (Config.filled { plainConfig with halfLife := 1 }).halfLife = 1 := by
      decide +kernel
    rw [hhalf]
    exact decays_halvingLibrary
  have hrest : ∀ c ∈ (setUp halvingLibrary { plainConfig with halfLife := 1 } .empty
        [.setPriorityFactor "u@d" 2]).store.keys .customer,
      ∀ r ∈ (setUp halvingLibrary { plainConfig with halfLife := 1 } .empty
        [.setPriorityFactor "u@d" 2]).store.record? .customer c,
        r.Resting halvingLibrary := by
    decide +kernel
  refine (first_tick_sets_baseline_iff _ rfl (by decide) hdecay 10).mpr (Or.inr fun c r hr => ?_)
  exact hrest c (mem_keys.mpr (isSome_of_mem hr)) r hr

theorem first_tick_decays_priority :
    ¬ BaselineOnly (setUp halvingLibrary { plainConfig with halfLife := 1 } .empty
        [.setPriority "u@d" 8])
      ((setUp halvingLibrary { plainConfig with halfLife := 1 } .empty
        [.setPriority "u@d" 8]).updatePriorities halvingLibrary 2) 2 := by
  intro h
  have hprio := h.attr "u@d" .priority
  revert hprio
  decide +kernel

end GolangCollector.Accountant
