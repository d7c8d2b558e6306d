import GolangCollector.Negotiator.LimitTracking

/-! # Concurrency limits within a cycle

The usage of a limit is the accountant's count at the start of the cycle and what the lists of the
committed matches name for it, each evaluated against its slot. The gate checks a list token by
token against the tracker, and the commit charges what the list is by itself
(`matchmaker/concurrency.go`, `cycle/spin.go`). -/

namespace GolangCollector.Negotiator

open GoStrings Runs Accountant List Option Negotiator.Cycle

/-! ## The usage of a limit -/

def Cycle.listAgainst {F A : Type} (c : Cycle F A) (req : Request) (slot : ClassAd) : Text :=
  (c.lib.evaluateAttrLeft req.ad slot "ConcurrencyLimits").stringValue.getD []

def Cycle.committedAlong {F A : Type} [Zero F] [One F] [Add F] [Sub F] [Mul F] [Div F] [IntCast F]
    [BEq F] [LT F] [LE F] [DecidableLT F] [DecidableLE F] (c : Cycle F A) (st : CycleSetup F) :
    CycleState F A → List (Label F) → List (Request × ClassAd)
  | _, [] => []
  | s, l :: ls =>
    match c.step st s l with
    | none => []
    | some s' => (c.committed? s l).toList ++ c.committedAlong st s' ls

theorem invariant_committedAlong {F A : Type} [Zero F] [One F] [Add F] [Sub F] [Mul F] [Div F]
    [IntCast F] [BEq F] [LT F] [LE F] [DecidableLT F] [DecidableLE F] {c : Cycle F A}
    {st : CycleSetup F} {P : CycleState F A → Label F → Prop}
    {I : List (Request × ClassAd) → CycleState F A → Prop}
    (hstep : ∀ s l s' ms, c.step st s l = some s' → P s l → I ms s →
      I (ms ++ (c.committed? s l).toList) s')
    {s s' : CycleState F A} {ls : List (Label F)} (hrun : Run (c.step st) P s ls s')
    {ms : List (Request × ClassAd)} (hinit : I ms s) : I (ms ++ c.committedAlong st s ls) s' := by
  induction hrun generalizing ms with
  | nil s => simpa [committedAlong] using hinit
  | cons hmove hcond _ ih =>
    rw [committedAlong, hmove, ← append_assoc]
    exact ih (hstep _ _ _ _ hmove hcond hinit)

section

variable {K : Type} [Field K] [LinearOrder K]

def Cycle.usedOf {A : Type} (c : Cycle K A) (base : Text → K) (ms : List (Request × ClassAd))
    (name : Text) : K :=
  base name + (ms.map fun m => tokensIncrement (limitTokens c.lib (c.listAgainst m.1 m.2)) name).sum

theorem usedOf_append {A : Type} (c : Cycle K A) (base : Text → K) (ms : List (Request × ClassAd))
    (req : Request) (slot : ClassAd) (name : Text) :
    c.usedOf base (ms ++ [(req, slot)]) name = c.usedOf base ms name +
      tokensIncrement (limitTokens c.lib (c.listAgainst req slot)) name := by
  simp [usedOf, add_assoc]

omit [LinearOrder K] in
theorem tokensIncrement_of_notMem {tokens : List (Text × K)} {name : Text}
    (h : ∀ p ∈ tokens, p.1 ≠ toLower name) : tokensIncrement tokens name = 0 := by
  rw [tokensIncrement, filter_eq_nil_iff.mpr (by simpa using h)]
  rfl

omit [LinearOrder K] in
theorem tokensIncrement_of_mem {tokens : List (Text × K)} {name : Text} {p : Text × K}
    (hnodup : (tokens.map Prod.fst).Nodup) (hp : p ∈ tokens) (hname : p.1 = toLower name) :
    tokensIncrement tokens name = p.2 := by
  induction tokens with
  | nil => cases hp
  | cons q tokens ih =>
    rw [map_cons, nodup_cons] at hnodup
    have hcons : tokensIncrement (q :: tokens) name =
        (if q.1 = toLower name then q.2 else 0) + tokensIncrement tokens name := by
      rw [tokensIncrement, filter_cons, tokensIncrement]
      by_cases hq : q.1 = toLower name <;> simp [hq]
    rw [hcons]
    rcases mem_cons.mp hp with rfl | hp
    · have hrest : ∀ q ∈ tokens, q.1 ≠ toLower name := fun q hq heq =>
        hnodup.1 (mem_map.mpr ⟨q, hq, heq.trans hname.symm⟩)
      rw [if_pos hname, tokensIncrement_of_notMem hrest, add_zero]
    · have hq : q.1 ≠ toLower name := fun heq =>
        hnodup.1 (mem_map.mpr ⟨p, hp, hname.trans heq.symm⟩)
      rw [if_neg hq, zero_add, ih hnodup.2 hp]

/-! ## Under the maxima -/

def Cycle.ChargedOnce (c : Cycle K (Accountant K)) (s : CycleState K (Accountant K)) : Prop :=
  ∀ req ∈ c.offered? s, ((limitTokens c.lib (c.listAlone req)).map Prod.fst).Nodup ∧
    FiniteWeights (c.listAlone req) ∧
      ∀ cand ∈ s.view.gather, InStep (c.listAlone req) cand.slot ∧
        c.listAgainst req cand.slot = c.listAlone req

def Cycle.OffersOnce (c : Cycle K (Accountant K)) (s : CycleState K (Accountant K)) :
    Label K → Prop
  | .offer _ _ _ => c.ChargedOnce s
  | _ => True

instance (c : Cycle K (Accountant K)) (s : CycleState K (Accountant K)) (l : Label K) :
    Decidable (c.OffersOnce s l) :=
  match l with
  | .offer _ _ _ => inferInstanceAs (Decidable (∀ req ∈ c.offered? s, _ ∧ _))
  | .group _ _ | .spin _ | .prefetch _ _ | .sub _ _ | .spinEnd | .top _ | .next | .fetch _
  | .leave _ | .deliver _ _ => .isTrue trivial

variable {lib : Accountant.Library K} {c : Cycle K (Accountant K)} {st : CycleSetup K}
  {s s' : CycleState K (Accountant K)} {l : Label K}

theorem Cycle.OffersOnce.inStep (h : c.OffersOnce s l) : c.OffersInStep s l := by
  cases l with
  | offer ctxDone sendOk now => exact fun req hreq cand hcand => ((h req hreq).2.2 cand hcand).1
  | _ => trivial

theorem usage_eq_getLimit (hacct : c.acct = accounting lib)
    (h : s.limits.Follows s.acct.getLimit) (name : Text) :
    s.limits.usage (c.acct.getLimit s.acct) name = s.acct.getLimit name := by
  have hget : c.acct.getLimit = Accountant.getLimit := by rw [hacct]; rfl
  rw [hget, ConcurrencyTracker.usage]
  cases hlookup : s.limits.lookup (toLower name) with
  | none => exact foldsCase_getLimit s.acct _ _ (toLower_toLower name)
  | some v => exact h name v hlookup

/-- **Usage is under the maxima**, and both counts say so. -/
structure LimitsHold (c : Cycle K (Accountant K)) (base : Text → K)
    (ms : List (Request × ClassAd)) (s : CycleState K (Accountant K)) : Prop where
  follows : s.limits.Follows s.acct.getLimit
  used : ∀ name, s.acct.getLimit name = c.usedOf base ms name
  bound : ∀ name, c.usedOf base ms name ≤
    max (base name) (ConcurrencyTracker.max c.cfg.concurrencyLimitMax name)

theorem LimitsHold.of_step {base : Text → K} {ms : List (Request × ClassAd)}
    (hacct : c.acct = accounting lib) (hlib : lib.toMatchLibrary = c.lib)
    (hread : ReadsLiterals lib) (hexprs : MatchExprsNamed c.cfg.matchExprs)
    (hstep : c.step st s l = some s') (hcond : c.OffersOnce s l) (h : LimitsHold c base ms s) :
    LimitsHold c base (ms ++ (c.committed? s l).toList) s' := by
  have hfollows := follows_of_step hacct hlib hread hexprs hstep hcond.inStep h.follows
  have hmove := limitsMove_of_step hstep
  generalize hmatch : c.committed? s l = m at hmove ⊢
  cases hmove with
  | reads hreported names hlimits =>
    rw [toList_none, append_nil]
    refine ⟨hfollows, fun name => ?_, h.bound⟩
    rw [getLimit_of_reported hacct hreported, h.used]
  | charges req slot hcharges =>
    have hslot := inStep_of_charges hmatch hcond.inStep hcharges
    have hcount := getLimit_of_charges hacct hlib hread hexprs hcharges hslot
    obtain ⟨hnodup, hlist⟩ : ((limitTokens c.lib (c.listAlone req)).map Prod.fst).Nodup ∧
        c.listAgainst req slot = c.listAlone req := by
      cases l with
      | offer ctxDone sendOk now =>
        obtain ⟨i, hi, hlive⟩ := hcharges.live
        obtain ⟨hnodup, -, hlists⟩ := hcond req hcharges.offered
        exact ⟨hnodup, (hlists ⟨i, slot⟩ (SlotView.mem_gather_iff.mpr ⟨hi, hlive⟩)).2⟩
      | _ => cases hmatch
    have hused : ∀ name, c.usedOf base (ms ++ [(req, slot)]) name = c.usedOf base ms name +
        tokensIncrement (limitTokens c.lib (c.listAlone req)) name := fun name => by
      rw [usedOf_append, hlist]
    refine ⟨hfollows, fun name => ?_, fun name => ?_⟩
    · rw [hcount, h.used, toList_some, hused]
    · rw [toList_some, hused]
      by_cases hnamed : ∃ p ∈ limitTokens c.lib (c.listAlone req), p.1 = toLower name
      · -- the gate has compared the usage with the token against the maximum
        obtain ⟨p, hp, hname⟩ := hnamed
        have hpassed := hcharges.passed p hp
        have husage : (c.gate s).usage p.1 = c.usedOf base ms name := by
          rw [← h.used name]
          exact (usage_eq_getLimit hacct h.follows p.1).trans
            (foldsCase_getLimit s.acct _ _ (by rw [hname, toLower_toLower]))
        have hmax : (c.gate s).max p.1 = ConcurrencyTracker.max c.cfg.concurrencyLimitMax name := by
          change ConcurrencyTracker.max c.cfg.concurrencyLimitMax p.1 = _
          cases c.cfg.concurrencyLimitMax with
          | none => rfl
          | some limit => exact congrArg limit (by rw [hname, toLower_toLower])
        rw [ConcurrencyLimits.exceeds, Bool.or_eq_false_iff, husage, hmax] at hpassed
        rw [tokensIncrement_of_mem hnodup hp hname]
        exact le_max_of_le_right (not_lt.mp (of_decide_eq_false hpassed.2))
      · rw [tokensIncrement_of_notMem fun p hp hname => hnamed ⟨p, hp, hname⟩, add_zero]
        exact h.bound name

/-- **Concurrency limits hold within a cycle** in which every offer is such. -/
theorem limits_hold_within_cycle (lib : Accountant.Library K) (hread : ReadsLiterals lib)
    (c : Cycle K (Accountant K)) (hacct : c.acct = accounting lib)
    (hlib : lib.toMatchLibrary = c.lib) (hexprs : MatchExprsNamed c.cfg.matchExprs)
    (st : CycleSetup K) (a : Accountant K) (snap : Cycle.Snapshot) (ls : List (Label K))
    (s : CycleState K (Accountant K))
    (hrun : Run (c.step st) c.OffersOnce (c.start st a snap) ls s) (name : Text) :
    s.limits.usage (c.acct.getLimit s.acct) name =
        c.usedOf a.getLimit (c.committedAlong st (c.start st a snap) ls) name ∧
      c.usedOf a.getLimit (c.committedAlong st (c.start st a snap) ls) name ≤
        max (a.getLimit name) (ConcurrencyTracker.max c.cfg.concurrencyLimitMax name) := by
  have hstart : LimitsHold c a.getLimit [] (c.start st a snap) := by
    refine ⟨?_, fun name => ?_, fun name => ?_⟩
    · rw [limits_start]
      exact ConcurrencyTracker.follows_empty _
    · rw [(start_eqs c st a snap).1]
      simp [usedOf]
    · simp [usedOf]
  have hinv := invariant_committedAlong (I := LimitsHold c a.getLimit)
    (fun s l s' ms hstep hcond h => h.of_step hacct hlib hread hexprs hstep hcond) hrun hstart
  rw [nil_append] at hinv
  exact ⟨(usage_eq_getLimit hacct hinv.follows name).trans (hinv.used name), hinv.bound name⟩

end

def limitedCycle : Cycle ℚ (Accountant ℚ) :=
  { accountedCycle with
    cfg := { accountedCycle.cfg with concurrencyLimitMax := some fun _ => 1 }
    mm_considerPreemption := rfl
    mm_useSlotWeights := rfl }

def plainPool : Cycle.Snapshot := poolOf [slotAt "a" "x", slotAt "b" "y"]

def cappedMatches (ls : List (Label ℚ)) : List (Request × ClassAd) :=
  limitedCycle.committedAlong (limitedCycle.setup 0 [] plainPool)
    (limitedCycle.start (limitedCycle.setup 0 [] plainPool) fresh plainPool) ls

theorem limits_hold_within_cycle_twoLimits :
    ∃ s, limitedCycle.execFreshUnder limitedCycle.OffersOnce plainPool
        (matchTwo [jobWith 1 (limitsAttr "X"), jobWith 2 (limitsAttr "y")]) = some s ∧
      s.commits.length = 2 ∧ s.limits.usage (limitedCycle.acct.getLimit s.acct) "x" = 1 ∧
      limitedCycle.usedOf fresh.getLimit
        (cappedMatches (matchTwo [jobWith 1 (limitsAttr "X"), jobWith 2 (limitsAttr "y")]))
        "x" ≤ max (fresh.getLimit "x") 1 := by
  obtain ⟨s, hs, h⟩ := map_eq_some_iff.mp (by decide +kernel :
    (limitedCycle.execFreshUnder limitedCycle.OffersOnce plainPool
      (matchTwo [jobWith 1 (limitsAttr "X"), jobWith 2 (limitsAttr "y")])).map
      (fun s => (s.commits.length,
        s.limits.usage (limitedCycle.acct.getLimit s.acct) "x")) = some (2, 1))
  obtain ⟨hcommits, husage⟩ := Prod.mk.inj h
  refine ⟨s, hs, hcommits, husage, ?_⟩
  exact (limits_hold_within_cycle Accountant.literalLibrary readsLiterals_literalLibrary limitedCycle
    rfl rfl nofun _ _ _ _ s (.of_execUnder hs) "x").2

theorem limit_exceeded_by_repeated_token :
    ∃ s, limitedCycle.execFresh plainPool ((matchTwo [jobWith 1 (limitsAttr "x,x")]).take 7) = some s ∧
      s.commits.length = 1 ∧
      limitedCycle.usedOf fresh.getLimit
        (cappedMatches ((matchTwo [jobWith 1 (limitsAttr "x,x")]).take 7)) "x" = 2 ∧
      fresh.getLimit "x" = 0 ∧
      ConcurrencyTracker.max limitedCycle.cfg.concurrencyLimitMax "x" = 1 := by
  obtain ⟨s, hs, hcommits⟩ := map_eq_some_iff.mp (by decide +kernel :
    (limitedCycle.execFresh plainPool ((matchTwo [jobWith 1 (limitsAttr "x,x")]).take 7)).map
      (fun s => s.commits.length) = some 1)
  exact ⟨s, hs, hcommits, by decide +kernel, by decide +kernel, rfl⟩

end GolangCollector.Negotiator
