import GolangCollector.Negotiator.LimitCharges

/-! # The tracker in step with the accountant

What the tracker and the accountant count of a match is the same if the accountant finds on the
enriched ad the list that the request names: that is so if the slot has a name and the request a
list, or if neither of them has a list. -/

namespace GolangCollector.Negotiator

open GoStrings Runs Accountant List Option

/-! ## What the accountant finds on the enriched ad -/

/-- **What is assumed of readings.** -/
structure ReadsLiterals {F : Type} (lib : Accountant.Library F) : Prop where
  get : ∀ ad attr, lib.getAsString ad attr = lib.evaluateAttrString ad attr
  str : ∀ ad attr v, ad.lookup attr = some (.lit (.str v)) → lib.evaluateAttr ad attr = .str v
  absent : ∀ ad attr, ad.lookup attr = none → lib.evaluateAttr ad attr = .undefined

def matchExprHead : Text := "negotiatormatchexpr"

def MatchExprsNamed (exprs : List (Text × Text)) : Prop :=
  ∀ e ∈ exprs, matchExprHead <+: toLower e.1

section

variable {F : Type} {lib : Accountant.Library F}

namespace ReadsLiterals

theorem getAsString_str (h : ReadsLiterals lib) {ad : ClassAd} {attr v : Text}
    (hlookup : ad.lookup attr = some (.lit (.str v))) : lib.getAsString ad attr = some v := by
  rw [h.get, MatchLibrary.evaluateAttrString, h.str ad attr v hlookup]
  rfl

theorem getAsString_absent (h : ReadsLiterals lib) {ad : ClassAd} {attr : Text}
    (hlookup : ad.lookup attr = none) : lib.getAsString ad attr = none := by
  rw [h.get, MatchLibrary.evaluateAttrString, h.absent ad attr hlookup]
  rfl

end ReadsLiterals

variable {mc : MatchContext} (hexprs : MatchExprsNamed mc.matchExprs)
include hexprs

theorem ne_of_matchExprsNamed {attr : Text} (h : ¬ matchExprHead <+: toLower attr) :
    ∀ e ∈ mc.matchExprs, toLower attr ≠ toLower e.1 := fun e he heq =>
  h (heq ▸ hexprs e he)

theorem unstamped_name : Unstamped mc "Name" := by
  rw [Unstamped, stampedAttrs, List.forall_mem_append, List.forall_mem_map]
  exact ⟨by decide +kernel, ne_of_matchExprsNamed hexprs (by decide +kernel)⟩

theorem unstamped_concurrencyLimits : Unstamped mc "ConcurrencyLimits" := by
  rw [Unstamped, stampedAttrs, List.forall_mem_append, List.forall_mem_map]
  exact ⟨by decide +kernel, ne_of_matchExprsNamed hexprs (by decide +kernel)⟩

theorem lookup_matchedLimits (lib : MatchLibrary F) (slot : ClassAd) (req : Request) :
    (enrichMatchAd lib slot req mc).lookup "MatchedConcurrencyLimits" =
      if mc.concurrencyLimits ≠ [] then some (.lit (.str mc.concurrencyLimits))
      else slot.lookup "MatchedConcurrencyLimits" := by
  rw [enrichMatchAd, lookup_insertMatchExprs lib
    (ne_of_matchExprsNamed hexprs (by decide +kernel))]
  have hsaved : (restored slot).lookup "MatchedConcurrencyLimits" = slot.lookup _ :=
    lookup_restored_of_ne slot (by decide +kernel)
  have hstamped : ∀ ad : ClassAd, (setNonempty ((((ad.insert "ResourceRequestCluster"
      (.lit (.int req.cluster))).insert "ResourceRequestProc" (.lit (.int req.proc))).insert
      "_condor_RESOURCE_CLUSTER" (.lit (.int req.cluster))).insert
      "_condor_RESOURCE_PROC" (.lit (.int req.proc))) "MatchedConcurrencyLimits"
      mc.concurrencyLimits).lookup "MatchedConcurrencyLimits" =
        if mc.concurrencyLimits ≠ [] then some (.lit (.str mc.concurrencyLimits))
        else ad.lookup "MatchedConcurrencyLimits" := by
    intro ad
    rw [setNonempty]
    split_ifs with h
    · exact ClassAd.lookup_insert_of_eq _ _ rfl
    · rw [ClassAd.lookup_insert_of_ne _ _ (by decide +kernel),
        ClassAd.lookup_insert_of_ne _ _ (by decide +kernel),
        ClassAd.lookup_insert_of_ne _ _ (by decide +kernel),
        ClassAd.lookup_insert_of_ne _ _ (by decide +kernel)]
  have hother := congrArg (fun found => if mc.concurrencyLimits ≠ [] then
    some (.lit (.str mc.concurrencyLimits)) else found) hsaved
  cases mc.group with
  | none => exact (hstamped _).trans hother
  | some g =>
    obtain ⟨group, negotiating, autoregroup⟩ := g
    dsimp only
    rw [ClassAd.lookup_insert_of_ne _ _ (by decide +kernel),
      lookup_setNonempty (by decide +kernel), lookup_setNonempty (by decide +kernel)]
    exact (hstamped _).trans hother

end

/-! ## Slots that are charged in step -/

def isStringLit (ad : ClassAd) (attr : Text) : Bool :=
  match ad.lookup attr with
  | some (.lit (.str _)) => true
  | _ => false

def InStep (list : Text) (slot : ClassAd) : Prop :=
  if list ≠ [] then isStringLit slot "Name" = true
  else slot.lookup "MatchedConcurrencyLimits" = none ∧
    slot.lookup "ConcurrencyLimits" = none

instance (list : Text) (slot : ClassAd) : Decidable (InStep list slot) :=
  inferInstanceAs (Decidable (if list ≠ [] then _ else _))

section

variable {K : Type} [Field K] [LinearOrder K] {lib : Accountant.Library K}

omit [LinearOrder K] in
theorem foldsCase_getLimit (a : Accountant K) : FoldsCase a.getLimit := fun m n h => by
  rw [Accountant.getLimit, Store.getLimit, limitKey_inj.mpr h, Accountant.getLimit, Store.getLimit]

omit [LinearOrder K] in
theorem getLimit_setSubmitterShare (a : Accountant K) (name : Text) (share limit : K) (n : Text) :
    ((a.setSubmitterShare name share limit).getD a).getLimit n = a.getLimit n := by
  rw [setSubmitterShare, setAttrs]
  split
  · rfl
  · simp [Accountant.getLimit, Store.getLimit, Store.getFloat, Store.sets, Store.attr?_set]

theorem getLimit_addMatch_enriched (hread : ReadsLiterals lib) (mc : MatchContext)
    (hexprs : MatchExprsNamed mc.matchExprs) {slot : ClassAd}
    (hslot : InStep mc.concurrencyLimits slot) (a : Accountant K) (name : Text) (req : Request)
    (now : ℤ) (n : Text) :
    (a.addMatch lib name (enrichMatchAd lib.toMatchLibrary slot req mc) now).getLimit n =
      a.getLimit n +
        tokensIncrement (limitTokens lib.toMatchLibrary mc.concurrencyLimits) n := by
  have hmatched := lookup_matchedLimits hexprs lib.toMatchLibrary slot req
  have hown := lookup_enrichMatchAd lib.toMatchLibrary slot req (unstamped_concurrencyLimits hexprs)
  have hname := lookup_enrichMatchAd lib.toMatchLibrary slot req (unstamped_name hexprs)
  rw [InStep] at hslot
  by_cases hlist : mc.concurrencyLimits = []
  · rw [if_neg (not_not.mpr hlist)] at hslot hmatched
    have hnone : concurrencyLimitsOf lib (enrichMatchAd lib.toMatchLibrary slot req mc) = [] := by
      simp only [concurrencyLimitsOf, findSome?_cons,
        hread.getAsString_absent (hmatched.trans hslot.1),
        hread.getAsString_absent (hown.trans hslot.2)]
      rfl
    have hzero : tokensIncrement (limitTokens lib.toMatchLibrary mc.concurrencyLimits) n = 0 := by
      rw [hlist]
      rfl
    rw [hzero, add_zero, addMatch]
    split
    · rfl
    · rw [hnone, Accountant.getLimit, getLimit_addMatchLocked, limitIncrement_nil, add_zero]
      rfl
  · rw [if_pos hlist] at hslot hmatched
    have hfound : concurrencyLimitsOf lib (enrichMatchAd lib.toMatchLibrary slot req mc) =
        toLower mc.concurrencyLimits := by
      have hkept : (some mc.concurrencyLimits).filter (fun s => s ≠ []) =
          some mc.concurrencyLimits := by
        simp [hlist]
      simp only [concurrencyLimitsOf, findSome?_cons, hread.getAsString_str hmatched, hkept,
        getD_some]
    have hres : ∃ res, getResourceName lib (enrichMatchAd lib.toMatchLibrary slot req mc) =
        some res := by
      rw [isStringLit] at hslot
      split at hslot
      · next v hlookup =>
        rw [getResourceName, hread.getAsString_str (hname.trans hlookup)]
        exact ⟨_, rfl⟩
      · cases hslot
    obtain ⟨res, hres⟩ := hres
    rw [addMatch, hres]
    dsimp only
    rw [hfound, Accountant.getLimit, getLimit_addMatchLocked]
    rfl

/-! ## In step -/

def Cycle.OffersInStep (c : Cycle K (Accountant K)) (s : CycleState K (Accountant K)) :
    Label K → Prop
  | .offer _ _ _ => ∀ req ∈ c.offered? s, ∀ cand ∈ s.view.gather,
      InStep (c.listAlone req) cand.slot
  | _ => True

instance (c : Cycle K (Accountant K)) (s : CycleState K (Accountant K)) (l : Label K) :
    Decidable (c.OffersInStep s l) :=
  match l with
  | .offer _ _ _ => inferInstanceAs (Decidable (∀ req ∈ c.offered? s, ∀ cand ∈ s.view.gather,
      InStep (c.listAlone req) cand.slot))
  | .group _ _ | .spin _ | .prefetch _ _ | .sub _ _ | .spinEnd | .top _ | .next | .fetch _
  | .leave _ | .deliver _ _ => .isTrue trivial

variable {c : Cycle K (Accountant K)} {st : CycleSetup K} {s s' : CycleState K (Accountant K)}
  {l : Label K}

theorem inStep_of_charges {req : Request} {slot : ClassAd}
    (hmatch : c.committed? s l = some (req, slot)) (hstep : c.OffersInStep s l)
    (h : Charges c s s' req slot) : InStep (c.listAlone req) slot := by
  cases l with
  | offer ctxDone sendOk now =>
    obtain ⟨i, hslot, hlive⟩ := h.live
    exact hstep req h.offered ⟨i, slot⟩ (SlotView.mem_gather_iff.mpr ⟨hslot, hlive⟩)
  | _ => cases hmatch

section

variable (hacct : c.acct = accounting lib) (hlib : lib.toMatchLibrary = c.lib)
  (hread : ReadsLiterals lib) (hexprs : MatchExprsNamed c.cfg.matchExprs)
include hacct

theorem getLimit_of_reported (h : Reported c s.acct s'.acct) (n : Text) :
    s'.acct.getLimit n = s.acct.getLimit n := by
  refine h.reading (·.getLimit n) Eq.refl fun a name share limit => ?_
  rw [hacct]
  exact getLimit_setSubmitterShare a name share limit n

include hlib hread hexprs

theorem getLimit_of_charges {req : Request} {slot : ClassAd} (h : Charges c s s' req slot)
    (hslot : InStep (c.listAlone req) slot) (n : Text) :
    s'.acct.getLimit n =
      s.acct.getLimit n + tokensIncrement (limitTokens c.lib (c.listAlone req)) n := by
  obtain ⟨r, neg, now, heq⟩ := h.acct_eq
  rw [heq, hacct, ← hlib]
  exact getLimit_addMatch_enriched hread (c.matchContext r neg req) hexprs hslot s.acct neg.name req
    now n

theorem follows_of_step (h : c.step st s l = some s') (hstep : c.OffersInStep s l)
    (hfollows : s.limits.Follows s.acct.getLimit) : s'.limits.Follows s'.acct.getLimit := by
  have hget : c.acct.getLimit = Accountant.getLimit := by rw [hacct]; rfl
  have hfolds := foldsCase_getLimit s.acct
  have hmove := limitsMove_of_step h
  generalize hmatch : c.committed? s l = m at hmove
  cases hmove with
  | reads hreported names hlimits =>
    rw [hlimits, hget, funext (getLimit_of_reported hacct hreported)]
    exact hfollows.touchAll hfolds names
  | charges req slot hcharges =>
    obtain ⟨names, hnames, hlimits⟩ := hcharges.limits_eq
    rw [hlimits, hget, funext (getLimit_of_charges hacct hlib hread hexprs hcharges
      (inStep_of_charges hmatch hstep hcharges))]
    refine (hfollows.touchAll hfolds names).charge hfolds (fun p hp => ?_) fun p hp => ?_
    · exact toLower_of_mem_tokens hp
    · exact ConcurrencyTracker.holds_touchAll (hnames p hp)

end

omit [LinearOrder K] in
theorem limits_start (a : Accountant K) (snap : Cycle.Snapshot) : (c.start st a snap).limits = ∅ :=
  (books_wrapSubmitters _).2.2

/-- **The tracker stays in step with the accountant** where matches are charged in step. -/
theorem tracker_follows_accountant (lib : Accountant.Library K) (hread : ReadsLiterals lib)
    (c : Cycle K (Accountant K)) (hacct : c.acct = accounting lib)
    (hlib : lib.toMatchLibrary = c.lib) (hexprs : MatchExprsNamed c.cfg.matchExprs)
    (st : CycleSetup K) (a : Accountant K) (snap : Cycle.Snapshot) (ls : List (Label K))
    (s : CycleState K (Accountant K))
    (hrun : Run (c.step st) c.OffersInStep (c.start st a snap) ls s) (name : Text)
    (hheld : s.limits.Holds name) :
    s.limits.usage (c.acct.getLimit s.acct) name = s.acct.getLimit name := by
  have hfollows : s.limits.Follows s.acct.getLimit :=
    hrun.invariant (I := fun s => s.limits.Follows s.acct.getLimit)
      (fun _ _ _ hstep hcond h => follows_of_step hacct hlib hread hexprs hstep hcond h) (by
        rw [limits_start]
        exact ConcurrencyTracker.follows_empty _)
  exact hfollows.usage_eq hheld

end

/-! ### Two slots and a limit -/

def slotWith (name : String) (attrs : List (Text × Expr)) : ClassAd :=
  ⟨("Name", .lit (.str name.toList)) :: ("StartdIpAddr", .lit (.str "x")) ::
    attrs⟩

def limitsAttr (list : String) : List (Text × Expr) :=
  [("ConcurrencyLimits", .lit (.str list.toList))]

def jobWith (cluster : ℤ) (attrs : List (Text × Expr)) : Request :=
  parseRequest accountedCycle.lib ⟨("ClusterId", .lit (.int cluster)) :: attrs⟩

def poolOf (slots : List ClassAd) : Cycle.Snapshot := ⟨slots, [submitterAd "u"], none⟩

def matchTwo (rs : List Request) : List (Label ℚ) :=
  [.group flatRound [0], .spin false, .prefetch 0 (.requests rs), .sub false 0, .top 0, .next,
    .offer false true 0, .top 0, .next, .offer false true 0]

theorem readsLiterals_literalLibrary : ReadsLiterals Accountant.literalLibrary where
  get _ _ := rfl
  str ad attr v h := by
    change ((ad.lookup attr).map (literalValue id 0)).getD .undefined = _
    rw [h]
    rfl
  absent ad attr h := by
    change ((ad.lookup attr).map (literalValue id 0)).getD .undefined = _
    rw [h]
    rfl

/-- A run over a pool, with a fresh accountant. -/
def Cycle.execFresh (c : Cycle ℚ (Accountant ℚ)) (snap : Cycle.Snapshot) (ls : List (Label ℚ)) :
    Option (CycleState ℚ (Accountant ℚ)) :=
  exec (c.step (c.setup 0 [] snap)) (c.start (c.setup 0 [] snap) fresh snap) ls

@[inherit_doc Cycle.execFresh]
def Cycle.execFreshUnder (c : Cycle ℚ (Accountant ℚ))
    (P : CycleState ℚ (Accountant ℚ) → Label ℚ → Prop) [∀ s l, Decidable (P s l)]
    (snap : Cycle.Snapshot) (ls : List (Label ℚ)) : Option (CycleState ℚ (Accountant ℚ)) :=
  execUnder (c.step (c.setup 0 [] snap)) P (c.start (c.setup 0 [] snap) fresh snap) ls

theorem tracker_follows_accountant_plainSlots :
    ∃ s, accountedCycle.execFreshUnder accountedCycle.OffersInStep
        (poolOf [slotAt "a" "x", slotAt "b" "y"])
        (matchTwo [jobWith 1 (limitsAttr "x"), jobWith 2 []]) = some s ∧
      s.commits.length = 2 ∧ s.acct.getLimit "x" = 1 ∧
      s.limits.usage (accountedCycle.acct.getLimit s.acct) "x" =
        s.acct.getLimit "x" := by
  obtain ⟨s, hs, h⟩ := map_eq_some_iff.mp (by decide +kernel :
    (accountedCycle.execFreshUnder accountedCycle.OffersInStep
      (poolOf [slotAt "a" "x", slotAt "b" "y"])
      (matchTwo [jobWith 1 (limitsAttr "x"), jobWith 2 []])).map
      (fun s => (s.commits.length, s.acct.getLimit "x",
        decide (s.limits.Holds "x"))) = some (2, 1, true))
  obtain ⟨hcommits, hcount, hheld⟩ : _ ∧ _ ∧ _ := by simpa only [Prod.mk.injEq] using h
  refine ⟨s, hs, hcommits, hcount, ?_⟩
  exact tracker_follows_accountant Accountant.literalLibrary readsLiterals_literalLibrary
    accountedCycle rfl rfl nofun _ _ _ _ s (.of_execUnder hs) "x" (of_decide_eq_true hheld)

theorem tracker_falls_behind :
    ∃ s, accountedCycle.execFresh (poolOf [slotAt "a" "x", slotWith "b" (limitsAttr "x")])
        (matchTwo [jobWith 1 (limitsAttr "x"), jobWith 2 []]) = some s ∧
      s.commits.length = 2 ∧ s.limits.Holds "x" ∧
      s.limits.usage (accountedCycle.acct.getLimit s.acct) "x" = 1 ∧
      s.acct.getLimit "x" = 2 := by
  obtain ⟨s, hs, h⟩ := map_eq_some_iff.mp (by decide +kernel :
    (accountedCycle.execFresh (poolOf [slotAt "a" "x", slotWith "b" (limitsAttr "x")])
      (matchTwo [jobWith 1 (limitsAttr "x"), jobWith 2 []])).map
      (fun s => (s.commits.length, decide (s.limits.Holds "x"),
        s.limits.usage (accountedCycle.acct.getLimit s.acct) "x",
        s.acct.getLimit "x")) = some (2, true, 1, 2))
  obtain ⟨hcommits, hheld, husage, hcount⟩ : _ ∧ _ ∧ _ ∧ _ := by
    simpa only [Prod.mk.injEq] using h
  exact ⟨s, hs, hcommits, of_decide_eq_true hheld, husage, hcount⟩

end GolangCollector.Negotiator
