import GolangCollector.Accountant.Accounts
import GolangCollector.Negotiator.Cycle

/-! # The weight of a slot

The matchmaker and the cycle read the weight of a slot with one rule, the accountant with another:
where `SlotWeight` is not a number that could be a weight, the former take `Cpus` and the latter
takes one. The slot has passed `FixupSlot`, which puts a default in place of a `SlotWeight` that is
no number (`source/fixups.go`), and the accountant is given the ad that `EnrichMatchAd` makes of
it. -/

namespace GolangCollector.Negotiator

open GoStrings Accountant List

section

variable {F : Type}

/-! ## The fixups -/

section

variable [IntCast F] (lib : MatchLibrary F)

def parseSlotWeight (expr : Text) : Option Expr :=
  let s := trimSpace expr
  (if s ≠ [] then lib.parseExpr s else none).or (lib.parseExpr "Cpus")

/-- **`FixupSlot`**. Where an expression is printed and parsed again, the outcome is a parameter. -/
def fixupSlot (reparse : Expr → Option Expr) (defaultWeight : Option Expr) (ad : ClassAd) :
    ClassAd :=
  let ad := (ad.delete "_condor_PrivRemoteAdminCapability").delete
    "RemoteAdminCapability"
  let ad := match ad.lookup "NegotiatorRequirements" with
    | none => ad
    | some neg =>
      let ad := match (ad.lookup "Requirements").bind reparse with
        | some e => ad.insert "SavedRequirements" e
        | none => ad
      match reparse neg with
      | some e => ad.insert "Requirements" e
      | none => ad
  let ad := (ad.insert "MachineMatchCount" (.lit (.int 0))).delete "OfflineMatches"
  match lib.evalNumber ad "SlotWeight", defaultWeight with
  | none, some e => ad.insert "SlotWeight" e
  | _, _ => ad

end

/-! ## What a match adds to the ad -/

def stampedAttrs (mc : MatchContext) : List Text :=
  ["Requirements".toList, "ResourceRequestCluster".toList, "ResourceRequestProc".toList,
    "_condor_RESOURCE_CLUSTER", "_condor_RESOURCE_PROC",
    "MatchedConcurrencyLimits", "RemoteGroup", "RemoteNegotiatingGroup",
    "RemoteAutoregroup"] ++ mc.matchExprs.map Prod.fst

def Unstamped (mc : MatchContext) (attr : Text) : Prop :=
  ∀ stamped ∈ stampedAttrs mc, toLower attr ≠ toLower stamped

theorem lookup_setNonempty {ad : ClassAd} {attr value other : Text}
    (h : toLower other ≠ toLower attr) :
    (setNonempty ad attr value).lookup other = ad.lookup other := by
  rw [setNonempty]
  split_ifs
  · exact ClassAd.lookup_insert_of_ne ad _ h
  · rfl

theorem lookup_insertMatchExprs (lib : MatchLibrary F) {exprs : List (Text × Text)} {attr : Text}
    (h : ∀ e ∈ exprs, toLower attr ≠ toLower e.1) (ad : ClassAd) :
    (exprs.foldl (fun ad e => ad.insert e.1 ((lib.parseExpr e.2).getD (.lit (.str e.2)))) ad).lookup
      attr = ad.lookup attr := by
  refine foldlRecOn (motive := fun ad' : ClassAd => ad'.lookup attr = ad.lookup attr) _ _ rfl
    fun ad' had' e he => ?_
  rw [ClassAd.lookup_insert_of_ne ad' _ (h e he), had']

def restored (slot : ClassAd) : ClassAd :=
  match slot.lookup "SavedRequirements" with
  | some e => slot.insert "Requirements" e
  | none => slot

theorem lookup_restored_of_ne (slot : ClassAd) {attr : Text}
    (h : toLower attr ≠ toLower "Requirements") :
    (restored slot).lookup attr = slot.lookup attr := by
  rw [restored]
  cases slot.lookup "SavedRequirements" with
  | none => rfl
  | some e => exact ClassAd.lookup_insert_of_ne _ _ h

theorem lookup_enrichMatchAd_restored (lib : MatchLibrary F) (slot : ClassAd) (req : Request)
    {mc : MatchContext} {attr : Text}
    (h : ∀ stamped ∈ (stampedAttrs mc).tail, toLower attr ≠ toLower stamped) :
    (enrichMatchAd lib slot req mc).lookup attr = (restored slot).lookup attr := by
  rw [stampedAttrs, cons_append, tail_cons, forall_mem_append,
    forall_mem_map] at h
  obtain ⟨hfixed, hexprs⟩ := h
  simp only [forall_mem_cons, not_mem_nil, false_implies, implies_true, and_true]
    at hfixed
  obtain ⟨hcluster, hproc, hcluster', hproc', hlimits, hgroup, hnegotiating, hauto⟩ := hfixed
  rw [enrichMatchAd, lookup_insertMatchExprs lib hexprs]
  have hstamped : ∀ ad : ClassAd, (setNonempty ((((ad.insert "ResourceRequestCluster"
      (.lit (.int req.cluster))).insert "ResourceRequestProc" (.lit (.int req.proc))).insert
      "_condor_RESOURCE_CLUSTER" (.lit (.int req.cluster))).insert
      "_condor_RESOURCE_PROC" (.lit (.int req.proc))) "MatchedConcurrencyLimits"
      mc.concurrencyLimits).lookup attr = ad.lookup attr := by
    intro ad
    rw [lookup_setNonempty hlimits, ClassAd.lookup_insert_of_ne _ _ hproc',
      ClassAd.lookup_insert_of_ne _ _ hcluster', ClassAd.lookup_insert_of_ne _ _ hproc,
      ClassAd.lookup_insert_of_ne _ _ hcluster]
  cases mc.group with
  | none => exact hstamped (restored slot)
  | some g =>
    obtain ⟨group, negotiating, autoregroup⟩ := g
    dsimp only
    rw [ClassAd.lookup_insert_of_ne _ _ hauto, lookup_setNonempty hnegotiating,
      lookup_setNonempty hgroup]
    exact hstamped (restored slot)

theorem lookup_enrichMatchAd (lib : MatchLibrary F) (slot : ClassAd) (req : Request)
    {mc : MatchContext} {attr : Text} (h : Unstamped mc attr) :
    (enrichMatchAd lib slot req mc).lookup attr = slot.lookup attr := by
  rw [lookup_enrichMatchAd_restored lib slot req fun stamped hs => h stamped (mem_of_mem_tail hs)]
  exact lookup_restored_of_ne slot (h _ mem_cons_self)

/-! ## The two rules -/

variable [Zero F] [One F] [IntCast F] [LE F] [DecidableLE F]

def weightOf (number : Option F) : Option F := number.filter fun w => 0 ≤ w

theorem slotWeight_eq (lib : MatchLibrary F) (slot : ClassAd) :
    lib.slotWeight true slot = ((weightOf (lib.evalNumber slot "SlotWeight")).or
      (weightOf (lib.evalNumber slot "Cpus"))).getD 1 := by
  rw [MatchLibrary.slotWeight, if_neg (by simp)]
  unfold weightOf
  cases (lib.evalNumber slot "SlotWeight").filter fun w => 0 ≤ w with
  | none => rfl
  | some w => rfl

omit [Zero F] [IntCast F] [LE F] [DecidableLE F] in
theorem getD_or_iff {weight cpus : Option F} :
    (weight.or cpus).getD 1 = weight.getD 1 ↔ weight.isSome ∨ ∀ n ∈ cpus, n = 1 := by
  cases weight with
  | some w => simp
  | none =>
    cases cpus with
    | none => simp
    | some n => simp

section

variable {A : Type} (c : Cycle F A) (lib : Accountant.Library F)
  (hlib : lib.toMatchLibrary = c.lib) (a : Accountant F)
  (hcfg : a.cfg.useSlotWeights = !c.cfg.disableSlotWeights)
  (hget : ∀ ad attr, lib.getAsFloat ad attr = lib.evalNumber ad attr)
include hlib hcfg hget

theorem getSlotWeight_eq (ad : ClassAd) : a.getSlotWeight lib ad =
    if c.cfg.disableSlotWeights = true then 1
    else (weightOf (c.lib.evalNumber ad "SlotWeight")).getD 1 := by
  rw [← hlib, getSlotWeight, hcfg, hget]
  cases c.cfg.disableSlotWeights <;> rfl

end

/-- **The cost of a slot is its weight in the accounts** exactly if weights are disabled, or
`SlotWeight` is a number that is not negative, or `Cpus` is no such number or is one. -/
theorem slot_weights_agree_iff {A : Type} (c : Cycle F A) (lib : Accountant.Library F)
    (hlib : lib.toMatchLibrary = c.lib) (a : Accountant F)
    (hcfg : a.cfg.useSlotWeights = !c.cfg.disableSlotWeights)
    (hget : ∀ ad attr, lib.getAsFloat ad attr = lib.evalNumber ad attr)
    (reads : ClassAd → Text → List Text)
    (hreads : ∀ ad ad' attr, (∀ r ∈ reads ad attr, ad'.lookup r = ad.lookup r) →
      lib.evaluateAttr ad' attr = lib.evaluateAttr ad attr)
    (reparse : Expr → Option Expr) (defaultWeight : Option Expr) (ad : ClassAd) (req : Request)
    (mc : MatchContext)
    (hunstamped : c.cfg.disableSlotWeights = false →
      ∀ r ∈ reads (fixupSlot c.lib reparse defaultWeight ad) "SlotWeight", Unstamped mc r) :
    let slot := fixupSlot c.lib reparse defaultWeight ad
    let enriched := enrichMatchAd c.lib slot req mc
    c.lib.slotWeight c.mm.useSlotWeights slot = c.slotWeightOf slot ∧
        c.slotWeightOf slot = a.getSlotWeight lib enriched ∧
        c.slotWeightOf slot = a.getSlotWeight lib slot ↔
      c.cfg.disableSlotWeights = true ∨
        (weightOf (c.lib.evalNumber slot "SlotWeight")).isSome ∨
          ∀ n ∈ weightOf (c.lib.evalNumber slot "Cpus"), n = 1 := by
  intro slot enriched
  have hvalue (hon : c.cfg.disableSlotWeights = false) :
      c.lib.evalNumber enriched "SlotWeight" = c.lib.evalNumber slot "SlotWeight" := by
    refine congrArg MatchValue.numberOf ?_
    rw [← hlib]
    exact hreads slot enriched _ fun r hr =>
      lookup_enrichMatchAd c.lib slot req (hunstamped hon r hr)
  have hsame : c.lib.slotWeight c.mm.useSlotWeights slot = c.slotWeightOf slot := by
    rw [c.mm_useSlotWeights, Cycle.slotWeightOf]
  rw [getSlotWeight_eq c lib hlib a hcfg hget, getSlotWeight_eq c lib hlib a hcfg hget, hsame,
    Cycle.slotWeightOf]
  cases hoff : c.cfg.disableSlotWeights with
  | true => simp [MatchLibrary.slotWeight]
  | false =>
    rw [Bool.not_false, slotWeight_eq, ← getD_or_iff, hvalue hoff]
    simp only [Bool.false_eq_true, if_false, false_or, true_and, and_self]

end

def weighingCycle : Cycle ℚ (List (Text × ℚ)) :=
  { plainCycle with
    cfg := { plainCycle.cfg with disableSlotWeights := false }
    mm := { plainCycle.mm with useSlotWeights := true }
    mm_considerPreemption := rfl
    mm_useSlotWeights := rfl }

def weighedSlot (weight cpus : ℤ) : ClassAd :=
  ⟨[("SlotWeight", .lit (.int weight)), ("Cpus", .lit (.int cpus))]⟩

def flatMatch : MatchContext := ⟨[], none, []⟩

theorem slot_weights_agree_two :
    let slot := fixupSlot weighingCycle.lib some none (weighedSlot 2 4)
    let enriched := enrichMatchAd weighingCycle.lib slot (jobs 1) flatMatch
    weighingCycle.cfg.disableSlotWeights = false ∧ weighingCycle.slotWeightOf slot = 2 ∧
      weighingCycle.lib.slotWeight weighingCycle.mm.useSlotWeights slot =
        weighingCycle.slotWeightOf slot ∧
      weighingCycle.slotWeightOf slot = fresh.getSlotWeight Accountant.literalLibrary enriched ∧
      weighingCycle.slotWeightOf slot = fresh.getSlotWeight Accountant.literalLibrary slot := by
  intro slot enriched
  have hcfg : fresh.cfg.useSlotWeights = !weighingCycle.cfg.disableSlotWeights := by
    decide +kernel
  have hreads : ∀ (ad ad' : ClassAd) (attr : Text), (∀ r ∈ [attr], ad'.lookup r = ad.lookup r) →
      Accountant.literalLibrary.evaluateAttr ad' attr =
        Accountant.literalLibrary.evaluateAttr ad attr :=
    fun ad ad' attr h => congrArg (fun e => (e.map (literalValue id 0)).getD .undefined)
      (h attr (mem_singleton_self attr))
  have hagree := slot_weights_agree_iff weighingCycle Accountant.literalLibrary rfl fresh hcfg
    (fun _ _ => rfl) (fun _ attr => [attr]) hreads some none (weighedSlot 2 4) (jobs 1) flatMatch
    (fun _ => by unfold Unstamped; decide +kernel)
  exact ⟨rfl, by decide +kernel, hagree.mpr (.inr (.inl (by decide +kernel)))⟩

theorem slot_weights_disagree_negative :
    let slot := fixupSlot weighingCycle.lib some none (weighedSlot (-1) 4)
    weighingCycle.slotWeightOf slot = 4 ∧ fresh.getSlotWeight Accountant.literalLibrary slot = 1 ∧
      fresh.getSlotWeight Accountant.literalLibrary
        (enrichMatchAd weighingCycle.lib slot (jobs 1) flatMatch) = 1 := by
  decide +kernel

end GolangCollector.Negotiator
