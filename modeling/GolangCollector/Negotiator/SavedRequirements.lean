import GolangCollector.Negotiator.LimitTracking

/-! # Saved requirements

`FixupSlot` (`source/fixups.go`) puts `NegotiatorRequirements` in the place of the requirements that
a slot advertises and saves those as `SavedRequirements`; `EnrichMatchAd` (`protocol/matchad.go`)
puts them back. The attribute is saved only where there is something to save, and restored wherever
it is found, so that a `SavedRequirements` of the slot's own is restored too. -/

namespace GolangCollector

open GoStrings List

theorem ClassAd.lookup_delete_of_ne (ad : ClassAd) {attr other : Text}
    (h : toLower other ≠ toLower attr) : (ad.delete attr).lookup other = ad.lookup other := by
  rw [lookup, delete, find?_filter]
  congr 2
  funext p
  by_cases hp : toLower p.1 = toLower other
  · simp [hp, h]
  · simp [hp]

namespace Negotiator

section

variable {F : Type} [IntCast F] (lib : MatchLibrary F)

/-! ## The steps of the fixup -/

/-- The slot with the negotiator's requirements for its own. -/
def swapped (reparse : Expr → Option Expr) (ad : ClassAd) : ClassAd :=
  match ad.lookup "NegotiatorRequirements" with
  | none => ad
  | some neg =>
    let ad := match (ad.lookup "Requirements").bind reparse with
      | some e => ad.insert "SavedRequirements" e
      | none => ad
    match reparse neg with
    | some e => ad.insert "Requirements" e
    | none => ad

def weighted (defaultWeight : Option Expr) (ad : ClassAd) : ClassAd :=
  match lib.evalNumber ad "SlotWeight", defaultWeight with
  | none, some e => ad.insert "SlotWeight" e
  | _, _ => ad

theorem fixupSlot_eq (reparse : Expr → Option Expr) (defaultWeight : Option Expr) (ad : ClassAd) :
    fixupSlot lib reparse defaultWeight ad =
      weighted lib defaultWeight (((swapped reparse ((ad.delete
        "_condor_PrivRemoteAdminCapability").delete "RemoteAdminCapability")).insert
          "MachineMatchCount" (.lit (.int 0))).delete "OfflineMatches") :=
  rfl

theorem lookup_fixupSlot (reparse : Expr → Option Expr) (defaultWeight : Option Expr) (ad : ClassAd)
    {attr : Text} (hweight : toLower attr ≠ toLower "SlotWeight")
    (hcount : toLower attr ≠ toLower "MachineMatchCount")
    (hoffline : toLower attr ≠ toLower "OfflineMatches") :
    (fixupSlot lib reparse defaultWeight ad).lookup attr =
      (swapped reparse ((ad.delete "_condor_PrivRemoteAdminCapability").delete
        "RemoteAdminCapability")).lookup attr := by
  have hweighted (ad : ClassAd) : (weighted lib defaultWeight ad).lookup attr = ad.lookup attr := by
    unfold weighted
    cases lib.evalNumber ad "SlotWeight" with
    | some w => rfl
    | none =>
      cases defaultWeight with
      | none => rfl
      | some e => exact ClassAd.lookup_insert_of_ne _ _ hweight
  rw [fixupSlot_eq, hweighted, ClassAd.lookup_delete_of_ne _ hoffline,
    ClassAd.lookup_insert_of_ne _ _ hcount]

theorem lookup_swapped_requirements (ad : ClassAd) :
    (swapped some ad).lookup "Requirements" =
      (ad.lookup "NegotiatorRequirements").or (ad.lookup "Requirements") := by
  rw [swapped]
  cases ad.lookup "NegotiatorRequirements" with
  | none => rfl
  | some neg => exact ClassAd.lookup_insert_of_eq _ _ rfl

theorem lookup_swapped_saved (ad : ClassAd) :
    (swapped some ad).lookup "SavedRequirements" =
      ((ad.lookup "NegotiatorRequirements").bind fun _ =>
        ad.lookup "Requirements").or (ad.lookup "SavedRequirements") := by
  rw [swapped]
  cases ad.lookup "NegotiatorRequirements" with
  | none => rfl
  | some neg =>
    dsimp only
    rw [ClassAd.lookup_insert_of_ne _ _ (by decide +kernel)]
    cases ad.lookup "Requirements" with
    | none => rfl
    | some e => exact ClassAd.lookup_insert_of_eq _ _ rfl

theorem lookup_restored_requirements (slot : ClassAd) :
    (restored slot).lookup "Requirements" =
      (slot.lookup "SavedRequirements").or (slot.lookup "Requirements") := by
  rw [restored]
  cases slot.lookup "SavedRequirements" with
  | none => rfl
  | some e => exact ClassAd.lookup_insert_of_eq _ _ rfl

theorem lookup_requirements (defaultWeight : Option Expr) (ad : ClassAd) (req : Request)
    {mc : MatchContext} (hexprs : MatchExprsNamed mc.matchExprs) :
    (enrichMatchAd lib (fixupSlot lib some defaultWeight ad) req mc).lookup "Requirements" =
      (((ad.lookup "NegotiatorRequirements").bind fun _ =>
        ad.lookup "Requirements").or (ad.lookup "SavedRequirements")).or
      ((ad.lookup "NegotiatorRequirements").or (ad.lookup "Requirements")) := by
  have hdeleted (attr : Text)
      (hpriv : toLower attr ≠ toLower "_condor_PrivRemoteAdminCapability")
      (hadmin : toLower attr ≠ toLower "RemoteAdminCapability") :
      ((ad.delete "_condor_PrivRemoteAdminCapability").delete
        "RemoteAdminCapability").lookup attr = ad.lookup attr := by
    rw [ClassAd.lookup_delete_of_ne _ hadmin, ClassAd.lookup_delete_of_ne _ hpriv]
  rw [lookup_enrichMatchAd_restored, lookup_restored_requirements,
    lookup_fixupSlot lib some defaultWeight ad (by decide +kernel) (by decide +kernel)
      (by decide +kernel),
    lookup_fixupSlot lib some defaultWeight ad (by decide +kernel) (by decide +kernel)
      (by decide +kernel),
    lookup_swapped_saved, lookup_swapped_requirements, hdeleted _ (by decide +kernel)
      (by decide +kernel), hdeleted _ (by decide +kernel) (by decide +kernel),
    hdeleted _ (by decide +kernel) (by decide +kernel)]
  rw [stampedAttrs, cons_append, tail_cons, forall_mem_append, forall_mem_map]
  exact ⟨by decide +kernel, ne_of_matchExprsNamed hexprs (by decide +kernel)⟩

theorem or_saved_iff (neg own saved : Option Expr) :
    ((neg.bind fun _ => own).or saved).or (neg.or own) = own ↔
      if neg.isSome then own.isSome else saved = none ∨ saved = own := by
  cases neg with
  | none => cases saved <;> simp
  | some e =>
    cases own with
    | none => cases saved <;> simp
    | some e => simp

/-- **The match ad has the requirements that the slot advertised** exactly if it advertised some
along with `NegotiatorRequirements`, or has neither these nor other saved ones. -/
theorem requirements_restored_iff (reparse : Expr → Option Expr)
    (hreparse : ∀ e, reparse e = some e) (defaultWeight : Option Expr) (ad : ClassAd)
    (req : Request) (mc : MatchContext) (hexprs : MatchExprsNamed mc.matchExprs) :
    (enrichMatchAd lib (fixupSlot lib reparse defaultWeight ad) req mc).lookup
        "Requirements" = ad.lookup "Requirements" ↔
      if (ad.lookup "NegotiatorRequirements").isSome then
        (ad.lookup "Requirements").isSome
      else ad.lookup "SavedRequirements" = none ∨
        ad.lookup "SavedRequirements" = ad.lookup "Requirements" := by
  obtain rfl : reparse = some := funext hreparse
  rw [lookup_requirements lib defaultWeight ad req hexprs]
  exact or_saved_iff _ _ _

end

def requiringSlot (own : Option Bool) (other : String) : ClassAd :=
  ⟨(own.map fun b => ("Requirements".toList, .lit (.bool b))).toList ++
    [(other.toList, .lit (.int 1))]⟩

theorem requirements_restored_negotiator :
    let slot := requiringSlot (some true) "NegotiatorRequirements"
    let lib := weighingCycle.lib
    (fixupSlot lib some none slot).lookup "Requirements" = some (.lit (.int 1)) ∧
      (enrichMatchAd lib (fixupSlot lib some none slot) (jobs 1) flatMatch).lookup
        "Requirements" = slot.lookup "Requirements" :=
  ⟨by decide +kernel, (requirements_restored_iff weighingCycle.lib some (fun _ => rfl) none _ _ _
    fun e he => absurd he not_mem_nil).mpr (by decide +kernel)⟩

theorem requirements_not_restored :
    let enriched := fun slot => enrichMatchAd weighingCycle.lib
      (fixupSlot weighingCycle.lib some none slot) (jobs 1) flatMatch
    (enriched (requiringSlot (some true) "SavedRequirements")).lookup "Requirements" =
        some (.lit (.int 1)) ∧
      (enriched (requiringSlot none "NegotiatorRequirements")).lookup "Requirements" =
        some (.lit (.int 1)) ∧
      (requiringSlot (some true) "SavedRequirements").lookup "Requirements" =
        some (.lit (.bool true)) ∧
      (requiringSlot none "NegotiatorRequirements").lookup "Requirements" = none := by
  decide +kernel

end Negotiator

end GolangCollector
