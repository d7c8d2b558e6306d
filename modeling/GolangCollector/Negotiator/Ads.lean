import GolangCollector.Lib.GoInt
import GolangCollector.Negotiator.SlotView

/-! # The ads a cycle prepares

Before the spin: the slots are weighed and trimmed, claimed ones get the priorities of their users,
and with global job priorities each submitter ad is fanned out into one ad per priority. During it:
the request ad gets the submitter's figures before matching, and the matched slot's ad the request's
identity before delivery (`cycle/cycle.go`, `cycle/globaljobprio.go`, `protocol/matchad.go`). -/

namespace GolangCollector.Negotiator

open GoStrings

/-! ## Slots -/

section

variable {F : Type} (lib : MatchLibrary F)

def sumSlotWeights [Zero F] [One F] [Add F] [IntCast F] [BEq F] [LT F] [LE F] [DecidableLT F]
    [DecidableLE F] (useSlotWeights : Bool) (slots : List ClassAd) : F × F :=
  slots.foldl
    (fun acc slot =>
      let w := lib.slotWeight useSlotWeights slot
      (acc.1 + w, if acc.2 == 0 || w < acc.2 then w else acc.2))
    (0, 0)

def trimSlots (considerPreemption : Bool) (slots : List ClassAd) : List ClassAd :=
  slots.filter fun slot =>
    if considerPreemption then
      !((lib.evaluateAttrInt slot "RetirementTimeRemaining").any fun rt => 0 < rt)
    else
      let state := (lib.evaluateAttrString slot "State").getD []
      !(state = "Claimed" || state = "Preempting") ||
        lib.evaluateAttrTrue slot "PartitionableSlot"

def addRemoteUserPrios [IntCast F] (priority floor used : Text → F) (slot : ClassAd) : ClassAd :=
  let remoteUser := lib.remoteUserOf slot
  let slot :=
    if remoteUser ≠ [] then
      ((slot.insert "RemoteUserPrio" (lib.floatLit (priority remoteUser))).insert
        "RemoteUserFloor" (lib.floatLit (floor remoteUser))).insert
        "RemoteUserResourcesInUse" (lib.floatLit (used remoteUser))
    else slot
  match lib.evalNumber slot "PreemptingRank" with
  | some pr => slot.insert "CurrentRank" (lib.floatLit pr)
  | none => slot

end

/-! ## Submitter ads -/

def atoiC (s : Text) : ℤ :=
  let (neg, digits) := match s with
    | '+' :: cs => (false, cs)
    | '-' :: cs => (true, cs)
    | cs => (false, cs)
  let v := (digits.takeWhile fun c => '0' ≤ c && c ≤ '9').foldl
    (fun v c => GoInt.wrap (v * 10 + (c.toNat - 48 : ℕ))) 0
  if neg then GoInt.wrap (-v) else v

def attrJobPrio : Text := "JobPrio"

def attrJobPrioArray : Text := "JobPrioArray"

def fanOutJobPrios {F : Type} (lib : MatchLibrary F) (ads : List ClassAd) : List ClassAd :=
  ads.flatMap fun ad =>
    match lib.evaluateAttrString ad attrJobPrioArray with
    | none => [ad.insert attrJobPrio (.lit (.int (-2147483648)))]
    | some arr =>
      (((arr.splitOnP (· = ',')).map trimSpace).filter fun tok => tok ≠ []).map fun tok =>
        ad.insert attrJobPrio (.lit (.int (atoiC tok)))

/-! ## Request and match ads -/

def rootGroupName : Text := "<none>"

structure SubmitterContext (F : Type) where
  userPrio : F
  userResourcesInUse : F
  /-- The accounting group with its usage and quota; none on a flat pool. -/
  group : Option (Text × F × F)
  negotiatingGroup : Text
  autoregroup : Bool

def enrichRequestAd {F : Type} (lib : MatchLibrary F) (reqAd : ClassAd) (sc : SubmitterContext F) :
    ClassAd :=
  let negGroup := if sc.negotiatingGroup = [] then rootGroupName else sc.negotiatingGroup
  let ad := (((reqAd.insert "SubmitterNegotiatingGroup" (.lit (.str negGroup))).insert
    "SubmitterAutoregroup" (.lit (.bool sc.autoregroup))).insert
    "SubmitterUserPrio" (lib.floatLit sc.userPrio)).insert
    "SubmitterUserResourcesInUse" (lib.floatLit sc.userResourcesInUse)
  match sc.group with
  | none => ad
  | some (name, inUse, quota) =>
    if name = [] then ad
    else
      ((ad.insert "SubmitterGroup" (.lit (.str name))).insert
        "SubmitterGroupResourcesInUse" (lib.floatLit inUse)).insert
        "SubmitterGroupQuota" (lib.floatLit quota)

/-- What a matched slot's ad is told. -/
structure MatchContext where
  concurrencyLimits : Text
  /-- The accounting group, the negotiating group, and whether the root regroups. -/
  group : Option (Text × Text × Bool)
  /-- The names and texts of the configured match expressions. -/
  matchExprs : List (Text × Text)

def setNonempty (ad : ClassAd) (attr value : Text) : ClassAd :=
  if value ≠ [] then ad.insert attr (.lit (.str value)) else ad

def enrichMatchAd {F : Type} (lib : MatchLibrary F) (slot : ClassAd) (req : Request)
    (mc : MatchContext) : ClassAd :=
  let out := match slot.lookup "SavedRequirements" with
    | some e => slot.insert "Requirements" e
    | none => slot
  let out := (((out.insert "ResourceRequestCluster" (.lit (.int req.cluster))).insert
    "ResourceRequestProc" (.lit (.int req.proc))).insert
    "_condor_RESOURCE_CLUSTER" (.lit (.int req.cluster))).insert
    "_condor_RESOURCE_PROC" (.lit (.int req.proc))
  let out := setNonempty out "MatchedConcurrencyLimits" mc.concurrencyLimits
  let out := match mc.group with
    | none => out
    | some (group, negotiating, autoregroup) =>
      (setNonempty (setNonempty out "RemoteGroup" group)
        "RemoteNegotiatingGroup" negotiating).insert
        "RemoteAutoregroup" (.lit (.bool autoregroup))
  mc.matchExprs.foldl
    (fun ad e => ad.insert e.1 ((lib.parseExpr e.2).getD (.lit (.str e.2)))) out

end GolangCollector.Negotiator
