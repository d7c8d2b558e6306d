import GolangCollector.Accountant.Store
import GolangCollector.Negotiator.Ads
import GolangCollector.Negotiator.Concurrency
import Mathlib.Algebra.Order.Field.Rat

/-! # The accountant

Priorities that decay, usage by submitter and by group, the resources that are held and the
concurrency limits, all kept in the store (`accountant/accountant.go`, `priority.go`, `usage.go`,
`limits.go`, `userprio.go`). Numbers are of a type `F`; times are in seconds. -/

namespace GolangCollector

open GoStrings Negotiator Accountant

/-! ## What the accountant is given -/

structure Accountant.Library (F : Type) extends MatchLibrary F where
  /-- `classad.GetAs[string]`. -/
  getAsString : ClassAd → Text → Option Text
  /-- `classad.GetAs[float64]`. -/
  getAsFloat : ClassAd → Text → Option F
  /-- The conversion `int64(x)`. -/
  truncate : F → ℤ
  /-- `math.Pow(0.5, x)`. -/
  halfPow : F → F

structure Accountant.Config (F : Type) where
  /-- In seconds. -/
  halfLife : F
  defaultPrioFactor : F
  niceUserPrioFactor : F
  remotePrioFactor : F
  localDomain : Text
  useSlotWeights : Bool
  discountSuspended : Bool
  groupPrioFactor : Option (Text → F)

/-- **`Accountant`**: the configuration, the store, and the time of the last tick. -/
structure Accountant (F : Type) where
  cfg : Accountant.Config F
  store : Store F
  lastUpdate : ℤ

namespace Accountant

/-! ## Names -/

def isGroupName (name : Text) : Bool := '@' ∉ name

def assignedGroupName (name : Text) : Text :=
  match cutLast '@' name with
  | none => rootGroupName
  | some (front, _) =>
    match cutLast '.' front with
    | some (group, _) => group
    | none => rootGroupName

def domainOf (name : Text) : Text :=
  match cutLast '@' name with
  | some (_, domain) => domain
  | none => []

def ancestorWalk : ℕ → Text → List Text
  | 0, _ => []
  | n + 1, part =>
    if part = [] then []
    else part ::
      match cutLast '.' part with
      | some (front, _) => ancestorWalk n front
      | none => []

def ancestorChain (group : Text) : List Text := ancestorWalk group.length group

def niceUser : Text := "nice-user"

/-! ## Readings -/

section

variable {F : Type}

/-- A number of a record, zero where it is missing. -/
def Record.floatOf [Zero F] [IntCast F] (r : Record F) (a : Attr) : F := (r.getFloat a).getD 0

@[inherit_doc Record.floatOf]
def Record.intOf (truncate : F → ℤ) (r : Record F) (a : Attr) : ℤ := (r.getInt truncate a).getD 0

/-- A number of a customer, zero where it is missing. -/
def Store.floatOf [Zero F] [IntCast F] (s : Store F) (name : Text) (a : Attr) : F :=
  (s.getFloat .customer name a).getD 0

@[inherit_doc Store.floatOf]
def Store.intOf (truncate : F → ℤ) (s : Store F) (name : Text) (a : Attr) : ℤ :=
  (s.getInt truncate .customer name a).getD 0

section

variable {s s' : Store F} {c : Text} {attr : Attr}
  (h : s'.attr? .customer c attr = s.attr? .customer c attr)
include h

theorem Store.floatOf_congr [Zero F] [IntCast F] : s'.floatOf c attr = s.floatOf c attr := by
  rw [floatOf, getFloat, h, floatOf, getFloat]

theorem Store.intOf_congr {truncate : F → ℤ} :
    s'.intOf truncate c attr = s.intOf truncate c attr := by
  rw [intOf, getInt, h, intOf, getInt]

end

def Store.remoteUser? (s : Store F) (res : Text) : Option Text :=
  s.getString .resource res .remoteUser

end

def writeIf {F : Type} (cond : Bool) (attr : Attr) (v : AttrValue F) : List (Attr × AttrValue F) :=
  if cond then [(attr, v)] else []

/-! ## Concurrency limits -/

def limitKeyHead : Text := "ConcurrencyLimit."

def limitKey (name : Text) : Text := limitKeyHead ++ toLower name

namespace Store

variable {F : Type} [Zero F] [IntCast F] (s : Store F)

def getLimit (name : Text) : F := (s.getFloat .acct (limitKey name) .limitCount).getD 0

def setLimit (name : Text) (v : F) : Store F := s.set .acct (limitKey name) .limitCount (.float v)

def changeLimits [One F] [LE F] [DecidableLE F] (lib : Library F) (change : F → F → F)
    (limits : Text) : Store F :=
  ((splitLimits limits).filterMap (parseConcurrencyLimit lib.toMatchLibrary)).foldl
    (fun s p => s.setLimit p.1 (change (s.getLimit p.1) p.2)) s

def clearLimits : Store F :=
  ((s.keys .acct).filter fun k => limitKeyHead.isPrefixOf k).foldl
    (fun s k => s.set .acct k .limitCount (.float 0)) s

end Store

variable {F : Type}

/-! ## Slots -/

section

variable (lib : Library F) (slot : ClassAd)

def getResourceName : Option Text :=
  (lib.getAsString slot "Name").map fun name =>
    name ++ '@' :: (lib.getAsString slot "StartdIpAddr").getD []

def remoteUserOf : Option Text :=
  ((lib.getAsString slot "AccountingGroup").filter fun g => g ≠ []).or
    (lib.getAsString slot "RemoteUser")

def concurrencyLimitsOf : Text :=
  toLower ((["MatchedConcurrencyLimits".toList, "ConcurrencyLimits".toList].findSome? fun attr =>
    (lib.getAsString slot attr).filter fun s => s ≠ []).getD [])

variable (a : Accountant F)

def isClaimed : Option Text := do
  let state ← lib.getAsString slot "State"
  if !equalFold state "Claimed" && !equalFold state "Preempting" then none
  else
    let user ← remoteUserOf lib slot
    if a.cfg.discountSuspended &&
        (lib.getAsString slot "Activity").any (equalFold · "Suspended") then none
    else some user

def checkClaimedOrMatched (customer : Text) : Bool :=
  match lib.getAsString slot "State" with
  | none => false
  | some state =>
    equalFold state "Matched" || a.isClaimed lib slot = some customer

def getSlotWeight [Zero F] [One F] [LE F] [DecidableLE F] : F :=
  if !a.cfg.useSlotWeights then 1
  else ((lib.getAsFloat slot "SlotWeight").filter fun w => 0 ≤ w).getD 1

end

/-! ## Matches -/

section

variable [Zero F] [One F] [Add F] [Sub F] [Mul F] [IntCast F] [LT F] [LE F] [DecidableLT F]
  [DecidableLE F] (lib : Library F)

def Store.bookMatch (s : Store F) (name : Text) (weight : F) (delta : ℤ) : Store F :=
  s.sets .customer name
    [(.resourcesUsed, .int (s.intOf lib.truncate name .resourcesUsed + 1)),
      (.weightedResourcesUsed, .float (s.floatOf name .weightedResourcesUsed + weight)),
      (.unchargedTime, .int (s.intOf lib.truncate name .unchargedTime - delta)),
      (.weightedUnchargedTime, .float (s.floatOf name .weightedUnchargedTime - delta * weight))]

def Store.unbookMatch (s : Store F) (name : Text) (weight : F) (charged : ℤ) : Store F :=
  let used := s.intOf lib.truncate name .resourcesUsed
  let weighted := s.floatOf name .weightedResourcesUsed - weight
  s.sets .customer name
    [(.resourcesUsed, .int (if 0 < used then used - 1 else used)),
      (.weightedResourcesUsed, .float (if weighted < 0 then 0 else weighted)),
      (.unchargedTime, .int (s.intOf lib.truncate name .unchargedTime + charged)),
      (.weightedUnchargedTime, .float (s.floatOf name .weightedUnchargedTime + charged * weight))]

def Store.rollUp (s : Store F) (group : Text) (change : F → F) : Store F :=
  (ancestorChain group).foldl
    (fun s part => s.set .customer part .hierWeightedResourcesUsed
      (.float (change (s.floatOf part .hierWeightedResourcesUsed)))) s

def Store.holdResource (s : Store F) (res customer : Text) (weight : F) (limits : Text) (T : ℤ) :
    Store F :=
  s.sets .resource res
    ([(.remoteUser, .str customer), (.slotWeight, .float weight), (.startTime, .int T)] ++
      writeIf (limits ≠ []) .matchedConcurrencyLimits (.str limits))

def addMatchLocked (a : Accountant F) (customer res : Text) (weight : F) (limits : Text) (T : ℤ) :
    Accountant F :=
  let delta := T - a.lastUpdate
  let group := assignedGroupName customer
  let s := (a.store.bookMatch lib customer weight delta).bookMatch lib group weight delta
  let s := s.rollUp group fun h => h + weight
  let s := s.holdResource res customer weight limits T
  let s := if limits ≠ [] then s.changeLimits lib (fun count inc => count + inc) limits else s
  { a with store := s }

def addMatch (a : Accountant F) (submitter : Text) (slot : ClassAd) (now : ℤ) : Accountant F :=
  match getResourceName lib slot with
  | none => a
  | some res => a.addMatchLocked lib submitter res (a.getSlotWeight lib slot)
      (concurrencyLimitsOf lib slot) now

def removeMatch (a : Accountant F) (res : Text) (T : ℤ) : Accountant F :=
  match a.store.record? .resource res with
  | none => a
  | some rec =>
    match rec.getString .remoteUser with
    | none => { a with store := a.store.deleteRecord .resource res }
    | some customer =>
      let weight := (rec.getFloat .slotWeight).getD 1
      let charged := T - max (rec.intOf lib.truncate .startTime) a.lastUpdate
      let group := assignedGroupName customer
      let s := a.store.unbookMatch lib customer weight charged
      let s := s.unbookMatch lib group weight charged
      let s := s.rollUp group fun h => if h - weight < 0 then 0 else h - weight
      let s := match (rec.getString .matchedConcurrencyLimits).filter fun l => l ≠ [] with
        | some limits => s.changeLimits lib (fun count inc => count - inc) limits
        | none => s
      { a with store := s.deleteRecord .resource res }

def liveSlots (slots : List ClassAd) : GoMap Text ClassAd :=
  slots.foldl
    (fun live ad =>
      match getResourceName lib ad with
      | some name => live.insert name ad
      | none => live)
    ∅

def stale (a : Accountant F) (slots : List ClassAd) (res : Text) : Bool :=
  match (liveSlots lib slots).lookup res with
  | none => true
  | some ad =>
    match a.store.remoteUser? res with
    | none => true
    | some user => !a.checkClaimedOrMatched lib ad user

structure Claim (F : Type) where
  customer : Text
  res : Text
  weight : F
  limits : Text

def claim? (a : Accountant F) (ad : ClassAd) : Option (Claim F) := do
  let customer ← a.isClaimed lib ad
  let res ← getResourceName lib ad
  some ⟨customer, res, a.getSlotWeight lib ad, concurrencyLimitsOf lib ad⟩

def clearUsage (a : Accountant F) (slots : List ClassAd) : Accountant F :=
  let s := ((a.store.keys .resource).filter (a.stale lib slots)).foldl
    (fun s res => s.deleteRecord .resource res) a.store
  let s := (s.keys .customer).foldl
    (fun s name => s.set .customer name .weightedResourcesUsed (.float 0)) s
  { a with store := s.clearLimits }

def checkMatches (a : Accountant F) (slots : List ClassAd) (T : ℤ) : Accountant F :=
  (slots.filterMap (a.claim? lib)).foldl
    (fun a c => a.addMatchLocked lib c.customer c.res c.weight c.limits T) (a.clearUsage lib slots)

end

/-! ## Priorities -/

section

variable [Zero F] [One F] [Add F] [Mul F] [Div F] [IntCast F] [BEq F] [LT F] [LE F] [DecidableLT F]
  [DecidableLE F]

def minPriority : F := 1 / (1 + 1)

def clampPriority (p : F) : F := if p < minPriority then minPriority else p

def clampFactor {F : Type} [One F] [LT F] [DecidableLT F] (f : F) : F := if f < 1 then 1 else f

def groupPriorityFactor (a : Accountant F) (name : Text) : F :=
  match a.cfg.groupPrioFactor with
  | none => 0
  | some factor => factor (assignedGroupName name)

def chosenFactor (a : Accountant F) (name : Text) : F :=
  if niceUser.isPrefixOf name then a.cfg.niceUserPrioFactor
  else if a.groupPriorityFactor name != 0 then a.groupPriorityFactor name
  else if a.cfg.localDomain ≠ [] ∧ a.cfg.localDomain ≠ domainOf name then a.cfg.remotePrioFactor
  else a.cfg.defaultPrioFactor

def getPriorityFactor (a : Accountant F) (name : Text) : F × Accountant F :=
  match (a.store.getFloat .customer name .priorityFactor).filter fun v => 1 ≤ v with
  | some v => (v, a)
  | none =>
    let factor := clampFactor (a.chosenFactor name)
    (factor, { a with store := a.store.set .customer name .priorityFactor (.float factor) })

def getPriority (a : Accountant F) (name : Text) : F × Accountant F :=
  let (factor, a) := a.getPriorityFactor name
  let priority := (a.store.getFloat .customer name .priority).getD minPriority
  if priority < minPriority then
    (minPriority * factor,
      { a with store := a.store.set .customer name .priority (.float minPriority) })
  else (priority * factor, a)

variable [Sub F] (lib : Library F)

def Record.realPriority (r : Record F) : F := clampPriority (r.floatOf .priority)

def Record.weightedRecentUsage (r : Record F) (timePassed : F) : F :=
  match (r.getFloat .hierWeightedResourcesUsed).filter fun hier => 0 < hier with
  | some hier => hier
  | none => r.floatOf .weightedResourcesUsed + r.floatOf .weightedUnchargedTime / timePassed

def Record.newPriority (r : Record F) (timePassed aging : F) : F :=
  r.realPriority * aging + r.weightedRecentUsage timePassed * (1 - aging)

def Record.newAccum (r : Record F) (timePassed : F) : F :=
  r.floatOf .accumulatedUsage + (r.intOf lib.truncate .resourcesUsed : F) * timePassed +
    (r.intOf lib.truncate .unchargedTime : F)

def Record.weightedAccum (r : Record F) : F :=
  (r.getFloat .weightedAccumulatedUsage).getD (r.floatOf .accumulatedUsage)

def Record.newWeightedAccum (r : Record F) (timePassed : F) : F :=
  r.weightedAccum + r.floatOf .weightedResourcesUsed * timePassed +
    r.floatOf .weightedUnchargedTime

def Record.tickWrites (r : Record F) (T : ℤ) (timePassed aging : F) :
    List (Attr × AttrValue F) :=
  let clamped := clampPriority (r.newPriority timePassed aging)
  let recentUsage := (r.intOf lib.truncate .resourcesUsed : F) +
    (r.intOf lib.truncate .unchargedTime : F) / timePassed
  let accum := r.newAccum lib timePassed
  let weightedAccum := r.newWeightedAccum timePassed
  List.flatten
    [writeIf (clamped != r.realPriority) .priority (.float clamped),
      writeIf (accum != r.floatOf .accumulatedUsage) .accumulatedUsage (.float accum),
      writeIf (weightedAccum != r.weightedAccum) .weightedAccumulatedUsage (.float weightedAccum),
      writeIf (0 < accum && r.intOf lib.truncate .beginUsageTime = 0) .beginUsageTime (.int T),
      writeIf (0 < recentUsage) .lastUsageTime (.int T),
      writeIf (r.intOf lib.truncate .unchargedTime ≠ 0) .unchargedTime (.int 0),
      writeIf (r.floatOf .weightedUnchargedTime != 0) .weightedUnchargedTime (.float 0)]

def Record.purged (r : Record F) (timePassed aging : F) : Bool :=
  r.newPriority timePassed aging < minPriority && r.intOf lib.truncate .resourcesUsed = 0 &&
    r.newAccum lib timePassed == 0 && (r.getFloat .priorityFactor).isNone

def Record.shareWrites (r : Record F) : List (Attr × AttrValue F) :=
  writeIf (r.has .submitterShare) .submitterShare (.float 0) ++
    writeIf (r.has .submitterLimit) .submitterLimit (.float 0)

def updateOnePriority (T : ℤ) (timePassed aging : F) (s : Store F) (name : Text) : Store F :=
  match s.record? .customer name with
  | none => s
  | some r =>
    let s := s.sets .customer name (r.tickWrites lib T timePassed aging)
    if r.purged lib timePassed aging then s.deleteRecord .customer name
    else s.sets .customer name r.shareWrites

def setLastUpdate (a : Accountant F) (T : ℤ) : Accountant F :=
  { a with lastUpdate := T, store := a.store.set .acct [] .lastUpdateTime (.int T) }

def updatePriorities (a : Accountant F) (T : ℤ) : Accountant F :=
  let timePassed := T - a.lastUpdate
  if timePassed = 0 then a
  else if timePassed < 0 then a.setLastUpdate T
  else
    let aging := lib.halfPow ((timePassed : F) / a.cfg.halfLife)
    let a := a.setLastUpdate T
    let s := (a.store.keys .customer).foldl (updateOnePriority lib T timePassed aging) a.store
    { a with store := s }

/-! ## Opening the accountant -/

def Store.held (s : Store F) (user : Text) : ℕ :=
  (s.keys .resource).countP fun res => s.remoteUser? res = some user

def Store.heldWeight (s : Store F) (user : Text) : F :=
  ((s.keys .resource).filter fun res => s.remoteUser? res = some user).foldl
    (fun w res => w + (s.getFloat .resource res .slotWeight).getD 1) 0

def reconcileOne (held : Text → ℕ) (heldWeight : Text → F) (s : Store F) (name : Text) : Store F :=
  if isGroupName name then s
  else
    let n : ℤ := held name
    let w := heldWeight name
    s.sets .customer name
      (writeIf (s.intOf lib.truncate name .resourcesUsed ≠ n) .resourcesUsed (.int n) ++
        writeIf (s.floatOf name .weightedResourcesUsed != w) .weightedResourcesUsed (.float w))

def reconcileResourcesUsed (s : Store F) : Store F :=
  (s.keys .customer).foldl (reconcileOne lib s.held s.heldWeight) s

def Config.filled (cfg : Config F) : Config F :=
  let orDefault := fun (x : F) (default : ℤ) => if x ≤ 0 then (default : F) else x
  { cfg with
    halfLife := orDefault cfg.halfLife 86400
    defaultPrioFactor := orDefault cfg.defaultPrioFactor 1000
    niceUserPrioFactor := orDefault cfg.niceUserPrioFactor (10 ^ 10)
    remotePrioFactor := orDefault cfg.remotePrioFactor (10 ^ 7) }

def new (cfg : Config F) (store : Store F) : Accountant F :=
  let a : Accountant F :=
    ⟨cfg.filled, store, (store.getInt lib.truncate .acct [] .lastUpdateTime).getD 0⟩
  let a := (a.getPriority rootGroupName).2
  { a with store := reconcileResourcesUsed lib a.store }

def reopen (a : Accountant F) : Accountant F := new lib a.cfg (.openLog a.store.log)

/-! ## The rest of the interface -/

def getWeightedResourcesUsed (a : Accountant F) (name : Text) : F :=
  a.store.floatOf name .weightedResourcesUsed

def getCeiling (a : Accountant F) (name : Text) : F :=
  match (a.store.getInt lib.truncate .customer name .ceiling).filter fun v => 0 ≤ v with
  | some v => v
  | none => ((-1 : ℤ) : F)

def getFloor (a : Accountant F) (name : Text) : F :=
  match (a.store.getInt lib.truncate .customer name .floor).filter fun v => 0 ≤ v with
  | some v => v
  | none => 0

def getLimit (a : Accountant F) (name : Text) : F := a.store.getLimit name

def setAttrs (a : Accountant F) (submitter : Text) (assignments : List (Attr × AttrValue F)) :
    Option (Accountant F) :=
  if submitter = [] then none
  else some { a with store := a.store.sets .customer submitter assignments }

def setPriorityFactor (a : Accountant F) (submitter : Text) (factor : F) : Option (Accountant F) :=
  a.setAttrs submitter [(.priorityFactor, .float (clampFactor factor))]

def setPriority (a : Accountant F) (submitter : Text) (priority : F) : Option (Accountant F) :=
  a.setAttrs submitter [(.priority, .float priority)]

def setAccumUsage (a : Accountant F) (submitter : Text) (usage : F) : Option (Accountant F) :=
  a.setAttrs submitter [(.weightedAccumulatedUsage, .float usage)]

def setCeiling (a : Accountant F) (submitter : Text) (ceiling : ℤ) : Option (Accountant F) :=
  a.setAttrs submitter [(.ceiling, .int ceiling)]

def setFloor (a : Accountant F) (submitter : Text) (floor : ℤ) : Option (Accountant F) :=
  a.setAttrs submitter [(.floor, .int floor)]

def setSubmitterShare (a : Accountant F) (submitter : Text) (share limit : F) :
    Option (Accountant F) :=
  a.setAttrs submitter [(.submitterShare, .float share), (.submitterLimit, .float limit)]

def setBeginTime (a : Accountant F) (submitter : Text) (t : ℤ) : Option (Accountant F) :=
  a.setAttrs submitter [(.beginUsageTime, .int t)]

def setLastTime (a : Accountant F) (submitter : Text) (t : ℤ) : Option (Accountant F) :=
  a.setAttrs submitter [(.lastUsageTime, .int t)]

def resetUsageLocked (s : Store F) (name : Text) (T : ℤ) : Store F :=
  s.sets .customer name [(.accumulatedUsage, .float 0), (.weightedAccumulatedUsage, .float 0),
    (.beginUsageTime, .int T)]

def resetUsage (a : Accountant F) (submitter : Text) (T : ℤ) : Option (Accountant F) :=
  if submitter = [] then none else some { a with store := resetUsageLocked a.store submitter T }

def resetAllUsage (a : Accountant F) (T : ℤ) : Accountant F :=
  let s := (a.store.keys .customer).foldl (fun s name => resetUsageLocked s name T) a.store
  { a with store := s }

def deleteRecord (a : Accountant F) (submitter : Text) : Option (Accountant F) :=
  if submitter = [] then none
  else some { a with store := a.store.deleteRecord .customer submitter }

def setGroupRRTime (a : Accountant F) (group : Text) (t : F) : Accountant F :=
  { a with store := a.store.set .customer group .roundRobinTime (.float t) }

/-- A call that may change the accountant, at any integer time. -/
inductive Call (F : Type) where
  | setPriority (submitter : Text) (priority : F)
  | setPriorityFactor (submitter : Text) (factor : F)
  | setAccumUsage (submitter : Text) (usage : F)
  | setCeiling (submitter : Text) (ceiling : ℤ)
  | setFloor (submitter : Text) (floor : ℤ)
  | setSubmitterShare (submitter : Text) (share limit : F)
  | setBeginTime (submitter : Text) (t : ℤ)
  | setLastTime (submitter : Text) (t : ℤ)
  | resetUsage (submitter : Text) (T : ℤ)
  | resetAllUsage (T : ℤ)
  | deleteRecord (submitter : Text)
  | setGroupRRTime (group : Text) (t : F)
  | getPriority (name : Text)
  | getPriorityFactor (name : Text)
  | addMatch (submitter : Text) (slot : ClassAd) (now : ℤ)
  | removeMatch (res : Text) (now : ℤ)
  | checkMatches (slots : List ClassAd) (now : ℤ)
  | updatePriorities (now : ℤ)
  | reopen

def perform (a : Accountant F) : Call F → Accountant F
  | .setPriority submitter priority => (a.setPriority submitter priority).getD a
  | .setPriorityFactor submitter factor => (a.setPriorityFactor submitter factor).getD a
  | .setAccumUsage submitter usage => (a.setAccumUsage submitter usage).getD a
  | .setCeiling submitter ceiling => (a.setCeiling submitter ceiling).getD a
  | .setFloor submitter floor => (a.setFloor submitter floor).getD a
  | .setSubmitterShare submitter share limit => (a.setSubmitterShare submitter share limit).getD a
  | .setBeginTime submitter t => (a.setBeginTime submitter t).getD a
  | .setLastTime submitter t => (a.setLastTime submitter t).getD a
  | .resetUsage submitter T => (a.resetUsage submitter T).getD a
  | .resetAllUsage T => a.resetAllUsage T
  | .deleteRecord submitter => (a.deleteRecord submitter).getD a
  | .setGroupRRTime group t => a.setGroupRRTime group t
  | .getPriority name => (a.getPriority name).2
  | .getPriorityFactor name => (a.getPriorityFactor name).2
  | .addMatch submitter slot now => a.addMatch lib submitter slot now
  | .removeMatch res now => a.removeMatch lib res now
  | .checkMatches slots now => a.checkMatches lib slots now
  | .updatePriorities now => a.updatePriorities lib now
  | .reopen => a.reopen lib

end

/-! ## An accountant that can be run -/

def literalLibrary : Library ℚ :=
  { literalMatchLibrary id 0 with
    getAsString := (literalMatchLibrary id 0).evaluateAttrString
    getAsFloat := (literalMatchLibrary id 0).evalNumber
    truncate := fun q => q.num.tdiv q.den
    halfPow := fun _ => 1 }

def plainConfig : Config ℚ where
  halfLife := 86400
  defaultPrioFactor := 1000
  niceUserPrioFactor := 10 ^ 10
  remotePrioFactor := 10 ^ 7
  localDomain := []
  useSlotWeights := true
  discountSuspended := false
  groupPrioFactor := none

def fresh : Accountant ℚ := new literalLibrary plainConfig .empty

def unnamedSlot (user : String) : ClassAd :=
  ⟨[("State", .lit (.str "Claimed")), ("RemoteUser", .lit (.str user.toList)),
    ("SlotWeight", .lit (.int 2))]⟩

def claimedSlot (name user : String) : ClassAd :=
  (unnamedSlot user).insert "Name" (.lit (.str name.toList))

end Accountant

end GolangCollector
