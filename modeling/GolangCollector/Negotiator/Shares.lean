import Mathlib.Data.List.Sort
import GolangCollector.Negotiator.Ads
import GolangCollector.Negotiator.Match

/-! # Shares of the pie

What the cycle asks of the accountant, and how one spin divides the pie: fair shares by priority,
the limit of a submitter, the order in which submitters negotiate, and the bands that global job
priorities are merged into (`cycle/spin.go`, `cycle/globaljobprio.go`). -/

namespace GolangCollector.Negotiator

open GoStrings List Option

def maxFloat64 : ℤ := 2 ^ 1024 - 2 ^ 971

def maxFloat32 : ℤ := 2 ^ 128 - 2 ^ 104

/-! ## The accountant and the cycle -/

/-- **The accountant**, as a cycle uses it. -/
structure Accounting (F A : Type) where
  getPriority : A → Text → F
  getWeightedResourcesUsed : A → Text → F
  getCeiling : A → Text → F
  getFloor : A → Text → F
  /-- `LimitStore.GetLimit`; zero where the accountant does not count limits. -/
  getLimit : A → Text → F
  addMatch : A → Text → ClassAd → ℤ → A
  setSubmitterShare : A → Text → F → F → A

structure CycleConfig (F : Type) where
  maxTimePerCycle : ℤ
  maxTimePerSubmitter : ℤ
  maxTimePerSpin : ℤ
  compatMode : Bool
  preJobRank : Text
  postJobRank : Text
  disableSlotWeights : Bool
  considerPreemption : Bool
  preemptionRequirements : Text
  preemptionRank : Text
  negotiatorName : Text
  jobConstraintText : Text
  wantGlobalJobPrio : Bool
  matchExprs : List (Text × Text)
  concurrencyLimitMax : Option (Text → F)

/-- **`Cycle`**: its collaborators and its configuration. -/
structure Cycle (F A : Type) where
  lib : MatchLibrary F
  acct : Accounting F A
  cfg : CycleConfig F
  mm : Matchmaker
  /-- The compiled job constraint. -/
  jobConstraint : Option (ClassAd → Bool)
  mm_considerPreemption : mm.considerPreemption = cfg.considerPreemption
  mm_useSlotWeights : mm.useSlotWeights = !cfg.disableSlotWeights

def Cycle.slotWeightOf {F A : Type} [Zero F] [One F] [IntCast F] [LE F] [DecidableLE F]
    (c : Cycle F A) (slot : ClassAd) : F :=
  c.lib.slotWeight (!c.cfg.disableSlotWeights) slot

structure RoundInfo (F : Type) where
  /-- The group that is charged; empty for none. -/
  name : Text
  /-- The quota; none for an infinite one. -/
  quota : Option F
  isFloor : Bool
  autoregroupRoot : Bool
  /-- The accounting group of a submitter and its quota, where that is not the root. -/
  assignedGroup : Text → Option (Text × F)

namespace RoundInfo

variable {F : Type} (ri : RoundInfo F)

def quotaMet [LE F] [DecidableLE F] (usage : F) : Bool := ri.quota.any fun quota => quota ≤ usage

def negotiatingGroupName : Text := if ri.name ≠ [] then ri.name else rootGroupName

end RoundInfo

/-! ## Submitters -/

structure SubState (F : Type) where
  /-- The place of its ad in the list of submitter ads. -/
  adIdx : ℕ
  ad : ClassAd
  name : Text
  scheddName : Text
  scheddAddr : Text
  tag : Text
  idleJobs : ℤ
  lastHeard : ℤ
  origIdx : ℕ
  jobPrio : ℤ
  jobPrioMin : ℤ
  jobPrioMax : ℤ
  hasJobPrioArray : Bool
  timeUsed : ℤ
  starvation : F
  sessOpen : Bool
  queue : List Request
  exhausted : Bool
  /-- A session error is recorded. -/
  ioErr : Bool

section

variable {F A : Type} (c : Cycle F A)

def Cycle.wrapSubmitter [Zero F] (ad : ClassAd) (adIdx origIdx : ℕ) : Option (SubState F) := do
  let name ← c.lib.evaluateAttrString ad "Name"
  let scheddName ← c.lib.evaluateAttrString ad "ScheddName"
  let scheddAddr ← c.lib.evaluateAttrString ad "ScheddIpAddr"
  if name = [] || scheddAddr = [] then none
  else
    let jobPrio :=
      if c.cfg.wantGlobalJobPrio then (c.lib.evaluateAttrInt ad attrJobPrio).getD 0 else 0
    some
      { adIdx, ad, name, scheddName, scheddAddr, origIdx
        tag := (c.lib.evaluateAttrString ad "SubmitterTag").getD []
        idleJobs := max ((c.lib.evaluateAttrInt ad "IdleJobs").getD 0) 0
        lastHeard := (c.lib.evaluateAttrInt ad "LastHeardFrom").getD 0
        jobPrio, jobPrioMin := jobPrio, jobPrioMax := jobPrio
        hasJobPrioArray := c.cfg.wantGlobalJobPrio && (ad.lookup attrJobPrioArray).isSome
        timeUsed := 0, starvation := 0, sessOpen := false, queue := [], exhausted := false
        ioErr := false }

def Cycle.belowFloor [Zero F] [LT F] [DecidableLT F] (a : A) (subs : List (SubState F)) :
    List (SubState F) :=
  subs.filter fun sub =>
    0 < c.acct.getFloor a sub.name &&
      c.acct.getWeightedResourcesUsed a sub.name < c.acct.getFloor a sub.name

/-- `headerFor`: the NEGOTIATE header of a submitter. -/
structure NegotiateHeader where
  owner : Text
  autoClusterAttrs : Text
  submitterTag : Text
  negotiatorName : Text
  jobConstraint : Text
  /-- The band of job priorities. -/
  jobPrio : Option (ℤ × ℤ)
  deriving DecidableEq, Repr

@[inherit_doc NegotiateHeader]
def Cycle.headerFor (sigAttrs : Text) (sub : SubState F) : NegotiateHeader where
  owner :=
    ((c.lib.evaluateAttrString sub.ad "OriginalName").filter fun orig => orig ≠ []).getD
      sub.name
  autoClusterAttrs := sigAttrs
  submitterTag := sub.tag
  negotiatorName := c.cfg.negotiatorName
  jobConstraint := c.cfg.jobConstraintText
  jobPrio :=
    if c.cfg.wantGlobalJobPrio && sub.hasJobPrioArray then some (sub.jobPrioMin, sub.jobPrioMax)
    else none

end

/-! ## One spin's division -/

structure SpinEnv (F : Type) where
  spin : ℕ
  /-- The group's usage, read at the top of the spin. -/
  groupusage : F
  maxPrio : F
  normalFactor : F
  slotWeightTotal : F
  pieLeft : F
  /-- The priorities, read at the top of the spin. -/
  prios : Text → F
  ignoreSubmitterLimit : Bool

structure SubmitterLimit (F : Type) where
  limit : F
  limitUnclaimed : F
  share : F
  usage : F
  prio : F

section

variable {F A : Type} (c : Cycle F A) (a : A)
variable [Zero F] [Add F] [Sub F] [Mul F] [Div F] [IntCast F] [LT F] [DecidableLT F]

def maxPrioOf (prios : Text → F) (subs : List (SubState F)) : F :=
  subs.foldl (fun acc sub => if acc < prios sub.name then prios sub.name else acc)
    ((-maxFloat64 : ℤ) : F)

def normalFactorOf (prios : Text → F) (maxPrio : F) (subs : List (SubState F)) : F :=
  (subs.foldl
    (fun (acc : List Text × F) sub =>
      if sub.name ∈ acc.1 then acc else (sub.name :: acc.1, acc.2 + maxPrio / prios sub.name))
    ([], 0)).2

def clampZero {F : Type} [Zero F] [LT F] [DecidableLT F] (x : F) : F := if x < 0 then 0 else x

def capByQuota {F : Type} [Zero F] [Sub F] [LT F] [DecidableLT F] (ri : RoundInfo F)
    (env : SpinEnv F) (limit : F) : F :=
  if ri.name ≠ [] then
    match ri.quota with
    | none => limit
    | some quota =>
      let maxAllowed := clampZero (quota - env.groupusage)
      if maxAllowed < limit then maxAllowed else limit
  else limit

def capByFloor {F : Type} [LT F] [DecidableLT F] (isFloorRound : Bool) (floor limit : F) : F :=
  if isFloorRound && floor < limit then floor else limit

def Cycle.calculateSubmitterLimit (name : Text) (ri : RoundInfo F) (env : SpinEnv F)
    (isFloorRound : Bool) : SubmitterLimit F :=
  let prio := env.prios name
  let usage := c.acct.getWeightedResourcesUsed a name
  let share := env.maxPrio / (prio * env.normalFactor)
  let fair := clampZero (share * env.slotWeightTotal - usage)
  let limitUnclaimed := capByQuota ri env fair
  let limit := if !c.cfg.considerPreemption then limitUnclaimed else fair
  ⟨capByFloor isFloorRound (c.acct.getFloor a name) limit, limitUnclaimed, share, usage, prio⟩

def starvationRatio (usage allocated : F) : F :=
  if 0 < allocated then usage / allocated else ((maxFloat32 : ℤ) : F)

def Cycle.pieLimit (ri : RoundInfo F) (env : SpinEnv F) (sub : SubState F) : SubmitterLimit F :=
  c.calculateSubmitterLimit a sub.name ri env false

def Cycle.calculatePieLeft (ri : RoundInfo F) (env : SpinEnv F) (subs : List (SubState F)) : F :=
  subs.foldl (fun pie sub => pie + (c.pieLimit a ri env sub).limit) 0

def Cycle.stampStarvation (ri : RoundInfo F) (env : SpinEnv F) (sub : SubState F) : SubState F :=
  let l := c.pieLimit a ri env sub
  { sub with starvation := starvationRatio l.usage (l.usage + l.limit) }

def Cycle.negotiatesBefore [BEq F] (prios : Text → F) (x y : SubState F) : Bool :=
  let px := prios x.name
  let py := prios y.name
  if px != py then px < py
  else if c.cfg.wantGlobalJobPrio && x.jobPrio != y.jobPrio then y.jobPrio < x.jobPrio
  else if x.starvation != y.starvation then x.starvation < y.starvation
  else if x.lastHeard.tmod 1009 != y.lastHeard.tmod 1009 then
    x.lastHeard.tmod 1009 < y.lastHeard.tmod 1009
  else x.origIdx < y.origIdx

def Cycle.sortSubmitters [BEq F] (prios : Text → F) (subs : List (SubState F)) :
    List (SubState F) :=
  subs.insertionSort fun x y => (!c.negotiatesBefore prios y x) = true

end

def consolidateNext {F : Type} (acc : List (SubState F) × Option (SubState F)) (sub : SubState F) :
    List (SubState F) × Option (SubState F) :=
  let (done, opened) := acc
  if !sub.hasJobPrioArray then (done ++ opened.toList ++ [sub], none)
  else
    match opened with
    | some prev =>
      if prev.name = sub.name ∧ prev.scheddAddr = sub.scheddAddr then
        (done, some { prev with
          jobPrioMin := min sub.jobPrioMin prev.jobPrioMin
          jobPrioMax := max sub.jobPrioMax prev.jobPrioMax })
      else (done ++ [prev], some sub)
    | none => (done, some sub)

def consolidateJobPrios {F : Type} (subs : List (SubState F)) : List (SubState F) :=
  (subs.foldl consolidateNext ([], none)).1 ++ (subs.foldl consolidateNext ([], none)).2.toList

theorem length_consolidateJobPrios_le {F : Type} (subs : List (SubState F)) :
    (consolidateJobPrios subs).length ≤ subs.length := by
  rw [consolidateJobPrios]
  induction subs using reverseRecOn with
  | nil => exact le_rfl
  | append_singleton subs sub ih =>
    rw [foldl_concat, length_append, length_append, length_singleton]
    generalize subs.foldl consolidateNext ([], none) = acc at ih ⊢
    obtain ⟨done, opened⟩ := acc
    unfold consolidateNext
    dsimp only at ih ⊢
    split
    · simp only [length_append, length_singleton, toList_none,
        length_nil] at ih ⊢
      omega
    · cases opened with
      | none =>
        simp only [length_append, toList_none, toList_some,
          length_nil, length_singleton] at ih ⊢
        omega
      | some prev =>
        dsimp only
        split <;> simp only [length_append, toList_some,
          length_singleton] at ih ⊢ <;> omega

theorem of_mem_consolidateJobPrios {F : Type} {P : SubState F → Prop} {subs : List (SubState F)}
    (hband : ∀ sub lo hi, P sub → P { sub with jobPrioMin := lo, jobPrioMax := hi })
    (h : ∀ sub ∈ subs, P sub) : ∀ sub ∈ consolidateJobPrios subs, P sub := by
  rw [consolidateJobPrios]
  refine foldlRecOn (motive := fun acc : List (SubState F) × Option (SubState F) =>
    ∀ sub ∈ acc.1 ++ acc.2.toList, P sub) subs _ (by simp) ?_
  rintro ⟨done, opened⟩ hacc sub hsub
  unfold consolidateNext
  dsimp only
  split
  · simpa [h sub hsub, or_imp, forall_and] using hacc
  · cases opened with
    | none => simpa [h sub hsub, or_imp, forall_and] using hacc
    | some prev =>
      have hprev : P prev := hacc prev (by simp)
      dsimp only
      split
      · simp only [toList_some, mem_append, mem_singleton, or_imp,
          forall_and, forall_eq] at hacc ⊢
        exact ⟨hacc.1, hband _ _ _ hprev⟩
      · simpa [h sub hsub, or_imp, forall_and] using hacc

end GolangCollector.Negotiator
