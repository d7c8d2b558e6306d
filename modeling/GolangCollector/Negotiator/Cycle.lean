import GolangCollector.Lib.Runs
import GolangCollector.Negotiator.Shares

/-! # The negotiation cycle as a state machine

One cycle of the negotiator: rounds for groups (a floor round before the main one), spins of the
pie, submitters in each spin, requests of each submitter, one decision after the other on a single
spine, and the session traffic, which compat mode does inline and fast mode leaves to a queue per
submitter (`cycle/cycle.go`, `cycle/spin.go`, `cycle/concurrency.go`).

A state holds what the spine holds between two decisions; a label is what the surroundings choose:
the groups that the allocator calls with, the clock, the end of a context, the schedds' replies, and
which queued operation is carried out next. -/

namespace GolangCollector.Negotiator

open GoStrings

/-! ## States -/

structure MatchResult (F : Type) where
  request : Request
  slotAd : ClassAd
  claimID : Text
  cost : F

inductive Op (F : Type) where
  | sendMatch (mr : MatchResult F) (idx : ℕ)
  | reject (req : Request) (reason : Text)
  /-- END_NEGOTIATE, or a plain close where the round is broken. -/
  | endRound (broken : Bool)

inductive Event (F : Type) where
  | began (sub : ℕ) (hdr : NegotiateHeader) (ok : Bool)
  | fetched (sub : ℕ) (reply : Option (List Request))
  | sent (sub : ℕ) (mr : MatchResult F) (idx : ℕ) (ok : Bool)
  | rejected (sub : ℕ) (req : Request) (reason : Text) (ok : Bool)
  | ended (sub : ℕ) (ok : Bool)
  | closed (sub : ℕ)
  /-- `AddMatch` and `Consume` of the slot at a place, for a submitter's name. -/
  | committed (sub : ℕ) (name : Text) (idx : ℕ) (tier : PreemptTier) (cost : F)

inductive MmResult where
  | resume
  | done
  | error
  deriving DecidableEq, Repr

inductive NegPhase where
  /-- At the loop's head. -/
  | top
  /-- In `nextRequest`, with what is queued. -/
  | request
  /-- In `nextRequest`, with nothing queued. -/
  | fetching
  /-- With a request to match. -/
  | offer
  /-- The loop is left with a result. -/
  | returned (r : MmResult)
  deriving DecidableEq, Repr

structure NegState (F : Type) where
  sub : ℕ
  name : Text
  prio : F
  limit : F
  limitUnclaimed : F
  headroom : F
  startedAt : ℤ
  deadline : ℤ
  limitUsed : F
  limitUsedUnclaimed : F
  limitedBySubmitterLimit : Bool
  onlyForStartdRank : Bool
  rejectedACs : List ℤ
  cur : Option Request
  curOffers : ℤ
  phase : NegPhase
  matched : List (PreemptTier × F)

structure SpinFrame (F : Type) where
  env : SpinEnv F
  pieLeftOrig : F
  origCount : ℕ
  todo : List ℕ
  next : List ℕ
  halted : Bool
  matched : List F

inductive Stage (F : Type) where
  /-- At the head of the spin loop. -/
  | top
  | prefetching (env : SpinEnv F) (todo : List ℕ)
  /-- Between two submitters. -/
  | looping (fr : SpinFrame F)
  | negotiating (fr : SpinFrame F) (n : NegState F)

/-- One call of `negotiateWithGroup`. -/
structure Round (F : Type) where
  info : RoundInfo F
  subs : List ℕ
  spin : ℕ
  stage : Stage F
  main : Option (RoundInfo F × List ℕ)

inductive Pc (F : Type) where
  | idle
  | round (r : Round F)
  /-- The context ended, and the cycle returned. -/
  | stopped

structure CycleStats where
  idleJobs : ℤ
  jobsConsidered : ℕ
  numMatches : ℕ
  rejections : ℕ
  pies : ℕ
  pieSpins : ℕ
  slotShareIter : ℕ
  scheddsOutOfTime : ℕ
  submittersFailed : ℕ
  submittersOutOfTime : ℕ
  deriving DecidableEq, Repr

/-- **The state of a cycle.** -/
structure CycleState (F A : Type) where
  acct : A
  view : SlotView
  limits : ConcurrencyTracker F
  subs : List (SubState F)
  pending : List (ℕ × Op F)
  stats : CycleStats
  pc : Pc F
  log : List (Event F)

structure CycleSetup (F : Type) where
  cycleStart : ℤ
  sigAttrs : Text
  minSlotWeight : F
  untrimmedTotal : F
  /-- The submitter ads, fanned out if so configured. -/
  submitters : List ClassAd

inductive BeginReply where
  | beginFails
  | fetchFails
  | requests (rs : List Request)

/-- What the surroundings choose for one step. -/
inductive Label (F : Type) where
  /-- The allocator calls for a group, with the places of its submitter ads. -/
  | group (info : RoundInfo F) (ads : List ℕ)
  | spin (ctxErr : Bool)
  | prefetch (sub : ℕ) (reply : BeginReply)
  /-- The next submitter of the spin, at a clock reading. -/
  | sub (ctxErr : Bool) (now : ℤ)
  | spinEnd
  | top (now : ℤ)
  | next
  | fetch (reply : Option (List Request))
  /-- The matchmaker runs; `sendOk` is the outcome of an inline delivery. -/
  | offer (ctxDone sendOk : Bool) (now : ℤ)
  | leave (now : ℤ)
  /-- The worker of the `i`-th waiting operation carries it out. -/
  | deliver (i : ℕ) (ok : Bool)

def SpinFrame.charge {F : Type} [Sub F] (fr : SpinFrame F) (cost : F) : SpinFrame F :=
  { fr with
    env := { fr.env with pieLeft := fr.env.pieLeft - cost }
    matched := fr.matched ++ [cost] }

def NegState.charge {F : Type} [Add F] (n : NegState F) (req : Request) (tier : PreemptTier)
    (unclaimed : Bool) (cost : F) : NegState F :=
  { n with
    limitUsed := n.limitUsed + cost
    limitUsedUnclaimed := if unclaimed then n.limitUsedUnclaimed + cost else n.limitUsedUnclaimed
    curOffers := n.curOffers + 1
    cur := some req
    phase := .top
    matched := n.matched ++ [(tier, cost)] }

/-! ## Submitters of a state -/

namespace CycleState

variable {F A : Type} (s : CycleState F A)

def sub? (k : ℕ) : Option (SubState F) := s.subs.find? fun sub => sub.origIdx = k

def subsOf (ks : List ℕ) : List (SubState F) := ks.filterMap s.sub?

def updateSub (k : ℕ) (f : SubState F → SubState F) : CycleState F A :=
  { s with subs := s.subs.map fun sub => if sub.origIdx = k then f sub else sub }

def putSubs (changed : List (SubState F)) : CycleState F A :=
  { s with subs := s.subs.map fun sub =>
      (changed.find? fun sub' => sub'.origIdx = sub.origIdx).getD sub }

def setErr (k : ℕ) : CycleState F A := s.updateSub k fun sub => { sub with ioErr := true }

def enqueue (k : ℕ) (op : Op F) : CycleState F A := { s with pending := s.pending ++ [(k, op)] }

def count (f : CycleStats → CycleStats) : CycleState F A := { s with stats := f s.stats }

def record (es : List (Event F)) : CycleState F A := { s with log := s.log ++ es }

def drained (k : ℕ) : Bool := s.pending.all fun p => p.1 ≠ k

def endRound (k : ℕ) (broken : Bool) : CycleState F A :=
  if (s.sub? k).any SubState.sessOpen then
    (s.updateSub k fun sub =>
      { sub with sessOpen := false, queue := [], exhausted := false }).enqueue k (.endRound broken)
  else s

def goto (r : Round F) (stage : Stage F) : CycleState F A :=
  { s with pc := .round { r with stage } }

def startRound (info : RoundInfo F) (subs : List ℕ) (main : Option (RoundInfo F × List ℕ)) :
    CycleState F A :=
  { s with
    stats := if info.isFloor then s.stats else { s.stats with pies := s.stats.pies + 1 }
    pc := .round { info, subs, spin := 0, stage := .top, main } }

def finishRound (r : Round F) : CycleState F A :=
  match r.main with
  | some (info, subs) => s.startRound info subs none
  | none => { s with pc := .idle }

end CycleState

/-! ## Steps -/

namespace Cycle

section

variable {F A : Type} (c : Cycle F A) (st : CycleSetup F) (s : CycleState F A)

def wrapNext [Zero F] (acc : CycleState F A × List ℕ) (adIdx : ℕ) : CycleState F A × List ℕ :=
  let (s, out) := acc
  match s.subs.find? fun sub => sub.adIdx = adIdx with
  | some sub => (s, out ++ [sub.origIdx])
  | none =>
    match st.submitters[adIdx]?.bind fun ad => c.wrapSubmitter ad adIdx s.subs.length with
    | none => (s, out)
    | some sub =>
      -- the idle jobs of a name count once where its ad was fanned out
      let counted := c.cfg.wantGlobalJobPrio && s.subs.any fun sub' => sub'.name = sub.name
      ({ s with
          subs := s.subs ++ [sub]
          stats := { s.stats with
            idleJobs := s.stats.idleJobs + if counted then 0 else sub.idleJobs } },
        out ++ [sub.origIdx])

def wrapSubmitters [Zero F] (ads : List ℕ) : CycleState F A × List ℕ :=
  ads.foldl (c.wrapNext st) (s, [])

def stepGroup [Zero F] [LT F] [DecidableLT F] (info : RoundInfo F) (ads : List ℕ) :
    CycleState F A :=
  let info := { info with isFloor := false }
  let (s, ids) := c.wrapSubmitters st s ads
  let below := c.belowFloor s.acct (s.subsOf ids)
  if below ≠ [] then
    s.startRound { info with isFloor := true } (below.map SubState.origIdx) (some (info, ids))
  else s.startRound info ids none

def abort (r : Round F) : CycleState F A :=
  let s' := r.subs.foldl (fun s k => s.endRound k true) s
  let schedds := ((s.subsOf r.subs).map SubState.scheddName).filter fun name => name ≠ []
  { s' with
    stats := { s'.stats with
      submittersOutOfTime := s'.stats.submittersOutOfTime + r.subs.length
      scheddsOutOfTime := s'.stats.scheddsOutOfTime + schedds.dedup.length }
    pc := .stopped }

section

variable [Zero F] [Add F] [Sub F] [Mul F] [Div F] [IntCast F] [BEq F] [LT F] [LE F] [DecidableLT F]
  [DecidableLE F]

def ignoresLimit (r : Round F) : Bool := r.spin + 1 = 1 && c.cfg.considerPreemption

def groupUsage (r : Round F) : F :=
  if r.info.name ≠ [] then c.acct.getWeightedResourcesUsed s.acct r.info.name else 0

def spinSubs (r : Round F) : List (SubState F) :=
  if c.cfg.considerPreemption then s.subsOf r.subs
  else (s.subsOf r.subs).filter fun sub => 0 < sub.idleJobs

def spinEnv (r : Round F) (subs : List (SubState F)) : SpinEnv F :=
  let prios := c.acct.getPriority s.acct
  let maxPrio := maxPrioOf prios subs
  let env : SpinEnv F :=
    { spin := r.spin + 1
      groupusage := c.groupUsage s r
      maxPrio
      normalFactor := normalFactorOf prios maxPrio subs
      slotWeightTotal :=
        match r.info.quota with
        | some quota => if quota < st.untrimmedTotal then quota else st.untrimmedTotal
        | none => st.untrimmedTotal
      pieLeft := 0
      prios
      ignoreSubmitterLimit := c.ignoresLimit r }
  { env with pieLeft := c.calculatePieLeft s.acct r.info env subs }

def spinOrder (env : SpinEnv F) (subs : List (SubState F)) : List (SubState F) :=
  if env.spin = 1 then
    let sorted := c.sortSubmitters env.prios subs
    if c.cfg.wantGlobalJobPrio then consolidateJobPrios sorted else sorted
  else subs

def dividePie (r : Round F) : CycleState F A :=
  let subs := c.spinSubs s r
  let env := c.spinEnv st s r subs
  let stamped := subs.map (c.stampStarvation s.acct r.info env)
  let s := s.putSubs stamped
  if !c.cfg.considerPreemption && env.pieLeft ≤ 0 then s.finishRound r
  else
    let order := c.spinOrder env stamped
    let ids := order.map SubState.origIdx
    (s.putSubs order).goto { r with subs := ids, spin := r.spin + 1 } (.prefetching env ids)

def stepSpin (r : Round F) (ctxErr : Bool) : CycleState F A :=
  if ctxErr then abort s r
  else
    let s := s.count fun stats => { stats with pieSpins := stats.pieSpins + 1 }
    if !c.ignoresLimit r && r.info.name ≠ [] && r.info.quotaMet (c.groupUsage s r) then
      s.finishRound r
    else if (c.spinSubs s r).isEmpty then s.finishRound r
    else c.dividePie st s r

end

def beginAndFetch (k : ℕ) (reply : BeginReply) : CycleState F A :=
  match s.sub? k with
  | none => s
  | some sub =>
    if sub.sessOpen then s
    else
      let hdr := c.headerFor st.sigAttrs sub
      match reply with
      | .beginFails =>
        (s.updateSub k fun sub =>
          { sub with ioErr := true, queue := [], exhausted := false }).record
            [.began k hdr false, .closed k]
      | .fetchFails =>
        (s.updateSub k fun sub =>
          { sub with ioErr := true, sessOpen := true, queue := [], exhausted := false }).record
            [.began k hdr true, .fetched k none]
      | .requests rs =>
        (s.updateSub k fun sub =>
          { sub with
            ioErr := false, sessOpen := true, queue := rs, exhausted := rs.isEmpty }).record
            [.began k hdr true, .fetched k (some rs)]

def mayPrefetch (todo : List ℕ) (k : ℕ) : Bool :=
  if c.cfg.compatMode then todo.head? = some k
  else
    (todo.find? fun j => (s.sub? j).map SubState.scheddAddr = (s.sub? k).map SubState.scheddAddr) =
      some k && s.drained k

def stepPrefetch (r : Round F) (env : SpinEnv F) (todo : List ℕ) (k : ℕ) (reply : BeginReply) :
    Option (CycleState F A) :=
  if c.mayPrefetch s todo k then
    let s := c.beginAndFetch st s k reply
    let todo := todo.erase k
    some (s.goto r (if todo.isEmpty then
        .looping { env, pieLeftOrig := env.pieLeft, origCount := r.subs.length, todo := r.subs
                   next := [], halted := false, matched := [] }
      else .prefetching env todo))
  else none

def settle (fr : SpinFrame F) (k : ℕ) (keep : Bool) : SpinFrame F :=
  { fr with todo := fr.todo.tail, next := if keep then fr.next ++ [k] else fr.next }

section

variable [Zero F] [Sub F] [Mul F] [Div F] [IntCast F] [LT F] [LE F] [DecidableLT F] [DecidableLE F]

def headroom (a : A) (name : Text) : F :=
  let ceiling := c.acct.getCeiling a name
  if 0 ≤ ceiling then
    let room := ceiling - c.acct.getWeightedResourcesUsed a name
    if room < 0 then 0 else room
  else ((maxFloat64 : ℤ) : F)

def skips (sub : SubState F) (env : SpinEnv F) (limit headroom : F) (now : ℤ) : Option MmResult :=
  if sub.idleJobs ≤ 0 then some .done
  else if c.cfg.maxTimePerSubmitter - sub.timeUsed ≤ 0 then some .done
  else if c.cfg.maxTimePerCycle - (now - st.cycleStart) ≤ 0 then some .done
  else if 1 < env.spin && (limit < st.minSlotWeight || env.pieLeft < st.minSlotWeight) then
    some .resume
  else if headroom ≤ 0 || headroom < st.minSlotWeight then some .done
  else none

def startNegotiation (sub : SubState F) (prio limit limitUnclaimed headroom : F) (now : ℤ) :
    NegState F :=
  { sub := sub.origIdx, name := sub.name, prio, limit, limitUnclaimed, headroom, startedAt := now
    deadline := now + min c.cfg.maxTimePerSpin (min
      (c.cfg.maxTimePerCycle - (now - st.cycleStart)) (c.cfg.maxTimePerSubmitter - sub.timeUsed))
    limitUsed := 0, limitUsedUnclaimed := 0, limitedBySubmitterLimit := false
    onlyForStartdRank := false, rejectedACs := [], cur := none, curOffers := 0
    phase := if sub.ioErr || !sub.sessOpen then .returned .error else .top
    matched := [] }

def cappedLimit (env : SpinEnv F) (l : SubmitterLimit F) : F :=
  if env.pieLeft < l.limit then env.pieLeft else l.limit

def reportShare (env : SpinEnv F) (name : Text) (l : SubmitterLimit F) : CycleState F A :=
  { s with
    acct :=
      if env.spin = 1 then
        c.acct.setSubmitterShare s.acct name l.share (l.share * env.slotWeightTotal)
      else s.acct
    stats := { s.stats with slotShareIter := s.stats.slotShareIter + 1 } }

def negotiateOne (r : Round F) (fr : SpinFrame F) (sub : SubState F) (now : ℤ) : CycleState F A :=
  let l := c.calculateSubmitterLimit s.acct sub.name r.info fr.env r.info.isFloor
  let limit := cappedLimit fr.env l
  let s := c.reportShare s fr.env sub.name l
  let headroom := c.headroom s.acct sub.name
  match c.skips st sub fr.env limit headroom now with
  | some result =>
    (s.endRound sub.origIdx false).goto r (.looping (settle fr sub.origIdx (result = .resume)))
  | none =>
    s.goto r (.negotiating fr
      (c.startNegotiation st sub l.prio limit l.limitUnclaimed headroom now))

def stepSub (r : Round F) (fr : SpinFrame F) (ctxErr : Bool) (now : ℤ) : Option (CycleState F A) :=
  match fr.todo with
  | [] => none
  | k :: _ =>
    if fr.halted || ctxErr then
      some ((s.endRound k false).goto r (.looping (settle fr k true)))
    else if !fr.env.ignoreSubmitterLimit && r.info.name ≠ [] &&
        r.info.quotaMet (c.acct.getWeightedResourcesUsed s.acct r.info.name) then
      some ((s.endRound k false).goto r (.looping { settle fr k true with halted := true }))
    else
      match s.sub? k with
      | none => some (s.goto r (.looping (settle fr k false)))
      | some sub => some (c.negotiateOne st s r fr sub now)

end

def stepSpinEnd [LT F] [DecidableLT F] (r : Round F) (fr : SpinFrame F) :
    Option (CycleState F A) :=
  if fr.todo.isEmpty then
    let progressed := fr.env.pieLeft < fr.pieLeftOrig || fr.next.length < fr.origCount
    if !progressed || fr.next.isEmpty || s.view.len = 0 || r.info.isFloor then
      some (s.finishRound r)
    else some (s.goto { r with subs := fr.next } .top)
  else none

/-! ## The request loop -/

def sendInOrder (k : ℕ) (e : Event F) (op : Op F) : CycleState F A :=
  if c.cfg.compatMode then s.record [e] else s.enqueue k op

def breakOff (r : Round F) (fr : SpinFrame F) (n : NegState F) (result : MmResult) :
    CycleState F A :=
  (s.endRound n.sub false).goto r (.negotiating fr { n with phase := .returned result })

def stepTop [LE F] [DecidableLE F] (r : Round F) (fr : SpinFrame F) (n : NegState F) (now : ℤ) :
    CycleState F A :=
  if (s.sub? n.sub).any SubState.ioErr then
    s.goto r (.negotiating fr { n with phase := .returned .error })
  else if n.deadline ≤ now then breakOff s r fr n .resume
  else if n.limit ≤ n.limitUsed && !fr.env.ignoreSubmitterLimit then breakOff s r fr n .resume
  else
    let n := { n with onlyForStartdRank := n.limit ≤ n.limitUsed }
    if n.headroom ≤ n.limitUsed then breakOff s r fr n .resume
    else
      match n.cur with
      | some req =>
        if req.count ≤ n.curOffers then
          s.goto r (.negotiating fr { n with cur := none, curOffers := 0, phase := .request })
        else s.goto r (.negotiating fr { n with phase := .offer })
      | none => s.goto r (.negotiating fr { n with curOffers := 0, phase := .request })

def dropsRequest (n : NegState F) (req : Request) : Bool :=
  (0 ≤ req.autoClusterID && req.autoClusterID ∈ n.rejectedACs) ||
    c.jobConstraint.any fun matchesAd => !matchesAd req.ad

def stepNext [LE F] [DecidableLE F] (r : Round F) (fr : SpinFrame F) (n : NegState F) :
    CycleState F A :=
  match s.sub? n.sub with
  | none => breakOff s r fr n .done
  | some sub =>
    match sub.queue.dropWhile (c.dropsRequest n) with
    | req :: rest =>
      (s.updateSub n.sub fun sub => { sub with queue := rest }).goto r
        (.negotiating fr { n with cur := some req, phase := .offer })
    | [] =>
      let s := s.updateSub n.sub fun sub => { sub with queue := [] }
      if sub.exhausted then
        breakOff s r fr n
          (if n.limit ≤ n.limitUsed || n.limitedBySubmitterLimit then .resume else .done)
      else s.goto r (.negotiating fr { n with phase := .fetching })

def stepFetch (r : Round F) (fr : SpinFrame F) (n : NegState F) (reply : Option (List Request)) :
    Option (CycleState F A) :=
  if s.drained n.sub then
    let s := s.record [.fetched n.sub reply]
    match reply with
    | none => some ((s.setErr n.sub).goto r (.negotiating fr { n with phase := .returned .error }))
    | some rs =>
      some ((s.updateSub n.sub fun sub =>
          { sub with queue := rs, exhausted := rs.isEmpty }).goto r
            (.negotiating fr { n with phase := .request }))
  else none

section

variable [Zero F] [One F] [Add F] [Sub F] [IntCast F] [BEq F] [LT F] [LE F] [DecidableLT F]
  [DecidableLE F]

def enrichRequest (r : Round F) (n : NegState F) (req : Request) : Request :=
  let context : SubmitterContext F :=
    { userPrio := n.prio
      userResourcesInUse := c.acct.getWeightedResourcesUsed s.acct n.name
      group := (r.info.assignedGroup n.name).map fun g =>
        (g.1, c.acct.getWeightedResourcesUsed s.acct g.1, g.2)
      negotiatingGroup := r.info.negotiatingGroupName
      autoregroup := r.info.autoregroupRoot }
  { req with ad := enrichRequestAd c.lib req.ad context }

def matchLimits (fr : SpinFrame F) (n : NegState F) : MatchLimits F where
  submitterLimit := n.limit
  limitUsed := n.limitUsed
  pieLeft := fr.env.pieLeft
  ceiling := n.headroom
  submitterLimitUnclaimed := n.limitUnclaimed
  limitUsedUnclaimed := n.limitUsedUnclaimed
  onlyForStartdRank := n.onlyForStartdRank
  submitterName := n.name
  concurrency := some (s.limits.view (c.acct.getLimit s.acct) c.cfg.concurrencyLimitMax)

def limitsMatchReads (job : ClassAd) (limits : MatchLimits F) : List Text :=
  match limits.concurrency with
  | none => []
  | some v =>
    match c.lib.evaluateAttrString job "ConcurrencyLimits" with
    | some cl => limitsRead c.lib cl v
    | none =>
      if (job.lookup "ConcurrencyLimits").isSome then
        s.view.gather.flatMap fun cand =>
          if c.lib.symmetry job cand.slot then
            ((c.lib.evaluateAttrLeft job cand.slot "ConcurrencyLimits").stringValue.map
              fun cl => limitsRead c.lib cl v).getD []
          else []
      else []

def reject (r : Round F) (fr : SpinFrame F) (n : NegState F) (req : Request) (rej : RejectInfo)
    (sendOk : Bool) : CycleState F A :=
  let s := s.count fun stats => { stats with rejections := stats.rejections + 1 }
  let reason := if rej.reason ≠ [] then rej.reason else reasonNoMatch
  if c.cfg.compatMode && !sendOk then
    ((s.record [.rejected n.sub req reason false]).setErr n.sub).goto r
      (.negotiating fr { n with phase := .returned .error })
  else
    let s := c.sendInOrder s n.sub (.rejected n.sub req reason true) (.reject req reason)
    let limited := 0 < rej.forSubmitterLimit
    let n := { n with limitedBySubmitterLimit := n.limitedBySubmitterLimit || limited }
    if limited && c.cfg.disableSlotWeights && !c.cfg.considerPreemption then
      breakOff s r fr n .resume
    else
      s.goto r (.negotiating fr { n with
        rejectedACs :=
          if 0 ≤ req.autoClusterID then req.autoClusterID :: n.rejectedACs else n.rejectedACs
        cur := none
        phase := .top })

def claimFor (view : SlotView) (slot : ClassAd) : Text :=
  (view.claimID c.lib slot).getD "null"

def matchContext (r : Round F) (n : NegState F) (req : Request) : MatchContext where
  concurrencyLimits := (c.lib.evaluateAttrString req.ad "ConcurrencyLimits").getD []
  group := (r.info.assignedGroup n.name).map fun g =>
    (g.1, r.info.negotiatingGroupName, r.info.autoregroupRoot)
  matchExprs := c.cfg.matchExprs

def matchResult (r : Round F) (n : NegState F) (req : Request) (cand : Candidate F) :
    MatchResult F where
  request := req
  slotAd := enrichMatchAd c.lib cand.slot req (c.matchContext r n req)
  claimID := c.claimFor s.view cand.slot
  cost := c.slotWeightOf cand.slot

def commit (r : Round F) (fr : SpinFrame F) (n : NegState F) (req : Request) (cand : Candidate F)
    (mr : MatchResult F) (now : ℤ) : CycleState F A :=
  let a := c.acct.addMatch s.acct n.name mr.slotAd now
  let unclaimed := c.lib.remoteUserOf cand.slot = []
  let s := { s with
    acct := a
    view := s.view.consume cand.scanIndex
    limits :=
      match c.lib.evaluateAttrString req.ad "ConcurrencyLimits" with
      | some cl => s.limits.add (c.acct.getLimit a) c.lib cl
      | none => s.limits
    stats := { s.stats with numMatches := s.stats.numMatches + 1 } }
  (s.record [.committed n.sub n.name cand.scanIndex cand.preemptTier mr.cost]).goto r
    (.negotiating (fr.charge mr.cost) (n.charge req cand.preemptTier unclaimed mr.cost))

def deliverMatch (r : Round F) (fr : SpinFrame F) (n : NegState F) (req : Request)
    (cand : Candidate F) (sendOk : Bool) (now : ℤ) : CycleState F A :=
  let mr := c.matchResult s r n req cand
  if c.cfg.compatMode && !sendOk then
    ((s.record [.sent n.sub mr cand.scanIndex false]).setErr n.sub).goto r
      (.negotiating fr { n with phase := .returned .error })
  else
    let s := c.sendInOrder s n.sub (.sent n.sub mr cand.scanIndex true)
      (.sendMatch mr cand.scanIndex)
    c.commit s r fr n req cand mr now

def stepOffer (r : Round F) (fr : SpinFrame F) (n : NegState F) (ctxDone sendOk : Bool) (now : ℤ) :
    Option (CycleState F A) :=
  match n.cur with
  | none => none
  | some req =>
    let s := s.count fun stats => { stats with jobsConsidered := stats.jobsConsidered + 1 }
    let req := c.enrichRequest s r n req
    let limits := c.matchLimits s fr n
    let reads := if ctxDone then [] else c.limitsMatchReads s req.ad limits
    let result := c.mm.matchRequest c.lib ctxDone req s.view limits
    let s := { s with
      limits := reads.foldl (fun t name => t.touch (c.acct.getLimit s.acct) name) s.limits }
    some (match result with
      | none => breakOff s r fr n .resume
      | some (.error rej) => c.reject s r fr { n with cur := some req } req rej sendOk
      | some (.ok cand) => c.deliverMatch s r fr n req cand sendOk now)

end

def stepLeave (r : Round F) (fr : SpinFrame F) (n : NegState F) (result : MmResult) (now : ℤ) :
    CycleState F A :=
  let s := s.updateSub n.sub fun sub => { sub with timeUsed := sub.timeUsed + (now - n.startedAt) }
  let s := s.endRound n.sub (result = .error)
  let s := s.count fun stats =>
    if result = .error then { stats with submittersFailed := stats.submittersFailed + 1 } else stats
  s.goto r (.looping (settle fr n.sub (result = .resume)))

/-! ## Workers -/

def carryOut (k : ℕ) (op : Op F) (ok : Bool) : CycleState F A :=
  let broken := (s.sub? k).any SubState.ioErr
  match op with
  | .sendMatch mr idx =>
    if broken then s
    else
      let s := s.record [.sent k mr idx ok]
      if ok then s else s.setErr k
  | .reject req reason =>
    if broken then s
    else
      let s := s.record [.rejected k req reason ok]
      if ok then s else s.setErr k
  | .endRound closeOnly =>
    if closeOnly || broken then s.record [.closed k]
    else
      let s := s.record [.ended k ok]
      if ok then s else s.setErr k

def stepDeliver (i : ℕ) (ok : Bool) : Option (CycleState F A) :=
  match s.pending[i]? with
  | none => none
  | some (k, op) =>
    if (s.pending.take i).all fun p => p.1 ≠ k then
      some (carryOut { s with pending := s.pending.eraseIdx i } k op ok)
    else none

end

/-! ## The machine -/

variable {F A : Type} [Zero F] [One F] [Add F] [Sub F] [Mul F] [Div F] [IntCast F] [BEq F] [LT F]
  [LE F] [DecidableLT F] [DecidableLE F] (c : Cycle F A) (st : CycleSetup F)

section

variable (s : CycleState F A)

def spineStep (l : Label F) : Option (CycleState F A) :=
  match l, s.pc with
  | .group info ads, .idle => some (c.stepGroup st s info ads)
  | .spin ctxErr, .round r =>
    match r.stage with
    | .top => some (c.stepSpin st s r ctxErr)
    | _ => none
  | .prefetch k reply, .round r =>
    match r.stage with
    | .prefetching env todo => c.stepPrefetch st s r env todo k reply
    | _ => none
  | .sub ctxErr now, .round r =>
    match r.stage with
    | .looping fr => c.stepSub st s r fr ctxErr now
    | _ => none
  | .spinEnd, .round r =>
    match r.stage with
    | .looping fr => stepSpinEnd s r fr
    | _ => none
  | .top now, .round r =>
    match r.stage with
    | .negotiating fr n => if n.phase = .top then some (stepTop s r fr n now) else none
    | _ => none
  | .next, .round r =>
    match r.stage with
    | .negotiating fr n => if n.phase = .request then some (c.stepNext s r fr n) else none
    | _ => none
  | .fetch reply, .round r =>
    match r.stage with
    | .negotiating fr n => if n.phase = .fetching then stepFetch s r fr n reply else none
    | _ => none
  | .offer ctxDone sendOk now, .round r =>
    match r.stage with
    | .negotiating fr n =>
      if n.phase = .offer then c.stepOffer s r fr n ctxDone sendOk now else none
    | _ => none
  | .leave now, .round r =>
    match r.stage with
    | .negotiating fr n =>
      match n.phase with
      | .returned result => some (stepLeave s r fr n result now)
      | _ => none
    | _ => none
  | _, _ => none

def step (l : Label F) : Option (CycleState F A) :=
  match l with
  | .deliver i ok => stepDeliver s i ok
  | l => if c.cfg.compatMode && !s.pending.isEmpty then none else c.spineStep st s l

end

/-! ## The start of a cycle -/

structure Snapshot where
  slots : List ClassAd
  submitters : List ClassAd
  claimIDs : Option (GoMap Text Text)

def trimmedSlots (a : A) (snap : Snapshot) : List ClassAd :=
  let trimmed := trimSlots c.lib c.cfg.considerPreemption snap.slots
  if c.cfg.considerPreemption then
    trimmed.map (addRemoteUserPrios c.lib (c.acct.getPriority a) (c.acct.getFloor a)
      (c.acct.getWeightedResourcesUsed a))
  else trimmed

/-- **The part of `Run` before the dispatch**, once the accountant has been brought up to date. -/
def setup (start : ℤ) (sigAttrs : Text) (snap : Snapshot) : CycleSetup F :=
  let (total, least) := sumSlotWeights c.lib (!c.cfg.disableSlotWeights) snap.slots
  { cycleStart := start, sigAttrs, minSlotWeight := least, untrimmedTotal := total
    submitters :=
      if c.cfg.wantGlobalJobPrio then fanOutJobPrios c.lib snap.submitters else snap.submitters }

@[inherit_doc setup]
def start (a : A) (snap : Snapshot) : CycleState F A :=
  let s : CycleState F A :=
    { acct := a, view := .new c.lib (c.trimmedSlots a snap) snap.claimIDs, limits := ∅, subs := []
      pending := [], stats := ⟨0, 0, 0, 0, 0, 0, 0, 0, 0, 0⟩, pc := .idle, log := [] }
  (c.wrapSubmitters st s (List.range st.submitters.length)).1

end Cycle

/-! ## A pool of unit slots

Cycles that can be run: every slot costs one, and the accountant is the list of its charges. -/

def charged (ledger : List (Text × ℚ)) (name : Text) : ℚ :=
  (ledger.filter fun p => p.1 = name || (name ++ ".").isPrefixOf p.1).foldr
    (fun p acc => p.2 + acc) 0

def ledgerAccounting (prio : Text → ℚ) (ceiling : ℚ) : Accounting ℚ (List (Text × ℚ)) where
  getPriority _ := prio
  getWeightedResourcesUsed := charged
  getCeiling _ _ := ceiling
  getFloor _ _ := 0
  getLimit _ _ := 0
  addMatch ledger name _ _ := (name, 1) :: ledger
  setSubmitterShare ledger _ _ _ := ledger

def unitCycle (considerPreemption compatMode : Bool) (prio : Text → ℚ) (ceiling : ℚ) :
    Cycle ℚ (List (Text × ℚ)) where
  lib := literalMatchLibrary id 0
  acct := ledgerAccounting prio ceiling
  cfg :=
    { maxTimePerCycle := 60, maxTimePerSubmitter := 60, maxTimePerSpin := 60, compatMode
      preJobRank := [], postJobRank := [], disableSlotWeights := true, considerPreemption
      preemptionRequirements := [], preemptionRank := [], negotiatorName := []
      jobConstraintText := [], wantGlobalJobPrio := false, matchExprs := []
      concurrencyLimitMax := none }
  mm := { Matchmaker.plainMatchmaker 1 with considerPreemption, useSlotWeights := false }
  jobConstraint := none
  mm_considerPreemption := rfl
  mm_useSlotWeights := rfl

def plainCycle : Cycle ℚ (List (Text × ℚ)) := unitCycle false true (fun _ => 1) (-1)

theorem plainCycle_considerPreemption :
    plainCycle.mm.considerPreemption = plainCycle.cfg.considerPreemption := rfl

theorem plainCycle_useSlotWeights :
    plainCycle.mm.useSlotWeights = !plainCycle.cfg.disableSlotWeights := rfl

def Cycle.execFrom (c : Cycle ℚ (List (Text × ℚ))) (ledger : List (Text × ℚ))
    (snap : Cycle.Snapshot) (ls : List (Label ℚ)) : Option (CycleState ℚ (List (Text × ℚ))) :=
  Runs.exec (c.step (c.setup 0 [] snap)) (c.start (c.setup 0 [] snap) ledger snap) ls

def slotAt (name addr : String) : ClassAd :=
  ⟨[("Name", .lit (.str name.toList)), ("StartdIpAddr", .lit (.str addr.toList))]⟩

def submitterAd (name : String) : ClassAd :=
  ⟨[("Name", .lit (.str name.toList)), ("ScheddName", .lit (.str "schedd")),
    ("ScheddIpAddr", .lit (.str "addr")), ("IdleJobs", .lit (.int 9))]⟩

def jobs (count : ℤ) : Request := ⟨⟨[]⟩, 1, 0, 0, count⟩

def flatRound : RoundInfo ℚ := ⟨[], none, false, false, fun _ => none⟩

end GolangCollector.Negotiator
