import Mathlib.Algebra.Order.Field.Rat
import Mathlib.Data.List.SplitLengths
import GolangCollector.Negotiator.Concurrency
import GolangCollector.Negotiator.SlotView

/-! # The sharded scan

For one request the matchmaker evaluates every live slot: requirements of both sides, concurrency
limits that depend on the match, the preemption tier, the submitter limit of that tier, and the rank
tuple (`evalCandidate`). The slots are cut into contiguous shards, one per worker; each worker keeps
its best candidate and its counters, and a last scan goes over the workers' winners
(`matchmaker/shard.go`). -/

namespace GolangCollector.Negotiator

open GoStrings Selection List

/-! ## The matchmaker -/

/-- **`Matchmaker`**: the parsed expressions, and how the scan is run. -/
structure Matchmaker where
  preJobRank : Option Expr
  postJobRank : Option Expr
  considerPreemption : Bool
  preemptionReq : Option Expr
  preemptionRank : Option Expr
  rankCondStd : Expr
  rankCondPrioPreempt : Expr
  workers : ℕ
  useSlotWeights : Bool

def parseRankExpr {F : Type} (lib : MatchLibrary F) (s : Text) : Option (Option Expr) :=
  if trimSpace s = [] then some none else (lib.parseExpr s).map some

/-! ## Ranks and gates -/

def rankUnset : ℤ := -(2 ^ 1024 - 2 ^ 971)

def preemptRankDef : ℤ := -(2 ^ 128 - 2 ^ 104)

section

variable {F : Type} (lib : MatchLibrary F) (job slot : ClassAd)

def rankRight [IntCast F] (expr : Option Expr) : F :=
  (expr.bind fun e => (lib.evaluateExprRight job slot e).numberOf).getD (rankUnset : F)

def jobRank [Zero F] : F := (lib.evaluateRankLeft job slot).getD 0

def evalBoolRight (expr : Expr) : Bool := (lib.evaluateExprRight job slot expr).isTrue

end

def submitterLimitPermits {F : Type} [Zero F] [Add F] [LT F] [LE F] [DecidableLT F] [DecidableLE F]
    (used allowed cost : F) : Bool :=
  if used + cost ≤ allowed then true else used ≤ 0 && 0 < allowed

inductive Skip where
  /-- The requirements of one side are not met. -/
  | requirements
  | concurrency
  | preemptPolicy
  | preemptRank
  /-- The slot is not up for preemption by this request. -/
  | notPreemptable
  | submitterLimit
  deriving DecidableEq, Repr

structure RejCounters where
  submitterLimit : ℕ
  preemptPolicy : ℕ
  preemptRank : ℕ
  concurrency : ℕ
  deriving DecidableEq, Repr

namespace RejCounters

def zero : RejCounters := ⟨0, 0, 0, 0⟩

def add (r o : RejCounters) : RejCounters :=
  ⟨r.submitterLimit + o.submitterLimit, r.preemptPolicy + o.preemptPolicy,
    r.preemptRank + o.preemptRank, r.concurrency + o.concurrency⟩

def bump (r : RejCounters) : Skip → RejCounters
  | .submitterLimit => { r with submitterLimit := r.submitterLimit + 1 }
  | .preemptPolicy => { r with preemptPolicy := r.preemptPolicy + 1 }
  | .preemptRank => { r with preemptRank := r.preemptRank + 1 }
  | .concurrency => { r with concurrency := r.concurrency + 1 }
  | .requirements | .notPreemptable => r

end RejCounters

/-! ## One candidate -/

namespace Matchmaker

section

variable {F : Type} (lib : MatchLibrary F) (m : Matchmaker) (job : ClassAd)
  (limits : MatchLimits F) (matchConc : Bool)

def classifyPreemption (slot : ClassAd) : Except Skip PreemptTier :=
  let remoteUser := lib.remoteUserOf slot
  if limits.onlyForStartdRank then
    if remoteUser = [] then .error .notPreemptable
    else if !evalBoolRight lib job slot m.rankCondStd then .error .notPreemptable
    else .ok .rank
  else if remoteUser ≠ [] then
    if evalBoolRight lib job slot m.rankCondStd then .ok .rank
    else if remoteUser ≠ limits.submitterName then
      if m.preemptionReq.any fun req => !evalBoolRight lib job slot req then .error .preemptPolicy
      else if !evalBoolRight lib job slot m.rankCondPrioPreempt then .error .preemptRank
      else .ok .prio
    else .error .notPreemptable
  else .ok .none

variable [Zero F] [One F] [Add F] [IntCast F] [LT F] [LE F] [DecidableLT F] [DecidableLE F]

def submitterLimitGate (tier : PreemptTier) (cost : F) : Bool :=
  if !m.considerPreemption then submitterLimitPermits limits.limitUsed limits.submitterLimit cost
  else
    match tier with
    | .rank => true
    | .prio => submitterLimitPermits limits.limitUsed limits.submitterLimit cost
    | .none =>
      submitterLimitPermits limits.limitUsedUnclaimed limits.submitterLimitUnclaimed cost

def concurrencyRejects (slot : ClassAd) : Bool :=
  matchConc &&
    match (lib.evaluateAttrLeft job slot "ConcurrencyLimits").stringValue,
        limits.concurrency with
    | some s, some v => s ≠ [] && (rejectForConcurrencyLimits lib s v).isSome
    | _, _ => false

def ranked (c : CandRef) (tier : PreemptTier) : Candidate F where
  slot := c.slot
  preJobRank := rankRight lib job c.slot m.preJobRank
  rank := jobRank lib job c.slot
  postJobRank := rankRight lib job c.slot m.postJobRank
  preemptTier := tier
  preemptRank :=
    if tier ≠ .none then rankRight lib job c.slot m.preemptionRank else (preemptRankDef : F)
  scanIndex := c.idx

def tierOf (slot : ClassAd) : Except Skip PreemptTier :=
  if m.considerPreemption then m.classifyPreemption lib job limits slot else .ok .none

def evalCandidate (c : CandRef) : Except Skip (Candidate F) :=
  if !lib.symmetry job c.slot then .error .requirements
  else if concurrencyRejects lib job limits matchConc c.slot then .error .concurrency
  else
    match m.tierOf lib job limits c.slot with
    | .error why => .error why
    | .ok tier =>
      if !m.submitterLimitGate limits tier (lib.slotWeight m.useSlotWeights c.slot) then
        .error .submitterLimit
      else .ok (m.ranked lib job c tier)

/-! ## Scans -/

variable [BEq F]

def scanRange (cands : List CandRef) : Option (Candidate F) × RejCounters :=
  cands.foldl
    (fun acc c =>
      match m.evalCandidate lib job limits matchConc c with
      | .error why => (acc.1, acc.2.bump why)
      | .ok cand => (keepBetter Candidate.better acc.1 cand, acc.2))
    (none, .zero)

def shardSizes (n nw : ℕ) : List ℕ :=
  (List.range nw).map fun w => if w < n % nw then n / nw + 1 else n / nw

def parallelScan (cands : List CandRef) : Option (Candidate F) × RejCounters :=
  let n := cands.length
  let nw := min m.workers n
  if n = 0 then (none, .zero)
  else if nw ≤ 1 then m.scanRange lib job limits matchConc cands
  else
    ((shardSizes n nw).splitLengths cands).foldl
      (fun acc shard =>
        let r := m.scanRange lib job limits matchConc shard
        match r.1 with
        | none => (acc.1, acc.2.add r.2)
        | some best => (keepBetter Candidate.better acc.1 best, acc.2.add r.2))
      (none, .zero)

end

/-! ## What the scans compute -/

section

variable {F : Type} {lib : MatchLibrary F} {m : Matchmaker} {job : ClassAd}
  {limits : MatchLimits F} {matchConc : Bool}
variable [Zero F] [One F] [Add F] [IntCast F] [LT F] [LE F] [DecidableLT F] [DecidableLE F]

theorem evalCandidate_eq_ok_iff {c : CandRef} {cand : Candidate F} :
    m.evalCandidate lib job limits matchConc c = .ok cand ↔
      lib.symmetry job c.slot ∧ ¬ concurrencyRejects lib job limits matchConc c.slot ∧
        ∃ tier, m.tierOf lib job limits c.slot = .ok tier ∧
          m.submitterLimitGate limits tier (lib.slotWeight m.useSlotWeights c.slot) ∧
          m.ranked lib job c tier = cand := by
  rw [evalCandidate]
  cases hreq : lib.symmetry job c.slot with
  | false => simp
  | true =>
    cases hconc : concurrencyRejects lib job limits matchConc c.slot with
    | true => simp
    | false =>
      cases htier : m.tierOf lib job limits c.slot with
      | error why => simp
      | ok tier =>
        cases hgate : m.submitterLimitGate limits tier
          (lib.slotWeight m.useSlotWeights c.slot) <;> simp [hgate]

def passing (lib : MatchLibrary F) (m : Matchmaker) (job : ClassAd) (limits : MatchLimits F)
    (matchConc : Bool) (cands : List CandRef) : List (Candidate F) :=
  cands.filterMap fun c => (m.evalCandidate lib job limits matchConc c).toOption

def skippedFor (lib : MatchLibrary F) (m : Matchmaker) (job : ClassAd) (limits : MatchLimits F)
    (matchConc : Bool) (why : Skip) (c : CandRef) : Bool :=
  match m.evalCandidate lib job limits matchConc c with
  | .error why' => why' = why
  | .ok _ => false

def countRejects (lib : MatchLibrary F) (m : Matchmaker) (job : ClassAd) (limits : MatchLimits F)
    (matchConc : Bool) (cands : List CandRef) : RejCounters where
  submitterLimit := cands.countP (skippedFor lib m job limits matchConc .submitterLimit)
  preemptPolicy := cands.countP (skippedFor lib m job limits matchConc .preemptPolicy)
  preemptRank := cands.countP (skippedFor lib m job limits matchConc .preemptRank)
  concurrency := cands.countP (skippedFor lib m job limits matchConc .concurrency)

theorem toOption_eq_some_iff {ε α : Type} {e : Except ε α} {a : α} :
    e.toOption = some a ↔ e = .ok a := by
  cases e <;> simp [Except.toOption]

theorem mem_passing_iff {cands : List CandRef} {cand : Candidate F} :
    cand ∈ passing lib m job limits matchConc cands ↔
      ∃ c ∈ cands, m.evalCandidate lib job limits matchConc c = .ok cand := by
  simp only [passing, mem_filterMap, toOption_eq_some_iff]

theorem passing_append (l₁ l₂ : List CandRef) :
    passing lib m job limits matchConc (l₁ ++ l₂) =
      passing lib m job limits matchConc l₁ ++ passing lib m job limits matchConc l₂ :=
  filterMap_append

theorem countRejects_append (l₁ l₂ : List CandRef) :
    countRejects lib m job limits matchConc (l₁ ++ l₂) =
      (countRejects lib m job limits matchConc l₁).add
        (countRejects lib m job limits matchConc l₂) := by
  simp [countRejects, RejCounters.add]

variable [BEq F]

theorem scanRange_eq (cands : List CandRef) :
    m.scanRange lib job limits matchConc cands =
      (bestOf Candidate.better (passing lib m job limits matchConc cands),
        countRejects lib m job limits matchConc cands) := by
  induction cands using reverseRecOn with
  | nil => rfl
  | append_singleton cands c ih =>
    rw [scanRange, foldl_append, ← scanRange, ih, countRejects_append, passing_append]
    simp only [foldl_cons, foldl_nil]
    cases h : m.evalCandidate lib job limits matchConc c with
    | error why =>
      have hcount :
          countRejects lib m job limits matchConc [c] = RejCounters.zero.bump why := by
        cases why <;> simp [countRejects, skippedFor, h, RejCounters.bump, RejCounters.zero]
      have hpass : passing lib m job limits matchConc [c] = [] := by
        simp [passing, h, Except.toOption]
      rw [hcount, hpass, append_nil]
      cases why <;> rfl
    | ok cand =>
      have hcount : countRejects lib m job limits matchConc [c] = .zero := by
        simp [countRejects, skippedFor, h, RejCounters.zero]
      have hpass : passing lib m job limits matchConc [c] = [cand] := by
        simp [passing, h, Except.toOption]
      rw [hcount, hpass, bestOf_concat]
      rfl

theorem sum_shardSizes {n nw : ℕ} (hnw : 0 < nw) : (shardSizes n nw).sum = n := by
  have hsum : ∀ k r q : ℕ, ((range k).map fun w => if w < r then q + 1 else q).sum =
      k * q + min k r := by
    intro k r q
    induction k with
    | zero => simp
    | succ k ih =>
      rw [range_succ, map_append, sum_append, ih, Nat.succ_mul]
      by_cases hk : k < r
      · simp only [map_cons, map_nil, hk, if_true, sum_singleton]
        omega
      · simp only [map_cons, map_nil, hk, if_false, sum_singleton]
        omega
  rw [shardSizes, hsum, min_eq_right (Nat.mod_lt n hnw).le, Nat.div_add_mod]

variable (lib m job limits matchConc) in
theorem foldl_shards (shards : List (List CandRef)) :
    shards.foldl
        (fun acc shard =>
          let r := m.scanRange lib job limits matchConc shard
          match r.1 with
          | none => (acc.1, acc.2.add r.2)
          | some best => (keepBetter Candidate.better acc.1 best, acc.2.add r.2))
        (none, .zero) =
      (bestOf Candidate.better
          ((shards.map (passing lib m job limits matchConc)).filterMap (bestOf Candidate.better)),
        countRejects lib m job limits matchConc shards.flatten) := by
  induction shards using reverseRecOn with
  | nil => rfl
  | append_singleton shards shard ih =>
    rw [foldl_append, ih, map_append, filterMap_append, flatten_concat,
      countRejects_append]
    simp only [foldl_cons, foldl_nil, map_cons, map_nil, scanRange_eq]
    cases h : bestOf Candidate.better (passing lib m job limits matchConc shard) with
    | none => rw [filterMap_cons_none h, filterMap_nil, append_nil]
    | some best => rw [filterMap_cons_some h, filterMap_nil, bestOf_concat]

variable (lib m job limits matchConc) in
theorem parallelScan_eq (cands : List CandRef) :
    ∃ shards : List (List CandRef), shards.flatten = cands ∧
      m.parallelScan lib job limits matchConc cands =
        (bestOf Candidate.better
            ((shards.map (passing lib m job limits matchConc)).filterMap (bestOf Candidate.better)),
          countRejects lib m job limits matchConc cands) := by
  rw [parallelScan]
  by_cases hn : cands.length = 0
  · obtain rfl := length_eq_zero_iff.mp hn
    exact ⟨[], rfl, rfl⟩
  · by_cases hnw : min m.workers cands.length ≤ 1
    · refine ⟨[cands], flatten_singleton, ?_⟩
      simp only [hn, hnw, if_false, if_true, scanRange_eq, map_cons, map_nil]
      cases h : bestOf Candidate.better (passing lib m job limits matchConc cands) with
      | none => rw [filterMap_cons_none h, filterMap_nil, bestOf_nil]
      | some best => rw [filterMap_cons_some h, filterMap_nil]; rfl
    · have hflat : ((shardSizes cands.length (min m.workers cands.length)).splitLengths
          cands).flatten = cands :=
        flatten_splitLengths _ _ (sum_shardSizes (by omega)).ge
      refine ⟨_, hflat, ?_⟩
      simp only [hn, hnw, if_false]
      rw [foldl_shards lib m job limits matchConc, hflat]

end

/-! ## The number of workers -/

section

variable {R : Type} [LinearOrder R] [Zero R] [One R] [Add R] [IntCast R]
variable (lib : MatchLibrary (GoFloat R)) (m : Matchmaker) (job : ClassAd)
  (limits : MatchLimits (GoFloat R)) (matchConc : Bool)

def candidatesOf (S : Set ClassAd) : Set (Candidate (GoFloat R)) :=
  {cand | ∃ slot ∈ S, m.evalCandidate lib job limits matchConc ⟨0, slot⟩ = .ok cand}

variable {lib m job limits matchConc}

theorem evalCandidate_ok_withIndex {i j : ℕ} {slot : ClassAd} {cand : Candidate (GoFloat R)}
    (h : m.evalCandidate lib job limits matchConc ⟨i, slot⟩ = .ok cand) :
    m.evalCandidate lib job limits matchConc ⟨j, slot⟩ = .ok { cand with scanIndex := j } := by
  obtain ⟨hreq, hconc, tier, htier, hgate, rfl⟩ := evalCandidate_eq_ok_iff.mp h
  exact evalCandidate_eq_ok_iff.mpr ⟨hreq, hconc, tier, htier, hgate, rfl⟩

theorem passing_pairwise {cands : List CandRef} (h : cands.Pairwise fun a b => a.idx < b.idx) :
    (passing lib m job limits matchConc cands).Pairwise fun a b => a.scanIndex < b.scanIndex := by
  have hidx : ∀ {c : CandRef} {cand : Candidate (GoFloat R)},
      (m.evalCandidate lib job limits matchConc c).toOption = some cand →
        cand.scanIndex = c.idx := fun hc => by
    obtain ⟨-, -, tier, -, -, rfl⟩ := evalCandidate_eq_ok_iff.mp (toOption_eq_some_iff.mp hc)
    rfl
  rw [passing, pairwise_filterMap]
  refine h.imp fun {a b} hab a' ha' b' hb' => ?_
  rw [hidx ha', hidx hb']
  exact hab

theorem parallelScan_eq_of_cotransitive {S : Set ClassAd}
    (hco : Cotransitive Candidate.outranks (candidatesOf lib m job limits matchConc S))
    {cands : List CandRef} (hidx : cands.Pairwise fun a b => a.idx < b.idx)
    (hS : ∀ c ∈ cands, c.slot ∈ S) :
    m.parallelScan lib job limits matchConc cands =
      (bestOf Candidate.better (passing lib m job limits matchConc cands),
        countRejects lib m job limits matchConc cands) := by
  obtain ⟨shards, hflat, hscan⟩ := parallelScan_eq lib m job limits matchConc cands
  have hpassing : (shards.map (passing lib m job limits matchConc)).flatten =
      passing lib m job limits matchConc cands := by
    rw [← hflat, passing, filterMap_flatten]
    rfl
  have hagree : (passing lib m job limits matchConc cands).Pairwise fun x y =>
      y.better x = y.outranks x :=
    (passing_pairwise hidx).imp fun h => Candidate.better_eq_outranks h
  have hco' : Cotransitive Candidate.outranks
      {x | x ∈ passing lib m job limits matchConc cands} := by
    -- a candidate at its place compares like the candidate of its slot at place 0
    have hplace : ∀ x ∈ passing lib m job limits matchConc cands,
        { x with scanIndex := 0 } ∈ candidatesOf lib m job limits matchConc S := by
      intro x hx
      obtain ⟨c, hc, heval⟩ := mem_passing_iff.mp hx
      exact ⟨c.slot, hS c hc, evalCandidate_ok_withIndex heval⟩
    intro x hx a ha c hc
    have hplaced := hco _ (hplace x hx) _ (hplace a ha) _ (hplace c hc)
    exact hplaced
  rw [hscan, bestOf_flatten_of_agree (hpassing ▸ hagree) Candidate.outranks_trans
    (hpassing ▸ hco'), hpassing]

theorem cotransitive_of_workers_agree {S : Set ClassAd}
    (h : ∀ cands : List CandRef, cands.Pairwise (fun a b => a.idx < b.idx) →
      (∀ c ∈ cands, c.slot ∈ S) →
        ({ m with workers := 1 } : Matchmaker).parallelScan lib job limits matchConc cands =
          ({ m with workers := 2 } : Matchmaker).parallelScan lib job limits matchConc cands) :
    Cotransitive Candidate.outranks (candidatesOf lib m job limits matchConc S) := by
  rintro x ⟨sx, hsx, hx⟩ a ⟨sa, hsa, ha⟩ c ⟨sc, hsc, hc⟩ hcx
  by_contra hno
  obtain ⟨hca, hax⟩ := not_or.mp hno
  have hbetter : ∀ (i j : ℕ) (y z : Candidate (GoFloat R)), i < j →
      ({ z with scanIndex := j } : Candidate (GoFloat R)).better { y with scanIndex := i } =
        z.outranks y := fun i j y z hij => Candidate.better_eq_outranks hij
  have hpass : ∀ (i : ℕ) {s : ClassAd} {y : Candidate (GoFloat R)},
      m.evalCandidate lib job limits matchConc ⟨0, s⟩ = .ok y →
        (m.evalCandidate lib job limits matchConc ⟨i, s⟩).toOption =
          some { y with scanIndex := i } :=
    fun i s y hy => toOption_eq_some_iff.mpr (evalCandidate_ok_withIndex hy)
  have hbest : ∀ cands best, bestOf Candidate.better (passing lib m job limits matchConc cands) =
      some best → (m.scanRange lib job limits matchConc cands).1 = some best :=
    fun cands best hb => by rw [scanRange_eq, hb]
  have hone : (({ m with workers := 1 } : Matchmaker).parallelScan lib job limits matchConc
      [⟨0, sx⟩, ⟨1, sx⟩, ⟨2, sa⟩, ⟨3, sc⟩]).1 = some { c with scanIndex := 3 } := by
    refine hbest [⟨0, sx⟩, ⟨1, sx⟩, ⟨2, sa⟩, ⟨3, sc⟩] _ ?_
    simp [passing, hpass 0 hx, hpass 1 hx, hpass 2 ha, hpass 3 hc, bestOf, keepBetter, hbetter,
      Candidate.outranks_irrefl, hax, hcx]
  have htwo : (({ m with workers := 2 } : Matchmaker).parallelScan lib job limits matchConc
      [⟨0, sx⟩, ⟨1, sx⟩, ⟨2, sa⟩, ⟨3, sc⟩]).1 = some { x with scanIndex := 0 } := by
    have hsplit : (shardSizes 4 2).splitLengths
        [⟨0, sx⟩, ⟨1, sx⟩, ⟨2, sa⟩, (⟨3, sc⟩ : CandRef)] =
          [[⟨0, sx⟩, ⟨1, sx⟩], [⟨2, sa⟩, ⟨3, sc⟩]] := by
      simp [shardSizes, range_succ]
    have hshards := foldl_shards lib m job limits matchConc ((shardSizes 4 2).splitLengths
      [⟨0, sx⟩, ⟨1, sx⟩, ⟨2, sa⟩, ⟨3, sc⟩])
    refine (congrArg Prod.fst hshards).trans ?_
    rw [hsplit]
    simp [passing, hpass 0 hx, hpass 1 hx, hpass 2 ha, hpass 3 hc, bestOf, keepBetter, hbetter,
      Candidate.outranks_irrefl, hax, hca]
  have heq := h [⟨0, sx⟩, ⟨1, sx⟩, ⟨2, sa⟩, ⟨3, sc⟩] (by simp) (by simp [hsx, hsa, hsc])
  rw [heq, htwo, Option.some.injEq, Candidate.mk.injEq] at hone
  exact absurd hone.2.2.2.2.2.2 (by decide)

/-- **The number of workers does not matter exactly when outranking is cotransitive.** -/
theorem parallelScan_workers_iff (lib : MatchLibrary (GoFloat R)) (m : Matchmaker) (job : ClassAd)
    (limits : MatchLimits (GoFloat R)) (matchConc : Bool) (S : Set ClassAd) :
    (∀ cands : List CandRef, cands.Pairwise (fun a b => a.idx < b.idx) →
      (∀ c ∈ cands, c.slot ∈ S) → ∀ w₁ w₂, 1 ≤ w₁ → 1 ≤ w₂ →
        ({ m with workers := w₁ } : Matchmaker).parallelScan lib job limits matchConc cands =
          ({ m with workers := w₂ } : Matchmaker).parallelScan lib job limits matchConc cands) ↔
      Cotransitive Candidate.outranks (candidatesOf lib m job limits matchConc S) := by
  constructor
  · exact fun h => cotransitive_of_workers_agree fun cands hidx hS =>
      h cands hidx hS 1 2 le_rfl (by decide)
  · intro hco cands hidx hS w₁ w₂ _ _
    exact (parallelScan_eq_of_cotransitive (m := { m with workers := w₁ }) hco hidx hS).trans
      (parallelScan_eq_of_cotransitive (m := { m with workers := w₂ }) hco hidx hS).symm

end

def scoringJob : ClassAd := ⟨[("Rank", .attributeReference .targetScope "Score")]⟩

def scoredSlot (score : Expr) : ClassAd := ⟨[("Score", score)]⟩

def plainMatchmaker (workers : ℕ) : Matchmaker where
  preJobRank := none
  postJobRank := none
  considerPreemption := false
  preemptionReq := none
  preemptionRank := none
  rankCondStd := .lit .undefined
  rankCondPrioPreempt := .lit .undefined
  workers := workers
  useSlotWeights := true

def oneSlotLimits (F : Type) [Zero F] [One F] : MatchLimits F where
  submitterLimit := 1
  limitUsed := 0
  pieLeft := 1
  ceiling := 1
  submitterLimitUnclaimed := 1
  limitUsedUnclaimed := 0
  onlyForStartdRank := false
  submitterName := "user"
  concurrency := none

theorem two_workers_miss_the_best :
    let scan := fun workers => (plainMatchmaker workers).parallelScan
      (literalMatchLibrary (fun q => GoFloat.num q.num) .nan) scoringJob (oneSlotLimits _) false
      [⟨0, scoredSlot (.lit (.real 2))⟩, ⟨1, scoredSlot (.lit (.real 1))⟩,
        ⟨2, scoredSlot (.functionCall "real" (.cons (.lit (.str "NaN")) .nil))⟩,
        ⟨3, scoredSlot (.lit (.real 3))⟩]
    (scan 1).1.map Candidate.scanIndex = some 3 ∧ (scan 2).1.map Candidate.scanIndex = some 0 := by
  decide +kernel

end Matchmaker

end GolangCollector.Negotiator
