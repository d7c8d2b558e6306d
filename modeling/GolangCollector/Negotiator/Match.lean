import GolangCollector.Negotiator.Scan

/-! # The best match for one request

`Match` first holds the request to the concurrency limits it names by itself, then scans the live
slots, and turns an empty scan into the reason sent to the schedd (`matchmaker/matchmaker.go`). The
specification says what a candidate is slot by slot (`Eligible`), without the scan: `Match` returns
the greatest candidate by key, and where there is none the first reason that some slot gives. -/

namespace GolangCollector.Negotiator

open GoStrings Selection List Option

/-! ## The function -/

/-- The reject reasons of the ladder. -/
def reasonNoMatch : Text := "no match found"

@[inherit_doc reasonNoMatch]
def reasonSubmitterLimit : Text := "submitter limit exceeded"

@[inherit_doc reasonNoMatch]
def reasonPreemptionPolicy : Text := "PREEMPTION_REQUIREMENTS == False"

@[inherit_doc reasonNoMatch]
def reasonConcurrencyLimitMatch : Text :=
  "concurrency limit reached for all candidate matches"

def reasonConcurrencyLimit (names : Text) : Text :=
  "concurrency limit " ++ names ++ " reached"

def RejCounters.reason (rej : RejCounters) : Text :=
  if 0 < rej.concurrency then reasonConcurrencyLimitMatch
  else if 0 < rej.preemptPolicy then reasonPreemptionPolicy
  else if 0 < rej.submitterLimit then reasonSubmitterLimit
  else reasonNoMatch

namespace Matchmaker

section

variable {F : Type} (lib : MatchLibrary F) [Zero F] [One F] [Add F] [IntCast F] [LT F] [LE F]
  [DecidableLT F] [DecidableLE F]

def gateRequest (job : ClassAd) (limits : MatchLimits F) : Except Text Bool :=
  match limits.concurrency with
  | none => .ok false
  | some v =>
    match lib.evaluateAttrString job "ConcurrencyLimits" with
    | some cl =>
      if cl ≠ [] then
        match rejectForConcurrencyLimits lib cl v with
        | some names => .error names
        | none => .ok false
      else .ok false
    | none => .ok (job.lookup "ConcurrencyLimits").isSome

variable [BEq F] (m : Matchmaker)

def matchRequest (ctxErr : Bool) (req : Request) (view : SlotView) (limits : MatchLimits F) :
    Option (Except RejectInfo (Candidate F)) :=
  if ctxErr then none
  else
    match gateRequest lib req.ad limits with
    | .error names =>
      some (.error ⟨reasonConcurrencyLimit names, 0, 1, 0, 0⟩)
    | .ok matchConc =>
      let (best, rej) := m.parallelScan lib req.ad limits matchConc view.gather
      match best with
      | some cand => some (.ok cand)
      | none => some (.error ⟨rej.reason, rej.submitterLimit, rej.concurrency, rej.preemptPolicy,
          rej.preemptRank⟩)

end

/-! ## What a candidate is -/

section

variable {F : Type} (lib : MatchLibrary F) (m : Matchmaker) (job : ClassAd)
  (limits : MatchLimits F) (matchConc : Bool)

inductive Classified (slot : ClassAd) : PreemptTier → Prop where
  | off (hoff : m.considerPreemption = false) : Classified slot .none
  | unclaimed (hon : m.considerPreemption = true) (hall : limits.onlyForStartdRank = false)
      (huser : lib.remoteUserOf slot = []) : Classified slot .none
  | rank (hon : m.considerPreemption = true) (huser : lib.remoteUserOf slot ≠ [])
      (hprefers : evalBoolRight lib job slot m.rankCondStd) : Classified slot .rank
  | prio (hon : m.considerPreemption = true) (hall : limits.onlyForStartdRank = false)
      (huser : lib.remoteUserOf slot ≠ []) (hother : lib.remoteUserOf slot ≠ limits.submitterName)
      (hprefers : ¬ evalBoolRight lib job slot m.rankCondStd)
      (hpolicy : ∀ req ∈ m.preemptionReq, evalBoolRight lib job slot req)
      (hrank : evalBoolRight lib job slot m.rankCondPrioPreempt) : Classified slot .prio

structure KeptByPolicy (slot : ClassAd) : Prop where
  on : m.considerPreemption = true
  all : limits.onlyForStartdRank = false
  user : lib.remoteUserOf slot ≠ []
  other : lib.remoteUserOf slot ≠ limits.submitterName
  prefers : ¬ evalBoolRight lib job slot m.rankCondStd
  policy : ∃ req ∈ m.preemptionReq, ¬ evalBoolRight lib job slot req

variable [Zero F] [One F] [Add F] [IntCast F] [LT F] [LE F]

def Fits (used allowed cost : F) : Prop := used + cost ≤ allowed ∨ used ≤ 0 ∧ 0 < allowed

def Permitted (cost : F) : PreemptTier → Prop
  | .rank => True
  | .prio => Fits limits.limitUsed limits.submitterLimit cost
  | .none =>
    if m.considerPreemption then
      Fits limits.limitUsedUnclaimed limits.submitterLimitUnclaimed cost
    else Fits limits.limitUsed limits.submitterLimit cost

variable [DecidableLT F] [DecidableLE F]

def OverLimitWith (slot : ClassAd) : Prop :=
  matchConc = true ∧ ∃ s v, lib.evaluateAttrLeft job slot "ConcurrencyLimits" = .str s ∧
    limits.concurrency = some v ∧ s ≠ [] ∧
      ∃ p ∈ (splitLimits (toLower s)).filterMap (parseLimitToken lib), v.exceeds p.1 p.2

/-- **An eligible slot**, with its tier. -/
structure Eligible (view : SlotView) (i : ℕ) (slot : ClassAd) (tier : PreemptTier) : Prop where
  slot_eq : view.slots[i]? = some slot
  live : view.isLive i
  requirements : lib.symmetry job slot
  concurrency : ¬ OverLimitWith lib job limits matchConc slot
  tier_eq : Classified lib m job limits slot tier
  limit : Permitted m limits (lib.slotWeight m.useSlotWeights slot) tier

def eligible (view : SlotView) : Set (Candidate F) :=
  {cand | ∃ i slot tier, Eligible lib m job limits matchConc view i slot tier ∧
    m.ranked lib job ⟨i, slot⟩ tier = cand}

noncomputable def liveCount (view : SlotView) (P : ClassAd → Prop) : ℕ :=
  open Classical in
  view.slots.zipIdx.countP fun p => view.isLive p.2 && decide (P p.1)

def RefusedByConcurrency (slot : ClassAd) : Prop :=
  lib.symmetry job slot ∧ OverLimitWith lib job limits matchConc slot

def RefusedByPolicy (slot : ClassAd) : Prop :=
  lib.symmetry job slot ∧ ¬ OverLimitWith lib job limits matchConc slot ∧
    KeptByPolicy lib m job limits slot

def RefusedByLimit (slot : ClassAd) : Prop :=
  lib.symmetry job slot ∧ ¬ OverLimitWith lib job limits matchConc slot ∧
    ∃ tier, Classified lib m job limits slot tier ∧
      ¬ Permitted m limits (lib.slotWeight m.useSlotWeights slot) tier

end

/-! ## The code meets the specification, slot by slot -/

section

variable {F : Type} {lib : MatchLibrary F} {m : Matchmaker} {job : ClassAd}
  {limits : MatchLimits F} {matchConc : Bool} {slot : ClassAd} {tier : PreemptTier}

theorem tierOf_eq_ok_iff :
    m.tierOf lib job limits slot = .ok tier ↔ Classified lib m job limits slot tier := by
  constructor
  · intro h
    rw [tierOf] at h
    split at h
    · next hon =>
      rw [classifyPreemption] at h
      split_ifs at h with hrankOnly huser hpref huser hpref hother hpolicy hrank
      · cases h
        exact .rank hon huser (by simpa using hpref)
      · cases h
        exact .rank hon huser hpref
      · cases h
        exact .prio hon (by simpa using hrankOnly) huser hother hpref
          (by simpa [Option.any_eq_true] using hpolicy) (by simpa using hrank)
      · cases h
        exact .unclaimed hon (by simpa using hrankOnly) (by simpa using huser)
    · next hoff =>
      cases h
      exact .off (by simpa using hoff)
  · intro h
    cases h with
    | off hoff => simp [tierOf, hoff]
    | unclaimed hon hall huser => simp [tierOf, classifyPreemption, hon, hall, huser]
    | rank hon huser hprefers => simp [tierOf, classifyPreemption, hon, huser, hprefers]
    | prio hon hall huser hother hprefers hpolicy hrank =>
      have hany : (m.preemptionReq.any fun req => !evalBoolRight lib job slot req) = false := by
        cases hreq : m.preemptionReq <;> simp_all
      simp [tierOf, classifyPreemption, hon, hall, huser, hother, hprefers, hany, hrank]

theorem tierOf_eq_preemptPolicy_iff :
    m.tierOf lib job limits slot = .error .preemptPolicy ↔ KeptByPolicy lib m job limits slot := by
  constructor
  · intro h
    rw [tierOf] at h
    split at h
    · next hon =>
      rw [classifyPreemption] at h
      split_ifs at h with hrankOnly huser hpref huser hpref hother hpolicy hrank
      · cases h
      · cases h
      · exact ⟨hon, by simpa using hrankOnly, huser, hother, hpref,
          by simpa [Option.any_eq_true] using hpolicy⟩
      · cases h
      · cases h
    · cases h
  · rintro ⟨hon, hall, huser, hother, hpref, req, hreq, hpolicy⟩
    rw [mem_def] at hreq
    simp [tierOf, classifyPreemption, hon, hall, huser, hother, hpref, hreq, hpolicy]

variable {why : Skip}

theorem tierOf_eq_error (h : m.tierOf lib job limits slot = .error why) :
    why = .preemptPolicy ∨ why = .preemptRank ∨ why = .notPreemptable := by
  rw [tierOf] at h
  split at h
  · rw [classifyPreemption] at h
    split_ifs at h <;> cases h <;> simp
  · cases h

variable [Zero F] [Add F] [LT F] [LE F] [DecidableLT F] [DecidableLE F]

theorem submitterLimitPermits_iff {used allowed cost : F} :
    submitterLimitPermits used allowed cost = true ↔ Fits used allowed cost := by
  by_cases h : used + cost ≤ allowed <;> simp [submitterLimitPermits, Fits, h]

theorem submitterLimitGate_iff (htier : Classified lib m job limits slot tier) (cost : F) :
    m.submitterLimitGate limits tier cost = true ↔ Permitted m limits cost tier := by
  cases htier with
  | off hoff => simp [submitterLimitGate, Permitted, hoff, submitterLimitPermits_iff]
  | unclaimed hon => simp [submitterLimitGate, Permitted, hon, submitterLimitPermits_iff]
  | rank hon => simp [submitterLimitGate, Permitted, hon]
  | prio hon => simp [submitterLimitGate, Permitted, hon, submitterLimitPermits_iff]

variable [One F]

theorem concurrencyRejects_iff :
    concurrencyRejects lib job limits matchConc slot = true ↔
      OverLimitWith lib job limits matchConc slot := by
  rw [concurrencyRejects, OverLimitWith, Bool.and_eq_true]
  refine and_congr_right fun _ => ?_
  cases hs : lib.evaluateAttrLeft job slot "ConcurrencyLimits" with
  | str s =>
    cases hv : limits.concurrency with
    | none => simp [MatchValue.stringValue]
    | some v =>
      simp [MatchValue.stringValue, rejectForConcurrencyLimits_isSome_iff]
  | _ => simp [MatchValue.stringValue]

variable [IntCast F] {view : SlotView} {cand : Candidate F}

theorem evalCandidate_eq_ok_iff_eligible {i : ℕ} (hslot : view.slots[i]? = some slot)
    (hlive : view.isLive i) :
    m.evalCandidate lib job limits matchConc ⟨i, slot⟩ = .ok cand ↔
      ∃ tier, Eligible lib m job limits matchConc view i slot tier ∧
        m.ranked lib job ⟨i, slot⟩ tier = cand := by
  rw [evalCandidate_eq_ok_iff]
  constructor
  · rintro ⟨hreq, hconc, tier, htier, hgate, rfl⟩
    have hclass := tierOf_eq_ok_iff.mp htier
    exact ⟨tier, ⟨hslot, hlive, hreq, fun h => hconc (concurrencyRejects_iff.mpr h), hclass,
      (submitterLimitGate_iff hclass _).mp hgate⟩, rfl⟩
  · rintro ⟨tier, h, rfl⟩
    exact ⟨h.requirements, fun hc => h.concurrency (concurrencyRejects_iff.mp hc), tier,
      tierOf_eq_ok_iff.mpr h.tier_eq, (submitterLimitGate_iff h.tier_eq _).mpr h.limit, rfl⟩

variable {c : CandRef}

theorem evalCandidate_eq_error_iff :
    m.evalCandidate lib job limits matchConc c = .error why ↔
      lib.symmetry job c.slot = false ∧ why = .requirements ∨
      lib.symmetry job c.slot = true ∧
        (OverLimitWith lib job limits matchConc c.slot ∧ why = .concurrency ∨
        ¬ OverLimitWith lib job limits matchConc c.slot ∧
          (m.tierOf lib job limits c.slot = .error why ∨
          ∃ tier, Classified lib m job limits c.slot tier ∧
            ¬ Permitted m limits (lib.slotWeight m.useSlotWeights c.slot) tier ∧
              why = .submitterLimit)) := by
  rw [evalCandidate, ← concurrencyRejects_iff]
  cases hreq : lib.symmetry job c.slot with
  | false => simpa using eq_comm
  | true =>
    cases hconc : concurrencyRejects lib job limits matchConc c.slot with
    | true => simpa using eq_comm
    | false =>
      cases htier : m.tierOf lib job limits c.slot with
      | error why' =>
        have hnone : ∀ tier, ¬ Classified lib m job limits c.slot tier := fun tier h => by
          rw [tierOf_eq_ok_iff.mpr h] at htier
          cases htier
        simp [hnone]
      | ok tier =>
        have hclass := tierOf_eq_ok_iff.mp htier
        have huniq : ∀ tier', Classified lib m job limits c.slot tier' → tier' = tier :=
          fun tier' h => by
            rw [tierOf_eq_ok_iff.mpr h, Except.ok.injEq] at htier
            exact htier
        have hex : (∃ tier', Classified lib m job limits c.slot tier' ∧
            ¬ Permitted m limits (lib.slotWeight m.useSlotWeights c.slot) tier' ∧
              why = .submitterLimit) ↔
            ¬ Permitted m limits (lib.slotWeight m.useSlotWeights c.slot) tier ∧
              why = .submitterLimit := by
          constructor
          · rintro ⟨tier', h, hrest⟩
            exact huniq tier' h ▸ hrest
          · exact fun h => ⟨tier, hclass, h⟩
        rw [hex, ← submitterLimitGate_iff hclass]
        cases hgate : m.submitterLimitGate limits tier
          (lib.slotWeight m.useSlotWeights c.slot) with
        | false => simpa [hgate] using eq_comm
        | true => simp [hgate]

theorem skippedFor_iff :
    skippedFor lib m job limits matchConc why c = true ↔
      m.evalCandidate lib job limits matchConc c = .error why := by
  cases h : m.evalCandidate lib job limits matchConc c <;> simp [skippedFor, h]

theorem skippedFor_concurrency_iff :
    skippedFor lib m job limits matchConc .concurrency c = true ↔
      RefusedByConcurrency lib job limits matchConc c.slot := by
  rw [skippedFor_iff, evalCandidate_eq_error_iff, RefusedByConcurrency]
  have htier : m.tierOf lib job limits c.slot ≠ .error .concurrency := fun h => by
    simpa using tierOf_eq_error h
  simp [htier]

theorem skippedFor_preemptPolicy_iff :
    skippedFor lib m job limits matchConc .preemptPolicy c = true ↔
      RefusedByPolicy lib m job limits matchConc c.slot := by
  rw [skippedFor_iff, evalCandidate_eq_error_iff, RefusedByPolicy, tierOf_eq_preemptPolicy_iff]
  simp

theorem skippedFor_submitterLimit_iff :
    skippedFor lib m job limits matchConc .submitterLimit c = true ↔
      RefusedByLimit lib m job limits matchConc c.slot := by
  rw [skippedFor_iff, evalCandidate_eq_error_iff, RefusedByLimit]
  have htier : m.tierOf lib job limits c.slot ≠ .error .submitterLimit := fun h => by
    simpa using tierOf_eq_error h
  simp [htier]

theorem countP_gather {q : CandRef → Bool} {P : ClassAd → Prop} (h : ∀ c, q c = true ↔ P c.slot) :
    view.gather.countP q = liveCount view P := by
  rw [SlotView.gather, countP_filterMap, liveCount]
  refine countP_congr fun p _ => ?_
  by_cases hlive : view.isLive p.2 <;> simp [hlive, h]

theorem mem_passing_gather_iff :
    cand ∈ passing lib m job limits matchConc view.gather ↔
      cand ∈ eligible lib m job limits matchConc view := by
  rw [mem_passing_iff]
  constructor
  · rintro ⟨⟨i, slot⟩, hc, heval⟩
    obtain ⟨hslot, hlive⟩ := SlotView.mem_gather_iff.mp hc
    obtain ⟨tier, h, hcand⟩ := (evalCandidate_eq_ok_iff_eligible hslot hlive).mp heval
    exact ⟨i, slot, tier, h, hcand⟩
  · rintro ⟨i, slot, tier, h, hcand⟩
    exact ⟨⟨i, slot⟩, SlotView.mem_gather_iff.mpr ⟨h.slot_eq, h.live⟩,
      (evalCandidate_eq_ok_iff_eligible h.slot_eq h.live).mpr ⟨tier, h, hcand⟩⟩

variable [BEq F]

theorem eligible_of_matchRequest {ctxErr : Bool} {req : Request}
    (h : m.matchRequest lib ctxErr req view limits = some (.ok cand)) :
    ∃ matchConc, Eligible lib m req.ad limits matchConc view cand.scanIndex cand.slot
      cand.preemptTier := by
  rw [matchRequest] at h
  split at h
  · cases h
  · split at h
    · cases h
    · next matchConc _ =>
      obtain ⟨shards, hflat, hscan⟩ := parallelScan_eq lib m req.ad limits matchConc view.gather
      rw [hscan] at h
      dsimp only at h
      split at h
      · next best hbest =>
        cases h
        -- the winner is the winner of a shard, and so one of the candidates
        obtain ⟨shard, hshard, hwinner⟩ := mem_filterMap.mp (mem_of_bestOf hbest)
        obtain ⟨refs, hrefs, rfl⟩ := mem_map.mp hshard
        obtain ⟨r, hr, heval⟩ := mem_passing_iff.mp (mem_of_bestOf hwinner)
        have hmem : cand ∈ passing lib m req.ad limits matchConc view.gather :=
          mem_passing_iff.mpr ⟨r, hflat ▸ mem_flatten.mpr ⟨refs, hrefs, hr⟩, heval⟩
        obtain ⟨i, slot, tier, heligible, rfl⟩ := mem_passing_gather_iff.mp hmem
        exact ⟨matchConc, heligible⟩
      · cases h

end

/-! ## The best candidate -/

section

variable {R : Type} [LinearOrder R] [Zero R] [One R] [Add R] [IntCast R]
  {lib : MatchLibrary (GoFloat R)} {m : Matchmaker} {job : ClassAd}
  {limits : MatchLimits (GoFloat R)} {matchConc : Bool} {view : SlotView}

theorem eq_of_key_eq {c o : Candidate (GoFloat R)}
    (hc : c ∈ eligible lib m job limits matchConc view)
    (ho : o ∈ eligible lib m job limits matchConc view) (hkey : c.key = o.key) : c = o := by
  obtain ⟨i, slot, tier, h, rfl⟩ := hc
  obtain ⟨j, slot', tier', h', rfl⟩ := ho
  have hij : i = j := by
    have := congrArg (fun k => (ofLex (ofLex (ofLex (ofLex (ofLex k).2).2).2).2).2) hkey
    exact OrderDual.toDual.injective this
  subst hij
  have hslot : slot = slot' := some.inj (h.slot_eq.symm.trans h'.slot_eq)
  subst hslot
  have htier : tier = tier' := by
    have heq := (tierOf_eq_ok_iff.mpr h.tier_eq).symm.trans (tierOf_eq_ok_iff.mpr h'.tier_eq)
    rwa [Except.ok.injEq] at heq
  rw [htier]

theorem parallelScan_gather
    (hnum : ∀ cand ∈ eligible lib m job limits matchConc view, cand.RanksAreNumbers) :
    m.parallelScan lib job limits matchConc view.gather =
      (bestOf Candidate.better (passing lib m job limits matchConc view.gather),
        countRejects lib m job limits matchConc view.gather) := by
  refine parallelScan_eq_of_cotransitive (S := {slot | ∃ i, ⟨i, slot⟩ ∈ view.gather}) ?_
    SlotView.gather_pairwise fun c hc => ⟨c.idx, hc⟩
  refine Candidate.cotransitive_outranks ?_
  rintro cand ⟨slot, ⟨i, hi⟩, heval⟩
  have hmem : ({ cand with scanIndex := i } : Candidate (GoFloat R)) ∈
      eligible lib m job limits matchConc view :=
    mem_passing_gather_iff.mp (mem_passing_iff.mpr ⟨_, hi, evalCandidate_ok_withIndex heval⟩)
  obtain ⟨h₁, h₂, h₃, h₄⟩ := hnum _ hmem
  exact ⟨h₁, h₂, h₃, h₄⟩

theorem bestOf_passing_eq_some_iff
    (hnum : ∀ cand ∈ eligible lib m job limits matchConc view, cand.RanksAreNumbers)
    {best : Candidate (GoFloat R)} :
    bestOf Candidate.better (passing lib m job limits matchConc view.gather) = some best ↔
      best ∈ eligible lib m job limits matchConc view ∧
        ∀ o ∈ eligible lib m job limits matchConc view, o ≠ best → o.key < best.key := by
  have hbetter : ∀ c ∈ passing lib m job limits matchConc view.gather,
      ∀ o ∈ passing lib m job limits matchConc view.gather, c.better o = true ↔ o.key < c.key :=
    fun c hc o ho => Candidate.better_iff_key_lt (hnum c (mem_passing_gather_iff.mp hc))
      (hnum o (mem_passing_gather_iff.mp ho))
  have hgreatest : ∀ {b : Candidate (GoFloat R)},
      bestOf Candidate.better (passing lib m job limits matchConc view.gather) = some b →
        b ∈ eligible lib m job limits matchConc view ∧
          ∀ o ∈ eligible lib m job limits matchConc view, o ≠ b → o.key < b.key := by
    intro b hb
    have hmem := mem_of_bestOf hb
    refine ⟨mem_passing_gather_iff.mp hmem, fun o ho hne => ?_⟩
    have ho' := mem_passing_gather_iff.mpr ho
    have hnot := not_beats_of_bestOf Candidate.better_irrefl
      (fun x hx y hy z hz hxy hyz => (hbetter x hx z hz).mpr
        (((hbetter y hy z hz).mp hyz).trans ((hbetter x hx y hy).mp hxy))) hb o ho'
    have hle : o.key ≤ b.key := not_lt.mp fun hlt => by
      rw [(hbetter o ho' b hmem).mpr hlt] at hnot
      cases hnot
    exact lt_of_le_of_ne hle fun heq =>
      hne (eq_of_key_eq ho (mem_passing_gather_iff.mp hmem) heq)
  refine ⟨hgreatest, fun ⟨hbest, hmax⟩ => ?_⟩
  cases hb : bestOf Candidate.better (passing lib m job limits matchConc view.gather) with
  | none =>
    have hmem := mem_passing_gather_iff.mpr hbest
    rw [bestOf_eq_none_iff.mp hb] at hmem
    cases hmem
  | some b =>
    obtain ⟨hb', hbmax⟩ := hgreatest hb
    by_contra hne
    have hne' : b ≠ best := fun h => hne (congrArg some h)
    exact lt_asymm (hmax b hb' hne') (hbmax best hbest hne'.symm)

end

/-- **`Match` is optimal where no rank is NaN**: it returns the greatest eligible candidate, or the
first reason that keeps a live slot from the job. -/
theorem matchRequest_optimal {R : Type} [LinearOrder R] [Zero R] [One R] [Add R] [IntCast R]
    (lib : MatchLibrary (GoFloat R)) (m : Matchmaker) (req : Request) (view : SlotView)
    (limits : MatchLimits (GoFloat R)) (matchConc : Bool)
    (hgate : gateRequest lib req.ad limits = .ok matchConc)
    (hnum : ∀ cand ∈ eligible lib m req.ad limits matchConc view, cand.RanksAreNumbers) :
    (∀ best, m.matchRequest lib false req view limits = some (.ok best) ↔
      best ∈ eligible lib m req.ad limits matchConc view ∧
        ∀ o ∈ eligible lib m req.ad limits matchConc view, o ≠ best → o.key < best.key) ∧
    ((∃ info, m.matchRequest lib false req view limits = some (.error info)) ↔
      eligible lib m req.ad limits matchConc view = ∅) ∧
    ∀ info, m.matchRequest lib false req view limits = some (.error info) →
      info.forConcurrencyLim = liveCount view (RefusedByConcurrency lib req.ad limits matchConc) ∧
      info.forPreemptionPolicy = liveCount view (RefusedByPolicy lib m req.ad limits matchConc) ∧
      info.forSubmitterLimit = liveCount view (RefusedByLimit lib m req.ad limits matchConc) ∧
      info.reason =
        if 0 < liveCount view (RefusedByConcurrency lib req.ad limits matchConc) then
          reasonConcurrencyLimitMatch
        else if 0 < liveCount view (RefusedByPolicy lib m req.ad limits matchConc) then
          reasonPreemptionPolicy
        else if 0 < liveCount view (RefusedByLimit lib m req.ad limits matchConc) then
          reasonSubmitterLimit
        else reasonNoMatch := by
  have hmatch : m.matchRequest lib false req view limits =
      match bestOf Candidate.better (passing lib m req.ad limits matchConc view.gather) with
      | some cand => some (.ok cand)
      | none =>
        let rej := countRejects lib m req.ad limits matchConc view.gather
        some (.error ⟨rej.reason, rej.submitterLimit, rej.concurrency, rej.preemptPolicy,
          rej.preemptRank⟩) := by
    simp only [matchRequest, hgate, parallelScan_gather hnum, Bool.false_eq_true, if_false]
    cases bestOf Candidate.better (passing lib m req.ad limits matchConc view.gather) <;> rfl
  have hconc : (countRejects lib m req.ad limits matchConc view.gather).concurrency =
      liveCount view (RefusedByConcurrency lib req.ad limits matchConc) :=
    countP_gather fun _ => skippedFor_concurrency_iff
  have hpolicy : (countRejects lib m req.ad limits matchConc view.gather).preemptPolicy =
      liveCount view (RefusedByPolicy lib m req.ad limits matchConc) :=
    countP_gather fun _ => skippedFor_preemptPolicy_iff
  have hlimit : (countRejects lib m req.ad limits matchConc view.gather).submitterLimit =
      liveCount view (RefusedByLimit lib m req.ad limits matchConc) :=
    countP_gather fun _ => skippedFor_submitterLimit_iff
  have hempty : bestOf Candidate.better (passing lib m req.ad limits matchConc view.gather) =
      none ↔ eligible lib m req.ad limits matchConc view = ∅ := by
    rw [bestOf_eq_none_iff, eq_nil_iff_forall_not_mem, Set.eq_empty_iff_forall_notMem]
    exact forall_congr' fun cand => not_congr mem_passing_gather_iff
  rw [hmatch]
  refine ⟨fun best => ?_, ?_, fun info hinfo => ?_⟩
  · rw [← bestOf_passing_eq_some_iff hnum]
    split <;> simp_all
  · rw [← hempty]
    split <;> simp_all
  · split at hinfo
    · simp at hinfo
    · simp only [some.injEq, Except.error.injEq] at hinfo
      subst hinfo
      exact ⟨hconc, hpolicy, hlimit, by rw [RejCounters.reason, hconc, hpolicy, hlimit]⟩

def ratLibrary : MatchLibrary (GoFloat ℚ) := literalMatchLibrary GoFloat.num (.num 0)

def scoringRequest : Request := ⟨scoringJob, 1, 0, 0, 1⟩

def twoScores : SlotView :=
  .new ratLibrary [scoredSlot (.lit (.real 2)), scoredSlot (.lit (.real 3))] none

theorem matchRequest_optimal_twoScores :
    gateRequest ratLibrary scoringRequest.ad (oneSlotLimits _) = .ok false ∧
    ∃ best, (plainMatchmaker 2).matchRequest ratLibrary false scoringRequest twoScores
        (oneSlotLimits _) = some (.ok best) ∧ best.scanIndex = 1 ∧
      ∀ o ∈ eligible ratLibrary (plainMatchmaker 2) scoringRequest.ad (oneSlotLimits _) false
        twoScores, o ≠ best → o.key < best.key := by
  have hgate : gateRequest ratLibrary scoringRequest.ad (oneSlotLimits (GoFloat ℚ)) = .ok false :=
    rfl
  have hnum : ∀ cand ∈ eligible ratLibrary (plainMatchmaker 2) scoringRequest.ad (oneSlotLimits _)
      false twoScores, cand.RanksAreNumbers := by
    rintro cand ⟨i, slot, tier, h, rfl⟩
    have hslot := mem_of_getElem? h.slot_eq
    have hrank : (jobRank ratLibrary scoringRequest.ad slot).IsNum := by
      simp only [twoScores, SlotView.new, mem_cons, not_mem_nil, or_false] at hslot
      rcases hslot with rfl | rfl <;> decide +kernel
    exact ⟨trivial, hrank, trivial, by cases tier <;> trivial⟩
  obtain ⟨best, hbest, hidx⟩ := map_eq_some_iff.mp (by decide +kernel :
    (((plainMatchmaker 2).matchRequest ratLibrary false scoringRequest twoScores
      (oneSlotLimits _)).bind Except.toOption).map Candidate.scanIndex = some 1)
  obtain ⟨r, hr, hok⟩ := bind_eq_some_iff.mp hbest
  rw [toOption_eq_some_iff] at hok
  rw [hok] at hr
  exact ⟨hgate, best, hr, hidx, (((matchRequest_optimal ratLibrary (plainMatchmaker 2)
    scoringRequest twoScores (oneSlotLimits _) false hgate hnum).1 best).mp hr).2⟩

end Matchmaker

end GolangCollector.Negotiator
