import GolangCollector.Negotiator.Moves

/-! # The books of a cycle

What few steps change: the counters of spins and matches, which agree with what was begun and
accounted; the submitters, each made from an ad, and their bands of job priorities; the headers that
were sent; and the tracker of concurrency limits. Most steps leave all of it (`books_of_step`); the
head of a spin, the prefetch, an offer and the allocator's call have a lemma each. -/

namespace GolangCollector.Negotiator

open GoStrings Runs List Negotiator.Cycle CycleState

variable {F A : Type}

/-! ## What is on the books -/

/-- **A submitter**, as its ad describes it. -/
structure Submitter where
  adIdx : ℕ
  ad : ClassAd
  name : Text
  scheddName : Text
  scheddAddr : Text
  tag : Text
  idleJobs : ℤ
  lastHeard : ℤ
  origIdx : ℕ
  jobPrio : ℤ
  hasJobPrioArray : Bool
  deriving DecidableEq

def SubState.submitter (sub : SubState F) : Submitter :=
  { adIdx := sub.adIdx, ad := sub.ad, name := sub.name, scheddName := sub.scheddName
    scheddAddr := sub.scheddAddr, tag := sub.tag, idleJobs := sub.idleJobs
    lastHeard := sub.lastHeard, origIdx := sub.origIdx, jobPrio := sub.jobPrio
    hasJobPrioArray := sub.hasJobPrioArray }

def SubState.banded (sub : SubState F) : Submitter × ℤ × ℤ :=
  (sub.submitter, sub.jobPrioMin, sub.jobPrioMax)

def Event.began? : Event F → Option (ℕ × NegotiateHeader)
  | .began k hdr _ => some (k, hdr)
  | _ => none

def Label.spins : Label F → ℕ
  | .spin false => 1
  | _ => 0

def Label.quiet : Label F → Bool
  | .group _ _ => false
  | .spin _ => false
  | .prefetch _ _ => false
  | .offer _ _ _ => false
  | _ => true

namespace CycleState

variable (s : CycleState F A)

def tally : ℤ × ℕ := (s.stats.numMatches - s.commits.length, s.stats.pieSpins)

def roster : List Submitter := s.subs.map SubState.submitter

def banded : List (Submitter × ℤ × ℤ) := s.subs.map SubState.banded

def begun : List (ℕ × NegotiateHeader) := s.log.filterMap Event.began?

def entries : (ℤ × ℕ) × List (Submitter × ℤ × ℤ) × List (ℕ × NegotiateHeader) :=
  (s.tally, s.banded, s.begun)

def books : ((ℤ × ℕ) × List (Submitter × ℤ × ℤ) × List (ℕ × NegotiateHeader)) ×
    ConcurrencyTracker F := (s.entries, s.limits)

theorem roster_eq_of_banded {s s' : CycleState F A} (h : s'.banded = s.banded) :
    s'.roster = s.roster := by
  have hmap : ∀ s : CycleState F A, s.roster = s.banded.map Prod.fst := fun s => by
    rw [roster, banded, map_map]
    rfl
  rw [hmap, h, hmap]

variable {s} {s' : CycleState F A}

theorem books_congr (hmatches : s'.stats.numMatches = s.stats.numMatches)
    (hspins : s'.stats.pieSpins = s.stats.pieSpins) (hlog : s'.log = s.log)
    (hsubs : s'.subs = s.subs) (hlimits : s'.limits = s.limits) : s'.books = s.books := by
  rw [books, books, entries, entries, tally, tally, hmatches, hspins, commits, banded, begun, hlog,
    hsubs, hlimits, commits, banded, begun]

@[simp] theorem books_goto (r : Round F) (stage : Stage F) : (s.goto r stage).books = s.books := rfl

@[simp] theorem books_enqueue (k : ℕ) (op : Op F) : (s.enqueue k op).books = s.books := rfl

theorem books_updateSub {f : SubState F → SubState F} (k : ℕ)
    (h : ∀ sub, (f sub).banded = sub.banded) : (s.updateSub k f).books = s.books := by
  have hbanded : (s.updateSub k f).banded = s.banded := by
    rw [banded, updateSub, map_map]
    refine map_congr_left fun sub _ => ?_
    simp only [Function.comp_apply]
    split
    · exact h sub
    · rfl
  rw [books, entries, hbanded]
  rfl

@[simp] theorem books_setErr (k : ℕ) : (s.setErr k).books = s.books :=
  books_updateSub k fun _ => rfl

theorem books_count {f : CycleStats → CycleStats}
    (hmatches : (f s.stats).numMatches = s.stats.numMatches)
    (hspins : (f s.stats).pieSpins = s.stats.pieSpins) : (s.count f).books = s.books :=
  books_congr hmatches hspins rfl rfl rfl

theorem books_record {es : List (Event F)} (hcommit : es.filterMap Event.commit? = [])
    (hbegan : es.filterMap Event.began? = []) : (s.record es).books = s.books := by
  rw [books, books, entries, tally, commits, begun, record, filterMap_append, hcommit,
    filterMap_append, hbegan, append_nil, append_nil]
  rfl

theorem books_endRound (k : ℕ) (b : Bool) : (s.endRound k b).books = s.books := by
  rw [endRound]
  split
  · rw [books_enqueue]
    exact books_updateSub k fun _ => rfl
  · rfl

theorem books_startRound (info : RoundInfo F) (subs : List ℕ)
    (main : Option (RoundInfo F × List ℕ)) : (s.startRound info subs main).books = s.books := by
  refine books_congr ?_ ?_ rfl rfl rfl <;> rw [startRound] <;> dsimp only <;> split <;> rfl

theorem books_finishRound (r : Round F) : (s.finishRound r).books = s.books := by
  rw [finishRound]
  split
  · exact books_startRound _ _ _
  · rfl

end CycleState

/-! ## Steps that leave the books -/

section

variable {c : Cycle F A} {st : CycleSetup F} {s s' : CycleState F A} {r : Round F}
  {fr : SpinFrame F} {n : NegState F} {k : ℕ}

theorem books_sendInOrder {e : Event F} {op : Op F} (hcommit : e.commit? = none)
    (hbegan : e.began? = none) : (c.sendInOrder s k e op).books = s.books := by
  rw [sendInOrder]
  split
  · exact books_record (by simp [hcommit]) (by simp [hbegan])
  · rfl

theorem books_breakOff (result : MmResult) : (Cycle.breakOff s r fr n result).books = s.books :=
  books_endRound n.sub false

theorem books_abort (r : Round F) : (Cycle.abort s r).books = s.books := by
  have hloop : (r.subs.foldl (fun s k => s.endRound k true) s).books = s.books :=
    foldlRecOn (motive := fun s' : CycleState F A => s'.books = s.books) r.subs _ rfl
      fun s' h k _ => (books_endRound k true).trans h
  exact hloop

theorem books_stepSub [Zero F] [Sub F] [Mul F] [Div F] [IntCast F] [LT F] [LE F] [DecidableLT F]
    [DecidableLE F] {ctxErr : Bool} {now : ℤ} (h : c.stepSub st s r fr ctxErr now = some s') :
    s'.books = s.books := by
  rw [stepSub] at h
  split at h
  · cases h
  · split_ifs at h
    · cases h
      exact books_endRound _ _
    · cases h
      exact books_endRound _ _
    · split at h
      · cases h
        rfl
      · cases h
        rw [negotiateOne]
        split
        · exact books_endRound _ _
        · rfl

theorem books_stepSpinEnd [LT F] [DecidableLT F] (h : Cycle.stepSpinEnd s r fr = some s') :
    s'.books = s.books := by
  rw [stepSpinEnd] at h
  split at h
  · dsimp only at h
    split at h
    · cases h
      exact books_finishRound r
    · cases h
      rfl
  · cases h

theorem books_stepTop [LE F] [DecidableLE F] (now : ℤ) :
    (Cycle.stepTop s r fr n now).books = s.books := by
  rw [stepTop]
  split
  · rfl
  · split
    · exact books_breakOff _
    · split
      · exact books_breakOff _
      · dsimp only
        split
        · exact books_breakOff _
        · split
          · split <;> rfl
          · rfl

theorem books_stepNext [LE F] [DecidableLE F] : (c.stepNext s r fr n).books = s.books := by
  rw [stepNext]
  split
  · exact books_breakOff _
  · split
    · rw [books_goto]
      exact books_updateSub _ fun _ => rfl
    · dsimp only
      split
      · rw [books_breakOff]
        exact books_updateSub _ fun _ => rfl
      · rw [books_goto]
        exact books_updateSub _ fun _ => rfl

theorem books_stepFetch {reply : Option (List Request)}
    (h : Cycle.stepFetch s r fr n reply = some s') : s'.books = s.books := by
  rw [stepFetch] at h
  split at h
  · have hfetched : (s.record [.fetched n.sub reply]).books = s.books :=
      books_record rfl rfl
    cases reply with
    | none =>
      cases h
      simpa using hfetched
    | some rs =>
      cases h
      rw [books_goto, ← hfetched]
      exact books_updateSub _ fun _ => rfl
  · cases h

theorem books_reject (req : Request) (rej : RejectInfo) (sendOk : Bool) :
    (c.reject s r fr n req rej sendOk).books = s.books := by
  have hcount : (s.count fun stats => { stats with rejections := stats.rejections + 1 }).books =
      s.books := books_count rfl rfl
  rw [← hcount, reject]
  dsimp only
  split
  · rw [books_goto, books_setErr]
    exact books_record rfl rfl
  · split
    · exact (books_breakOff _).trans (books_sendInOrder rfl rfl)
    · exact books_sendInOrder rfl rfl

theorem books_stepDeliver {i : ℕ} {ok : Bool} (h : Cycle.stepDeliver s i ok = some s') :
    s'.books = s.books := by
  rw [stepDeliver] at h
  split at h
  · cases h
  · next k op hop =>
    split at h
    · cases h
      have hdone : ∀ (s₁ : CycleState F A) (ev : Event F), s₁.books = s.books →
          ev.commit? = none → ev.began? = none →
          (if ok = true then s₁.record [ev] else (s₁.record [ev]).setErr k).books = s.books := by
        intro s₁ ev hs₁ hcommit hbegan
        have hrecord : (s₁.record [ev]).books = s₁.books :=
          books_record (by simp [hcommit]) (by simp [hbegan])
        split <;> simpa using hrecord.trans hs₁
      cases op with
      | sendMatch mr idx | reject req reason =>
        simp only [carryOut]
        split
        · rfl
        · exact hdone _ _ rfl rfl rfl
      | endRound closeOnly =>
        simp only [carryOut]
        split
        · exact books_record rfl rfl
        · exact hdone _ _ rfl rfl rfl
    · cases h

theorem books_stepLeave (result : MmResult) (now : ℤ) :
    (Cycle.stepLeave s r fr n result now).books = s.books := by
  rw [stepLeave, books_goto]
  refine (books_count ?_ ?_).trans ((books_endRound _ _).trans
    (books_updateSub _ fun _ => rfl)) <;> split <;> rfl

variable {l : Label F}

theorem books_of_step [Zero F] [One F] [Add F] [Sub F] [Mul F] [Div F] [IntCast F] [BEq F] [LT F]
    [LE F] [DecidableLT F] [DecidableLE F] (h : c.step st s l = some s') (hquiet : l.quiet = true) :
    s'.books = s.books := by
  rcases worker_or_spine h with ⟨i, ok, rfl, hdeliver⟩ | ⟨-, hspine⟩
  · exact books_stepDeliver hdeliver
  · cases hspine with
    | group => cases hquiet
    | spin => cases hquiet
    | prefetch => cases hquiet
    | sub r fr ctxErr now _ _ _ h => exact books_stepSub h
    | spinEnd r fr _ _ _ h => exact books_stepSpinEnd h
    | top r fr n now => exact books_stepTop now
    | next r fr n => exact books_stepNext
    | fetch r fr n reply _ _ _ _ h => exact books_stepFetch h
    | offer => cases hquiet
    | leave r fr n result now => exact books_stepLeave result now

/-! ## The other steps -/

theorem entries_eq_of_books (h : s'.books = s.books) : s'.entries = s.entries :=
  congrArg Prod.fst h

theorem of_entries_eq (h : s'.entries = s.entries) :
    s'.tally = s.tally ∧ s'.banded = s.banded ∧ s'.begun = s.begun :=
  ⟨congrArg (fun p => p.1) h, congrArg (fun p => p.2.1) h, congrArg (fun p => p.2.2) h⟩

theorem of_books_eq (h : s'.books = s.books) :
    s'.tally = s.tally ∧ s'.banded = s.banded ∧ s'.begun = s.begun ∧ s'.limits = s.limits :=
  ⟨congrArg (fun p => p.1.1) h, congrArg (fun p => p.1.2.1) h, congrArg (fun p => p.1.2.2) h,
    congrArg Prod.snd h⟩

theorem entries_deliverMatch [Zero F] [One F] [Add F] [Sub F] [IntCast F] [LE F] [DecidableLE F]
    (req : Request) (cand : Candidate F) (sendOk : Bool) (now : ℤ) :
    (c.deliverMatch s r fr n req cand sendOk now).entries = s.entries := by
  rw [deliverMatch]
  dsimp only
  split
  · refine entries_eq_of_books ?_
    rw [books_goto, books_setErr]
    exact books_record rfl rfl
  · generalize hs₁ : c.sendInOrder s n.sub
      (.sent n.sub (c.matchResult s r n req cand) cand.scanIndex true)
      (.sendMatch (c.matchResult s r n req cand) cand.scanIndex) = s₁
    have hsent : s₁.entries = s.entries := by
      rw [← hs₁]
      exact entries_eq_of_books (books_sendInOrder rfl rfl)
    rw [← hsent, entries, tally, commits_commit, length_append]
    simp [commit, goto, record, entries, tally,
      banded, begun, Event.began?]

theorem entries_stepOffer [Zero F] [One F] [Add F] [Sub F] [IntCast F] [BEq F] [LT F] [LE F]
    [DecidableLT F] [DecidableLE F] {ctxDone sendOk : Bool} {now : ℤ}
    (h : c.stepOffer s r fr n ctxDone sendOk now = some s') : s'.entries = s.entries := by
  rw [stepOffer] at h
  split at h
  · cases h
  · dsimp only at h
    cases h
    split
    · exact (entries_eq_of_books (books_breakOff _)).trans rfl
    · exact (entries_eq_of_books (books_reject _ _ _)).trans rfl
    · exact (entries_deliverMatch _ _ _ _).trans rfl

theorem CycleState.books_begin {f : SubState F → SubState F} {es : List (Event F)} (k : ℕ)
    (hf : ∀ sub, (f sub).banded = sub.banded) (hcommit : es.filterMap Event.commit? = []) :
    ((s.updateSub k f).record es).tally = s.tally ∧
      ((s.updateSub k f).record es).banded = s.banded ∧
      ((s.updateSub k f).record es).limits = s.limits ∧
      ((s.updateSub k f).record es).begun = s.begun ++ es.filterMap Event.began? := by
  refine ⟨?_, (of_books_eq (books_updateSub k hf)).2.1, rfl, filterMap_append ..⟩
  rw [tally, commits, record, filterMap_append, hcommit, append_nil]
  rfl

theorem books_stepPrefetch {env : SpinEnv F} {todo : List ℕ} {reply : BeginReply}
    (h : c.stepPrefetch st s r env todo k reply = some s') :
    s'.tally = s.tally ∧ s'.banded = s.banded ∧ s'.limits = s.limits ∧ s'.begun = s.begun ++
      (((s.sub? k).filter fun sub => !sub.sessOpen).map
        fun sub => (k, c.headerFor st.sigAttrs sub)).toList := by
  rw [stepPrefetch] at h
  split at h
  · cases h
    change (c.beginAndFetch st s k reply).tally = s.tally ∧ (c.beginAndFetch st s k reply).banded =
      s.banded ∧ (c.beginAndFetch st s k reply).limits = s.limits ∧
        (c.beginAndFetch st s k reply).begun = s.begun ++ _
    rw [beginAndFetch]
    split
    · next hnone => simp [hnone]
    · next sub hsub =>
      split
      · next hopen => simp [hsub, hopen]
      · next hopen =>
        have hsent : (((s.sub? k).filter fun sub => !sub.sessOpen).map
            fun sub => (k, c.headerFor st.sigAttrs sub)).toList =
              [(k, c.headerFor st.sigAttrs sub)] := by simp [hsub, hopen]
        rw [hsent]
        cases reply <;> exact books_begin k (fun _ => rfl) rfl
  · cases h

theorem books_stepSpin [Zero F] [Add F] [Sub F] [Mul F] [Div F] [IntCast F] [BEq F] [LT F] [LE F]
    [DecidableLT F] [DecidableLE F] (ctxErr : Bool) :
    (c.stepSpin st s r ctxErr).tally =
        (s.tally.1, s.tally.2 + (Label.spin (F := F) ctxErr).spins) ∧
      (c.stepSpin st s r ctxErr).begun = s.begun ∧
      (c.stepSpin st s r ctxErr).limits = s.limits := by
  have hof : ∀ {s₁ s' : CycleState F A}, s'.books = s₁.books →
      s'.tally = s₁.tally ∧ s'.begun = s₁.begun ∧ s'.limits = s₁.limits := fun h =>
    ⟨(of_books_eq h).1, (of_books_eq h).2.2⟩
  cases ctxErr with
  | true => exact hof (books_abort r)
  | false =>
    rw [stepSpin, if_neg Bool.false_ne_true]
    dsimp only
    split
    · exact hof (books_finishRound r)
    · split
      · exact hof (books_finishRound r)
      · rw [dividePie]
        dsimp only
        split
        · exact hof (books_finishRound r)
        · exact ⟨rfl, rfl, rfl⟩

/-- The allocator's call only adds submitters. -/
theorem books_wrapSubmitters [Zero F] (ads : List ℕ) :
    (c.wrapSubmitters st s ads).1.tally = s.tally ∧
      (c.wrapSubmitters st s ads).1.begun = s.begun ∧
      (c.wrapSubmitters st s ads).1.limits = s.limits := by
  refine foldlRecOn (motive := fun acc : CycleState F A × List ℕ =>
    acc.1.tally = s.tally ∧ acc.1.begun = s.begun ∧ acc.1.limits = s.limits) ads _ ⟨rfl, rfl, rfl⟩
    fun acc hacc adIdx _ => ?_
  rw [← hacc.1, ← hacc.2.1, ← hacc.2.2, wrapNext]
  split
  · exact ⟨rfl, rfl, rfl⟩
  · split <;> exact ⟨rfl, rfl, rfl⟩

@[inherit_doc books_wrapSubmitters]
theorem books_stepGroup [Zero F] [LT F] [DecidableLT F] (info : RoundInfo F) (ads : List ℕ) :
    (c.stepGroup st s info ads).tally = s.tally ∧ (c.stepGroup st s info ads).begun = s.begun ∧
      (c.stepGroup st s info ads).limits = s.limits := by
  obtain ⟨htally, hbegun, hlimits⟩ : (c.wrapSubmitters st s ads).1.tally = s.tally ∧ _ :=
    books_wrapSubmitters ads
  rw [← htally, ← hbegun, ← hlimits]
  simp only [stepGroup]
  split
  · obtain ⟨htally', -, hrest⟩ := of_books_eq (books_startRound (s :=
      (c.wrapSubmitters st s ads).1) _ _ _)
    exact ⟨htally', hrest⟩
  · obtain ⟨htally', -, hrest⟩ := of_books_eq (books_startRound (s :=
      (c.wrapSubmitters st s ads).1) _ _ _)
    exact ⟨htally', hrest⟩

/-! ## What a step counts -/

section

variable [Zero F] [One F] [Add F] [Sub F] [Mul F] [Div F] [IntCast F] [BEq F] [LT F] [LE F]
  [DecidableLT F] [DecidableLE F]

theorem tally_of_step (h : c.step st s l = some s') :
    s'.tally = (s.tally.1, s.tally.2 + l.spins) := by
  by_cases hquiet : l.quiet = true
  · have hspins : l.spins = 0 := by cases l <;> first | rfl | cases hquiet
    rw [hspins, (of_books_eq (books_of_step h hquiet)).1]
    rfl
  · rcases worker_or_spine h with ⟨i, ok, rfl, -⟩ | ⟨-, hspine⟩
    · exact absurd rfl hquiet
    · cases hspine with
      | group info ads => exact (books_stepGroup info ads).1
      | spin r ctxErr => exact (books_stepSpin ctxErr).1
      | prefetch r env todo k reply _ _ _ h => exact (books_stepPrefetch h).1
      | offer r fr n ctxDone sendOk now _ _ _ _ h => exact (of_entries_eq (entries_stepOffer h)).1
      | _ => exact absurd rfl hquiet

theorem numMatches_eq {P : CycleState F A → Label F → Prop} {a : A} {snap : Cycle.Snapshot}
    {ls : List (Label F)} (h : Run (c.step st) P (c.start st a snap) ls s) :
    s.stats.numMatches = s.commits.length := by
  have hstart : (c.start st a snap).tally = (0, 0) := (books_wrapSubmitters _).1
  have htally : s.tally.1 = 0 := h.invariant (I := fun s => s.tally.1 = 0)
    (fun _ _ _ hstep _ hzero => by rw [tally_of_step hstep, hzero]) (by rw [hstart])
  rw [tally] at htally
  dsimp only at htally
  omega

theorem banded_of_step (h : c.step st s l = some s') (hspin : ∀ ctxErr, l ≠ .spin ctxErr)
    (hgroup : ∀ info ads, l ≠ .group info ads) : s'.banded = s.banded := by
  by_cases hquiet : l.quiet = true
  · exact (of_books_eq (books_of_step h hquiet)).2.1
  · rcases worker_or_spine h with ⟨i, ok, rfl, -⟩ | ⟨-, hspine⟩
    · exact absurd rfl hquiet
    · cases hspine with
      | group info ads => exact absurd rfl (hgroup info ads)
      | spin r ctxErr => exact absurd rfl (hspin ctxErr)
      | prefetch r env todo k reply _ _ _ h => exact (books_stepPrefetch h).2.1
      | offer r fr n ctxDone sendOk now _ _ _ _ h =>
        exact (of_entries_eq (entries_stepOffer h)).2.1
      | _ => exact absurd rfl hquiet

theorem limits_of_step (h : c.step st s l = some s')
    (hother : ∀ ctxDone sendOk now, l ≠ .offer ctxDone sendOk now) : s'.limits = s.limits := by
  by_cases hquiet : l.quiet = true
  · exact (of_books_eq (books_of_step h hquiet)).2.2.2
  · rcases worker_or_spine h with ⟨i, ok, rfl, -⟩ | ⟨-, hspine⟩
    · exact absurd rfl hquiet
    · cases hspine with
      | group info ads => exact (books_stepGroup info ads).2.2
      | spin r ctxErr => exact (books_stepSpin ctxErr).2.2
      | prefetch r env todo k reply _ _ _ h => exact (books_stepPrefetch h).2.2.1
      | offer r fr n ctxDone sendOk now => exact absurd rfl (hother ctxDone sendOk now)
      | _ => exact absurd rfl hquiet

end

end

end GolangCollector.Negotiator
