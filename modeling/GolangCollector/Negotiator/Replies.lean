import GolangCollector.Negotiator.RequestLoop
import GolangCollector.Negotiator.SpinRule

/-! # The replies to a submitter's requests

Every step of a cycle between the beginning and the end of a negotiation is a move of the request
loop, so what the moves keep holds in every negotiation. The parser gives the autocluster zero to a
request that carries none. -/

namespace GolangCollector.Negotiator

open GoStrings Runs List Option Negotiator.Cycle CycleState

/-! ## The request loop of a cycle -/

def Event.reply? {F : Type} : Event F → Option Act
  | .sent _ mr _ _ => some (.matched mr.request)
  | .rejected _ req _ _ => some (.rejected req)
  | _ => none

def Op.reply? {F : Type} : Op F → Option Act
  | .sendMatch mr _ => some (.matched mr.request)
  | .reject req _ => some (.rejected req)
  | .endRound _ => none

def Label.isLeave {F : Type} : Label F → Bool
  | .leave _ => true
  | _ => false

namespace CycleState

variable {F A : Type} (s s' : CycleState F A)

def queueOf (k : ℕ) : List Request := ((s.sub? k).map SubState.queue).getD []

def loopView (n : NegState F) : LoopView where
  queue := s.queueOf n.sub
  cur := n.cur
  curOffers := n.curOffers
  rejectedACs := n.rejectedACs
  phase := n.phase

def newReplies : List Act :=
  (s'.log.drop s.log.length).filterMap Event.reply? ++
    (s'.pending.drop s.pending.length).filterMap fun p => p.2.reply?

variable {s s'}

theorem queueOf_setErr (k j : ℕ) : (s.setErr k).queueOf j = s.queueOf j := by
  have hqueue := s.map_sub?_updateSub SubState.queue k j
    (f := fun sub => { sub with ioErr := true }) (fun _ => rfl) fun _ => rfl
  rw [queueOf, setErr, hqueue, queueOf]

theorem queueOf_updateSub {f : SubState F → SubState F} {k : ℕ} {q : List Request}
    (hknown : (s.sub? k).isSome = true) (hidx : ∀ sub, (f sub).origIdx = sub.origIdx)
    (hqueue : ∀ sub, (f sub).queue = q) : (s.updateSub k f).queueOf k = q := by
  obtain ⟨sub, hsub⟩ := isSome_iff_exists.mp hknown
  rw [queueOf, s.sub?_updateSub k k hidx, if_pos rfl, hsub]
  exact hqueue sub

end CycleState

def Answers {F A : Type} (s s' : CycleState F A) (acts : List Act) : Prop :=
  ∃ es ops, s'.log = s.log ++ es ∧ s'.pending = s.pending ++ ops ∧
    es.filterMap Event.reply? ++ ops.filterMap (fun p => p.2.reply?) = acts

section

variable {F A : Type} {s s' : CycleState F A} {acts : List Act}

theorem Answers.newReplies_eq (h : Answers s s' acts) : s.newReplies s' = acts := by
  obtain ⟨es, ops, hlog, hpending, rfl⟩ := h
  rw [newReplies, hlog, hpending, drop_left, drop_left]

theorem Answers.nil (hlog : s'.log = s.log) (hpending : s'.pending = s.pending) :
    Answers s s' [] :=
  ⟨[], [], by simpa using hlog, by simpa using hpending, rfl⟩

theorem Answers.endRound (h : Answers s s' acts) (k : ℕ) (b : Bool) :
    Answers s (s'.endRound k b) acts := by
  rw [CycleState.endRound]
  split
  · obtain ⟨es, ops, hlog, hpending, rfl⟩ := h
    refine ⟨es, ops ++ [(k, .endRound b)], hlog, ?_, by simp [Op.reply?]⟩
    rw [← append_assoc, ← hpending]
    rfl
  · exact h

theorem Answers.made (h : Answers s s' []) {e : Event F} {a : Act} (he : e.reply? = some a) :
    Answers s (s'.record [e]) [a] := by
  obtain ⟨es, ops, hlog, hpending, hnone⟩ := h
  rw [append_eq_nil_iff] at hnone
  refine ⟨es ++ [e], ops, ?_, hpending, by simp [hnone, he]⟩
  rw [← append_assoc, ← hlog]
  rfl

theorem Answers.sendInOrder (h : Answers s s' []) (c : Cycle F A) (k : ℕ) {e : Event F} {op : Op F}
    {a : Act} (he : e.reply? = some a) (hop : op.reply? = some a) :
    Answers s (c.sendInOrder s' k e op) [a] := by
  rw [Cycle.sendInOrder]
  split
  · exact h.made he
  · obtain ⟨es, ops, hlog, hpending, hnone⟩ := h
    rw [append_eq_nil_iff] at hnone
    refine ⟨es, ops ++ [(k, op)], hlog, ?_, by simp [hnone, hop]⟩
    rw [← append_assoc, ← hpending]
    rfl

theorem Answers.record (h : Answers s s' acts) {e : Event F} (he : e.reply? = none) :
    Answers s (s'.record [e]) acts := by
  obtain ⟨es, ops, hlog, hpending, rfl⟩ := h
  refine ⟨es ++ [e], ops, ?_, hpending, by simp [he]⟩
  rw [← append_assoc, ← hlog]
  rfl

end

section

variable {F A : Type} {c : Cycle F A} {s s' s₁ : CycleState F A} {r : Round F} {fr : SpinFrame F}
  {n n' : NegState F}

def Cycle.failsConstraint (c : Cycle F A) (req : Request) : Bool :=
  c.jobConstraint.any fun matchesAd => !matchesAd req.ad

/-- **The acts of a step** of the request loop. -/
def Cycle.acts (c : Cycle F A) (s s' : CycleState F A) (l : Label F) : List Act :=
  match l, s.negotiation? with
  | .next, some n => ((s.queueOf n.sub).takeWhile (c.dropsRequest n)).map .dropped
  | .fetch (some rs), some _ => [.fetched rs]
  | .offer _ _ _, some _ => s.newReplies s'
  | _, _ => []

def MovesLoop (c : Cycle F A) (s s' : CycleState F A) (n : NegState F) (acts : List Act) : Prop :=
  ∃ n', s'.negotiation? = some n' ∧ n'.sub = n.sub ∧
    LoopMove c.failsConstraint (s.loopView n) acts (s'.loopView n')

theorem MovesLoop.answered {acts : List Act} (h : MovesLoop c s s' n acts)
    (hanswers : Answers s s' acts) : MovesLoop c s s' n (s.newReplies s') := by
  rwa [hanswers.newReplies_eq]

theorem movesLoop_breakOff (hsub : n'.sub = n.sub) (result : MmResult) :
    MovesLoop c s (Cycle.breakOff s₁ r fr n' result) n [] :=
  ⟨{ n' with phase := .returned result }, rfl, hsub, .leaves trivial⟩

theorem movesLoop_stepTop [LE F] [DecidableLE F] (hphase : n.phase = .top) (now : ℤ) :
    MovesLoop c s (Cycle.stepTop s r fr n now) n [] := by
  rw [stepTop]
  split
  · exact ⟨{ n with phase := .returned .error }, rfl, rfl, .leaves trivial⟩
  · split
    · exact movesLoop_breakOff rfl _
    · split
      · exact movesLoop_breakOff rfl _
      · dsimp only
        split
        · exact movesLoop_breakOff rfl _
        · split
          · next req hcur =>
            split
            · exact ⟨_, rfl, rfl, .asks hphase⟩
            · next hcount => exact ⟨_, rfl, rfl, .offers hphase hcur (not_le.mp hcount)⟩
          · next hcur =>
            have hview : s.loopView { n with curOffers := 0, phase := .request } =
                { s.loopView n with cur := none, curOffers := 0, phase := .request } := by
              simp only [loopView, hcur]
            refine ⟨_, rfl, rfl, ?_⟩
            exact hview ▸ LoopMove.asks (v := s.loopView n) hphase

theorem skips_or_fails {req : Request} (h : c.dropsRequest n req = true) :
    (s.loopView n).skips req = true ∨ c.failsConstraint req = true := by
  rwa [dropsRequest, Bool.or_eq_true] at h

theorem movesLoop_stepNext [LE F] [DecidableLE F] (hphase : n.phase = .request) :
    MovesLoop c s (c.stepNext s r fr n) n
      (((s.queueOf n.sub).takeWhile (c.dropsRequest n)).map .dropped) := by
  rw [stepNext]
  split
  · next hnone =>
    have hqueue : s.queueOf n.sub = [] := by rw [queueOf, hnone]; rfl
    rw [hqueue]
    exact movesLoop_breakOff rfl _
  · next sub hsub =>
    have hqueue : s.queueOf n.sub = sub.queue := by rw [queueOf, hsub]; rfl
    have hknown : (s.sub? n.sub).isSome = true := by rw [hsub]; rfl
    have hsplit := takeWhile_append_dropWhile (p := c.dropsRequest n) (l := sub.queue)
    have hpassed : ∀ req ∈ sub.queue.takeWhile (c.dropsRequest n),
        (s.loopView n).skips req = true ∨ c.failsConstraint req = true := fun req hreq =>
      skips_or_fails (mem_takeWhile_imp hreq)
    rw [hqueue]
    split
    · next req rest hdrop =>
      rw [hdrop] at hsplit
      refine ⟨{ n with cur := some req, phase := .offer }, rfl, rfl, ?_⟩
      have hrest : (s.updateSub n.sub fun sub => { sub with queue := rest }).queueOf n.sub = rest :=
        queueOf_updateSub hknown (fun _ => rfl) fun _ => rfl
      have hview : (s.updateSub n.sub fun sub => { sub with queue := rest }).loopView
          { n with cur := some req, phase := .offer } =
          { s.loopView n with queue := rest, cur := some req, phase := .offer } := by
        simp only [loopView, hrest]
      exact hview ▸ LoopMove.takes hphase (hqueue.trans hsplit.symm) hpassed
    · next hdrop =>
      rw [hdrop, append_nil] at hsplit
      rw [hsplit] at hpassed ⊢
      rw [← hqueue] at hpassed ⊢
      dsimp only
      split
      · exact ⟨_, rfl, rfl, .runsOut hphase hpassed (Or.inl trivial)⟩
      · have hrest : (s.updateSub n.sub fun sub => { sub with queue := [] }).queueOf n.sub = [] :=
          queueOf_updateSub hknown (fun _ => rfl) fun _ => rfl
        have hview : (s.updateSub n.sub fun sub => { sub with queue := [] }).loopView
            { n with phase := .fetching } =
            { s.loopView n with queue := [], phase := .fetching } := by
          simp only [loopView, hrest]
        exact ⟨{ n with phase := .fetching }, rfl, rfl, .runsOut hphase hpassed (Or.inr hview)⟩

theorem movesLoop_stepFetch {reply : Option (List Request)} (hphase : n.phase = .fetching)
    (hknown : (s.sub? n.sub).isSome = true) (h : Cycle.stepFetch s r fr n reply = some s') :
    MovesLoop c s s' n (reply.toList.map .fetched) := by
  rw [stepFetch] at h
  split at h
  · cases reply with
    | none =>
      cases h
      exact ⟨{ n with phase := .returned .error }, rfl, rfl, .leaves trivial⟩
    | some rs =>
      cases h
      have hknown' : ((s.record [.fetched n.sub (some rs)]).sub? n.sub).isSome = true := hknown
      have hqueue : ((s.record [.fetched n.sub (some rs)]).updateSub n.sub fun sub =>
          { sub with queue := rs, exhausted := rs.isEmpty }).queueOf n.sub = rs :=
        queueOf_updateSub hknown' (fun _ => rfl) fun _ => rfl
      have hview : ((s.record [.fetched n.sub (some rs)]).updateSub n.sub fun sub =>
          { sub with queue := rs, exhausted := rs.isEmpty }).loopView { n with phase := .request } =
          { s.loopView n with queue := rs, phase := .request } := by
        simp only [loopView, hqueue]
      exact ⟨{ n with phase := .request }, rfl, rfl, hview ▸ LoopMove.fetches rs hphase⟩
  · cases h

/-! ### Offers -/

section

variable {req : Request} {ad : ClassAd} (hphase : n.phase = .offer) (hcur : n.cur = some req)
include hphase hcur

theorem movesLoop_reject (hsubs : s₁.subs = s.subs) (rej : RejectInfo) (sendOk : Bool) :
    MovesLoop c s (c.reject s₁ r fr { n with cur := some { req with ad := ad } }
      { req with ad := ad } rej sendOk) n [.rejected { req with ad := ad }] := by
  rw [reject]
  dsimp only
  split
  · exact ⟨_, rfl, rfl, .rejects ad hphase hcur (Or.inl trivial)⟩
  · split
    · exact ⟨_, rfl, rfl, .rejects ad hphase hcur (Or.inl trivial)⟩
    · refine ⟨_, rfl, rfl, .rejects ad hphase hcur (Or.inr ?_)⟩
      have hqueue : ∀ e op, (c.sendInOrder (s₁.count fun stats =>
          { stats with rejections := stats.rejections + 1 }) n.sub e op).queueOf n.sub =
          s.queueOf n.sub := fun e op => by
        rw [CycleState.queueOf, CycleState.sub?, sendInOrder_subs, CycleState.count, hsubs]
        rfl
      exact LoopView.mk.injEq .. ▸ ⟨hqueue _ _, rfl, rfl, rfl, rfl⟩

theorem movesLoop_deliverMatch [Zero F] [One F] [Add F] [Sub F] [IntCast F] [LE F]
    [DecidableLE F] (hsubs : s₁.subs = s.subs) (cand : Candidate F) (sendOk : Bool) (now : ℤ) :
    MovesLoop c s (c.deliverMatch s₁ r fr n { req with ad := ad } cand sendOk now) n
      [.matched { req with ad := ad }] := by
  rw [deliverMatch]
  dsimp only
  split
  · exact ⟨_, rfl, rfl, .grants ad hphase hcur (Or.inl trivial)⟩
  · refine ⟨_, rfl, rfl, .grants ad hphase hcur (Or.inr ?_)⟩
    have hqueue : ∀ e op, (c.sendInOrder s₁ n.sub e op).queueOf n.sub = s.queueOf n.sub :=
      fun e op => by
        rw [queueOf, sub?, sendInOrder_subs, hsubs]
        rfl
    exact LoopView.mk.injEq .. ▸ ⟨hqueue _ _, rfl, rfl, rfl, rfl⟩

end

theorem answers_reject (h : Answers s s₁ []) (req : Request) (rej : RejectInfo) (sendOk : Bool) :
    Answers s (c.reject s₁ r fr n req rej sendOk) [.rejected req] := by
  have hcount : Answers s (s₁.count fun stats =>
      { stats with rejections := stats.rejections + 1 }) [] := h
  rw [reject]
  dsimp only
  split
  · exact hcount.made rfl
  · have hsent : ∀ reason, Answers s (c.sendInOrder _ n.sub (.rejected n.sub req reason true)
        (.reject req reason)) [.rejected req] := fun _ => hcount.sendInOrder c n.sub rfl rfl
    split
    · exact (hsent _).endRound n.sub false
    · exact hsent _

theorem answers_deliverMatch [Zero F] [One F] [Add F] [Sub F] [IntCast F] [LE F] [DecidableLE F]
    (h : Answers s s₁ []) (req : Request) (cand : Candidate F) (sendOk : Bool) (now : ℤ) :
    Answers s (c.deliverMatch s₁ r fr n req cand sendOk now) [.matched req] := by
  rw [deliverMatch]
  dsimp only
  split
  · exact h.made rfl
  · exact (h.sendInOrder c n.sub rfl rfl).record rfl

theorem movesLoop_stepOffer [Zero F] [One F] [Add F] [Sub F] [IntCast F] [BEq F] [LT F] [LE F]
    [DecidableLT F] [DecidableLE F] {ctxDone sendOk : Bool} {now : ℤ} (hphase : n.phase = .offer)
    (h : c.stepOffer s r fr n ctxDone sendOk now = some s') :
    MovesLoop c s s' n (s.newReplies s') := by
  rw [stepOffer] at h
  split at h
  · cases h
  · next req hcur =>
    dsimp only at h
    cases h
    split
    · exact (movesLoop_breakOff rfl _).answered ((Answers.nil rfl rfl).endRound n.sub false)
    · exact (movesLoop_reject hphase hcur rfl _ sendOk).answered
        (answers_reject (.nil rfl rfl) _ _ sendOk)
    · exact (movesLoop_deliverMatch hphase hcur rfl _ sendOk now).answered
        (answers_deliverMatch (.nil rfl rfl) _ _ sendOk now)

/-! ### Workers, and every step -/

theorem queueOf_stepDeliver {i : ℕ} {ok : Bool} (h : Cycle.stepDeliver s i ok = some s') (j : ℕ) :
    s'.queueOf j = s.queueOf j := by
  rw [stepDeliver] at h
  split at h
  · cases h
  · next k op _ =>
    split at h
    · cases h
      have hdone : ∀ (s₁ : CycleState F A) (es : List (Event F)), s₁.subs = s.subs →
          (if ok = true then s₁.record es else (s₁.record es).setErr k).queueOf j =
            s.queueOf j := by
        intro s₁ es hs₁
        have hsame : (s₁.record es).queueOf j = s.queueOf j := by
          rw [queueOf, sub?, record, hs₁]
          rfl
        split
        · exact hsame
        · exact (queueOf_setErr k j).trans hsame
      cases op with
      | sendMatch mr idx | reject req reason | endRound closeOnly =>
        simp only [carryOut]
        split
        · rfl
        · exact hdone _ _ rfl
    · cases h

variable [Zero F] [One F] [Add F] [Sub F] [Mul F] [Div F] [IntCast F] [BEq F] [LT F] [LE F]
  [DecidableLT F] [DecidableLE F] {st : CycleSetup F} {l : Label F}

theorem movesLoop_of_step (h : c.step st s l = some s') (hn : s.negotiation? = some n)
    (hknown : (s.sub? n.sub).isSome = true) (hl : l.isLeave = false) :
    MovesLoop c s s' n (c.acts s s' l) := by
  obtain ⟨r, fr, hpc, hstage⟩ := of_negotiation? hn
  have hround : ∀ {r'}, s.pc = .round r' → r' = r := fun hr' => Pc.round.inj (hr'.symm.trans hpc)
  rcases worker_or_spine h with ⟨i, ok, rfl, hdeliver⟩ | ⟨-, hspine⟩
  · have hpc' := (kept_stepDeliver hdeliver).2.2
    refine ⟨n, ?_, rfl, ?_⟩
    · rw [negotiation?, hpc', ← hn, negotiation?]
    · have hview : s'.loopView n = s.loopView n := by
        rw [loopView, queueOf_stepDeliver hdeliver, loopView]
      rw [hview]
      exact .stays
  · cases hspine with
    | group info ads hidle => cases hpc.symm.trans hidle
    | spin r' ctxErr hr' hstage' => cases hround hr'; cases hstage.symm.trans hstage'
    | prefetch r' env todo k reply _ hr' hstage' =>
      cases hround hr'; cases hstage.symm.trans hstage'
    | sub r' fr' ctxErr now _ hr' hstage' | spinEnd r' fr' _ hr' hstage' =>
      cases hround hr'; cases hstage.symm.trans hstage'
    | top r' fr' n' now hr' hstage' hphase =>
      cases hround hr'
      cases hstage.symm.trans hstage'
      exact movesLoop_stepTop hphase now
    | next r' fr' n' hr' hstage' hphase =>
      cases hround hr'
      cases hstage.symm.trans hstage'
      simp only [acts, hn]
      exact movesLoop_stepNext hphase
    | fetch r' fr' n' reply _ hr' hstage' hphase hfetch =>
      cases hround hr'
      cases hstage.symm.trans hstage'
      have hmoves := movesLoop_stepFetch (c := c) hphase hknown hfetch
      cases reply with
      | none =>
        simp only [acts]
        exact hmoves
      | some rs =>
        simp only [acts, hn]
        exact hmoves
    | offer r' fr' n' ctxDone sendOk now _ hr' hstage' hphase hoffer =>
      cases hround hr'
      cases hstage.symm.trans hstage'
      simp only [acts, hn]
      exact movesLoop_stepOffer hphase hoffer
    | leave => cases hl

/-! ## Whole negotiations -/

variable (c st) in
def Cycle.actsAlong : CycleState F A → List (Label F) → List Act
  | _, [] => []
  | s, l :: ls =>
    match c.step st s l with
    | none => []
    | some s' => c.acts s s' l ++ Cycle.actsAlong s' ls

theorem invariant_actsAlong {I : List Act → LoopView → Prop} {ls : List (Label F)}
    (hmove : ∀ acts new v v', LoopMove c.failsConstraint v new v' → I acts v → I (acts ++ new) v')
    (hrun : Run (c.step st) (fun _ l => l.isLeave = false) s ls s') {acts : List Act}
    (hn : s.negotiation? = some n) (hknown : (s.sub? n.sub).isSome = true)
    (hinit : I acts (s.loopView n)) :
    ∃ n', s'.negotiation? = some n' ∧ I (acts ++ c.actsAlong st s ls) (s'.loopView n') := by
  induction hrun generalizing n acts with
  | nil s => exact ⟨n, hn, by simpa [actsAlong] using hinit⟩
  | @cons s s₁ s' l ls hstep hl _ ih =>
    obtain ⟨n₁, hn₁, hsub, hloop⟩ := movesLoop_of_step hstep hn hknown hl
    have hknown₁ : (s₁.sub? n₁.sub).isSome = true := by
      obtain ⟨sub, hsub'⟩ := isSome_iff_exists.mp hknown
      have hname : s.nameOf n.sub = some sub.name := by rw [nameOf, hsub']; rfl
      have hname₁ := (move_of_step hstep).names _ _ hname
      rw [hsub]
      cases hs₁ : s₁.sub? n.sub with
      | none => rw [nameOf, hs₁] at hname₁; cases hname₁
      | some _ => rfl
    obtain ⟨n', hn', hI⟩ := ih hn₁ hknown₁ (hmove _ _ _ _ hloop hinit)
    refine ⟨n', hn', ?_⟩
    rw [actsAlong, hstep]
    rwa [← append_assoc]

theorem begins_of_step {ctxErr : Bool} {now : ℤ} (h : c.step st s (.sub ctxErr now) = some s')
    (hn : s'.negotiation? = some n) :
    (s'.sub? n.sub).isSome = true ∧ n.cur = none ∧ n.rejectedACs = [] ∧
      (n.phase = .top ∨ n.phase = .returned .error) := by
  have hlooping : ∀ (s₁ : CycleState F A) (r : Round F) (fr : SpinFrame F),
      (s₁.goto r (.looping fr)).negotiation? ≠ some n := by
    simp [goto, negotiation?]
  rcases worker_or_spine h with ⟨i, ok, hl, -⟩ | ⟨-, hspine⟩
  · cases hl
  · cases hspine with
    | sub r fr _ _ _ _ _ hsub =>
      rw [stepSub] at hsub
      split at hsub
      · cases hsub
      · split_ifs at hsub
        · cases hsub
          exact absurd hn (hlooping _ _ _)
        · cases hsub
          exact absurd hn (hlooping _ _ _)
        · split at hsub
          · cases hsub
            exact absurd hn (hlooping _ _ _)
          · next sub hfound =>
            cases hsub
            obtain rfl : sub.origIdx = _ := by simpa using find?_some hfound
            rw [negotiateOne] at hn ⊢
            split at hn
            · exact absurd hn (hlooping _ _ _)
            · obtain rfl := some.inj hn
              refine ⟨?_, rfl, rfl, ?_⟩
              · exact isSome_iff_exists.mpr ⟨sub, hfound⟩
              · simp only [startNegotiation]
                split
                · exact Or.inr rfl
                · exact Or.inl rfl

theorem negotiation_inOrder {s₀ : CycleState F A} {ctxErr : Bool} {now : ℤ} {ls : List (Label F)}
    (hbegin : c.step st s (.sub ctxErr now) = some s₀) (hn : s₀.negotiation? = some n)
    (hrun : Run (c.step st) (fun _ l => l.isLeave = false) s₀ ls s') :
    ∃ v, InOrder (s₀.queueOf n.sub) (c.actsAlong st s₀ ls) v ∧
      Justified c.failsConstraint (s₀.queueOf n.sub) (c.actsAlong st s₀ ls) v := by
  obtain ⟨hknown, hcur, hacs, hphase⟩ := begins_of_step hbegin hn
  have hinit : InOrder (s₀.queueOf n.sub) [] (s₀.loopView n) ∧
      Justified c.failsConstraint (s₀.queueOf n.sub) [] (s₀.loopView n) := by
    refine ⟨⟨[], none, [], _, .nil _, fun hnot => ?_⟩, ?_⟩
    · have htop : (s₀.loopView n).phase = .top :=
        hphase.resolve_right fun hreturned => hnot (by
          rw [loopView, hreturned]
          trivial)
      exact ⟨rfl, by simp [htop], by simp [htop], by simp [htop], fun _ => rfl, fun req hreq => by
        cases hreq.symm.trans hcur⟩
    · refine ⟨fun _ ac hac => ?_, fun before r hbefore => ?_⟩
      · rw [loopView, hacs] at hac
        cases hac
      · simp at hbefore
  obtain ⟨n', -, hI⟩ := invariant_actsAlong
    (I := fun acts v => InOrder (s₀.queueOf n.sub) acts v ∧
      Justified c.failsConstraint (s₀.queueOf n.sub) acts v)
    (fun acts new v v' hmove h => ⟨h.1.move hmove, h.2.move h.1 hmove⟩) hrun hn hknown hinit
  rw [nil_append] at hI
  exact ⟨_, hI⟩

end

/-! ### A negotiation over a small pool -/

def pickyCycle : Cycle ℚ (List (Text × ℚ)) :=
  { plainCycle with
    lib := { literalMatchLibrary id 0 with
      symmetry := fun job _ => match literalAttr id (0 : ℚ) job "Requirements" with
        | .bool false => false
        | _ => true }
    mm_considerPreemption := plainCycle_considerPreemption
    mm_useSlotWeights := plainCycle_useSlotWeights }

def clusterJob (cluster : ℤ) (attrs : List (Text × Expr)) : Request :=
  parseRequest pickyCycle.lib ⟨("ClusterId", .lit (.int cluster)) :: attrs⟩

def twoSlots : Cycle.Snapshot where
  slots := [slotAt "a" "x", slotAt "b" "y"]
  submitters := [submitterAd "u"]
  claimIDs := none

def pickySetup : CycleSetup ℚ := pickyCycle.setup 0 [] twoSlots

def beforeNegotiation (rs : List Request) : Option (CycleState ℚ (List (Text × ℚ))) :=
  exec (pickyCycle.step pickySetup) (pickyCycle.start pickySetup [] twoSlots)
    [.group flatRound [0], .spin false, .prefetch 0 (.requests rs)]

def seenAlong {β : Type} (rs : List Request) (ls : List (Label ℚ))
    (view : CycleState ℚ (List (Text × ℚ)) → NegState ℚ → β) : Option β :=
  (beforeNegotiation rs).bind fun s => (pickyCycle.step pickySetup s (.sub false 0)).bind
    fun s₀ => s₀.negotiation?.bind fun n =>
      (exec (pickyCycle.step pickySetup) s₀ ls).map fun _ => view s₀ n

theorem of_seenAlong {β : Type} {rs : List Request} {ls : List (Label ℚ)}
    {view : CycleState ℚ (List (Text × ℚ)) → NegState ℚ → β} {b : β}
    (h : seenAlong rs ls view = some b) :
    ∃ s s₀ s' n, beforeNegotiation rs = some s ∧
      pickyCycle.step pickySetup s (.sub false 0) = some s₀ ∧ s₀.negotiation? = some n ∧
      exec (pickyCycle.step pickySetup) s₀ ls = some s' ∧ view s₀ n = b := by
  obtain ⟨s, hs, h⟩ := bind_eq_some_iff.mp h
  obtain ⟨s₀, hbegin, h⟩ := bind_eq_some_iff.mp h
  obtain ⟨n, hn, h⟩ := bind_eq_some_iff.mp h
  obtain ⟨s', hrun, h⟩ := map_eq_some_iff.mp h
  exact ⟨s, s₀, s', n, hs, hbegin, hn, hrun, h⟩

/-! ### The replies of a negotiation -/

theorem one_le_count_parseRequest {F : Type} (lib : MatchLibrary F) (ad : ClassAd) :
    1 ≤ (parseRequest lib ad).count := by
  rw [parseRequest]
  cases h : (lib.evaluateAttrInt ad "_condor_RESOURCE_COUNT").filter fun v => 0 < v with
  | none => exact le_refl 1
  | some v =>
    obtain ⟨-, hv⟩ := filter_eq_some_iff.mp h
    exact of_decide_eq_true hv

section

variable {F A : Type} [Zero F] [One F] [Add F] [Sub F] [Mul F] [Div F] [IntCast F] [BEq F] [LT F]
  [LE F] [DecidableLT F] [DecidableLE F] (c : Cycle F A) (st : CycleSetup F)

def Cycle.fetchedAlong (s₀ : CycleState F A) (k : ℕ) (ls : List (Label F)) : List Request :=
  s₀.queueOf k ++ (c.actsAlong st s₀ ls).flatMap Act.requests

/-- **Replies come request by request**, in the order of fetching: matches, then at most one reject.
-/
theorem replies_request_by_request (s s₀ s' : CycleState F A) (n : NegState F) (ctxErr : Bool)
    (now : ℤ) (ls : List (Label F)) (hbegin : c.step st s (.sub ctxErr now) = some s₀)
    (hn : s₀.negotiation? = some n) (hrun : exec (c.step st) s₀ ls = some s')
    (hwithin : ∀ l ∈ ls, l.isLeave = false)
    (hparsed : ∀ r ∈ c.fetchedAlong st s₀ n.sub ls, r = parseRequest c.lib r.ad) :
    ∃ groups : List ReplyGroup,
      (groups.map ReplyGroup.request).Sublist (c.fetchedAlong st s₀ n.sub ls) ∧
      (c.actsAlong st s₀ ls).filter Act.isReply = groups.flatMap ReplyGroup.acts ∧
      ∀ g ∈ groups, (∀ r ∈ g.matched ++ g.rejected.toList, r.SameAs g.request) ∧
        (g.matched.length : ℤ) ≤ max 1 g.request.count ∧
        (g.rejected.isSome → (g.matched.length : ℤ) < g.request.count) := by
  obtain ⟨v, ⟨done, current, taken, rest, hreplied, -⟩, -⟩ := negotiation_inOrder hbegin hn
    (.of_exec hrun fun l hl _ => hwithin l hl)
  have horder : ((done ++ current.toList).map ReplyGroup.request).Sublist
      (c.fetchedAlong st s₀ n.sub ls) := by
    rw [fetchedAlong, hreplied.stream]
    exact hreplied.order.trans (sublist_append_left ..)
  refine ⟨_, horder, hreplied.replies, fun g hg => ?_⟩
  have hdisciplined := hreplied.disciplined g hg
  have hcount : 1 ≤ g.request.count := by
    rw [hparsed g.request (horder.subset (mem_map_of_mem hg))]
    exact one_le_count_parseRequest c.lib _
  refine ⟨hdisciplined.same, hdisciplined.bound, fun hrejected => ?_⟩
  exact (max_eq_right hcount) ▸ hdisciplined.below hrejected

def twoJobs : List Request :=
  [clusterJob 1 [("AutoClusterId", .lit (.int 7)),
      ("Requirements", .lit (.bool false))],
    clusterJob 2 [("AutoClusterId", .lit (.int 8)),
      ("_condor_RESOURCE_COUNT", .lit (.int 2))]]

def threeOffers : List (Label ℚ) :=
  [.top 0, .next, .offer false true 0, .top 0, .next, .offer false true 0, .top 0,
    .offer false true 0]

theorem replies_request_by_request_twoJobs :
    ∃ s s₀ s' n, beforeNegotiation twoJobs = some s ∧
      pickyCycle.step pickySetup s (.sub false 0) = some s₀ ∧ s₀.negotiation? = some n ∧
      exec (pickyCycle.step pickySetup) s₀ threeOffers = some s' ∧
      (pickyCycle.actsAlong pickySetup s₀ threeOffers).map Act.isReply = [true, true, true] ∧
      ∃ groups : List ReplyGroup, (groups.map ReplyGroup.request).Sublist twoJobs ∧
        (pickyCycle.actsAlong pickySetup s₀ threeOffers).filter Act.isReply =
          groups.flatMap ReplyGroup.acts := by
  obtain ⟨s, s₀, s', n, hs, hbegin, hn, hrun, h⟩ := of_seenAlong (by decide +kernel :
    seenAlong twoJobs threeOffers (fun s₀ n =>
      ((pickyCycle.actsAlong pickySetup s₀ threeOffers).map Act.isReply,
        pickyCycle.fetchedAlong pickySetup s₀ n.sub threeOffers)) =
      some ([true, true, true], twoJobs))
  obtain ⟨hacts, hfetched⟩ := Prod.mk.inj h
  obtain ⟨groups, horder, hreplies, -⟩ := replies_request_by_request pickyCycle pickySetup s s₀ s' n
    false 0 threeOffers hbegin hn hrun (by simp [threeOffers, Label.isLeave])
    (by rw [hfetched]; decide +kernel)
  exact ⟨s, s₀, s', n, hs, hbegin, hn, hrun, hacts, groups, hfetched ▸ horder, hreplies⟩

def Cycle.autoCluster? (r : Request) : Option ℤ :=
  c.lib.evaluateAttrInt r.ad "AutoClusterId"

/-- **A skip is justified** by a rejected request of its autocluster. -/
def Cycle.SkipJustified (queue₀ : List Request) (before : List Act) (r : Request) : Prop :=
  ∃ q ∈ before.filterMap Act.rejected?, ∃ f ∈ queue₀ ++ before.flatMap Act.requests,
    q.SameAs f ∧ (c.autoCluster? r).isSome ∧ c.autoCluster? f = c.autoCluster? r

instance (queue₀ : List Request) (before : List Act) (r : Request) :
    Decidable (c.SkipJustified queue₀ before r) :=
  inferInstanceAs (Decidable (∃ q ∈ before.filterMap Act.rejected?,
    ∃ f ∈ queue₀ ++ before.flatMap Act.requests,
      q.SameAs f ∧ (c.autoCluster? r).isSome ∧ c.autoCluster? f = c.autoCluster? r))

/-- **A request is skipped for its autocluster** only after one of the same was rejected. -/
theorem skipped_after_rejected (s s₀ s' : CycleState F A) (n : NegState F) (ctxErr : Bool)
    (now : ℤ) (ls : List (Label F)) (hbegin : c.step st s (.sub ctxErr now) = some s₀)
    (hn : s₀.negotiation? = some n) (hrun : exec (c.step st) s₀ ls = some s')
    (hwithin : ∀ l ∈ ls, l.isLeave = false)
    (hparsed : ∀ r ∈ c.fetchedAlong st s₀ n.sub ls, r = parseRequest c.lib r.ad)
    (hcarries : ∀ r ∈ c.fetchedAlong st s₀ n.sub ls, (c.autoCluster? r).isSome = true)
    (before : List Act) (r : Request) (hdropped : before ++ [.dropped r] <+: c.actsAlong st s₀ ls)
    (hpasses : c.failsConstraint r = false) :
    c.SkipJustified (s₀.queueOf n.sub) before r := by
  obtain ⟨v, ⟨done, current, taken, rest, hreplied, -⟩, hjustified⟩ := negotiation_inOrder hbegin hn
    (.of_exec hrun fun l hl _ => hwithin l hl)
  obtain ⟨q, f, hq, hf, hsame, hac⟩ := hjustified.drops before r hdropped hpasses
  -- both requests were fetched, so their numbers were read from what they carry
  have hr : r ∈ c.fetchedAlong st s₀ n.sub ls := by
    rw [fetchedAlong, hreplied.stream]
    exact mem_append_left _ (hreplied.dropped r (hdropped.subset (by simp)))
  have hf' : f ∈ c.fetchedAlong st s₀ n.sub ls := by
    obtain ⟨after, hafter⟩ := hdropped
    rw [fetchedAlong, ← hafter]
    simp only [flatMap_append, ← append_assoc]
    exact mem_append_left _ (mem_append_left _ hf)
  have hread : ∀ r' ∈ c.fetchedAlong st s₀ n.sub ls, c.autoCluster? r' = some r'.autoClusterID := by
    intro r' hr'
    obtain ⟨ac, hac'⟩ := isSome_iff_exists.mp (hcarries r' hr')
    have hid : r'.autoClusterID = (c.autoCluster? r').getD 0 :=
      congrArg Request.autoClusterID (hparsed r' hr')
    rw [hid, hac', getD_some]
  refine ⟨q, mem_filterMap.mpr ⟨_, hq, rfl⟩, f, hf, hsame, hcarries r hr, ?_⟩
  rw [hread f hf', hread r hr, hac]

end

def offerAndSearch : List (Label ℚ) := [.top 0, .next, .offer false true 0, .top 0, .next]

def hopelessJob (attrs : List (Text × Expr)) : Request :=
  clusterJob 1 (("Requirements", .lit (.bool false)) :: attrs)

def inAutoCluster (ac : ℤ) : List (Text × Expr) := [("AutoClusterId", .lit (.int ac))]

theorem skipped_after_rejected_sameCluster :
    ∃ s s₀ s' n before, pickyCycle.step pickySetup s (.sub false 0) = some s₀ ∧
      s₀.negotiation? = some n ∧ exec (pickyCycle.step pickySetup) s₀ offerAndSearch = some s' ∧
      pickyCycle.actsAlong pickySetup s₀ offerAndSearch =
        before ++ [.dropped (clusterJob 2 (inAutoCluster 7))] ∧
      pickyCycle.SkipJustified (s₀.queueOf n.sub) before (clusterJob 2 (inAutoCluster 7)) := by
  obtain ⟨s, s₀, s', n, -, hbegin, hn, hrun, h⟩ := of_seenAlong (by decide +kernel :
    seenAlong [hopelessJob (inAutoCluster 7), clusterJob 2 (inAutoCluster 7)] offerAndSearch
      (fun s₀ n => ((pickyCycle.actsAlong pickySetup s₀ offerAndSearch).drop 1,
        pickyCycle.fetchedAlong pickySetup s₀ n.sub offerAndSearch)) =
      some ([.dropped (clusterJob 2 (inAutoCluster 7))],
        [hopelessJob (inAutoCluster 7), clusterJob 2 (inAutoCluster 7)]))
  obtain ⟨hlast, hfetched⟩ := Prod.mk.inj h
  have hsplit := take_append_drop 1 (pickyCycle.actsAlong pickySetup s₀ offerAndSearch)
  rw [hlast] at hsplit
  refine ⟨s, s₀, s', n, _, hbegin, hn, hrun, hsplit.symm, ?_⟩
  exact skipped_after_rejected pickyCycle pickySetup s s₀ s' n false 0 offerAndSearch hbegin hn hrun
    (by simp [offerAndSearch, Label.isLeave]) (by rw [hfetched]; decide +kernel)
    (by rw [hfetched]; decide +kernel) _ _ ⟨[], (append_nil _).trans hsplit⟩ rfl

theorem skipped_without_rejected :
    ∃ s s₀ s' n before, pickyCycle.step pickySetup s (.sub false 0) = some s₀ ∧
      s₀.negotiation? = some n ∧ exec (pickyCycle.step pickySetup) s₀ offerAndSearch = some s' ∧
      (∀ r ∈ pickyCycle.fetchedAlong pickySetup s₀ n.sub offerAndSearch,
        r = parseRequest pickyCycle.lib r.ad) ∧
      pickyCycle.actsAlong pickySetup s₀ offerAndSearch =
        before ++ [.dropped (clusterJob 2 (inAutoCluster 0))] ∧
      pickyCycle.failsConstraint (clusterJob 2 (inAutoCluster 0)) = false ∧
      ¬ pickyCycle.SkipJustified (s₀.queueOf n.sub) before (clusterJob 2 (inAutoCluster 0)) := by
  obtain ⟨s, s₀, s', n, -, hbegin, hn, hrun, h⟩ := of_seenAlong (by decide +kernel :
    seenAlong [hopelessJob [], clusterJob 2 (inAutoCluster 0)] offerAndSearch
      (fun s₀ n => ((pickyCycle.actsAlong pickySetup s₀ offerAndSearch).drop 1,
        pickyCycle.fetchedAlong pickySetup s₀ n.sub offerAndSearch,
        decide (pickyCycle.SkipJustified (s₀.queueOf n.sub)
          ((pickyCycle.actsAlong pickySetup s₀ offerAndSearch).take 1)
          (clusterJob 2 (inAutoCluster 0))))) =
      some ([.dropped (clusterJob 2 (inAutoCluster 0))],
        [hopelessJob [], clusterJob 2 (inAutoCluster 0)], false))
  obtain ⟨hlast, hfetched, hskip⟩ : _ ∧ _ ∧ _ := by simpa only [Prod.mk.injEq] using h
  have hsplit := take_append_drop 1 (pickyCycle.actsAlong pickySetup s₀ offerAndSearch)
  rw [hlast] at hsplit
  exact ⟨s, s₀, s', n, _, hbegin, hn, hrun, by rw [hfetched]; decide +kernel, hsplit.symm, rfl,
    of_decide_eq_false hskip⟩

end GolangCollector.Negotiator
