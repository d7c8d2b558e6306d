import GolangCollector.Negotiator.Moves
import GolangCollector.Negotiator.Sessions

/-! # A cycle's traffic

The session of a submitter as it is read off a state of the cycle, and what the operations of the
spine and of the workers do to it: each is a move of one session of `Sessions`, and no other session
sees it. What each operation asks for (an open round, nothing waiting) is left to `OpenRounds`. -/

namespace GolangCollector.Negotiator

open GoStrings Relation Runs List Option Negotiator.Cycle CycleState

variable {F A : Type}

/-! ## The session of a submitter -/

/-- The place of the slot of a submitter's accounted match. -/
def Event.accountedIdx? (k : ℕ) : Event F → Option ℕ
  | .committed sub _ idx _ _ => if sub = k then some idx else none
  | _ => none

namespace CycleState

variable (s : CycleState F A)

/-- The submitter's round is open. -/
def roundOpen (k : ℕ) : Bool := (s.sub? k).any SubState.sessOpen

/-- An error is recorded for the submitter. -/
def broken (k : ℕ) : Bool := (s.sub? k).any SubState.ioErr

/-- **The session of a submitter.** -/
def session (k : ℕ) : Session F where
  traffic := s.log.filter fun e => e.session? = some k
  waiting := (s.pending.filter fun p => p.1 = k).map Prod.snd
  sessOpen := s.roundOpen k
  ioErr := s.broken k
  accounted := s.log.filterMap (Event.accountedIdx? k)

variable {s} {s' : CycleState F A}

theorem session_congr {k : ℕ} (hlog : s'.log = s.log) (hpending : s'.pending = s.pending)
    (hopen : s'.roundOpen k = s.roundOpen k) (hbroken : s'.broken k = s.broken k) :
    s'.session k = s.session k := by
  rw [session, session, hlog, hpending, hopen, hbroken]

/-! ### What the changes of a state do to a session -/

section

variable {f : SubState F → SubState F} (k j : ℕ) (hidx : ∀ sub, (f sub).origIdx = sub.origIdx)
include hidx

theorem roundOpen_updateSub : (s.updateSub k f).roundOpen j =
    if j = k then (s.sub? j).any fun sub => (f sub).sessOpen else s.roundOpen j := by
  rw [roundOpen, s.sub?_updateSub k j hidx, roundOpen]
  split
  · cases s.sub? j <;> rfl
  · rfl

theorem broken_updateSub : (s.updateSub k f).broken j =
    if j = k then (s.sub? j).any fun sub => (f sub).ioErr else s.broken j := by
  rw [broken, s.sub?_updateSub k j hidx, broken]
  split
  · cases s.sub? j <;> rfl
  · rfl

end

variable (k j : ℕ)

@[simp] theorem roundOpen_setErr : (s.setErr k).roundOpen j = s.roundOpen j := by
  refine (roundOpen_updateSub k j ?_).trans ?_
  · exact fun _ => rfl
  · rw [roundOpen, ite_self]

theorem broken_setErr :
    (s.setErr k).broken j = if j = k then (s.sub? j).isSome else s.broken j := by
  refine (broken_updateSub k j ?_).trans ?_
  · exact fun _ => rfl
  · cases s.sub? j <;> rfl

theorem roundOpen_endRound (b : Bool) :
    (s.endRound k b).roundOpen j = (s.roundOpen j && decide (j ≠ k)) := by
  rw [endRound]
  split
  · refine (roundOpen_updateSub k j ?_).trans ?_
    · exact fun _ => rfl
    · by_cases hj : j = k
      · cases s.sub? j <;> simp [hj]
      · simp [hj]
  · next hclosed =>
    by_cases hj : j = k
    · subst hj
      simpa [roundOpen] using hclosed
    · simp [hj]

@[simp] theorem broken_endRound (b : Bool) : (s.endRound k b).broken j = s.broken j := by
  rw [endRound]
  split
  · refine (broken_updateSub k j ?_).trans ?_
    · exact fun _ => rfl
    · rw [broken, ite_self]
  · rfl

theorem isSome_sub?_of_roundOpen {k : ℕ} (h : s.roundOpen k = true) :
    (s.sub? k).isSome = true := by
  rw [roundOpen] at h
  cases hsub : s.sub? k with
  | none => simp [hsub] at h
  | some sub => rfl

theorem isSome_updateSub (hidx : ∀ sub, (f sub).origIdx = sub.origIdx) :
    ((s.updateSub k f).sub? j).isSome = (s.sub? j).isSome := by
  rw [s.sub?_updateSub k j hidx]
  split <;> simp

theorem drained_iff : s.drained k = true ↔ (s.session k).waiting = [] := by
  simp [drained, session, filter_eq_nil_iff]

theorem waiting_enqueue (op : Op F) :
    ((s.enqueue k op).session j).waiting =
      (s.session j).waiting ++ if j = k then [op] else [] := by
  simp only [session, enqueue, filter_append, map_append]
  by_cases hj : j = k
  · simp [hj]
  · simp [hj, Ne.symm hj]

end CycleState

/-! ## Steps of all sessions -/

/-- **What waits**: operations of known submitters, and in compat mode no match. -/
structure Queued (c : Cycle F A) (s : CycleState F A) : Prop where
  known : ∀ p ∈ s.pending, (s.sub? p.1).isSome = true
  inline : c.cfg.compatMode = true → ∀ p ∈ s.pending, p.2.matchIdx? = none

/-- **No session sees a step.** -/
structure SameSessions (s s' : CycleState F A) : Prop where
  session_eq : ∀ k, s'.session k = s.session k
  pending_eq : s'.pending = s.pending
  known : ∀ k, (s.sub? k).isSome = true → (s'.sub? k).isSome = true

/-- **Every session runs**, and the queue stays in order. -/
structure Traffic (lossless : Prop) (c : Cycle F A) (s s' : CycleState F A) : Prop where
  runs : ∀ k, SessionRun lossless k (s.session k) (s'.session k)
  queued : Queued c s → Queued c s'

section

variable {lossless : Prop} {c : Cycle F A} {s s' s'' : CycleState F A} {k : ℕ}

theorem Queued.append (hq : Queued c s) {op : Op F} (hpending : s'.pending = s.pending ++ [(k, op)])
    (hknown : ∀ j, (s'.sub? j).isSome = (s.sub? j).isSome) (hk : (s.sub? k).isSome = true)
    (hop : c.cfg.compatMode = true → op.matchIdx? = none) : Queued c s' where
  known p hp := by
    rw [hpending, mem_append, mem_singleton] at hp
    rw [hknown]
    rcases hp with hp | rfl
    · exact hq.known p hp
    · exact hk
  inline hcompat p hp := by
    rw [hpending, mem_append, mem_singleton] at hp
    rcases hp with hp | rfl
    · exact hq.inline hcompat p hp
    · exact hop hcompat

namespace SameSessions

theorem refl : SameSessions s s := ⟨fun _ => rfl, rfl, fun _ h => h⟩

theorem trans (h : SameSessions s s') (h' : SameSessions s' s'') : SameSessions s s'' :=
  ⟨fun k => (h'.session_eq k).trans (h.session_eq k), h'.pending_eq.trans h.pending_eq,
    fun k hk => h'.known k (h.known k hk)⟩

theorem open_eq (h : SameSessions s s') (j : ℕ) : s'.roundOpen j = s.roundOpen j :=
  congrArg Session.sessOpen (h.session_eq j)

theorem traffic (h : SameSessions s s') : Traffic lossless c s s' where
  runs k := by rw [h.session_eq]
  queued hq := ⟨fun p hp => h.known _ (hq.known p (h.pending_eq ▸ hp)),
    fun hcompat p hp => hq.inline hcompat p (h.pending_eq ▸ hp)⟩

/-- The sessions see nothing but submitters, log and queue. -/
theorem of_subs (hlog : s'.log = s.log) (hpending : s'.pending = s.pending)
    (hsubs : s'.subs = s.subs) : SameSessions s s' := by
  have hsub : ∀ j, s'.sub? j = s.sub? j := fun j => by
    rw [sub?, hsubs, sub?]
  refine ⟨fun j => session_congr hlog hpending ?_ ?_, hpending, fun j h => ?_⟩
  · rw [roundOpen, hsub, roundOpen]
  · rw [broken, hsub, broken]
  · rwa [hsub]

/-- The rounds of the submitters and their errors stay. -/
theorem of_map (hlog : s'.log = s.log) (hpending : s'.pending = s.pending)
    (h : ∀ j, (s'.sub? j).map (fun sub => (sub.sessOpen, sub.ioErr)) =
      (s.sub? j).map fun sub => (sub.sessOpen, sub.ioErr)) : SameSessions s s' := by
  have hany : ∀ (p : Bool × Bool → Bool) (o : Option (SubState F)),
      o.any (fun sub => p (sub.sessOpen, sub.ioErr)) =
        (o.map fun sub => (sub.sessOpen, sub.ioErr)).any p := fun p o => by cases o <;> rfl
  refine ⟨fun j => session_congr hlog hpending ?_ ?_, hpending, fun j hj => ?_⟩
  · have := congrArg (Option.any Prod.fst) (h j)
    rwa [← hany, ← hany] at this
  · have := congrArg (Option.any Prod.snd) (h j)
    rwa [← hany, ← hany] at this
  · have := congrArg isSome (h j)
    rw [isSome_map, isSome_map] at this
    rwa [this]

theorem updateSub (hidx : ∀ sub, (f sub).origIdx = sub.origIdx)
    (hopen : ∀ sub, (f sub).sessOpen = sub.sessOpen) (hbroken : ∀ sub, (f sub).ioErr = sub.ioErr) :
    SameSessions s (s.updateSub k f) :=
  of_map rfl rfl fun j => s.map_sub?_updateSub _ k j hidx fun sub => by rw [hopen, hbroken]

theorem putSubs {changed : List (SubState F)}
    (h : ∀ sub ∈ changed, (s.sub? sub.origIdx).map (fun sub => (sub.sessOpen, sub.ioErr)) =
      some (sub.sessOpen, sub.ioErr)) : SameSessions s (s.putSubs changed) :=
  of_map rfl rfl fun j => s.map_sub?_putSubs _ j h

end SameSessions

namespace Traffic

theorem refl : Traffic lossless c s s := ⟨fun _ => .refl, fun h => h⟩

theorem trans (h : Traffic lossless c s s') (h' : Traffic lossless c s' s'') :
    Traffic lossless c s s'' :=
  ⟨fun k => (h.runs k).trans (h'.runs k), fun hq => h'.queued (h.queued hq)⟩

theorem of_subs (hlog : s'.log = s.log) (hpending : s'.pending = s.pending)
    (hsubs : s'.subs = s.subs) : Traffic lossless c s s' :=
  (SameSessions.of_subs hlog hpending hsubs).traffic

/-- One session moves, and no other one sees the step. -/
theorem of_move (hmove : SessionMove lossless k (s.session k) (s'.session k))
    (hother : ∀ j, j ≠ k → s'.session j = s.session j) (hqueued : Queued c s → Queued c s') :
    Traffic lossless c s s' where
  runs j := by
    by_cases hj : j = k
    · subst hj
      exact .single hmove
    · rw [hother j hj]
  queued := hqueued

end Traffic

theorem traffic_endRound (b : Bool) : Traffic lossless c s (s.endRound k b) := by
  by_cases hopen : s.roundOpen k = true
  · have hend : s.endRound k b = (s.updateSub k fun sub =>
        { sub with sessOpen := false, queue := [], exhausted := false }).enqueue k (.endRound b) :=
      if_pos hopen
    have hwaiting : ∀ j, ((s.endRound k b).session j).waiting =
        (s.session j).waiting ++ if j = k then [.endRound b] else [] := fun j => by
      rw [hend]
      exact waiting_enqueue k j _
    have hlog : (s.endRound k b).log = s.log := by rw [hend]; rfl
    have hsession : ∀ j, (s.endRound k b).session j =
        { s.session j with
          waiting := (s.session j).waiting ++ if j = k then [.endRound b] else []
          sessOpen := s.roundOpen j && decide (j ≠ k) } := fun j => by
      rw [← hwaiting, ← roundOpen_endRound k j b]
      simp only [session, hlog, broken_endRound]
    refine .of_move (k := k) ?_ (fun j hj => ?_) fun hq => ?_
    · rw [hsession]
      simpa using SessionMove.endRound b hopen
    · rw [hsession]
      simp [hj, session]
    · have hpending : (s.endRound k b).pending = s.pending ++ [(k, .endRound b)] := by
        rw [hend]
        rfl
      refine hq.append hpending (fun j => ?_) (isSome_sub?_of_roundOpen hopen)
        fun _ => rfl
      rw [hend]
      refine isSome_updateSub k j ?_
      exact fun _ => rfl
  · have hsame : s.endRound k b = s := if_neg hopen
    rw [hsame]
    exact .refl

/-! ### Operations of the spine -/

theorem traffic_log_concat (log : List (Event F)) (ev : Event F) (j : ℕ) :
    (log ++ [ev]).filter (fun e => e.session? = some j) =
      log.filter (fun e => e.session? = some j) ++ if ev.session? = some j then [ev] else [] := by
  rw [filter_append]
  split <;> simp [*]

theorem accounted_log_concat (log : List (Event F)) (ev : Event F) (j : ℕ) :
    (log ++ [ev]).filterMap (Event.accountedIdx? j) =
      log.filterMap (Event.accountedIdx? j) ++ (ev.accountedIdx? j).toList := by
  rw [filterMap_append]
  cases h : ev.accountedIdx? j <;> simp [h]

variable {ev : Event F}

theorem accountedIdx?_of_session (h : ev.session? = some k) (j : ℕ) :
    ev.accountedIdx? j = none := by
  cases ev <;> first | rfl | cases h

/-- **An operation of a submitter is carried out**: its event is recorded, and its failure. -/
structure CarriedOut (s s' : CycleState F A) (k : ℕ) (ev : Option (Event F)) : Prop where
  log_eq : s'.log = s.log ++ ev.toList
  pending_eq : s'.pending = s.pending
  open_eq : ∀ j, s'.roundOpen j = s.roundOpen j
  known_eq : ∀ j, (s'.sub? j).isSome = (s.sub? j).isSome
  broken_eq : ∀ j, s'.broken j =
    if j = k then s.broken k || ev.any fun ev => !ev.succeeded else s.broken j

theorem carriedOut_none : CarriedOut s s k none :=
  ⟨by simp, rfl, fun _ => rfl, fun _ => rfl, fun j => by
    by_cases hj : j = k <;> simp [hj]⟩

theorem carriedOut_record (hok : ev.succeeded = true) : CarriedOut s (s.record [ev]) k (some ev) :=
  ⟨rfl, rfl, fun _ => rfl, fun _ => rfl, fun j => by
    by_cases hj : j = k
    · subst hj
      simp [hok, broken, record, sub?]
    · simp [hj, broken, record, sub?]⟩

theorem carriedOut_setErr (hfails : ev.succeeded = false) (hknown : (s.sub? k).isSome = true) :
    CarriedOut s ((s.record [ev]).setErr k) k (some ev) where
  log_eq := rfl
  pending_eq := rfl
  open_eq j := CycleState.roundOpen_setErr k j
  known_eq j := by
    refine isSome_updateSub (s := s.record [ev]) k j ?_
    exact fun _ => rfl
  broken_eq j := by
    rw [broken_setErr]
    by_cases hj : j = k
    · subst hj
      rw [if_pos rfl, if_pos rfl, any_some, hfails, Bool.not_false, Bool.or_true]
      exact hknown
    · rw [if_neg hj, if_neg hj]
      rfl

namespace CarriedOut

variable {ev : Option (Event F)}

theorem queued (h : CarriedOut s s' k ev) (hq : Queued c s) : Queued c s' :=
  ⟨fun p hp => by rw [h.known_eq]; exact hq.known p (h.pending_eq ▸ hp),
    fun hcompat p hp => hq.inline hcompat p (h.pending_eq ▸ hp)⟩

/-- Only the submitter's own session sees it. -/
theorem session (h : CarriedOut s s' k ev) (hev : ∀ e ∈ ev, e.session? = some k) (j : ℕ) :
    s'.session j =
      { s.session j with
        traffic := (s.session j).traffic ++ if j = k then ev.toList else []
        ioErr := if j = k then s.broken k || ev.any fun ev => !ev.succeeded else s.broken j } := by
  cases ev with
  | none =>
    simp only [session, h.log_eq, h.pending_eq, h.open_eq, h.broken_eq,
      toList_none, append_nil, ite_self]
  | some e =>
    have he : e.session? = some k := hev e rfl
    simp only [session, h.log_eq, h.pending_eq, h.open_eq, h.broken_eq,
      toList_some, traffic_log_concat, accounted_log_concat, accountedIdx?_of_session he,
      toList_none, append_nil, he, some.injEq, @eq_comm ℕ k j]

end CarriedOut

/-- **The spine uses a session**, with nothing waiting on it. -/
theorem traffic_talk (h : CarriedOut s s' k (some ev)) (hev : ev.session? = some k)
    (htalk : ev.IsTalk) (hidx : ev.deliveredIdx? = none) (hopen : s.roundOpen k = true)
    (hdrained : (s.session k).waiting = []) : Traffic lossless c s s' := by
  have hsession := h.session (by simpa using hev)
  refine .of_move (k := k) ?_ (fun j hj => ?_) h.queued
  · rw [hsession, if_pos rfl, if_pos rfl]
    exact SessionMove.talk ev htalk hidx hdrained hopen
  · rw [hsession, if_neg hj, if_neg hj, append_nil]
    rfl

/-- **The spine leaves a rejection to the worker.** -/
theorem traffic_queueReject (req : Request) (reason : Text) (hopen : s.roundOpen k = true) :
    Traffic lossless c s (s.enqueue k (.reject req reason)) := by
  have hsession : ∀ j, (s.enqueue k (.reject req reason)).session j =
      { s.session j with
        waiting := (s.session j).waiting ++ if j = k then [.reject req reason] else [] } :=
    fun j => by
      rw [← waiting_enqueue]
      rfl
  refine .of_move (k := k) ?_ (fun j hj => ?_) fun hq => ?_
  · rw [hsession, if_pos rfl]
    exact SessionMove.queueReject req reason hopen
  · rw [hsession, if_neg hj, append_nil]
  · exact hq.append rfl (fun _ => rfl) (isSome_sub?_of_roundOpen hopen) fun _ => rfl

/-- **A match is handed over and accounted**: at once, or by the worker. -/
theorem traffic_match {mr : MatchResult F} {idx : ℕ} {e : Event F} (hopen : s.roundOpen k = true)
    (hdrained : c.cfg.compatMode = true → (s.session k).waiting = [])
    (hclean : lossless → c.cfg.compatMode = false → s.broken k = false)
    (he : e.session? = none) (hidx : ∀ j, e.accountedIdx? j = if j = k then some idx else none)
    (hlog : s'.log = (c.sendInOrder s k (.sent k mr idx true) (.sendMatch mr idx)).log ++ [e])
    (hpending :
      s'.pending = (c.sendInOrder s k (.sent k mr idx true) (.sendMatch mr idx)).pending)
    (hsubs : s'.subs = s.subs) : Traffic lossless c s s' := by
  have hknown : ∀ j, s'.sub? j = s.sub? j := fun j => by
    rw [sub?, hsubs, sub?]
  have hopen' : ∀ j, s'.roundOpen j = s.roundOpen j := fun j => by
    rw [roundOpen, hknown, roundOpen]
  have hbroken : ∀ j, s'.broken j = s.broken j := fun j => by
    rw [broken, hknown, broken]
  have hsent : (Event.sent k mr idx true).session? = some k := rfl
  have hadded : ∀ j, (if j = k then some idx else none).toList = if j = k then [idx] else [] :=
    fun j => by split <;> rfl
  cases hcompat : c.cfg.compatMode with
  | true =>
    simp only [sendInOrder, hcompat, if_true, record] at hlog hpending
    have hsession : ∀ j, s'.session j =
        { s.session j with
          traffic := (s.session j).traffic ++ if k = j then [.sent k mr idx true] else []
          accounted := (s.session j).accounted ++ if j = k then [idx] else [] } := fun j => by
      simp only [session, hlog, hpending, hopen', hbroken, traffic_log_concat,
        accounted_log_concat, hidx, hadded, he, hsent, accountedIdx?_of_session hsent]
      simp
    refine .of_move (k := k) ?_ (fun j hj => ?_) fun hq => ?_
    · rw [hsession, if_pos rfl, if_pos rfl]
      exact SessionMove.handOver mr idx (hdrained hcompat) hopen
    · rw [hsession, if_neg (Ne.symm hj), if_neg hj, append_nil, append_nil]
    · exact ⟨fun p hp => by rw [hknown]; exact hq.known p (hpending ▸ hp),
        fun hcompat p hp => hq.inline hcompat p (hpending ▸ hp)⟩
  | false =>
    simp only [sendInOrder, hcompat, Bool.false_eq_true, if_false, enqueue]
      at hlog hpending
    have hsession : ∀ j, s'.session j =
        { s.session j with
          waiting := (s.session j).waiting ++ if j = k then [.sendMatch mr idx] else []
          accounted := (s.session j).accounted ++ if j = k then [idx] else [] } := fun j => by
      rw [← waiting_enqueue]
      simp only [session, enqueue, hlog, hpending, hopen', hbroken,
        traffic_log_concat, accounted_log_concat, hidx, hadded, he]
      simp
    refine .of_move (k := k) ?_ (fun j hj => ?_) fun hq => ?_
    · rw [hsession, if_pos rfl, if_pos rfl]
      exact SessionMove.queueMatch mr idx hopen fun hl => hclean hl hcompat
    · rw [hsession, if_neg hj, if_neg hj, append_nil, append_nil]
    · refine hq.append hpending (fun j => by rw [hknown])
        (isSome_sub?_of_roundOpen hopen) fun h => ?_
      rw [hcompat] at h
      cases h

theorem session_begun {sub : SubState F} {e₁ e₂ : Event F} (hsub : s.sub? k = some sub)
    (hidx : ∀ sub, (f sub).origIdx = sub.origIdx) (h₁ : e₁.session? = some k)
    (h₂ : e₂.session? = some k) (j : ℕ) :
    ((s.updateSub k f).record [e₁, e₂]).session j =
      { s.session j with
        traffic := (s.session j).traffic ++ if j = k then [e₁, e₂] else []
        sessOpen := if j = k then (f sub).sessOpen else s.roundOpen j
        ioErr := if j = k then (f sub).ioErr else s.broken j } := by
  have hlog : s.log ++ [e₁, e₂] = (s.log ++ [e₁]) ++ [e₂] := by simp
  have hopen : ((s.updateSub k f).record [e₁, e₂]).roundOpen j = (s.updateSub k f).roundOpen j :=
    rfl
  have hbroken : ((s.updateSub k f).record [e₁, e₂]).broken j = (s.updateSub k f).broken j := rfl
  have hrecord : ((s.updateSub k f).record [e₁, e₂]).log = s.log ++ [e₁, e₂] := rfl
  have hpending : ((s.updateSub k f).record [e₁, e₂]).pending = s.pending := rfl
  simp only [session, hopen, hbroken, hrecord, hpending, hlog, traffic_log_concat,
    accounted_log_concat, accountedIdx?_of_session h₁, accountedIdx?_of_session h₂, h₁, h₂,
    roundOpen_updateSub k j hidx, broken_updateSub k j hidx]
  by_cases hj : j = k
  · simp [hj, hsub]
  · simp [hj, Ne.symm hj]

/-- **The prefetch opens a round**, with nothing waiting. -/
theorem traffic_beginAndFetch (st : CycleSetup F) (reply : BeginReply)
    (hdrained : (s.session k).waiting = []) :
    Traffic lossless c s (c.beginAndFetch st s k reply) := by
  rw [beginAndFetch]
  split
  · exact .refl
  · next sub hsub =>
    split
    · exact .refl
    · next hclosed =>
      have hopen : s.roundOpen k = false := by simpa [roundOpen, hsub] using hclosed
      have hbegun : ∀ {f : SubState F → SubState F} {e₁ e₂ : Event F},
          (∀ sub, (f sub).origIdx = sub.origIdx) → e₁.session? = some k → e₂.session? = some k →
          SessionMove lossless k (s.session k)
            { s.session k with
              traffic := (s.session k).traffic ++ [e₁, e₂]
              sessOpen := (f sub).sessOpen
              ioErr := (f sub).ioErr } →
          Traffic lossless c s ((s.updateSub k f).record [e₁, e₂]) := by
        intro f e₁ e₂ hidx h₁ h₂ hmove
        refine .of_move (k := k) ?_ (fun j hj => ?_) fun hq => ?_
        · rw [session_begun hsub hidx h₁ h₂]
          simpa using hmove
        · rw [session_begun hsub hidx h₁ h₂]
          simp [hj, session]
        · refine ⟨fun p hp => ?_, hq.inline⟩
          exact (isSome_updateSub k p.1 hidx).trans (hq.known p hp)
      cases reply with
      | beginFails =>
        refine hbegun ?_ rfl rfl ?_
        · exact fun _ => rfl
        · have hsame : sub.sessOpen = (s.session k).sessOpen := by
            simp [session, roundOpen, hsub]
          dsimp only
          rw [hsame]
          exact SessionMove.beginFails (c.headerFor st.sigAttrs sub) hdrained hopen
      | fetchFails =>
        refine hbegun ?_ rfl rfl ?_
        · exact fun _ => rfl
        · exact SessionMove.begin (c.headerFor st.sigAttrs sub) none hdrained hopen
      | requests rs =>
        refine hbegun ?_ rfl rfl ?_
        · exact fun _ => rfl
        · exact SessionMove.begin (c.headerFor st.sigAttrs sub) (some rs) hdrained hopen

/-! ### Workers -/

theorem waiting_eraseIdx {i : ℕ} {op : Op F} (hop : s.pending[i]? = some (k, op))
    (holdest : (s.pending.take i).all (fun p => p.1 ≠ k) = true) (j : ℕ) :
    (s.session j).waiting = (if j = k then [op] else []) ++
      (((s.pending.eraseIdx i).filter fun p => p.1 = j).map Prod.snd) := by
  obtain ⟨hi, hget⟩ := List.getElem?_eq_some_iff.mp hop
  have hsplit : s.pending = s.pending.take i ++ (k, op) :: s.pending.drop (i + 1) := by
    rw [← hget, getElem_cons_drop, take_append_drop]
  have hnone : (s.pending.take i).filter (fun p => p.1 = k) = [] := by
    rw [filter_eq_nil_iff]
    simpa using holdest
  rw [session]
  dsimp only
  rw [eraseIdx_eq_take_drop_succ, filter_append, map_append]
  conv_lhs => rw [hsplit, filter_append, map_append, filter_cons]
  by_cases hj : j = k
  · subst hj
    simp [hnone]
  · simp [hj, Ne.symm hj]

theorem carriedOut_carryOut (op : Op F) (ok : Bool) (hknown : (s.sub? k).isSome = true) :
    CarriedOut s (Cycle.carryOut s k op ok) k (op.outcome k (s.broken k) ok) := by
  have hbroken : (s.sub? k).any SubState.ioErr = s.broken k := rfl
  have hdone : ∀ ev : Event F, ev.succeeded = ok →
      CarriedOut s (if ok = true then s.record [ev] else (s.record [ev]).setErr k) k (some ev) := by
    intro ev hev
    cases ok with
    | true => exact carriedOut_record hev
    | false => exact carriedOut_setErr hev hknown
  cases op with
  | sendMatch mr idx | reject req reason =>
    simp only [carryOut, Op.outcome, hbroken]
    split
    · exact carriedOut_none
    · exact hdone _ rfl
  | endRound closeOnly =>
    simp only [carryOut, Op.outcome, hbroken]
    split
    · exact carriedOut_record rfl
    · exact hdone _ rfl

/-- **A worker moves its session**, and no other. -/
theorem traffic_stepDeliver {i : ℕ} {ok : Bool} (hq : Queued c s)
    (h : Cycle.stepDeliver s i ok = some s')
    (hok : lossless → ∀ k op, s.pending[i]? = some (k, op) →
      ok = true ∨ (s.session k).undelivered = []) :
    Traffic lossless c s s' ∧ ∀ j, s'.roundOpen j = s.roundOpen j := by
  rw [stepDeliver] at h
  split at h
  · cases h
  · next k op hop =>
    split at h
    · next holdest =>
      cases h
      have hwaiting := waiting_eraseIdx hop holdest
      have hcarried := carriedOut_carryOut (s := { s with pending := s.pending.eraseIdx i })
        (k := k) op ok (hq.known _ (mem_of_getElem? hop))
      have hsession := hcarried.session fun e he => Op.session_outcome he
      refine ⟨.of_move (k := k) ?_ (fun j hj => ?_) fun hq => hcarried.queued ?_, hcarried.open_eq⟩
      · rw [hsession, if_pos rfl, if_pos rfl]
        refine SessionMove.deliver op _ ok ?_ fun hl => hok hl k op hop
        rw [hwaiting, if_pos rfl]
        rfl
      · rw [hsession, if_neg hj, if_neg hj, append_nil]
        have hsame := hwaiting j
        rw [if_neg hj, nil_append] at hsame
        exact congrArg (fun waiting => { s.session j with waiting }) hsame.symm
      · exact ⟨fun p hp => hq.known p (mem_of_mem_eraseIdx hp),
          fun hcompat p hp => hq.inline hcompat p (mem_of_mem_eraseIdx hp)⟩
    · cases h

end

end GolangCollector.Negotiator
