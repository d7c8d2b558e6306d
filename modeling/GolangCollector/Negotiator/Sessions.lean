import GolangCollector.Negotiator.Cycle

/-! # Sessions with one schedd

What a single submitter's session sees of a cycle: the operations that were carried out on it, those
that wait for the worker, whether a round is open, and whether an error is recorded. A session moves
by few rules (`SessionMove`): a round is begun, operations are carried out at once or queued, the
round is ended, and the worker takes the oldest operation. Whatever the order of these moves, the
operations form complete sessions, each closed once and by `End` only if nothing failed on it.

A match that is handed over is accounted at the same time. The moves carry a mark `lossless`: under
it no match is decided after an error, and nothing fails while a match waits. -/

namespace GolangCollector.Negotiator

open Relation List

variable {F : Type}

/-! ## Operations -/

namespace Event

def session? : Event F → Option ℕ
  | .began k _ _ => some k
  | .fetched k _ => some k
  | .sent k _ _ _ => some k
  | .rejected k _ _ _ => some k
  | .ended k _ => some k
  | .closed k => some k
  | .committed _ _ _ _ _ => none

def IsBegin : Event F → Prop
  | .began _ _ _ => True
  | _ => False

def IsTalk : Event F → Prop
  | .fetched _ _ => True
  | .sent _ _ _ _ => True
  | .rejected _ _ _ _ => True
  | _ => False

def IsFinal : Event F → Prop
  | .ended _ _ => True
  | .closed _ => True
  | _ => False

def IsEnd : Event F → Prop
  | .ended _ _ => True
  | _ => False

def succeeded : Event F → Bool
  | .began _ _ ok => ok
  | .fetched _ reply => reply.isSome
  | .sent _ _ _ ok => ok
  | .rejected _ _ _ ok => ok
  | .ended _ ok => ok
  | .closed _ => true
  | .committed _ _ _ _ _ => true

def deliveredIdx? : Event F → Option ℕ
  | .sent _ _ idx true => some idx
  | _ => none

end Event

namespace Op

def matchIdx? : Op F → Option ℕ
  | .sendMatch _ idx => some idx
  | _ => none

def IsEndRound : Op F → Prop
  | .endRound _ => True
  | _ => False

def outcome (k : ℕ) (op : Op F) (broken ok : Bool) : Option (Event F) :=
  match op with
  | .sendMatch mr idx => if broken then none else some (.sent k mr idx ok)
  | .reject req reason => if broken then none else some (.rejected k req reason ok)
  | .endRound closeOnly => if closeOnly || broken then some (.closed k) else some (.ended k ok)

theorem session_outcome {k : ℕ} {op : Op F} {broken ok : Bool} {ev : Event F}
    (h : op.outcome k broken ok = some ev) : ev.session? = some k := by
  cases op <;> simp only [outcome] at h <;> split at h <;> cases h <;> rfl

end Op

/-! ## The machine of one session -/

structure Session (F : Type) where
  traffic : List (Event F)
  waiting : List (Op F)
  sessOpen : Bool
  ioErr : Bool
  /-- The places of the slots of its accounted matches. -/
  accounted : List ℕ

def Session.delivered (x : Session F) : List ℕ := x.traffic.filterMap Event.deliveredIdx?

def Session.undelivered (x : Session F) : List ℕ := x.waiting.filterMap Op.matchIdx?

inductive SessionMove (lossless : Prop) (k : ℕ) (x : Session F) : Session F → Prop where
  | beginFails (hdr : NegotiateHeader) (hwaiting : x.waiting = []) (hopen : x.sessOpen = false) :
      SessionMove lossless k x
        { x with traffic := x.traffic ++ [.began k hdr false, .closed k], ioErr := true }
  | begin (hdr : NegotiateHeader) (reply : Option (List Request)) (hwaiting : x.waiting = [])
      (hopen : x.sessOpen = false) :
      SessionMove lossless k x
        { x with
          traffic := x.traffic ++ [.began k hdr true, .fetched k reply]
          sessOpen := true
          ioErr := reply.isNone }
  /-- An operation is carried out at once. -/
  | talk (ev : Event F) (htalk : ev.IsTalk) (hidx : ev.deliveredIdx? = none)
      (hwaiting : x.waiting = []) (hopen : x.sessOpen = true) :
      SessionMove lossless k x
        { x with traffic := x.traffic ++ [ev], ioErr := x.ioErr || !ev.succeeded }
  /-- A match is delivered at once. -/
  | handOver (mr : MatchResult F) (idx : ℕ) (hwaiting : x.waiting = [])
      (hopen : x.sessOpen = true) :
      SessionMove lossless k x
        { x with
          traffic := x.traffic ++ [.sent k mr idx true]
          accounted := x.accounted ++ [idx] }
  /-- A match is left to the worker. -/
  | queueMatch (mr : MatchResult F) (idx : ℕ) (hopen : x.sessOpen = true)
      (hclean : lossless → x.ioErr = false) :
      SessionMove lossless k x
        { x with
          waiting := x.waiting ++ [.sendMatch mr idx]
          accounted := x.accounted ++ [idx] }
  | queueReject (req : Request) (reason : GoStrings.Text) (hopen : x.sessOpen = true) :
      SessionMove lossless k x { x with waiting := x.waiting ++ [.reject req reason] }
  | endRound (broken : Bool) (hopen : x.sessOpen = true) :
      SessionMove lossless k x
        { x with waiting := x.waiting ++ [.endRound broken], sessOpen := false }
  /-- The worker takes the oldest operation. -/
  | deliver (op : Op F) (rest : List (Op F)) (ok : Bool) (hwaiting : x.waiting = op :: rest)
      (hok : lossless → ok = true ∨ x.undelivered = []) :
      SessionMove lossless k x
        { x with
          traffic := x.traffic ++ (op.outcome k x.ioErr ok).toList
          waiting := rest
          ioErr := x.ioErr || (op.outcome k x.ioErr ok).any fun ev => !ev.succeeded }

abbrev SessionRun (lossless : Prop) (k : ℕ) : Session F → Session F → Prop :=
  ReflTransGen (SessionMove lossless k)

/-! ## The lifecycle -/

def OpenSession (es : List (Event F)) : Prop :=
  ∃ first talk, es = first :: talk ∧ first.IsBegin ∧ ∀ e ∈ talk, e.IsTalk

def CompleteSession (es : List (Event F)) : Prop :=
  ∃ used final, es = used ++ [final] ∧ OpenSession used ∧ final.IsFinal ∧
    (final.IsEnd → ∀ e ∈ used, e.succeeded = true)

def EndsOnce (sessOpen : Bool) (waiting : List (Op F)) : Prop :=
  if sessOpen then ∀ op ∈ waiting, ¬ op.IsEndRound
  else ∃ ops broken, waiting = ops ++ [.endRound broken] ∧ ∀ op ∈ ops, ¬ op.IsEndRound

/-- **The sessions of a submitter**: complete ones, and the last one. -/
inductive Lifecycle (x : Session F) : Prop where
  | over (sessions : List (List (Event F))) (htraffic : x.traffic = sessions.flatten)
      (hsessions : ∀ es ∈ sessions, CompleteSession es) (hwaiting : x.waiting = [])
      (hopen : x.sessOpen = false)
  | live (sessions : List (List (Event F))) (current : List (Event F))
      (htraffic : x.traffic = sessions.flatten ++ current)
      (hsessions : ∀ es ∈ sessions, CompleteSession es) (hcurrent : OpenSession current)
      (hclean : x.ioErr = false → ∀ e ∈ current, e.succeeded = true)
      (hends : EndsOnce x.sessOpen x.waiting)

theorem OpenSession.concat {es : List (Event F)} (h : OpenSession es) {e : Event F}
    (he : e.IsTalk) : OpenSession (es ++ [e]) := by
  obtain ⟨first, talk, rfl, hfirst, htalk⟩ := h
  refine ⟨first, talk ++ [e], rfl, hfirst, ?_⟩
  simpa [or_imp, forall_and] using ⟨htalk, he⟩

theorem clean_concat {current : List (Event F)} {e : Event F} {err : Bool}
    (h : err = false → ∀ e ∈ current, e.succeeded = true)
    (hclean : (err || !e.succeeded) = false) : ∀ e' ∈ current ++ [e], e'.succeeded = true := by
  simp only [Bool.or_eq_false_iff, Bool.not_eq_false'] at hclean
  simpa [or_imp, forall_and] using ⟨h hclean.1, hclean.2⟩

variable {lossless : Prop} {k : ℕ} {x y : Session F}

theorem Lifecycle.sessions_of_idle (h : Lifecycle x) (hwaiting : x.waiting = [])
    (hopen : x.sessOpen = false) :
    ∃ sessions : List (List (Event F)), x.traffic = sessions.flatten ∧
      ∀ es ∈ sessions, CompleteSession es := by
  cases h with
  | «over» sessions htraffic hsessions => exact ⟨sessions, htraffic, hsessions⟩
  | live sessions current htraffic hsessions hcurrent hclean hends =>
    rw [EndsOnce, hopen, hwaiting] at hends
    obtain ⟨ops, broken, hnil, -⟩ := hends
    simp at hnil

theorem Lifecycle.live_of_open (h : Lifecycle x) (hopen : x.sessOpen = true) :
    ∃ (sessions : List (List (Event F))) (current : List (Event F)),
      x.traffic = sessions.flatten ++ current ∧
      (∀ es ∈ sessions, CompleteSession es) ∧ OpenSession current ∧
      (x.ioErr = false → ∀ e ∈ current, e.succeeded = true) ∧
      ∀ op ∈ x.waiting, ¬ op.IsEndRound := by
  cases h with
  | «over» sessions htraffic hsessions hwaiting hclosed => rw [hopen] at hclosed; cases hclosed
  | live sessions current htraffic hsessions hcurrent hclean hends =>
    rw [EndsOnce, hopen, if_pos rfl] at hends
    exact ⟨sessions, current, htraffic, hsessions, hcurrent, hclean, hends⟩

theorem EndsOnce.tail {o : Bool} {op : Op F} {w : List (Op F)} (h : EndsOnce o (op :: w))
    (hop : ¬ op.IsEndRound) : EndsOnce o w := by
  cases o with
  | true => exact fun op' hop' => h op' (mem_cons_of_mem _ hop')
  | false =>
    obtain ⟨ops, broken, hcons, hops⟩ := h
    cases ops with
    | nil =>
      obtain rfl : op = .endRound broken := (cons.inj hcons).1
      exact absurd trivial hop
    | cons op' ops =>
      simp only [cons_append, cons.injEq] at hcons
      rw [forall_mem_cons] at hops
      exact ⟨ops, broken, hcons.2, hops.2⟩

theorem EndsOnce.last {o : Bool} {broken : Bool} {w : List (Op F)}
    (h : EndsOnce o (.endRound broken :: w)) : o = false ∧ w = [] := by
  cases o with
  | true => exact absurd trivial (h _ mem_cons_self)
  | false =>
    obtain ⟨ops, broken', hcons, hops⟩ := h
    cases ops with
    | nil => exact ⟨rfl, (cons.inj hcons).2⟩
    | cons op ops =>
      obtain rfl : Op.endRound broken = op := (cons.inj hcons).1
      exact absurd trivial (hops _ mem_cons_self)

theorem Op.outcome_of_not_end {op : Op F} (hop : ¬ op.IsEndRound) (k : ℕ) (e ok : Bool) :
    op.outcome k e ok = none ∧ e = true ∨
      ∃ ev, op.outcome k e ok = some ev ∧ ev.IsTalk ∧ e = false := by
  cases op with
  | sendMatch mr idx | reject req reason => cases e <;> simp [outcome, Event.IsTalk]
  | endRound broken => exact absurd trivial hop

theorem Op.outcome_endRound (broken : Bool) (k : ℕ) (e ok : Bool) :
    ∃ ev : Event F, (Op.endRound broken).outcome k e ok = some ev ∧ ev.IsFinal ∧
      (ev.IsEnd → e = false) := by
  cases broken <;> cases e <;> simp [outcome, Event.IsFinal, Event.IsEnd]

theorem Lifecycle.of_move (hmove : SessionMove lossless k x y) (h : Lifecycle x) :
    Lifecycle y := by
  cases hmove with
  | beginFails hdr hwaiting hopen =>
    obtain ⟨sessions, htraffic, hsessions⟩ := h.sessions_of_idle hwaiting hopen
    refine .over (sessions ++ [[.began k hdr false, .closed k]]) ?_ ?_ hwaiting hopen
    · dsimp only
      rw [htraffic, flatten_append, flatten_cons, flatten_nil, append_nil]
    · have hfailed : CompleteSession [Event.began (F := F) k hdr false, .closed k] :=
        ⟨[.began k hdr false], .closed k, rfl, ⟨_, [], rfl, trivial, by simp⟩, trivial,
          False.elim⟩
      simpa [or_imp, forall_and] using ⟨hsessions, hfailed⟩
  | «begin» hdr reply hwaiting hopen =>
    obtain ⟨sessions, htraffic, hsessions⟩ := h.sessions_of_idle hwaiting hopen
    refine .live sessions [.began k hdr true, .fetched k reply] ?_ hsessions ?_ ?_ ?_
    · dsimp only
      rw [htraffic]
    · exact ⟨_, [.fetched k reply], rfl, trivial, by simp [Event.IsTalk]⟩
    · intro hclean
      cases reply with
      | none => cases hclean
      | some rs => simp [Event.succeeded]
    · simp [EndsOnce, hwaiting]
  | talk ev htalk hidx hwaiting hopen =>
    obtain ⟨sessions, current, htraffic, hsessions, hcurrent, hclean, hends⟩ :=
      h.live_of_open hopen
    refine .live sessions (current ++ [ev]) ?_ hsessions (hcurrent.concat htalk)
      (clean_concat hclean) ?_
    · dsimp only
      rw [htraffic, append_assoc]
    · simpa [EndsOnce, hopen] using hends
  | handOver mr idx hwaiting hopen =>
    obtain ⟨sessions, current, htraffic, hsessions, hcurrent, hclean, hends⟩ :=
      h.live_of_open hopen
    have htalk : (Event.sent k mr idx true).IsTalk := trivial
    refine .live sessions (current ++ [.sent k mr idx true]) ?_ hsessions (hcurrent.concat htalk)
      (fun herr => clean_concat hclean (by simpa [Event.succeeded] using herr)) ?_
    · dsimp only
      rw [htraffic, append_assoc]
    · simpa [EndsOnce, hopen] using hends
  | queueMatch mr idx hopen hclear | queueReject req reason hopen =>
    obtain ⟨sessions, current, htraffic, hsessions, hcurrent, hclean, hends⟩ :=
      h.live_of_open hopen
    refine .live sessions current htraffic hsessions hcurrent hclean ?_
    simpa [EndsOnce, hopen, or_imp, forall_and, Op.IsEndRound] using hends
  | endRound broken hopen =>
    obtain ⟨sessions, current, htraffic, hsessions, hcurrent, hclean, hends⟩ :=
      h.live_of_open hopen
    exact .live sessions current htraffic hsessions hcurrent hclean ⟨_, broken, rfl, hends⟩
  | deliver op rest ok hwaiting hok =>
    cases h with
    | «over» sessions htraffic hsessions hnone hopen =>
      rw [hwaiting] at hnone
      cases hnone
    | live sessions current htraffic hsessions hcurrent hclean hends =>
      rw [hwaiting] at hends
      by_cases hop : op.IsEndRound
      · -- the session is over
        cases op with
        | endRound broken =>
          obtain ⟨hopen, rfl⟩ := hends.last
          obtain ⟨ev, hev, hfinal, hend⟩ := Op.outcome_endRound (F := F) broken k x.ioErr ok
          refine .over (sessions ++ [current ++ [ev]]) ?_ ?_ rfl hopen
          · simp [hev, htraffic]
          · have hover : CompleteSession (current ++ [ev]) :=
              ⟨current, ev, rfl, hcurrent, hfinal, fun h => hclean (hend h)⟩
            simpa [or_imp, forall_and] using ⟨hsessions, hover⟩
        | _ => exact hop.elim
      · rcases Op.outcome_of_not_end hop k x.ioErr ok with ⟨hnone, herr⟩ | ⟨ev, hev, htalk, -⟩
        · refine .live sessions current ?_ hsessions hcurrent ?_ (hends.tail hop)
          · simp [hnone, htraffic]
          · simp [herr]
        · refine .live sessions (current ++ [ev]) ?_ hsessions (hcurrent.concat htalk) ?_
            (hends.tail hop)
          · simp [hev, htraffic]
          · rw [hev]
            exact fun herr => clean_concat hclean herr

theorem Lifecycle.of_run (hrun : SessionRun lossless k x y) (h : Lifecycle x) : Lifecycle y := by
  induction hrun with
  | refl => exact h
  | tail _ hmove ih => exact ih.of_move hmove

/-! ## Matches that are accounted -/

structure AccountedDelivered (x : Session F) : Prop where
  accounted_eq : x.accounted = x.delivered ++ x.undelivered
  clean : x.undelivered ≠ [] → x.ioErr = false

theorem Op.filterMap_outcome (op : Op F) (k : ℕ) (e ok : Bool) :
    (op.outcome k e ok).toList.filterMap Event.deliveredIdx? =
      if e = false ∧ ok = true then op.matchIdx?.toList else [] := by
  cases op with
  | sendMatch mr idx =>
    cases e <;> cases ok <;> simp [outcome, Event.deliveredIdx?, matchIdx?]
  | reject req reason => cases e <;> simp [outcome, Event.deliveredIdx?, matchIdx?]
  | endRound broken =>
    cases e <;> cases broken <;> simp [outcome, Event.deliveredIdx?, matchIdx?]

theorem Op.any_outcome_of_ok (op : Op F) (k : ℕ) (e : Bool) :
    ((op.outcome k e true).any fun ev => !ev.succeeded) = false := by
  cases op with
  | sendMatch mr idx | reject req reason => cases e <;> simp [outcome, Event.succeeded]
  | endRound broken => cases e <;> cases broken <;> simp [outcome, Event.succeeded]

theorem AccountedDelivered.of_idle (hwaiting : x.waiting = [])
    (hacc : x.accounted = x.delivered) : AccountedDelivered x := by
  have hnone : x.undelivered = [] := by rw [Session.undelivered, hwaiting, filterMap_nil]
  exact ⟨by rw [hnone, append_nil, hacc], fun hne => absurd hnone hne⟩

theorem AccountedDelivered.eq_of_idle (h : AccountedDelivered x) (hwaiting : x.waiting = []) :
    x.accounted = x.delivered := by
  rw [h.accounted_eq, Session.undelivered, hwaiting, filterMap_nil, append_nil]

theorem AccountedDelivered.of_move (hmove : SessionMove True k x y) (h : AccountedDelivered x) :
    AccountedDelivered y := by
  cases hmove with
  | beginFails hdr hwaiting hopen | «begin» hdr reply hwaiting hopen =>
    refine .of_idle hwaiting ?_
    simp [Session.delivered, filterMap_cons, Event.deliveredIdx?, h.eq_of_idle hwaiting]
  | talk ev htalk hidx hwaiting hopen =>
    refine .of_idle hwaiting ?_
    simp [Session.delivered, hidx, h.eq_of_idle hwaiting]
  | handOver mr idx hwaiting hopen =>
    refine .of_idle hwaiting ?_
    simp [Session.delivered, Event.deliveredIdx?, h.eq_of_idle hwaiting]
  | queueMatch mr idx hopen hclear =>
    refine ⟨?_, fun _ => hclear trivial⟩
    simp [Session.delivered, Session.undelivered, Op.matchIdx?, h.accounted_eq]
  | queueReject req reason hopen | endRound broken hopen =>
    refine ⟨?_, fun hne => h.clean ?_⟩
    · simp [Session.delivered, Session.undelivered, filterMap_cons, Op.matchIdx?,
        h.accounted_eq]
    · simpa [Session.undelivered, filterMap_cons, Op.matchIdx?] using hne
  | deliver op rest ok hwaiting hok =>
    obtain ⟨hacc, hclean⟩ := h
    have hcons : x.undelivered = op.matchIdx?.toList ++ rest.filterMap Op.matchIdx? := by
      rw [Session.undelivered, hwaiting]
      cases hidx : op.matchIdx? <;> simp [hidx]
    have hmore : (x.traffic ++ (op.outcome k x.ioErr ok).toList).filterMap Event.deliveredIdx? =
        x.delivered ++ if x.ioErr = false ∧ ok = true then op.matchIdx?.toList else [] := by
      rw [filterMap_append, Op.filterMap_outcome, Session.delivered]
    rw [hcons] at hacc hclean
    refine ⟨hacc.trans ?_, ?_⟩
    · -- a match that waits is delivered, since no error is recorded
      change _ = (x.traffic ++ (op.outcome k x.ioErr ok).toList).filterMap Event.deliveredIdx? ++
        rest.filterMap Op.matchIdx?
      rw [hmore, append_assoc]
      congr 2
      cases hidx : op.matchIdx? with
      | none => simp
      | some idx =>
        have hok' : ok = true := (hok trivial).resolve_right (by simp [hcons, hidx])
        have hclean' : x.ioErr = false := hclean (by simp [hidx])
        simp [hok', hclean']
    · intro hne
      change rest.filterMap Op.matchIdx? ≠ [] at hne
      have hok' : ok = true := (hok trivial).resolve_right (by simp [hcons, hne])
      subst hok'
      simpa [Op.any_outcome_of_ok] using hclean (by simp [hne])

theorem AccountedDelivered.of_run (hrun : SessionRun True k x y) (h : AccountedDelivered x) :
    AccountedDelivered y := by
  induction hrun with
  | refl => exact h
  | tail _ hmove ih => exact ih.of_move hmove

end GolangCollector.Negotiator
