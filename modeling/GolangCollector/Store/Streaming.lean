import GolangCollector.Store.Remote

/-! # Streaming from the remote database

`streamRaw` (`store/rpcbackend.go`) hands the rows of a query to a consumer as they arrive, each
table in a retry envelope of its own. An attempt that fails before its first row is made again; one
that fails later is not, since its rows were handed on: its error is wrapped in `errNoReplay`, which
the envelope takes for permanent. The consumer may stop after any row.

A round of the envelope is what the world did in it (`StreamRound`); the rounds of a table that has
not returned when they are used up leave it running. -/

namespace GolangCollector

open GoStrings List

/-! ## The stream of one table -/

/-- One call of the streaming query. -/
structure StreamAttempt where
  rows : List Text
  err : Option RpcError
  deriving DecidableEq, Repr

structure StreamRound where
  /-- The connection and what the attempt on it does, or why there is none. -/
  conn : Except RpcError StreamAttempt
  /-- The time since the envelope was opened. -/
  elapsed : ℕ
  /-- Whether the context has ended after the attempt. -/
  ctxDone : Bool
  /-- Whether the context ends in the wait before the next round. -/
  waitEnds : Bool

structure TableStream (Row : Type) where
  out : List Row
  delivered : Bool
  stopped : Bool
  conflicts : ℕ

variable {Row : Type} (convert : Text → Row) (yield : List Row → Bool)

def feedRows : List Text → List Row → List Row × Bool
  | [], out => (out, false)
  | row :: rows, out =>
    if yield (out ++ [convert row]) then feedRows rows (out ++ [convert row])
    else (out ++ [convert row], true)

def streamRound (policy : RetryPolicy) (s : TableStream Row) (round : StreamRound) :
    TableStream Row × Retry Unit :=
  match round.conn with
  | .error err => (s, policy.round round.elapsed round.ctxDone s.conflicts (.error err))
  | .ok attempt =>
    let fed := feedRows convert yield attempt.rows s.out
    let delivered := s.delivered || !attempt.rows.isEmpty
    let opErr : Except RpcError Unit :=
      match fed.2, attempt.err with
      | true, _ => .ok ()
      | false, none => .ok ()
      | false, some e => .error (if delivered then .noReplay e else e)
    ({ s with out := fed.1, delivered, stopped := s.stopped || fed.2 },
      policy.round round.elapsed round.ctxDone s.conflicts (.ok opErr))

def streamRawTable (policy : RetryPolicy) :
    List StreamRound → TableStream Row → TableStream Row × Option (Except RpcError Unit)
  | [], s => (s, none)
  | round :: rounds, s =>
    match streamRound convert yield policy s round with
    | (s', .returns r) => (s', some r)
    | (s', .again conflicts) => streamRawTable policy rounds { s' with conflicts }
    | (s', .waits) =>
      if round.waitEnds then (s', some (.error .context)) else streamRawTable policy rounds s'

def streamTables (policy : RetryPolicy) (rounds : AdType → List StreamRound) :
    List AdType → List Row → List Row × Option (Except RpcError Unit)
  | [], out => (out, some (.ok ()))
  | t :: ts, out =>
    match streamRawTable convert yield policy (rounds t) ⟨out, false, false, 0⟩ with
    | (s, none) => (s.out, none)
    | (s, some (.error e)) => (s.out, some (.error e))
    | (s, some (.ok ())) =>
      if s.stopped then (s.out, some (.ok ())) else streamTables policy rounds ts s.out

inductive StreamError where
  | constraint (e : StoreError)
  | rpc (e : RpcError)

def streamRaw (lib : Library) (policy : RetryPolicy) (t : AdType) (constraint : Text)
    (rounds : AdType → List StreamRound) : List Row × Option (Except StreamError Unit) :=
  match if t = .anyAd then parseConstraint lib constraint else .ok none with
  | .error e => ([], some (.error (.constraint e)))
  | .ok _ =>
    let r := streamTables convert yield policy rounds t.visited []
    (r.1, r.2.map fun result => result.mapError .rpc)

/-! ## What the consumer gets -/

def RpcError.isFailure : RpcError → Bool
  | .transport _ | .server _ | .context => true
  | _ => false

def attemptsOf (rounds : List StreamRound) : List StreamAttempt :=
  rounds.filterMap fun round => round.conn.toOption

theorem feedRows_spec (rows : List Text) (out : List Row) :
    ∃ piece, (feedRows convert yield rows out).1 = out ++ piece ∧
      piece <+: rows.map convert ∧
      ((feedRows convert yield rows out).2 = true → piece ≠ [] ∧ yield (out ++ piece) = false) ∧
      ((feedRows convert yield rows out).2 = false → piece = rows.map convert) := by
  induction rows generalizing out with
  | nil => exact ⟨[], by simp [feedRows]⟩
  | cons row rows ih =>
    rw [feedRows]
    split
    · obtain ⟨piece, hout, hpre, hstop, hall⟩ := ih (out ++ [convert row])
      refine ⟨convert row :: piece, by simpa using hout, ?_, ?_, ?_⟩
      · simpa using hpre
      · exact fun h => ⟨cons_ne_nil _ _, by simpa using (hstop h).2⟩
      · simpa using hall
    · rename_i hyield
      exact ⟨[convert row], rfl, by simp, fun _ => ⟨by simp, by simpa using hyield⟩, by simp⟩

variable {convert yield}

theorem RpcError.isConflict_of_isFailure {e : RpcError} (h : e.isFailure) :
    e.isConflict = false ∧ (RpcError.noReplay e).isConflict = false := by
  cases e <;> first | exact ⟨rfl, rfl⟩ | cases h

def Delivered (convert : Text → Row) (yield : List Row → Bool) (rounds : List StreamRound)
    (before : List Row) (r : TableStream Row × Option (Except RpcError Unit))
    (piece : List Row) : Prop :=
  r.1.out = before ++ piece ∧
    (piece = [] ∨ ∃ a ∈ attemptsOf rounds, piece <+: a.rows.map convert) ∧
    (r.2 = some (.ok ()) →
      r.1.stopped = true ∧ piece ≠ [] ∧ yield (before ++ piece) = false ∨
      r.1.stopped = false ∧ ∃ a ∈ attemptsOf rounds, a.err = none ∧ piece = a.rows.map convert)

variable {rounds : List StreamRound}

theorem Delivered.cons {before : List Row} {r : TableStream Row × Option (Except RpcError Unit)}
    {piece : List Row} (h : Delivered convert yield rounds before r piece) (round : StreamRound) :
    Delivered convert yield (round :: rounds) before r piece := by
  have hmem : ∀ a ∈ attemptsOf rounds, a ∈ attemptsOf (round :: rounds) := by
    intro a ha
    rw [attemptsOf, filterMap_cons]
    split
    · exact ha
    · exact mem_cons_of_mem _ ha
  obtain ⟨hout, hpiece, hok⟩ := h
  refine ⟨hout, hpiece.imp_right ?_, fun hr => (hok hr).imp_right ?_⟩
  · exact fun ⟨a, ha, hpre⟩ => ⟨a, hmem a ha, hpre⟩
  · exact fun ⟨hstop, a, ha, hdone⟩ => ⟨hstop, a, hmem a ha, hdone⟩

variable {s : TableStream Row}

theorem delivered_nil {r : Option (Except RpcError Unit)} (hr : r ≠ some (.ok ())) :
    Delivered convert yield rounds s.out (s, r) [] :=
  ⟨by simp, Or.inl rfl, fun h => absurd h hr⟩

theorem RetryPolicy.round_noConn {α : Type} (policy : RetryPolicy) (elapsed : ℕ) (ctxDone : Bool)
    (conflicts : ℕ) (err : RpcError) :
    (∃ e, policy.round (α := α) elapsed ctxDone conflicts (.error err) = .returns (.error e)) ∨
      policy.round (α := α) elapsed ctxDone conflicts (.error err) = .waits := by
  rw [round, afterTransient]
  split_ifs
  · exact Or.inl ⟨_, rfl⟩
  · exact Or.inl ⟨_, rfl⟩
  · exact Or.inr rfl

theorem RetryPolicy.round_failed {α : Type} (policy : RetryPolicy) (elapsed : ℕ) (ctxDone : Bool)
    (conflicts : ℕ) {opErr : RpcError} (h : opErr.isConflict = false) :
    (∃ e, policy.round (α := α) elapsed ctxDone conflicts (.ok (.error opErr)) =
        .returns (.error e)) ∨
      opErr.isPermanent = false ∧
        policy.round (α := α) elapsed ctxDone conflicts (.ok (.error opErr)) = .waits := by
  rw [round, if_neg (by simp [h]), afterTransient]
  split_ifs with hperm
  · exact Or.inl ⟨_, rfl⟩
  · exact Or.inl ⟨_, rfl⟩
  · exact Or.inl ⟨_, rfl⟩
  · exact Or.inr ⟨by simpa using hperm, rfl⟩

theorem streamRound_spec (policy : RetryPolicy) {round : StreamRound}
    (hfail : ∀ a, round.conn = .ok a → ∀ e ∈ a.err, e.isFailure) (hdelivered : s.delivered = false)
    (hstopped : s.stopped = false) :
    (∃ r piece, (streamRound convert yield policy s round).2 = .returns r ∧
      ∀ rounds, Delivered convert yield (round :: rounds) s.out
        ((streamRound convert yield policy s round).1, some r) piece) ∨
    streamRound convert yield policy s round = (s, .waits) := by
  rw [streamRound]
  cases hconn : round.conn with
  | error err =>
    dsimp only
    rcases policy.round_noConn (α := Unit) round.elapsed round.ctxDone s.conflicts err with
      ⟨e, h⟩ | h
    · exact Or.inl ⟨_, [], h, fun _ => delivered_nil (by simp)⟩
    · exact Or.inr (by rw [h])
  | ok a =>
    have hmem : ∀ rounds, a ∈ attemptsOf (round :: rounds) := fun rounds => by
      simp [attemptsOf, hconn, Except.toOption]
    obtain ⟨piece, hout, hpre, hstop, hall⟩ :=
      feedRows_spec convert yield a.rows s.out
    dsimp only
    cases hfed : (feedRows convert yield a.rows s.out).2 with
    | true =>
      refine Or.inl ⟨.ok (), piece, rfl, fun rounds => ⟨hout, Or.inr ⟨a, hmem rounds, hpre⟩, ?_⟩⟩
      exact fun _ => Or.inl ⟨by simp, hstop hfed⟩
    | false =>
      cases herr : a.err with
      | none =>
        refine Or.inl ⟨.ok (), piece, rfl, fun rounds => ⟨hout, Or.inr ⟨a, hmem rounds, hpre⟩, ?_⟩⟩
        exact fun _ => Or.inr ⟨by simp [hstopped], a, hmem rounds, herr, hall hfed⟩
      | some e =>
        obtain ⟨hplain, hwrapped⟩ := RpcError.isConflict_of_isFailure (hfail a hconn e herr)
        dsimp only
        by_cases hrows : a.rows = []
        · -- nothing was given: the error stays as the attempt has it, and may be replayed
          simp only [hrows, hdelivered, feedRows, isEmpty_nil, Bool.not_true, Bool.or_false,
            Bool.false_eq_true, if_false]
          rcases policy.round_failed (α := Unit) round.elapsed round.ctxDone s.conflicts hplain with
            ⟨e', h⟩ | ⟨-, h⟩
          · exact Or.inl ⟨_, [], h, fun _ => ⟨by simp, Or.inl rfl, fun hok => by simp at hok⟩⟩
          · right
            rw [h, ← hdelivered]
        · -- rows were given: the wrapped error is permanent
          have hwas : (s.delivered || !a.rows.isEmpty) = true := by simp [hrows]
          simp only [hwas, if_true]
          rcases policy.round_failed (α := Unit) round.elapsed round.ctxDone s.conflicts
            hwrapped with ⟨e', h⟩ | ⟨hperm, -⟩
          · exact Or.inl ⟨_, piece, h, fun rounds =>
              ⟨hout, Or.inr ⟨a, hmem rounds, hpre⟩, fun hok => by simp at hok⟩⟩
          · cases hperm

theorem streamRawTable_spec (policy : RetryPolicy)
    (hfail : ∀ a ∈ attemptsOf rounds, ∀ e ∈ a.err, e.isFailure) (hdelivered : s.delivered = false)
    (hstopped : s.stopped = false) :
    ∃ piece, Delivered convert yield rounds s.out
      (streamRawTable convert yield policy rounds s) piece := by
  induction rounds generalizing s with
  | nil => exact ⟨[], delivered_nil (by simp)⟩
  | cons round rounds ih =>
    have hround : ∀ a, round.conn = .ok a → ∀ e ∈ a.err, e.isFailure := fun a ha =>
      hfail a (by simp [attemptsOf, ha, Except.toOption])
    have hrest : ∀ a ∈ attemptsOf rounds, ∀ e ∈ a.err, e.isFailure := by
      intro a ha
      refine hfail a ?_
      rw [attemptsOf, filterMap_cons]
      split
      · exact ha
      · exact mem_cons_of_mem _ ha
    rw [streamRawTable]
    rcases streamRound_spec policy hround hdelivered hstopped with
      ⟨r, piece, hret, hgave⟩ | hwaits
    · have hpair : streamRound convert yield policy s round =
          ((streamRound convert yield policy s round).1, .returns r) := Prod.ext rfl hret
      rw [hpair]
      exact ⟨piece, hgave rounds⟩
    · rw [hwaits]
      dsimp only
      split
      · exact ⟨[], delivered_nil (by simp)⟩
      · obtain ⟨piece, hgave⟩ := ih hrest hdelivered hstopped
        exact ⟨piece, hgave.cons round⟩

variable (convert yield)

theorem streamTables_spec (policy : RetryPolicy) {rounds : AdType → List StreamRound}
    (hfail : ∀ t, ∀ a ∈ attemptsOf (rounds t), ∀ e ∈ a.err, e.isFailure)
    (tables : List AdType) (out : List Row) :
    ∃ pieces : List (List Row),
      (streamTables convert yield policy rounds tables out).1 = out ++ pieces.flatten ∧
      List.Forall₂ (fun t piece =>
        piece = [] ∨ ∃ a ∈ attemptsOf (rounds t), piece <+: a.rows.map convert) tables pieces ∧
      ((streamTables convert yield policy rounds tables out).2 = some (.ok ()) →
        (pieces.flatten ≠ [] ∧
          yield (streamTables convert yield policy rounds tables out).1 = false) ∨
        List.Forall₂ (fun t piece =>
          ∃ a ∈ attemptsOf (rounds t), a.err = none ∧ piece = a.rows.map convert)
          tables pieces) := by
  induction tables generalizing out with
  | nil => exact ⟨[], by simp [streamTables]⟩
  | cons t ts ih =>
    have hempty : ∀ ts : List AdType, Forall₂ (fun t piece =>
        piece = [] ∨ ∃ a ∈ attemptsOf (rounds t), piece <+: a.rows.map convert) ts
        (ts.map fun _ => []) := fun ts =>
      forall₂_map_right_iff.mpr (forall₂_same.mpr fun _ _ => Or.inl rfl)
    have hflat : ∀ (piece : List Row) (ts : List AdType),
        (piece :: ts.map fun _ => []).flatten = piece := fun piece ts => by
      simp
    have htable : ∃ piece, Delivered convert yield (rounds t) out
        (streamRawTable convert yield policy (rounds t) ⟨out, false, false, 0⟩) piece :=
      streamRawTable_spec policy (hfail t) rfl rfl
    obtain ⟨piece, hout, hpiece, hok⟩ := htable
    rw [streamTables]
    generalize streamRawTable convert yield policy (rounds t) ⟨out, false, false, 0⟩ = r at *
    obtain ⟨s, result⟩ := r
    dsimp only at hout hpiece hok
    match result with
    | none | some (.error e) =>
      refine ⟨piece :: ts.map fun _ => [], ?_, .cons hpiece (hempty ts), fun h => by cases h⟩
      rw [hflat]
      exact hout
    | some (.ok ()) =>
      dsimp only
      rcases hok rfl with ⟨hstopped, hne, hyield⟩ | ⟨hstopped, hdone⟩
      · -- the consumer stopped: the tables that follow are not queried
        rw [if_pos hstopped]
        refine ⟨piece :: ts.map fun _ => [], ?_, .cons hpiece (hempty ts), fun _ => Or.inl ?_⟩
        · rw [hflat]
          exact hout
        · rw [hflat, hout]
          exact ⟨hne, hyield⟩
      · rw [if_neg (by simp [hstopped])]
        obtain ⟨pieces, hrest, hpieces, hall⟩ := ih s.out
        refine ⟨piece :: pieces, ?_, .cons hpiece hpieces, fun h => (hall h).imp ?_ ?_⟩
        · rw [hrest, hout, flatten_cons, append_assoc]
        · rintro ⟨hne, hyield⟩
          refine ⟨fun hnil => hne ?_, hyield⟩
          rw [flatten_cons] at hnil
          exact (append_eq_nil_iff.mp hnil).2
        · exact Forall₂.cons hdone

/-- **Streaming gives no row twice and hides no failure.** -/
theorem streamRaw_delivers (lib : Library) (policy : RetryPolicy) (t : AdType) (constraint : Text)
    {rounds : AdType → List StreamRound}
    (hfail : ∀ t, ∀ a ∈ attemptsOf (rounds t), ∀ e ∈ a.err, e.isFailure) :
    ∃ pieces : List (List Row),
      (streamRaw convert yield lib policy t constraint rounds).1 = pieces.flatten ∧
      List.Forall₂ (fun t piece =>
        piece = [] ∨ ∃ a ∈ attemptsOf (rounds t), piece <+: a.rows.map convert)
        t.visited pieces ∧
      ((streamRaw convert yield lib policy t constraint rounds).2 = some (.ok ()) →
        (pieces.flatten ≠ [] ∧
          yield (streamRaw convert yield lib policy t constraint rounds).1 = false) ∨
        List.Forall₂ (fun t piece =>
          ∃ a ∈ attemptsOf (rounds t), a.err = none ∧ piece = a.rows.map convert)
          t.visited pieces) := by
  rw [streamRaw]
  split
  · refine ⟨t.visited.map fun _ => [], by simp, ?_, fun h => by cases h⟩
    exact forall₂_map_right_iff.mpr (forall₂_same.mpr fun _ _ => Or.inl rfl)
  · obtain ⟨pieces, hout, hpieces, hok⟩ := streamTables_spec convert yield policy hfail t.visited []
    refine ⟨pieces, hout, hpieces, fun h => hok ?_⟩
    dsimp only at h
    rcases hresult : (streamTables convert yield policy rounds t.visited []).2 with _ | _ | _
    · rw [hresult] at h
      cases h
    · rw [hresult] at h
      cases h
    · rfl

def flakyRounds : AdType → List StreamRound
  | .startdAd =>
    [⟨.ok ⟨[], some (.transport "reset")⟩, 0, false, false⟩,
      ⟨.ok ⟨["Name = \"m1\"", "Name = \"m2\""], none⟩, 1, false, false⟩]
  | .scheddAd =>
    [⟨.ok ⟨["Name = \"s1\"", "Name = \"s2\""],
        some (.transport "reset")⟩, 0, false, false⟩,
      ⟨.ok ⟨["Name = \"s1\"", "Name = \"s2\""], none⟩, 1, false, false⟩]
  | _ => [⟨.ok ⟨[], none⟩, 0, false, false⟩]

theorem streamRaw_delivers_flakyRounds :
    (streamRaw id (fun _ => true) (literalLibrary .lastWins) ⟨0⟩ .anyAd [] flakyRounds).1 =
      ["Name = \"m1\"".toList, "Name = \"m2\"".toList, "Name = \"s1\"".toList,
        "Name = \"s2\"".toList] ∧
    ∃ pieces : List (List Text), (["Name = \"m1\"".toList, "Name = \"m2\"".toList,
        "Name = \"s1\"".toList, "Name = \"s2\"".toList] : List Text) = pieces.flatten ∧
      List.Forall₂ (fun t piece => piece = [] ∨
        ∃ a ∈ attemptsOf (flakyRounds t), piece <+: a.rows.map id) AdType.publicTypes pieces := by
  have hrows : (streamRaw id (fun _ => true) (literalLibrary .lastWins) ⟨0⟩ .anyAd []
      flakyRounds).1 = ["Name = \"m1\"".toList, "Name = \"m2\"".toList,
        "Name = \"s1\"".toList, "Name = \"s2\"".toList] := by
    decide +kernel
  have hfail : ∀ t, ∀ a ∈ attemptsOf (flakyRounds t), ∀ e ∈ a.err, e.isFailure := by
    intro t
    cases t <;> decide +kernel
  obtain ⟨pieces, hout, hpieces, -⟩ := streamRaw_delivers id (fun _ => true)
    (literalLibrary .lastWins) ⟨0⟩ .anyAd [] hfail
  exact ⟨hrows, pieces, hrows.symm.trans hout, hpieces⟩

end GolangCollector
