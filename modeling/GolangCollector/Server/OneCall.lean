import GolangCollector.Server.Relay
import Mathlib.Data.List.ReduceOption

/-! # The one call behind a relay

`relayMatches` tries the query methods of a backend in an order, each of which may fail at any row,
while the connection to the client may fail at any write. Here a method's call is what the relay
would write for each of its rows, and how it ends (`TableSource.call`); relaying such a call alone
is `relayCall`. -/

namespace GolangCollector

open GoStrings List Option

/-! ## Calls -/

inductive QueryMethod where
  | wireStream
  | redacted
  | stream
  | raw
  | query
  deriving DecidableEq, Repr

def QueryMethod.rank : QueryMethod → ℕ
  | wireStream => 0
  | redacted => 1
  | stream => 2
  | raw => 3
  | query => 4

def answerCall {α : Type} (item : α → Item) :
    Except BackendError (List α) → Feed (Option Item)
  | .ok rows => ⟨rows.map fun a => some (item a), none, none⟩
  | .error e => ⟨[], some e, none⟩

def TableSource.call (cedar : Cedar) (src : TableSource) (q : QuerySpec) (redact : Bool) :
    QueryMethod → Option (Feed (Option Item))
  | .wireStream => src.queryRawWireStream.map fun wire =>
    let feed := wire q.constraint q.projection q.limit redact
    ⟨feed.rows.map (Option.map (rawItem cedar false)), feed.err, feed.stopErr⟩
  | .redacted =>
    if redact then
      (src.textAnswers q.constraint q.projection q.limit).redacted.map
        (answerCall (rawItem cedar false))
    else none
  | .stream => (src.textAnswers q.constraint q.projection q.limit).stream.map fun feed =>
    ⟨feed.rows.map fun ra => some (rawItem cedar redact ra), feed.err, feed.stopErr⟩
  | .raw => (src.textAnswers q.constraint q.projection q.limit).raw.map
      (answerCall (rawItem cedar redact))
  | .query => some (answerCall (fun ad => putAd cedar redact (project ad q.projection))
      (src.query q.constraint q.limit))

def relayCall (m : QueryMethod) (limit : ℕ) (call : Feed (Option Item)) (r : Resp) :
    Resp × Option ServeError :=
  sendFeed (m = .wireStream) id limit r call

/-! ## One call alone -/

def marked (i : Item) : List Item := [.int32 1, i]

theorem Resp.put_marked (r : Resp) (i : Item) :
    (∃ room, r.put (marked i) = (⟨r.written ++ marked i, room⟩, true)) ∨
      ∃ room torn, r.put (marked i) = (⟨r.written ++ torn, room⟩, false) ∧
        (torn = [] ∨ torn = [.int32 1]) := by
  obtain ⟨written, room⟩ := r
  rcases room with _ | _ | _ | n
  · exact Or.inl ⟨none, by simp [put, marked]⟩
  · exact Or.inr ⟨some 0, [], by simp [put, marked]⟩
  · exact Or.inr ⟨some 0, [.int32 1], by simp [put, marked]⟩
  · exact Or.inl ⟨some n, by simp [put, marked]⟩

structure Sent (rows : List (Option Item)) (limit : ℕ) (s s' : Relay) (stopped : Bool) (k : ℕ)
    (torn : List Item) : Prop where
  le_length : k ≤ rows.reduceOption.length
  written : s'.resp.written = s.resp.written ++ (rows.reduceOption.take k).flatMap marked ++ torn
  count : s'.n = s.n + k
  torn_cases : torn = [] ∨ s'.sendErr = true ∧ torn = [.int32 1]
  bound : 0 < limit → s.n ≤ limit → s'.n ≤ limit
  ended : stopped = false → k = rows.reduceOption.length ∧ s'.sendErr = false
  full : stopped = true → s'.sendErr = false → 0 < limit ∧ limit ≤ s'.n
  still : k = 0 → s'.sendErr = false → s'.resp = s.resp

theorem sent_sendAll (limit : ℕ) (rows : List (Option Item)) {s : Relay} (hs : s.sendErr = false) :
    ∃ k torn, Sent rows limit s (sendAll id limit rows s).1 (sendAll id limit rows s).2 k torn := by
  induction rows generalizing s with
  | nil =>
    exact ⟨0, [], ⟨by simp, by simp [sendAll], rfl, Or.inl rfl, fun _ h => h,
      fun _ => ⟨rfl, hs⟩, fun h => Bool.noConfusion h, fun _ _ => rfl⟩⟩
  | cons row rows ih =>
    rw [sendAll]
    split
    · rename_i hlimit
      exact ⟨0, [], ⟨by simp, by simp, rfl, Or.inl rfl, fun _ h => h,
        fun h => Bool.noConfusion h, fun _ _ => hlimit, fun _ _ => rfl⟩⟩
    · rename_i hlimit
      cases row with
      | none =>
        -- a malformed row is skipped
        obtain ⟨k, torn, h⟩ := ih hs
        have hskip : reduceOption (none :: rows) = rows.reduceOption :=
          reduceOption_cons_of_none rows
        exact ⟨k, torn, ⟨hskip ▸ h.le_length, hskip ▸ h.written, h.count, h.torn_cases, h.bound,
          hskip ▸ h.ended, h.full, h.still⟩⟩
      | some i =>
        have htake : reduceOption (some i :: rows) = i :: rows.reduceOption :=
          reduceOption_cons_of_some i rows
        rcases s.resp.put_marked i with ⟨room, hput⟩ | ⟨room, torn, hput, htorn⟩
        · rw [marked] at hput
          simp only [id, hput]
          obtain ⟨k, torn, h⟩ := ih (s := ⟨⟨s.resp.written ++ [.int32 1, i], room⟩, s.n + 1, _⟩) hs
          refine ⟨k + 1, torn, ⟨?_, ?_, ?_, h.torn_cases, ?_, ?_, h.full,
            fun h => absurd h k.succ_ne_zero⟩⟩
          · rw [htake]
            exact Nat.succ_le_succ h.le_length
          · rw [htake, take_succ_cons, flatMap_cons, h.written]
            simp [marked]
          · rw [h.count]
            exact Nat.add_right_comm s.n 1 k
          · intro hpos hle
            exact h.bound hpos (by dsimp only; omega)
          · intro hstop
            rw [htake, length_cons, (h.ended hstop).1]
            exact ⟨rfl, (h.ended hstop).2⟩
        · rw [marked] at hput
          simp only [id, hput]
          refine ⟨0, torn, ⟨Nat.zero_le _, by simp, rfl, htorn.imp_right fun h => ⟨rfl, h⟩,
            fun _ h => h, fun h => Bool.noConfusion h, fun _ h => Bool.noConfusion h,
            fun _ h => Bool.noConfusion h⟩⟩

theorem sendAll_map {α : Type} (item : α → Option Item) (limit : ℕ) (rows : List α) (s : Relay) :
    sendAll id limit (rows.map item) s = sendAll item limit rows s := by
  induction rows generalizing s with
  | nil => rfl
  | cons a as ih =>
    rw [map_cons, sendAll, sendAll]
    simp only [id, ih]

variable (m : QueryMethod)

theorem relayCall_feed {α : Type} (item : α → Option Item) (limit : ℕ) (r : Resp) (feed : Feed α) :
    relayCall m limit ⟨feed.rows.map item, feed.err, feed.stopErr⟩ r =
      sendFeed (m = .wireStream) item limit r feed := by
  rw [relayCall, sendFeed, sendFeed, sendAll_map]

theorem relayCall_rows {α : Type} (item : α → Item) (limit : ℕ) (r : Resp) (rows : List α) :
    relayCall m limit (answerCall item (.ok rows)) r =
      sendRows (fun a => some (item a)) limit rows r := by
  rw [relayCall, answerCall, sendFeed, sendAll_map, sendRows]
  simp

theorem relayCall_answer {α : Type} (item : α → Item) (limit : ℕ) (r : Resp)
    (rows : Except BackendError (List α)) :
    relayCall m limit (answerCall item rows) r =
      sendAnswer (fun a => some (item a)) limit r rows := by
  cases rows with
  | ok rows => exact relayCall_rows m item limit r rows
  | error e => simp [relayCall, answerCall, sendFeed, sendAll, sendAnswer]

theorem relayCall_spec (limit : ℕ) (call : Feed (Option Item)) (r : Resp) :
    ∃ k torn, k ≤ call.rows.reduceOption.length ∧
      (relayCall m limit call r).1.written =
        r.written ++ (call.rows.reduceOption.take k).flatMap marked ++ torn ∧
      (torn = [] ∨ torn = [.int32 1]) ∧ (0 < limit → k ≤ limit) ∧
      ((relayCall m limit call r).2 = none →
        torn = [] ∧ (call.err = none ∧ k = call.rows.reduceOption.length ∨
          0 < limit ∧ k = limit)) := by
  obtain ⟨k, torn, h⟩ := sent_sendAll limit call.rows (s := ⟨r, 0, false⟩) rfl
  have hcount := h.count
  have hbound := fun hpos => h.bound hpos (Nat.zero_le _)
  rw [relayCall, sendFeed]
  generalize sendAll id limit call.rows ⟨r, 0, false⟩ = run at *
  obtain ⟨s, stopped⟩ := run
  dsimp only at h hcount hbound ⊢
  rw [Nat.zero_add] at hcount
  refine ⟨k, torn, h.le_length, ?_, h.torn_cases.imp_right And.right, ?_, ?_⟩
  · split <;> exact h.written
  · exact fun hpos => hcount ▸ hbound hpos
  · cases stopped with
    | false =>
      obtain ⟨hlen, hsend⟩ := h.ended rfl
      have htorn : torn = [] := h.torn_cases.resolve_right (by simp [hsend])
      simp only [hsend, Bool.and_false, Bool.false_eq_true, if_false]
      intro hnone
      cases herr : call.err with
      | none => exact ⟨htorn, Or.inl ⟨rfl, hlen⟩⟩
      | some e =>
        rw [herr] at hnone
        cases hnone
    | true =>
      simp only [if_true]
      intro hnone
      have hsend : s.sendErr = false := by
        cases hsend : s.sendErr with
        | false => rfl
        | true =>
          -- what the stream returned, or the failed write
          rw [hsend] at hnone
          split at hnone <;> cases hnone
      obtain ⟨hpos, hle⟩ := h.full rfl hsend
      have htorn : torn = [] := h.torn_cases.resolve_right (by simp [hsend])
      exact ⟨htorn, Or.inr ⟨hpos, by have := hbound hpos; omega⟩⟩

/-! ## The order of the calls -/

/-- **The relay does what one of the calls does alone.** -/
structure RelaysOnly (cedar : Cedar) (src : TableSource) (q : QuerySpec) (redact : Bool) (r : Resp)
    (result : Resp × Option ServeError) (m : QueryMethod) (call : Feed (Option Item)) : Prop where
  offered : src.call cedar q redact m = some call
  alone : result = relayCall m q.limit call r
  earlier : ∀ m' call', m'.rank < m.rank → src.call cedar q redact m' = some call' →
    (relayCall m' q.limit call' r).1 = r

variable {cedar : Cedar} {src : TableSource} {q : QuerySpec} {redact : Bool} {r : Resp}

theorem relaysOnly_relayHere (hbefore : ∀ m' call', m'.rank < QueryMethod.stream.rank →
      src.call cedar q redact m' = some call' → (relayCall m' q.limit call' r).1 = r) :
    ∃ m call, RelaysOnly cedar src q redact r (relayHere cedar src q redact
      (src.textAnswers q.constraint q.projection q.limit) r) m call := by
  rw [relayHere]
  cases hstream : (src.textAnswers q.constraint q.projection q.limit).stream with
  | some feed =>
    refine ⟨.stream, _, ⟨by rw [TableSource.call, hstream]; rfl, ?_, hbefore⟩⟩
    exact (relayCall_feed .stream _ _ _ feed).symm
  | none =>
    have hnoStream : src.call cedar q redact .stream = none := by
      rw [TableSource.call, hstream]
      rfl
    cases hraw : (src.textAnswers q.constraint q.projection q.limit).raw with
    | some rows =>
      refine ⟨.raw, _, ⟨by rw [TableSource.call, hraw]; rfl, ?_, ?_⟩⟩
      · exact (relayCall_answer .raw _ _ _ rows).symm
      · intro m' call' hrank hcall
        cases m' with
        | stream => cases hnoStream.symm.trans hcall
        | wireStream | redacted => exact hbefore _ _ (by decide) hcall
        | raw | query => exact absurd hrank (by decide)
    | none =>
      have hnoRaw : src.call cedar q redact .raw = none := by
        rw [TableSource.call, hraw]
        rfl
      refine ⟨.query, _, ⟨rfl, (relayCall_answer .query _ _ _ _).symm, ?_⟩⟩
      intro m' call' hrank hcall
      cases m' with
      | stream => cases hnoStream.symm.trans hcall
      | raw => cases hnoRaw.symm.trans hcall
      | wireStream | redacted => exact hbefore _ _ (by decide) hcall
      | query => exact absurd hrank (by decide)

theorem relaysOnly_relayText (hwire : ∀ call', src.call cedar q redact .wireStream = some call' →
      (relayCall .wireStream q.limit call' r).1 = r) :
    ∃ m call, RelaysOnly cedar src q redact r (relayText cedar src q redact r) m call := by
  -- a redacting call that is not made, or fails, writes nothing either
  have hhere : (∀ call', src.call cedar q redact .redacted = some call' →
        (relayCall .redacted q.limit call' r).1 = r) →
      ∃ m call, RelaysOnly cedar src q redact r (relayHere cedar src q redact
        (src.textAnswers q.constraint q.projection q.limit) r) m call := by
    intro hredacted
    refine relaysOnly_relayHere fun m' call' hrank hcall => ?_
    cases m' with
    | wireStream => exact hwire call' hcall
    | redacted => exact hredacted call' hcall
    | stream | raw | query => exact absurd hrank (by decide)
  have honly : ∀ m' call', m'.rank < QueryMethod.redacted.rank →
      src.call cedar q redact m' = some call' → (relayCall m' q.limit call' r).1 = r := by
    intro m' call' hrank hcall
    cases m' with
    | wireStream => exact hwire call' hcall
    | redacted | stream | raw | query => exact absurd hrank (by decide)
  cases redact with
  | false => exact hhere fun call' hcall => by cases hcall
  | true =>
    cases hans : (src.textAnswers q.constraint q.projection q.limit).redacted with
    | none =>
      simp only [relayText, hans]
      refine hhere fun call' hcall => ?_
      rw [TableSource.call, hans] at hcall
      cases hcall
    | some rows =>
      have hcall : src.call cedar q true .redacted =
          some (answerCall (rawItem cedar false) rows) := by
        rw [TableSource.call, hans]
        rfl
      cases rows with
      | ok rows =>
        simp only [relayText, hans]
        exact ⟨.redacted, _, ⟨hcall, (relayCall_rows .redacted _ _ _ rows).symm, honly⟩⟩
      | error e =>
        -- declining goes on to the ways that redact here, any other error ends the relay
        cases e with
        | redactionNotSupported =>
          simp only [relayText, hans]
          refine hhere fun call' hcall' => ?_
          cases hcall.symm.trans hcall'
          rfl
        | _ =>
          simp only [relayText, hans]
          exact ⟨.redacted, _, ⟨hcall, rfl, honly⟩⟩

theorem relaysOnly_relayMatches (cedar : Cedar) (src : TableSource) (q : QuerySpec) (redact : Bool)
    (r : Resp) :
    ∃ m call, RelaysOnly cedar src q redact r (relayMatches cedar src q redact r) m call := by
  rw [relayMatches]
  cases hwire : src.queryRawWireStream with
  | none =>
    refine relaysOnly_relayText fun call' hcall => ?_
    rw [TableSource.call, hwire] at hcall
    cases hcall
  | some wire =>
    have hcall : src.call cedar q redact .wireStream =
        some ⟨(wire q.constraint q.projection q.limit redact).rows.map
          (Option.map (rawItem cedar false)),
          (wire q.constraint q.projection q.limit redact).err,
          (wire q.constraint q.projection q.limit redact).stopErr⟩ := by
      rw [TableSource.call, hwire]
      rfl
    dsimp only
    generalize wire q.constraint q.projection q.limit redact = feed at hcall ⊢
    obtain ⟨k, torn, hsent⟩ := sent_sendAll q.limit
      (feed.rows.map (Option.map (rawItem cedar false))) (s := ⟨r, 0, false⟩) rfl
    have halone := relayCall_feed .wireStream (Option.map (rawItem cedar false)) q.limit r feed
    rw [sendFeed] at halone
    rw [sendAll_map] at hsent
    generalize sendAll (Option.map (rawItem cedar false)) q.limit feed.rows ⟨r, 0, false⟩ = run
      at hsent halone ⊢
    obtain ⟨s, stopped⟩ := run
    have hnone : ∀ m' call', m'.rank < QueryMethod.wireStream.rank →
        src.call cedar q redact m' = some call' → (relayCall m' q.limit call' r).1 = r :=
      fun m' _ hrank => absurd hrank (Nat.not_lt_zero _)
    dsimp only at hsent halone ⊢
    split
    · rename_i hsend
      refine ⟨.wireStream, _, ⟨hcall, ?_, hnone⟩⟩
      simp [halone, hsend]
    · rename_i hsend
      split
      · rename_i herr
        refine ⟨.wireStream, _, ⟨hcall, ?_, hnone⟩⟩
        simp [halone, herr, hsend]
      · rename_i e herr
        split
        · refine ⟨.wireStream, _, ⟨hcall, ?_, hnone⟩⟩
          simp [halone, herr, hsend]
        · -- nothing went out: the response is as it was
          rename_i hn
          have hk : k = 0 := by
            have hcount := hsent.count
            dsimp only at hcount
            omega
          have hresp : s.resp = r := hsent.still hk (by simpa using hsend)
          rw [hresp]
          refine relaysOnly_relayText fun call' hcall' => ?_
          cases hcall.symm.trans hcall'
          simp [halone, herr, hsend, hresp]

/-- **A relay has one source**: it relays the call of one method, and the calls before wrote
nothing. -/
theorem relayMatches_oneCall (cedar : Cedar) (src : TableSource) (q : QuerySpec) (redact : Bool)
    (r : Resp) :
    ∃ m call, RelaysOnly cedar src q redact r (relayMatches cedar src q redact r) m call ∧
      ∃ k torn, k ≤ call.rows.reduceOption.length ∧
        (relayMatches cedar src q redact r).1.written =
          r.written ++ (call.rows.reduceOption.take k).flatMap marked ++ torn ∧
        (torn = [] ∨ torn = [.int32 1]) ∧ (0 < q.limit → k ≤ q.limit) ∧
        ((relayMatches cedar src q redact r).2 = none →
          torn = [] ∧ (call.err = none ∧ k = call.rows.reduceOption.length ∨
            0 < q.limit ∧ k = q.limit)) := by
  obtain ⟨m, call, honly⟩ := relaysOnly_relayMatches cedar src q redact r
  refine ⟨m, call, honly, ?_⟩
  rw [honly.alone]
  exact relayCall_spec m q.limit call r

end GolangCollector
