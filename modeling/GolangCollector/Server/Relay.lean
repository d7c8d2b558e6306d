import GolangCollector.Server.Query
import GolangCollector.Store.Backend

/-! # Relaying query results

`relayMatches` (`server/server.go`) writes the matches of one table to a client, by the first way
that the backend offers:

1. wire rows, unless the stream fails before a row went out;
2. where the reply is redacted, a query that redacts at the source, unless the backend declines;
3. a stream of raw ads, redacted here;
4. a raw query, redacted here;
5. the materialized ads, redacted by the message layer.

The connection takes a number of writes and fails the next one (`Resp.room`); the message layer's
notion of a private attribute and its redacting write are a `Cedar`. Every way leaves only public
attributes in a redacted reply (`relayMatches_public`), and what is written does not depend on what
was written before (`sends_relayMatches`). -/

namespace GolangCollector

open GoStrings List Option

/-! ## Writing -/

/-- **The message layer.** -/
structure Cedar where
  /-- `ClassAdAttributeIsPrivateAny`. -/
  isPrivate : Text → Bool
  /-- What `PutClassAd` sends of an ad. -/
  putClassAd : ClassAd → ClassAd
  /-- `PutClassAd` omits private attributes. -/
  putClassAd_public : ∀ ad, ∀ p ∈ (putClassAd ad).attrs, isPrivate p.1 = false
  /-- The type attributes are not private. -/
  myType_public : isPrivate attrMyType = false
  /-- The type attributes are not private. -/
  targetType_public : isPrivate attrTargetType = false
  /-- `watch.EncodeHeader`, of a kind, a key and a cursor. -/
  encodeHeader : WatchKind → Text → Text → ClassAd
  /-- `watch.DecodeRequest`: ad type name, constraint and cursor of a watch request. -/
  decodeRequest : ClassAd → Option (Text × Text × Text)

inductive Item where
  | int32 (i : Int)
  /-- `PutClassAdRawBytes`: the lines and the trailing type strings. -/
  | rawAd (exprs : List Text) (myType targetType : Text)
  /-- An ad as it is sent. -/
  | classAd (ad : ClassAd)
  /-- `FlushFrame`, with or without the end of the message. -/
  | flush (endOfMessage : Bool)
  deriving DecidableEq

def Item.attrNames : Item → List Text
  | .rawAd exprs _ _ => exprs.map lineName
  | .classAd ad => ad.attrs.map Prod.fst
  | _ => []

def Item.Public (cedar : Cedar) (i : Item) : Prop := ∀ a ∈ i.attrNames, cedar.isPrivate a = false

structure Resp where
  /-- What has been written. -/
  written : List Item
  /-- How many more writes succeed; `none` for a connection that never fails. -/
  room : Option ℕ

def Resp.put (r : Resp) : List Item → Resp × Bool
  | [] => (r, true)
  | i :: is =>
    match r.room with
    | some 0 => (r, false)
    | some (n + 1) => put ⟨r.written ++ [i], some n⟩ is
    | none => put ⟨r.written ++ [i], none⟩ is

inductive ServeError where
  /-- A write to the client failed. -/
  | send
  | backend (e : BackendError)
  /-- The request could not be decoded. -/
  | badRequest
  /-- `collector: watch on unknown ad type %q`. -/
  | unknownAdType (name : Text)
  deriving DecidableEq, Repr

def withTypeAttrs (exprs : List Text) (myType targetType : Text) : List Text :=
  (if myType = [] then [] else [attrLine attrMyType (quoted myType)]) ++
    (if targetType = [] then [] else [attrLine attrTargetType (quoted targetType)]) ++ exprs

def rawItem (cedar : Cedar) (redactHere : Bool) (ra : RawAd) : Item :=
  .rawAd (withTypeAttrs (if redactHere then redactRawExprs cedar.isPrivate ra.exprs else ra.exprs)
    ra.myType ra.targetType) [] []

def putAd (cedar : Cedar) (redact : Bool) (ad : ClassAd) : Item :=
  .classAd (if redact then cedar.putClassAd ad else ad)

/-! ## The relay loop -/

structure Relay where
  resp : Resp
  n : ℕ
  sendErr : Bool

def sendAll {α : Type} (item : α → Option Item) (limit : ℕ) : List α → Relay → Relay × Bool
  | [], s => (s, false)
  | a :: as, s =>
    if 0 < limit ∧ limit ≤ s.n then (s, true)
    else
      match item a with
      | none => sendAll item limit as s
      | some i =>
        match s.resp.put [.int32 1, i] with
        | (resp, true) => sendAll item limit as { s with resp := resp, n := s.n + 1 }
        | (resp, false) => ({ s with resp := resp, sendErr := true }, true)

def sendRows {α : Type} (item : α → Option Item) (limit : ℕ) (rows : List α) (r : Resp) :
    Resp × Option ServeError :=
  let s := (sendAll item limit rows ⟨r, 0, false⟩).1
  (s.resp, if s.sendErr then some .send else none)

def sendAnswer {α : Type} (item : α → Option Item) (limit : ℕ) (r : Resp) :
    Except BackendError (List α) → Resp × Option ServeError
  | .ok rows => sendRows item limit rows r
  | .error e => (r, some (.backend e))

def sendFeed {α : Type} (sendFirst : Bool) (item : α → Option Item) (limit : ℕ) (r : Resp)
    (feed : Feed α) : Resp × Option ServeError :=
  match sendAll item limit feed.rows ⟨r, 0, false⟩ with
  | (s, stopped) =>
    match (if sendFirst && s.sendErr then none else if stopped then feed.stopErr else feed.err) with
    | some e => (s.resp, some (.backend e))
    | none => (s.resp, if s.sendErr then some .send else none)

variable (cedar : Cedar)

def relayMaterialized (src : TableSource) (q : QuerySpec) (redact : Bool) (r : Resp) :
    Resp × Option ServeError :=
  sendAnswer (fun ad => some (putAd cedar redact (project ad q.projection))) q.limit r
    (src.query q.constraint q.limit)

def relayHere (src : TableSource) (q : QuerySpec) (redact : Bool) (a : TextAnswers) (r : Resp) :
    Resp × Option ServeError :=
  match a.stream, a.raw with
  | some feed, _ => sendFeed false (fun ra => some (rawItem cedar redact ra)) q.limit r feed
  | none, some rows => sendAnswer (fun ra => some (rawItem cedar redact ra)) q.limit r rows
  | none, none => relayMaterialized cedar src q redact r

def relayText (src : TableSource) (q : QuerySpec) (redact : Bool) (r : Resp) :
    Resp × Option ServeError :=
  let a := src.textAnswers q.constraint q.projection q.limit
  match redact, a.redacted with
  -- no private attribute reaches the loop, so it does not scan for them
  | true, some (.ok rows) =>
    sendRows (fun ra => some (rawItem cedar false ra)) q.limit rows r
  | true, some (.error .redactionNotSupported) => relayHere cedar src q redact a r
  | true, some (.error e) => (r, some (.backend e))
  | _, _ => relayHere cedar src q redact a r

def relayMatches (src : TableSource) (q : QuerySpec) (redact : Bool) (r : Resp) :
    Resp × Option ServeError :=
  match src.queryRawWireStream with
  | none => relayText cedar src q redact r
  | some wire =>
    let feed := wire q.constraint q.projection q.limit redact
    match sendAll (Option.map (rawItem cedar false)) q.limit feed.rows ⟨r, 0, false⟩ with
    | (s, stopped) =>
      if s.sendErr then (s.resp, some .send)
      else
        match (if stopped then feed.stopErr else feed.err) with
        | none => (s.resp, none)
        | some e =>
          -- rows already sent: a fallback would duplicate them
          if 0 < s.n then (s.resp, some (.backend e)) else relayText cedar src q redact s.resp

/-! ## What a redacted reply holds -/

section Public

variable {cedar : Cedar}

def Resp.Public (cedar : Cedar) (r : Resp) : Prop := ∀ i ∈ r.written, i.Public cedar

theorem Resp.Public.put {r : Resp} (hr : r.Public cedar) {items : List Item}
    (hitems : ∀ i ∈ items, i.Public cedar) : (r.put items).1.Public cedar := by
  -- along the items; a write that fails leaves what was written so far
  induction items generalizing r with
  | nil => exact hr
  | cons i is ih =>
    have hnext : ∀ room, Resp.Public cedar ⟨r.written ++ [i], room⟩ := by
      intro room j hj
      rcases mem_append.mp hj with hold | hnew
      · exact hr j hold
      · rw [mem_singleton.mp hnew]
        exact hitems i mem_cons_self
    rw [Resp.put]
    split
    · exact hr
    · exact ih (hnext _) fun j hj => hitems j (mem_cons_of_mem _ hj)
    · exact ih (hnext _) fun j hj => hitems j (mem_cons_of_mem _ hj)

theorem Item.public_int32 (i : Int) : (Item.int32 i).Public cedar := nofun

variable {α : Type} {rows : List α}

theorem sendAll_public {item : α → Option Item} (limit : ℕ)
    (hitem : ∀ a ∈ rows, ∀ i, item a = some i → i.Public cedar) {s : Relay}
    (hs : s.resp.Public cedar) : (sendAll item limit rows s).1.resp.Public cedar := by
  induction rows generalizing s with
  | nil => exact hs
  | cons a as ih =>
    have hrest : ∀ b ∈ as, ∀ i, item b = some i → i.Public cedar :=
      fun b hb => hitem b (mem_cons_of_mem _ hb)
    rw [sendAll]
    split
    · exact hs
    · cases hi : item a with
      | none => exact ih hrest hs
      | some i =>
        have hitems : ∀ j ∈ [Item.int32 1, i], j.Public cedar := by
          intro j hj
          rcases mem_cons.mp hj with rfl | hj
          · exact Item.public_int32 1
          · rw [mem_singleton.mp hj]
            exact hitem a mem_cons_self i hi
        have hput := hs.put hitems
        simp only
        split
        · rename_i resp heq
          rw [heq] at hput
          exact ih hrest hput
        · rename_i resp heq
          rw [heq] at hput
          exact hput

theorem public_withTypeAttrs {exprs : List Text}
    (h : ∀ e ∈ exprs, cedar.isPrivate (lineName e) = false) (myType targetType : Text) :
    (Item.rawAd (withTypeAttrs exprs myType targetType) [] []).Public cedar := by
  intro a ha
  obtain ⟨e, he, rfl⟩ := mem_map.mp ha
  rw [withTypeAttrs, mem_append, mem_append] at he
  rcases he with (hmy | htarget) | he
  · split at hmy
    · cases hmy
    · rw [mem_singleton.mp hmy, lineName_attrLine (by decide)]
      exact cedar.myType_public
  · split at htarget
    · cases htarget
    · rw [mem_singleton.mp htarget, lineName_attrLine (by decide)]
      exact cedar.targetType_public
  · exact h e he

theorem public_rawItem_true (ra : RawAd) : (rawItem cedar true ra).Public cedar :=
  public_withTypeAttrs (RawAd.public_redact cedar.isPrivate ra) _ _

theorem public_rawItem_false {ra : RawAd} (h : ra.Public cedar.isPrivate) :
    (rawItem cedar false ra).Public cedar :=
  public_withTypeAttrs h _ _

theorem public_putAd (ad : ClassAd) : (putAd cedar true ad).Public cedar := by
  intro a ha
  obtain ⟨p, hp, rfl⟩ := mem_map.mp ha
  exact cedar.putClassAd_public ad p hp

variable {r : Resp}

theorem sendRows_public {item : α → Option Item} (limit : ℕ)
    (hitem : ∀ a ∈ rows, ∀ i, item a = some i → i.Public cedar) (hr : r.Public cedar) :
    (sendRows item limit rows r).1.Public cedar := by
  have hs : (Relay.mk r 0 false).resp.Public cedar := hr
  exact sendAll_public limit hitem hs

theorem sendAnswer_public {item : α → Option Item} (limit : ℕ) {rows : Except BackendError (List α)}
    (hitem : ∀ a i, item a = some i → i.Public cedar) (hr : r.Public cedar) :
    (sendAnswer item limit r rows).1.Public cedar := by
  cases rows with
  | ok rows => exact sendRows_public limit (fun a _ => hitem a) hr
  | error e => exact hr

theorem sendFeed_public {sendFirst : Bool} {item : α → Option Item} (limit : ℕ) {feed : Feed α}
    (hitem : ∀ a i, item a = some i → i.Public cedar) (hr : r.Public cedar) :
    (sendFeed sendFirst item limit r feed).1.Public cedar := by
  have hs : (Relay.mk r 0 false).resp.Public cedar := hr
  have hall := sendAll_public limit (fun a (_ : a ∈ feed.rows) => hitem a) hs
  rw [sendFeed]
  split
  rename_i s stopped hrun
  rw [hrun] at hall
  split <;> exact hall

theorem relayHere_public (src : TableSource) (q : QuerySpec) (a : TextAnswers)
    (hr : r.Public cedar) : (relayHere cedar src q true a r).1.Public cedar := by
  have hraw : ∀ (ra : RawAd) (i : Item),
      some (rawItem cedar true ra) = some i → i.Public cedar := by
    rintro ra i ⟨⟩
    exact public_rawItem_true ra
  rw [relayHere]
  split
  · exact sendFeed_public _ hraw hr
  · exact sendAnswer_public _ hraw hr
  · refine sendAnswer_public _ ?_ hr
    rintro ad i ⟨⟩
    exact public_putAd _

theorem relayText_public {src : TableSource} (hsrc : src.Redacts cedar.isPrivate) (q : QuerySpec)
    (hr : r.Public cedar) : (relayText cedar src q true r).1.Public cedar := by
  unfold relayText
  simp only
  split
  · rename_i rows hrows
    refine sendRows_public _ ?_ hr
    rintro ra hra i ⟨⟩
    exact public_rawItem_false (hsrc.text _ _ _ _ hrows ra hra)
  · exact relayHere_public src q _ hr
  · exact hr
  · exact relayHere_public src q _ hr

theorem relayMatches_public {src : TableSource} (hsrc : src.Redacts cedar.isPrivate) (q : QuerySpec)
    (hr : r.Public cedar) : (relayMatches cedar src q true r).1.Public cedar := by
  rw [relayMatches]
  cases hwire : src.queryRawWireStream with
  | none => exact relayText_public hsrc q hr
  | some wire =>
    have hs : (Relay.mk r 0 false).resp.Public cedar := hr
    have hitem : ∀ row ∈ (wire q.constraint q.projection q.limit true).rows, ∀ i,
        row.map (rawItem cedar false) = some i → i.Public cedar := by
      intro row hrow i hi
      obtain ⟨ra, rfl, rfl⟩ := map_eq_some_iff.mp hi
      exact public_rawItem_false (hsrc.wire wire hwire _ _ _ ra hrow)
    have hall := sendAll_public q.limit hitem hs
    simp only
    split
    · exact hall
    · split
      · exact hall
      · split
        · exact hall
        · exact relayText_public hsrc q hall

end Public

/-! ## What a relay writes -/

structure Sends (accepted hits : Prop) (f : Resp → Resp × Option ServeError) : Prop where
  appends : accepted → ∃ block, (hits → block ≠ []) ∧
    ∀ w, f ⟨w, none⟩ = (⟨w ++ block, none⟩, none)
  silent : accepted → ¬ hits → ∀ r, f r = (r, none)
  fails : ¬ accepted → ∀ r, ∃ e, f r = (r, some e)

theorem Sends.congr {accepted hits : Prop} {f g : Resp → Resp × Option ServeError}
    (h : Sends accepted hits f) (hg : ∀ r, g r = f r) : Sends accepted hits g := by
  rw [show g = f from funext hg]
  exact h

theorem Resp.put_open (w items : List Item) :
    Resp.put ⟨w, none⟩ items = (⟨w ++ items, none⟩, true) := by
  induction items generalizing w with
  | nil =>
    rw [append_nil]
    rfl
  | cons i is ih =>
    rw [Resp.put]
    simp only
    rw [ih, append_assoc]
    rfl

theorem sendAll_open (item : α → Option Item) (limit : ℕ) (rows : List α) (n : ℕ) :
    ∃ block m stopped, (n = 0 → rows.filterMap item ≠ [] → block ≠ []) ∧
      ∀ w, sendAll item limit rows ⟨⟨w, none⟩, n, false⟩ =
        (⟨⟨w ++ block, none⟩, m, false⟩, stopped) := by
  induction rows generalizing n with
  | nil => exact ⟨[], n, false, fun _ h => absurd rfl h, fun w => by rw [append_nil]; rfl⟩
  | cons a as ih =>
    by_cases hlimit : 0 < limit ∧ limit ≤ n
    · -- stopped at the limit, which is not reached before the first ad
      refine ⟨[], n, true, ?_, fun w => ?_⟩
      · rintro rfl
        omega
      · rw [sendAll, if_pos hlimit, append_nil]
    · cases hi : item a with
      | none =>
        obtain ⟨block, m, stopped, hne, hrun⟩ := ih n
        refine ⟨block, m, stopped, fun hn hrows => hne hn ?_, fun w => ?_⟩
        · rwa [filterMap_cons_none hi] at hrows
        · rw [sendAll, if_neg hlimit, hi]
          exact hrun w
      | some i =>
        obtain ⟨block, m, stopped, -, hrun⟩ := ih (n + 1)
        refine ⟨[.int32 1, i] ++ block, m, stopped, fun _ _ => by simp, fun w => ?_⟩
        rw [sendAll, if_neg hlimit, hi]
        simp only [Resp.put_open]
        rw [hrun, append_assoc]

theorem sendAll_silent {item : α → Option Item} (limit : ℕ) (hrows : rows.filterMap item = [])
    (r : Resp) : sendAll item limit rows ⟨r, 0, false⟩ = (⟨r, 0, false⟩, false) := by
  induction rows with
  | nil => rfl
  | cons a as ih =>
    cases hi : item a with
    | none =>
      have hlimit : ¬ (0 < limit ∧ limit ≤ 0) := by omega
      rw [filterMap_cons_none hi] at hrows
      rw [sendAll, if_neg hlimit, hi]
      exact ih hrows
    | some i =>
      rw [filterMap_cons_some hi] at hrows
      cases hrows

section Sends

variable {accepted hits : Prop} {α : Type} (f : α → Item) (limit : ℕ)

theorem sends_rows (haccepted : accepted) (h : rows ≠ [] ↔ hits) :
    Sends accepted hits (sendRows (fun a => some (f a)) limit rows) where
  appends := by
    intro _
    obtain ⟨block, m, stopped, hne, hrun⟩ := sendAll_open (fun a => some (f a)) limit rows 0
    refine ⟨block, fun hhits => hne rfl ?_, fun w => ?_⟩
    · have := h.mpr hhits
      simpa using this
    · rw [sendRows, hrun]
      rfl
  silent := by
    intro _ hhits r
    have hnil : rows = [] := by
      by_contra hne
      exact hhits (h.mp hne)
    rw [hnil]
    rfl
  fails := fun hnot => absurd haccepted hnot

theorem Answered.sends {rows : Except BackendError (List α)} (h : Answered accepted hits rows) :
    Sends accepted hits fun r => sendAnswer (fun a => some (f a)) limit r rows := by
  cases rows with
  | ok rows => exact sends_rows f limit h.1 h.2
  | error e =>
    exact ⟨fun hacc => absurd hacc h, fun hacc => absurd hacc h, fun _ r => ⟨_, rfl⟩⟩

theorem Feed.Answered.sends {feed : Feed α} (h : feed.Answered accepted hits) :
    Sends accepted hits fun r => sendFeed false (fun a => some (f a)) limit r feed := by
  obtain ⟨rows, err, stopErr⟩ := feed
  rcases h with ⟨hacc, rfl, rfl, hrows⟩ | ⟨hacc, rfl, herr⟩
  · -- a complete stream is sent as its rows are
    have hsame : (fun r => sendFeed false (fun a => some (f a)) limit r ⟨rows, none, none⟩) =
        sendRows (fun a => some (f a)) limit rows := by
      funext r
      rw [sendFeed, sendRows]
      simp
    rw [hsame]
    exact sends_rows f limit hacc hrows
  · -- a failing one has no rows, and its error is returned
    obtain ⟨e, rfl⟩ := ne_none_iff_exists'.mp herr
    exact ⟨fun h => absurd h hacc, fun h => absurd h hacc, fun _ r => ⟨_, rfl⟩⟩

end Sends

section RelaySends

variable {reading : Reading} {ads : List ClassAd} {src : TableSource}

section

variable (hsrc : src.Answers reading ads)
include hsrc

theorem sends_relayHere (q : QuerySpec) (redact : Bool) :
    Sends (reading.accepts q.constraint) (reading.Hits q.constraint ads)
      (relayHere cedar src q redact (src.textAnswers q.constraint q.projection q.limit)) := by
  have htext := hsrc.text q.constraint q.projection q.limit
  cases hstream : (src.textAnswers q.constraint q.projection q.limit).stream with
  | some feed =>
    refine ((htext.stream feed hstream).sends (rawItem cedar redact) q.limit).congr fun r => ?_
    simp only [relayHere, hstream]
  | none =>
    cases hraw : (src.textAnswers q.constraint q.projection q.limit).raw with
    | some rows =>
      refine ((htext.raw rows hraw).sends (rawItem cedar redact) q.limit).congr fun r => ?_
      simp only [relayHere, hstream, hraw]
    | none =>
      refine ((hsrc.query q.constraint q.limit).sends
        (fun ad => putAd cedar redact (project ad q.projection)) q.limit).congr fun r => ?_
      simp only [relayHere, hstream, hraw, relayMaterialized]

theorem sends_relayText (q : QuerySpec) (redact : Bool) :
    Sends (reading.accepts q.constraint) (reading.Hits q.constraint ads)
      (relayText cedar src q redact) := by
  have hhere := sends_relayHere cedar hsrc q redact
  have htext := hsrc.text q.constraint q.projection q.limit
  cases redact with
  | false => exact hhere.congr fun r => by simp only [relayText]
  | true =>
    cases hred : (src.textAnswers q.constraint q.projection q.limit).redacted with
    | none => exact hhere.congr fun r => by simp only [relayText, hred]
    | some rows =>
      rcases htext.redacted rows hred with rfl | hans
      · exact hhere.congr fun r => by simp only [relayText, hred]
      · cases rows with
        | ok rows =>
          exact (sends_rows (rawItem cedar false) q.limit hans.1 hans.2).congr fun r => by
            simp only [relayText, hred]
        | error e =>
          -- declining falls back to the ways that redact here, any other error ends the relay
          have hend : Sends (reading.accepts q.constraint) (reading.Hits q.constraint ads)
              fun r => (r, some (.backend e)) :=
            ⟨fun h => absurd h hans, fun h => absurd h hans, fun _ r => ⟨_, rfl⟩⟩
          cases e with
          | redactionNotSupported => exact hhere.congr fun r => by simp only [relayText, hred]
          | _ => exact hend.congr fun r => by simp only [relayText, hred]

theorem sends_relayMatches (q : QuerySpec) (redact : Bool) :
    Sends (reading.accepts q.constraint) (reading.Hits q.constraint ads)
      (relayMatches cedar src q redact) := by
  have htext := sends_relayText cedar hsrc q redact
  cases hwire : src.queryRawWireStream with
  | none => exact htext.congr fun r => by simp only [relayMatches, hwire]
  | some wire =>
    rcases hsrc.wire wire hwire q.constraint q.projection q.limit redact with
      ⟨hacc, herr, hstop, hrows⟩ | ⟨hrows, herr⟩
    · -- a complete row stream: malformed rows are skipped, so only rendered ones count
      have hitems : (wire q.constraint q.projection q.limit redact).rows.filterMap
          (Option.map (rawItem cedar false)) ≠ [] ↔ reading.Hits q.constraint ads := by
        have hmap : ∀ rows : List (Option RawAd),
            rows.filterMap (Option.map (rawItem cedar false)) =
              (rows.filterMap id).map (rawItem cedar false) := fun _ => List.map_filterMap.symm
        rw [hmap, ← hrows, ne_eq, List.map_eq_nil_iff]
      refine ⟨fun _ => ?_, fun _ hhits r => ?_, fun hnot => absurd hacc hnot⟩
      · obtain ⟨block, m, stopped, hne, hrun⟩ := sendAll_open (Option.map (rawItem cedar false))
          q.limit (wire q.constraint q.projection q.limit redact).rows 0
        refine ⟨block, fun hhits => hne rfl (hitems.mpr hhits), fun w => ?_⟩
        simp [relayMatches, hwire, hrun, herr, hstop]
      · have hnil : (wire q.constraint q.projection q.limit redact).rows.filterMap
            (Option.map (rawItem cedar false)) = [] := by
          by_contra hne
          exact hhits (hitems.mp hne)
        simp [relayMatches, hwire, sendAll_silent q.limit hnil, herr]
    · -- the row stream failed before its first row
      obtain ⟨e, he⟩ := Option.ne_none_iff_exists'.mp herr
      exact htext.congr fun r => by simp [relayMatches, hwire, hrows, he, sendAll]

end

end RelaySends

end GolangCollector
