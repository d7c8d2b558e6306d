import GolangCollector.Server.Commands
import GolangCollector.Server.Relay

/-! # The read handlers

The handlers of the commands that read the store (`server/server.go`, `server/watch.go`): the query
of one table, the query of several named by target type, and the subscription to a table's changes.
`serve` dispatches a command to its handler as `Register` does. A reply is what was written and how
the handler returned. -/

namespace GolangCollector

open GoStrings List

/-- What a handler sees of its connection. -/
structure Conn where
  /-- How many writes succeed; `none` if all do. -/
  room : Option ℕ
  /-- Whether the server is shutting down when a subscription ends. -/
  shutdown : Bool

structure Reply where
  /-- What was written. -/
  items : List Item
  /-- The error returned. -/
  err : Option ServeError

def Reply.seen (reply : Reply) : List Item × Bool := (reply.items, reply.err.isSome)

def finish : Resp × Option ServeError → Reply
  | (r, some e) => ⟨r.written, some e⟩
  | (r, none) =>
    match r.put [.int32 0, .flush true] with
    | (r', true) => ⟨r'.written, none⟩
    | (r', false) => ⟨r'.written, some .send⟩

variable (lib : QueryLibrary) (cedar : Cedar) (b : Backend)

def queryHandler (t : AdType) (conn : Conn) (queryAd : ClassAd) : Reply :=
  finish (relayMatches cedar (b t) (parseQuery lib queryAd) (t ≠ .startdPvtAd) ⟨[], conn.room⟩)

def relayTargets (queryAd : ClassAd) : List Text → Resp → Resp × Option ServeError
  | [], r => (r, none)
  | target :: rest, r =>
    match adTypeForTarget target with
    | none => relayTargets queryAd rest r
    | some t =>
      match
        relayMatches cedar (b t) (parseSubQuery lib queryAd target) (t ≠ .startdPvtAd) r with
      | (r', some e) => (r', some e)
      | (r', none) => relayTargets queryAd rest r'

def targetsOf (queryAd : ClassAd) : List Text :=
  splitAttrs ((queryAd.evaluateAttrString lib.eval attrTargetType).getD [])

def multiQueryHandler (conn : Conn) (queryAd : ClassAd) : Reply :=
  finish (relayTargets lib cedar b queryAd (targetsOf lib queryAd) ⟨[], conn.room⟩)

def eventItems (redact : Bool) (ev : WatchEvent) : List Item :=
  .classAd (cedar.putClassAd (cedar.encodeHeader ev.kind ev.key ev.cursor)) ::
    ((if ev.kind.hasAd then ev.ad.toList.map (putAd cedar redact) else []) ++ [.flush false])

def watchHandler (conn : Conn) (req : ClassAd) : Reply :=
  match cedar.decodeRequest req with
  | none => ⟨[], some .badRequest⟩
  | some (name, constraint, cursor) =>
    match adTypeByName name with
    | none => ⟨[], some (.unknownAdType name)⟩
    | some t =>
      match (b t).watch cursor constraint with
      | .error e => ⟨[], some (.backend e)⟩
      | .ok events =>
        match Resp.put ⟨[], conn.room⟩
            (events.flatMap (eventItems cedar (t ≠ .startdPvtAd))) with
        | (r, false) => ⟨r.written, some .send⟩
        | (r, true) =>
          if conn.shutdown then
            -- best effort: a failed write is ignored
            ⟨(r.put (eventItems cedar true ⟨.goingAway, [], [], none⟩)).1.written, none⟩
          else ⟨r.written, none⟩

def serve (cmd : Command) (conn : Conn) (req : ClassAd) : Option Reply :=
  match queryCommands cmd with
  | some t => some (queryHandler lib cedar b t conn req)
  | none =>
    match cmd with
    | .queryMultipleAds => some (multiQueryHandler lib cedar b conn req)
    | .queryMultiplePvtAds => some (multiQueryHandler lib cedar b conn req)
    | .watchAds => some (watchHandler cedar b conn req)
    | _ => none

theorem serve_query {cmd : Command} {t : AdType} (h : queryCommands cmd = some t) (conn : Conn)
    (req : ClassAd) :
    serve lib cedar b cmd conn req = some (queryHandler lib cedar b t conn req) := by
  simp only [serve, h]

theorem serve_multi (conn : Conn) (req : ClassAd) :
    serve lib cedar b .queryMultipleAds conn req =
      some (multiQueryHandler lib cedar b conn req) := rfl

theorem serve_watch (conn : Conn) (req : ClassAd) :
    serve lib cedar b .watchAds conn req = some (watchHandler cedar b conn req) := rfl

/-! ## What the handlers write -/

section Written

variable {cedar} {b}

theorem seen_finish {p p' : Resp × Option ServeError} (hresp : p.1 = p'.1)
    (herr : p.2.isSome = p'.2.isSome) : (finish p).seen = (finish p').seen := by
  obtain ⟨r, e⟩ := p
  obtain ⟨r', e'⟩ := p'
  obtain rfl : r = r' := hresp
  cases e <;> cases e' <;> simp_all [finish, Reply.seen]

theorem public_finish {p : Resp × Option ServeError} (h : p.1.Public cedar) :
    ∀ i ∈ (finish p).items, i.Public cedar := by
  obtain ⟨r, e⟩ := p
  cases e with
  | some e => exact h
  | none =>
    have hend : ∀ i ∈ [Item.int32 0, .flush true], i.Public cedar := by
      intro i hi
      rcases mem_pair.mp hi with rfl | rfl <;> exact nofun
    have hput := Resp.Public.put h hend
    rw [finish]
    split <;> rename_i r' hr' <;> rw [hr'] at hput <;> exact hput

theorem public_eventItems (ev : WatchEvent) : ∀ i ∈ eventItems cedar true ev, i.Public cedar := by
  intro i hi
  rw [eventItems, mem_cons, mem_append, mem_singleton] at hi
  rcases hi with rfl | had | rfl
  · exact public_putAd _
  · split at had
    · obtain ⟨ad, -, rfl⟩ := mem_map.mp had
      exact public_putAd ad
    · cases had
  · exact nofun

end Written

end GolangCollector
