import GolangCollector.Lib.GoMap
import GolangCollector.Lib.Runs
import GolangCollector.Negotiator.Types

/-! # Warm connections to the schedds

The negotiator keeps the connections to schedds open between cycles (`negotiator/protocol`). A
`Factory` caches them by address and submitter tag; `Begin` takes one out of the cache or dials,
`End` puts it back, `Close` and every error on the way discard it. If a warm connection turns out to
have been dropped by the schedd before it replied, `FetchRequests` evicts what is cached under its
key, closes its own and dials once more.

Sessions run concurrently, each driven by one goroutine. A step is a critical section of the cache,
or the end of a blocking call on a connection; what a goroutine does to its own session until then
belongs to the step. `evict` and `CloseAll` close outside of the lock what they took out under it,
so there is a time in between. Connections are numbered as they are dialled. -/

namespace GolangCollector.Negotiator

open GoStrings Runs

namespace Protocol

/-! ## Errors -/

inductive Sentinel where
  | eof
  | unexpectedEOF
  | closedPipe
  | netClosed
  deriving DecidableEq, Repr

structure NetError where
  sentinel : Option Sentinel
  text : Text
  deriving DecidableEq, Repr

def NetError.wrap (err : NetError) (what : Text) : NetError := { err with text := what ++ err.text }

def contains (text part : Text) : Bool := text.tails.any part.isPrefixOf

def isDropped (err : NetError) : Bool :=
  err.sentinel.isSome || contains err.text "connection reset" ||
    contains err.text "broken pipe" || contains err.text "connection closed" ||
    contains err.text "use of closed"

/-- What a message is put together by, each with the text its error is wrapped in. -/
def headerParts (warm : Bool) : List Text :=
  (if warm then ["negotiate: writing warm command int: ".toList] else []) ++
    ["negotiate: writing header: ".toList, "negotiate: finishing header: ".toList]

@[inherit_doc headerParts]
def askParts (legacy : Bool) : List Text :=
  if legacy then
    ["negotiate: sending SEND_JOB_INFO: ".toList, "negotiate: finishing SEND_JOB_INFO: ".toList]
  else
    ["negotiate: sending SEND_RESOURCE_REQUEST_LIST: ",
      "negotiate: sending request count: ",
      "negotiate: finishing SEND_RESOURCE_REQUEST_LIST: "]

@[inherit_doc headerParts]
def matchParts : List Text :=
  ["negotiate: sending PERMISSION_AND_AD: ", "negotiate: sending claim id: ",
    "negotiate: sending match ad: ", "negotiate: finishing PERMISSION_AND_AD: "]

@[inherit_doc headerParts]
def rejectParts : List Text :=
  ["negotiate: sending REJECTED_WITH_REASON: ", "negotiate: sending reject reason: ",
    "negotiate: finishing REJECTED_WITH_REASON: "]

@[inherit_doc headerParts]
def endParts : List Text :=
  ["negotiate: sending END_NEGOTIATE: ".toList, "negotiate: finishing END_NEGOTIATE: ".toList]

abbrev Sent := Option (ℕ × NetError)

def Sent.err (parts : List Text) (res : Sent) : Option NetError :=
  res.map fun p => p.2.wrap (parts.getD p.1 [])

/-! ## Sessions -/

structure CacheKey where
  addr : Text
  tag : Text
  deriving DecidableEq, Repr

inductive Opcode where
  | noMoreJobs
  | jobInfo
  | other (op : ℤ) (name : Text)
  deriving DecidableEq, Repr

inductive Why where
  | begins
  | fetches (n : ℤ)
  deriving DecidableEq, Repr

structure Fetch where
  n : ℤ
  again : Bool
  out : List (ℕ × Request)
  deriving DecidableEq, Repr

inductive Pc where
  | unused
  /-- Between two calls. -/
  | idle
  /-- `Begin` writes the header on a warm connection. -/
  | warmHeader
  /-- `dialFresh` dials, and then writes the header. -/
  | dialing (why : Why)
  | header (why : Why)
  /-- `fetchOnce` asks, waits for an opcode, and for a job ad. -/
  | asking (f : Fetch)
  | replying (f : Fetch)
  | reading (f : Fetch)
  /-- The warm connection is dropped: `evict`, before and after its critical section. -/
  | evicting (n : ℤ)
  | evicted (n : ℤ) (wc : Option ℕ)
  /-- `End` writes. -/
  | ending
  | finished
  deriving DecidableEq, Repr

structure Session where
  scheddAddr : Text
  key : CacheKey
  conn : Option ℕ
  reused : Bool
  progressed : Bool
  exhausted : Bool
  pc : Pc
  /-- The error of the last call. -/
  returned : Option NetError
  /-- What was read in the round: the number of opcodes, that of whole replies, and the requests
  with the connection each was read from. -/
  heard : ℕ
  replies : ℕ
  read : List (ℕ × Request)
  /-- The requests that `FetchRequests` returned. -/
  delivered : List (ℕ × Request)

inductive Effect where
  | keep
  | take (key : CacheKey)
  | dial
  /-- The session's connection is closed. -/
  | drop
  | put (key : CacheKey)
  | evict (key : CacheKey)
  deriving DecidableEq, Repr

inductive Act where
  | begins (tag : Text)
  | fetches (n : ℤ)
  | sendMatch (res : Sent)
  | reject (res : Sent)
  | ends
  | close
  | sent (res : Sent)
  | dialled (err : Option NetError)
  | opcode (res : Except NetError Opcode)
  | ad (res : Except NetError ClassAd)
  /-- The session goes on to `evict`, or from there. -/
  | goesOn

namespace Session

def new (scheddAddr : Text) : Session where
  scheddAddr
  key := ⟨[], []⟩
  conn := none
  reused := false
  progressed := false
  exhausted := false
  pc := .unused
  returned := none
  heard := 0
  replies := 0
  read := []
  delivered := []

variable (x : Session)

def returns (err : Option NetError) : Session := { x with pc := .idle, returned := err }

def begins (tag : Text) (cached : Option ℕ) : Session × Effect :=
  let key : CacheKey := ⟨x.scheddAddr, tag⟩
  match cached with
  | some wc =>
    ({ x with key, exhausted := false, conn := some wc, reused := true, progressed := false
              pc := .warmHeader }, .take key)
  | none => ({ x with key, exhausted := false, pc := .dialing .begins }, .keep)

def dialled (next : ℕ) (why : Why) : Option NetError → Session × Effect
  | some err =>
    (x.returns (some (err.wrap ("negotiate: dialing schedd " ++ x.scheddAddr ++
      ": "))), .keep)
  | none =>
    ({ x with conn := some next, reused := false, progressed := false, pc := .header why }, .dial)

def fetchOnce (n : ℤ) (again : Bool) : Session :=
  if n ≤ 0 then x.returns none else { x with pc := .asking ⟨n, again, []⟩ }

def fetched (f : Fetch) (err : Option NetError) : Session :=
  { x.returns err with delivered := x.delivered ++ f.out }

def fetchFails (f : Fetch) (err : NetError) : Session :=
  if !f.again && x.reused && !x.progressed && isDropped err then { x with pc := .evicting f.n }
  else x.fetched f (some err)

def hears (f : Fetch) (op : Opcode) : Session :=
  let x := { x with heard := x.heard + 1 }
  match op with
  | .noMoreJobs =>
    { x with exhausted := true, progressed := true, replies := x.replies + 1 }.fetched f none
  | .jobInfo => { x with pc := .reading f }
  | .other op name =>
    x.fetchFails f ⟨none, "negotiate: unexpected reply opcode " ++ (toString op).toList ++
      " (" ++ name ++ ")"⟩

def reads (legacy : Bool) (f : Fetch) (c : ℕ) (req : Request) : Session :=
  let f := { f with out := f.out ++ [(c, req)] }
  let x := { x with progressed := true, replies := x.replies + 1, read := x.read ++ [(c, req)] }
  if (f.out.length : ℤ) < f.n then { x with pc := if legacy then .asking f else .replying f }
  else x.fetched f none

def discard (err : Option NetError) : Session × Effect :=
  ({ x with pc := .finished, conn := none, returned := err }, .drop)

def sent (legacy : Bool) (res : Sent) : Option (Session × Effect) :=
  match x.pc with
  | .warmHeader =>
    match res.err (headerParts true) with
    | none => some (x.returns none, .keep)
    | some _ => some ({ x with conn := none, pc := .dialing .begins }, .drop)
  | .header why =>
    match res.err (headerParts false), why with
    | some err, _ => some (x.returns (some err), .keep)
    | none, .begins => some (x.returns none, .keep)
    | none, .fetches n => some (x.fetchOnce n true, .keep)
  | .asking f =>
    match res.err (askParts legacy) with
    | none => some ({ x with pc := .replying f }, .keep)
    | some err => some (x.fetchFails f err, .keep)
  | .ending =>
    match res.err endParts with
    | none => some ({ x with pc := .finished, conn := none, returned := none }, .put x.key)
    | some err => some (x.discard (some err))
  | _ => none

def called : Act → Option (Session × Effect)
  | .fetches n =>
    if x.exhausted then some (x.returns none, .keep)
    else if x.conn.isSome || n ≤ 0 then some (x.fetchOnce n false, .keep)
    else none
  | .sendMatch res =>
    match x.conn with
    | none =>
      some (x.returns (some ⟨none, "negotiate: SendMatch on a closed session"⟩), .keep)
    | some _ => some (x.returns (res.err matchParts), .keep)
  | .reject res =>
    match x.conn with
    | none => some (x.returns (some ⟨none, "negotiate: Reject on a closed session"⟩), .keep)
    | some _ => some (x.returns (res.err rejectParts), .keep)
  | .ends =>
    match x.conn with
    | none =>
      some ({ x with pc := .finished
                     returned := some ⟨none, "negotiate: End on a closed session"⟩ }, .keep)
    | some _ => some ({ x with pc := .ending }, .keep)
  | .close => some (x.discard none)
  | _ => none

end Session

/-! ## The factory -/

/-- **The factory**, its sessions, and what became of the connections. -/
structure Factory where
  legacy : Bool
  warm : GoMap CacheKey ℕ
  sessions : ℕ → Session
  /-- How many connections were dialled. -/
  dialled : ℕ
  /-- Taken out of the cache by a call of `evict` or `CloseAll`, which is yet to close them. -/
  closing : List ℕ
  closed : List ℕ

def Factory.new (legacy : Bool) (addrs : ℕ → Text) : Factory :=
  ⟨legacy, ∅, fun i => .new (addrs i), 0, [], []⟩

namespace Factory

variable (s : Factory)

def set (i : ℕ) (x : Session) : Factory :=
  { s with sessions := fun j => if j = i then x else s.sessions j }

def take (key : CacheKey) : Factory := { s with warm := s.warm.erase key }

def close (wc : Option ℕ) : Factory := { s with closed := wc.toList ++ s.closed }

def put (key : CacheKey) (c : ℕ) : Factory :=
  { s with
    closed := ((s.warm.lookup key).filter fun old => old ≠ c).toList ++ s.closed
    warm := s.warm.insert key c }

def evict (key : CacheKey) : Factory :=
  { s with closing := (s.warm.lookup key).toList ++ s.closing, warm := s.warm.erase key }

def closeAll : Factory :=
  { s with closing := s.warm.pairs.map Prod.snd ++ s.closing, warm := ∅ }

def perform (conn : Option ℕ) : Effect → Factory
  | .keep => s
  | .take key => s.take key
  | .dial => { s with dialled := s.dialled + 1 }
  | .drop => s.close conn
  | .put key =>
    match conn with
    | none => s
    | some c => s.put key c
  | .evict key => s.evict key

variable {F : Type} (lib : MatchLibrary F)

def react (x : Session) (a : Act) : Option (Session × Effect) :=
  match a, x.pc with
  | .begins tag, .unused => some (x.begins tag (s.warm.lookup ⟨x.scheddAddr, tag⟩))
  | .sent res, _ => x.sent s.legacy res
  | .dialled err, .dialing why => some (x.dialled s.dialled why err)
  | .opcode (.error err), .replying f =>
    some (x.fetchFails f (err.wrap "negotiate: reading reply opcode: "), .keep)
  | .opcode (.ok op), .replying f => some (x.hears f op, .keep)
  | .ad (.error err), .reading f =>
    some (x.fetchFails f (err.wrap "negotiate: reading job ad: "), .keep)
  | .ad (.ok ad), .reading f =>
    x.conn.map fun c => (x.reads s.legacy f c (parseRequest lib ad), .keep)
  | .goesOn, .evicting n =>
    some ({ x with pc := .evicted n (s.warm.lookup x.key) }, .evict x.key)
  | .goesOn, .evicted n wc =>
    -- `evict` has returned once it has closed what it took out
    if wc.all fun c => c ∉ s.closing then
      some ({ x with conn := none, pc := .dialing (.fetches n) }, .drop)
    else none
  | a, .idle => x.called a
  | _, _ => none

inductive Label where
  | act (i : ℕ) (a : Act)
  | evict (key : CacheKey)
  | closeAll
  /-- A call of `evict` or `CloseAll` closes a connection that it took out. -/
  | closes (c : ℕ)

def step : Label → Option Factory
  | .act i a =>
    (s.react lib (s.sessions i) a).map fun r => (s.perform (s.sessions i).conn r.2).set i r.1
  | .evict key => some (s.evict key)
  | .closeAll => some s.closeAll
  | .closes c =>
    if c ∈ s.closing then
      some { s with closing := s.closing.filter (· ≠ c), closed := c :: s.closed }
    else none

end Factory

end Protocol

end GolangCollector.Negotiator
