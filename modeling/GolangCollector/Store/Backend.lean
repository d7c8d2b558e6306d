import GolangCollector.Store.AdType
import GolangCollector.Store.Constraint
import GolangCollector.Store.RawAd

/-! # The backend interface

What the command handlers use of a store (`store/backend.go`): `Query` and `Watch`, which every
backend has, and the optional query capabilities, which a type assertion discovers. A `TableSource`
is a backend as one table sees it; a capability the backend lacks is `none`.

The documented contract is stated in two parts: `TableSource.Redacts` (a redacting query yields no
private attribute) and `TableSource.Answers` (a query fails exactly when its constraint does not
compile, and otherwise yields something exactly when an ad matches). -/

namespace GolangCollector

open GoStrings

/-! ## Results -/

inductive BackendError where
  /-- `ErrRedactionNotSupported`. -/
  | redactionNotSupported
  /-- `ErrWireRowsNotSupported`. -/
  | wireRowsNotSupported
  /-- `collector: backend %T has no raw query`. -/
  | noRawQuery
  /-- `collector: watch constraint %q: ...`. -/
  | badWatchConstraint (constraint : Text)
  /-- An error of the store. -/
  | store (e : StoreError)
  /-- Any other failure. -/
  | failed (reason : Text)
  deriving DecidableEq, Repr

structure Feed (α : Type) where
  /-- The rows, in order. -/
  rows : List α
  /-- How the stream ends. -/
  err : Option BackendError
  /-- What is returned if the consumer stops it. -/
  stopErr : Option BackendError

inductive WatchKind where
  | upsert
  | delete
  | reset
  | synced
  | resync
  | goingAway
  deriving DecidableEq, Repr

def WatchKind.hasAd : WatchKind → Bool
  | .upsert => true
  | _ => false

structure WatchEvent where
  kind : WatchKind
  key : Text
  cursor : Text
  ad : Option ClassAd
  deriving DecidableEq, Repr

/-! ## Sources -/

/-- **A backend as one table sees it.** -/
structure TableSource where
  /-- `Query`. -/
  query : Text → ℕ → Except BackendError (List ClassAd)
  /-- `Watch`, with a cursor and a constraint. -/
  watch : Text → Text → Except BackendError (List WatchEvent)
  /-- `RawQueryer`. -/
  queryRaw : Option (Text → ℕ → Except BackendError (List RawAd))
  /-- `ProjectedRawQueryer`. -/
  queryRawProject : Option (Text → List Text → ℕ → Except BackendError (List RawAd))
  /-- `RawStreamer`. -/
  queryRawStream : Option (Text → ℕ → Feed RawAd)
  /-- `ProjectedRawStreamer`. -/
  queryRawProjectStream : Option (Text → List Text → ℕ → Feed RawAd)
  /-- `RedactedRawQueryer`. -/
  queryRawRedacted : Option (Text → ℕ → Except BackendError (List RawAd))
  /-- `RedactedProjectedRawQueryer`. -/
  queryRawProjectRedacted : Option (Text → List Text → ℕ → Except BackendError (List RawAd))
  /-- `WireRowStreamer`, its rows already rendered (`RenderRawAdInline`); `none` is a malformed row.
  The flag asks for redaction. -/
  queryRawWireStream : Option (Text → List Text → ℕ → Bool → Feed (Option RawAd))

abbrev Backend := AdType → TableSource

def AgreeOutside {T : Type} (σ σ' : AdType → T) : Prop := ∀ t, t ≠ .startdPvtAd → σ t = σ' t

structure TextAnswers where
  /-- Of the redacting capability. -/
  redacted : Option (Except BackendError (List RawAd))
  /-- Of the streaming capability. -/
  stream : Option (Feed RawAd)
  /-- Of the plain capability. -/
  raw : Option (Except BackendError (List RawAd))

def TableSource.textAnswers (src : TableSource) (constraint : Text) (projection : List Text)
    (limit : ℕ) : TextAnswers :=
  if projection = [] then
    ⟨src.queryRawRedacted.map fun q => q constraint limit,
      src.queryRawStream.map fun q => q constraint limit,
      src.queryRaw.map fun q => q constraint limit⟩
  else
    ⟨src.queryRawProjectRedacted.map fun q => q constraint projection limit,
      src.queryRawProjectStream.map fun q => q constraint projection limit,
      src.queryRawProject.map fun q => q constraint projection limit⟩

/-! ## The contract -/

structure TableSource.Redacts (isPrivate : Text → Bool) (src : TableSource) : Prop where
  text : ∀ constraint projection limit rows,
    (src.textAnswers constraint projection limit).redacted = some (.ok rows) →
      ∀ ra ∈ rows, ra.Public isPrivate
  wire : ∀ q, src.queryRawWireStream = some q → ∀ constraint projection limit,
    ∀ ra, some ra ∈ (q constraint projection limit true).rows → ra.Public isPrivate

structure Reading where
  /-- The constraint compiles. -/
  accepts : Text → Bool
  /-- The constraint selects the ad. -/
  selects : Text → ClassAd → Bool

def Reading.Hits (reading : Reading) (constraint : Text) (ads : List ClassAd) : Prop :=
  ∃ ad ∈ ads, reading.selects constraint ad

def Answered {α : Type} (accepted hits : Prop) : Except BackendError (List α) → Prop
  | .ok rows => accepted ∧ (rows ≠ [] ↔ hits)
  | .error _ => ¬ accepted

def Feed.Answered {α : Type} (accepted hits : Prop) (feed : Feed α) : Prop :=
  (accepted ∧ feed.err = none ∧ feed.stopErr = none ∧ (feed.rows ≠ [] ↔ hits)) ∨
    (¬ accepted ∧ feed.rows = [] ∧ feed.err ≠ none)

def Feed.WireAnswered (accepted hits : Prop) (feed : Feed (Option RawAd)) : Prop :=
  (accepted ∧ feed.err = none ∧ feed.stopErr = none ∧ (feed.rows.filterMap id ≠ [] ↔ hits)) ∨
    (feed.rows = [] ∧ feed.err ≠ none)

structure TextAnswers.Answered (accepted hits : Prop) (a : TextAnswers) : Prop where
  redacted : ∀ r, a.redacted = some r →
    r = .error .redactionNotSupported ∨ GolangCollector.Answered accepted hits r
  stream : ∀ feed, a.stream = some feed → feed.Answered accepted hits
  raw : ∀ r, a.raw = some r → GolangCollector.Answered accepted hits r

structure TableSource.Answers (reading : Reading) (ads : List ClassAd) (src : TableSource) :
    Prop where
  wire : ∀ q, src.queryRawWireStream = some q → ∀ constraint projection limit redact,
    (q constraint projection limit redact).WireAnswered (reading.accepts constraint)
      (reading.Hits constraint ads)
  text : ∀ constraint projection limit, (src.textAnswers constraint projection limit).Answered
    (reading.accepts constraint) (reading.Hits constraint ads)
  query : ∀ constraint limit,
    Answered (reading.accepts constraint : Prop) (reading.Hits constraint ads)
      (src.query constraint limit)

theorem Answered.map {α β : Type} {accepted hits : Prop} {r : Except BackendError (List α)}
    (h : Answered accepted hits r) (f : α → β) : Answered accepted hits (r.map (List.map f)) := by
  cases r with
  | error e => exact h
  | ok rows =>
    refine ⟨h.1, ?_⟩
    rw [← h.2]
    simp

end GolangCollector
