import GolangCollector.Store.Backend
import GolangCollector.Store.Database

/-! # The store as a backend

The reads of the in-memory `Store` as the server sees them: the plain, the projected and the
redacting raw queries. They answer as the contract says, and what they answer for a public table
does not depend on the private one.

Rendering a stored ad and following a table's changes belong to the collections library
(`Collections`). -/

namespace GolangCollector

open GoStrings List Option

/-- **What is used of a collection** beyond its ads. -/
structure Collections where
  /-- The raw form of a stored ad. -/
  render : ClassAd → RawAd
  /-- The cursors a watch resumes from. -/
  resumes : Text → Bool
  /-- `Watch`: the changes of a table since a cursor. -/
  watch : Table → Text → Except BackendError (List WatchEvent)
  /-- A watch fails exactly at the cursors it does not resume from. -/
  watch_isOk : ∀ tab cursor, (watch tab cursor).isOk = resumes cursor
  /-- `WatchFilter`. -/
  watchFilter : (ClassAd → Bool) → List WatchEvent → List WatchEvent

def Collections.follow (coll : Collections) (tab : Table) (cursor constraint : Text)
    (narrowing : Option (Option (ClassAd → Bool))) : Except BackendError (List WatchEvent) :=
  match coll.watch tab cursor with
  | .error e => .error e
  | .ok events =>
    match narrowing with
    | none => .error (.badWatchConstraint constraint)
    | some none => .ok events
    | some (some p) => .ok (coll.watchFilter p events)

def sourceOfRows (coll : Collections) (strips : Option (Text → Bool))
    (rows : Text → Except BackendError (List ClassAd))
    (watch : Text → Text → Except BackendError (List WatchEvent)) : TableSource where
  -- the limit is left to the caller, which stops the iteration
  query constraint _ := rows constraint
  watch := watch
  queryRaw := some fun constraint _ => (rows constraint).map (List.map coll.render)
  queryRawProject := some fun constraint projection _ =>
    (rows constraint).map (List.map fun ad => (coll.render ad).project projection)
  queryRawStream := none
  queryRawProjectStream := none
  queryRawRedacted := strips.map fun isPrivate constraint _ =>
    (rows constraint).map (List.map fun ad => (coll.render ad).redact isPrivate)
  queryRawProjectRedacted := strips.map fun isPrivate constraint projection _ =>
    (rows constraint).map
      (List.map fun ad => ((coll.render ad).redact isPrivate).project projection)
  queryRawWireStream := none

/-! ## The in-memory store -/

section Memory

variable (lib : Library) (isPrivate : Text → Bool) (coll : Collections) (s : Store)

def Store.narrowing (constraint : Text) : Option (Option (ClassAd → Bool)) :=
  if trimSpace constraint = [] then some none
  else (lib.parseExpr constraint).map fun e => some (lib.selects e)

def Store.watch (t : AdType) (cursor constraint : Text) : Except BackendError (List WatchEvent) :=
  if t = .anyAd then .error (.store (.notStorageTable t.name))
  else coll.follow (s.cols t) cursor constraint (Store.narrowing lib constraint)

def Store.backend : Backend := fun t =>
  sourceOfRows coll (some isPrivate) (fun constraint => (s.query lib t constraint).mapError .store)
    (s.watch lib coll t)

def Store.reading : Reading where
  accepts constraint := (parseConstraint lib constraint).isOk
  selects constraint ad :=
    match parseConstraint lib constraint with
    | .ok q => lib.satisfies q ad
    | .error _ => false

end Memory

/-! ## The contract -/

section Contract

variable {lib : Library} {isPrivate : Text → Bool} {coll : Collections}

theorem Collections.follow_error (tab : Table) {cursor : Text} (constraint : Text)
    {narrowing : Option (Option (ClassAd → Bool))}
    (h : (coll.resumes cursor && narrowing.isSome) = false) :
    ∃ e, coll.follow tab cursor constraint narrowing = .error e := by
  rw [Collections.follow]
  cases hwatch : coll.watch tab cursor with
  | error e => exact ⟨e, rfl⟩
  | ok events =>
    have hok := coll.watch_isOk tab cursor
    rw [hwatch] at hok
    cases narrowing with
    | none => exact ⟨_, rfl⟩
    | some p =>
      rw [← hok] at h
      cases h

theorem redacts_sourceOfRows {strips : Option (Text → Bool)} (hstrips : ∀ p ∈ strips, p = isPrivate)
    (rows : Text → Except BackendError (List ClassAd))
    (watch : Text → Text → Except BackendError (List WatchEvent)) :
    (sourceOfRows coll strips rows watch).Redacts isPrivate where
  text := by
    intro constraint projection limit answer hanswer ra hra
    cases strips with
    | none =>
      -- without stripping there is no redacting query
      rw [TableSource.textAnswers] at hanswer
      split at hanswer <;> cases hanswer
    | some p =>
      obtain rfl := hstrips p rfl
      rw [TableSource.textAnswers] at hanswer
      cases hrows : rows constraint with
      | error e => split at hanswer <;> simp [sourceOfRows, hrows, Except.map] at hanswer
      | ok ads =>
        simp only [sourceOfRows, hrows, Except.map, map_some] at hanswer
        split at hanswer <;> cases hanswer <;> obtain ⟨ad, -, rfl⟩ := mem_map.mp hra
        · exact RawAd.public_redact p _
        · exact (RawAd.public_redact p _).project projection
  wire := nofun

theorem answers_sourceOfRows {strips : Option (Text → Bool)} {reading : Reading}
    {ads : List ClassAd} {rows : Text → Except BackendError (List ClassAd)}
    (hrows : ∀ constraint,
      Answered (reading.accepts constraint : Prop) (reading.Hits constraint ads) (rows constraint))
    (watch : Text → Text → Except BackendError (List WatchEvent)) :
    (sourceOfRows coll strips rows watch).Answers reading ads where
  wire := by
    intro _ hwire
    cases hwire
  text := by
    intro constraint projection limit
    rw [TableSource.textAnswers]
    split
    -- with and without a projection alike
    all_goals
      refine ⟨fun r hr => Or.inr ?_, fun feed hfeed => ?_, fun r hr => ?_⟩
      · obtain ⟨q, hq, rfl⟩ := map_eq_some_iff.mp hr
        obtain ⟨p, -, rfl⟩ := map_eq_some_iff.mp hq
        exact (hrows constraint).map _
      · cases hfeed
      · cases hr
        exact (hrows constraint).map _
  query := fun constraint _ => hrows constraint

theorem Store.answers_backend (s : Store) {t : AdType} (ht : t ≠ .anyAd) :
    (s.backend lib isPrivate coll t).Answers (Store.reading lib) (s.cols t).scan := by
  refine answers_sourceOfRows (fun constraint => ?_) _
  cases hparse : parseConstraint lib constraint with
  | error e =>
    simp [Store.query, hparse, Except.map, Except.mapError, Answered, Store.reading, Except.isOk,
      Except.toBool]
  | ok q =>
    have hok : (Store.reading lib).accepts constraint = true := by
      simp [Store.reading, hparse, Except.isOk, Except.toBool]
    simp only [Store.query, hparse, Except.map, Except.mapError, Answered, Store.queryCompiled,
      Store.queryOne, if_neg ht, hok, true_and, ne_eq, filter_eq_nil_iff, not_forall]
    simp [Reading.Hits, Store.reading, hparse]

theorem Store.backend_congr {s s' : Store} (h : AgreeOutside s.cols s'.cols) {t : AdType}
    (ht : t ≠ .startdPvtAd) : s.backend lib isPrivate coll t = s'.backend lib isPrivate coll t := by
  have hquery : ∀ constraint, s.query lib t constraint = s'.query lib t constraint := by
    intro constraint
    have hcompiled : s.queryCompiled lib t = s'.queryCompiled lib t := by
      funext q
      rw [Store.queryCompiled, Store.queryCompiled]
      split
      · -- a query of every public table skips the private one
        refine flatMap_congr fun at' hat => ?_
        have hne : at' ≠ .startdPvtAd := by
          rintro rfl
          exact AdType.startdPvtAd_notMem_publicTypes hat
        rw [Store.queryOne, Store.queryOne, h at' hne]
      · rw [Store.queryOne, Store.queryOne, h t ht]
    rw [Store.query, Store.query, hcompiled]
  have hwatch : s.watch lib coll t = s'.watch lib coll t := by
    funext cursor constraint
    rw [Store.watch, Store.watch, h t ht]
  rw [Store.backend, Store.backend, hwatch]
  simp only [hquery]

end Contract

end GolangCollector
