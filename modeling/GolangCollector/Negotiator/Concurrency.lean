import GolangCollector.Lib.GoMap
import GolangCollector.Negotiator.Types

/-! # Concurrency limits

A job may name limits it counts against, as a list of `name` or `name:weight` tokens. The gate
rejects it if one of them would go over its maximum (`matchmaker/concurrency.go`); the cycle keeps
the usage of every limit it has met, starting from the accountant's count (`cycle/limits.go`). -/

namespace GolangCollector.Negotiator

open GoStrings

/-! ## Tokens -/

/-- `splitLimits`, `splitConcurrencyLimits`: the tokens of a list. -/
def splitLimits (limits : Text) : List Text :=
  fieldsFunc (fun c => c = ',' || c = ' ' || c = '\t' || c = '\n' || c = '\r') limits

/-- A letter or an underscore. -/
def isAlpha (c : Char) : Bool :=
  c = '_' || ('a' ≤ c && c ≤ 'z') || ('A' ≤ c && c ≤ 'Z')

/-- `isValidAttrName`. -/
def isValidAttrName : Text → Bool
  | [] => false
  | c :: cs => isAlpha c && cs.all fun c => isAlpha c || ('0' ≤ c && c ≤ '9')

/-- `validLimitName`: an attribute name, or two of them around the first dot. -/
def validLimitName (name : Text) : Bool :=
  match cut '.' name with
  | some (front, back) => isValidAttrName front && isValidAttrName back
  | none => isValidAttrName name

section

variable {F : Type} [Zero F] [One F] [LE F] [DecidableLE F] (lib : MatchLibrary F)

/-- **`parseLimitToken`**: the name and the weight of a token, by default one. -/
def parseLimitToken (token : Text) : Option (Text × F) :=
  let s := trimSpace token
  let (s, increment) := match cut ':' s with
    | some (front, back) => (front, (lib.parseFloat (trimSpace back)).getD 1)
    | none => (s, 1)
  let increment := if increment ≤ 0 then 1 else increment
  let name := toLower (trimSpace s)
  if validLimitName name then some (name, increment) else none

/-- What `ParseFloat` reads as NaN or infinite, which is no number of an exact field. -/
def nonFiniteWeights : List Text :=
  ["nan", "inf", "+inf", "infinity", "+infinity"].map String.toList

/-- No token of the list has such a weight. -/
def FiniteWeights (limits : Text) : Prop :=
  ∀ token ∈ splitLimits (toLower limits), ∀ p ∈ cut ':' (trimSpace token),
    trimSpace p.2 ∉ nonFiniteWeights

instance (limits : Text) : Decidable (FiniteWeights limits) :=
  inferInstanceAs (Decidable (∀ token ∈ splitLimits (toLower limits), _))

/-- `accountant.ParseConcurrencyLimit`, the same in another package. -/
def parseConcurrencyLimit (token : Text) : Option (Text × F) := parseLimitToken lib token

/-! ## The gate -/

variable [Add F] [LT F] [DecidableLT F]

/-- The count is negative, or would go over the maximum. -/
def ConcurrencyLimits.exceeds (v : ConcurrencyLimits F) (name : Text) (inc : F) : Bool :=
  v.usage name < 0 || v.max name < v.usage name + inc

/-- **`rejectForConcurrencyLimits`**: the first limit that would be exceeded. -/
def rejectForConcurrencyLimits (limits : Text) (v : ConcurrencyLimits F) : Option Text :=
  ((splitLimits (toLower limits)).filterMap (parseLimitToken lib)).findSome? fun p =>
    if v.exceeds p.1 p.2 then some p.1 else none

variable {lib} in
/-- The gate rejects exactly where a limit would be exceeded. -/
theorem rejectForConcurrencyLimits_isSome_iff {limits : Text} {v : ConcurrencyLimits F} :
    (rejectForConcurrencyLimits lib limits v).isSome ↔
      ∃ p ∈ (splitLimits (toLower limits)).filterMap (parseLimitToken lib),
        v.exceeds p.1 p.2 := by
  rw [rejectForConcurrencyLimits, List.findSome?_isSome_iff]
  refine exists_congr fun p => and_congr_right fun _ => ?_
  cases v.exceeds p.1 p.2 <;> simp

/-- The limits whose usage the gate reads, up to the one it rejects for. -/
def limitsRead (limits : Text) (v : ConcurrencyLimits F) : List Text :=
  let tokens := (splitLimits (toLower limits)).filterMap (parseLimitToken lib)
  let (passed, rest) := tokens.span fun p => !v.exceeds p.1 p.2
  (passed ++ rest.take 1).map Prod.fst

end

/-! ## The cycle's tracker -/

/-- `concurrencyTracker`: the usage of the limits met so far, by lower-case name. -/
abbrev ConcurrencyTracker (F : Type) := GoMap Text F

/-- `DefaultConcurrencyLimitMax`. -/
def defaultConcurrencyLimitMax : ℤ := 2308032

namespace ConcurrencyTracker

variable {F : Type} (seed : Text → F) (t : ConcurrencyTracker F)

/-- `Usage`: the tracked usage, or the accountant's count. -/
def usage (name : Text) : F := (t.lookup (toLower name)).getD (seed (toLower name))

/-- What `Usage` leaves behind: the limit is tracked from now on. -/
def touch (name : Text) : ConcurrencyTracker F :=
  match t.lookup (toLower name) with
  | some _ => t
  | none => t.insert (toLower name) (seed (toLower name))

/-- `Max`: the configured maximum, or the large default. -/
def max [IntCast F] (configured : Option (Text → F)) (name : Text) : F :=
  match configured with
  | none => (defaultConcurrencyLimitMax : F)
  | some limit => limit (toLower name)

/-- The tracker as the gate sees it. -/
def view [IntCast F] (configured : Option (Text → F)) : ConcurrencyLimits F :=
  ⟨t.usage seed, max configured⟩

/-- **`add`**: charge the weights of a list. -/
def add [Zero F] [One F] [Add F] [LE F] [DecidableLE F] (lib : MatchLibrary F) (limits : Text) :
    ConcurrencyTracker F :=
  ((splitLimits (toLower limits)).filterMap (parseConcurrencyLimit lib)).foldl
    (fun t p => t.insert p.1 (t.usage seed p.1 + p.2)) t

end ConcurrencyTracker

end GolangCollector.Negotiator
