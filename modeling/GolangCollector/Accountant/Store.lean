import Mathlib.Data.List.Sort
import GolangCollector.Lib.GoMap
import GolangCollector.Lib.GoStrings

/-! # The accountant's store

Records of attributes in three tables, and a log of every change (`accountant/store.go`). Opening a
store replays its log; that this gives back the tables is part of what a store is. Everything else
in the accountant sees a store through `record?` and the readings of single attributes. -/

namespace GolangCollector.Accountant

open GoStrings List

/-! ## Records -/

inductive Table where
  | acct
  /-- Submitters, and bare group names. -/
  | customer
  /-- Matches, by resource name. -/
  | resource
  deriving DecidableEq, Repr

/-- The value of an attribute, of one of three kinds; an `int64` is any integer. -/
inductive AttrValue (F : Type) where
  | int (i : ℤ)
  | float (f : F)
  | str (s : Text)
  deriving DecidableEq, Repr

namespace AttrValue

variable {F : Type}

def toFloat [IntCast F] : AttrValue F → Option F
  | float f => some f
  | int i => some i
  | str _ => none

def toInt (truncate : F → ℤ) : AttrValue F → Option ℤ
  | int i => some i
  | float f => some (truncate f)
  | str _ => none

def toText : AttrValue F → Option Text
  | str s => some s
  | _ => none

end AttrValue

def attrNames : List String :=
  ["Priority", "PriorityFactor", "ResourcesUsed", "WeightedResourcesUsed",
    "HierWeightedResourcesUsed", "UnchargedTime", "WeightedUnchargedTime", "AccumulatedUsage",
    "WeightedAccumulatedUsage", "BeginUsageTime", "LastUsageTime", "Ceiling", "Floor",
    "LastUpdateTime", "RemoteUser", "StartTime", "SlotWeight", "SubmitterShare", "SubmitterLimit",
    "RoundRobinTime", "Count", "MatchedConcurrencyLimits"]

inductive Attr where
  | priority
  | priorityFactor
  | resourcesUsed
  | weightedResourcesUsed
  | hierWeightedResourcesUsed
  | unchargedTime
  | weightedUnchargedTime
  | accumulatedUsage
  | weightedAccumulatedUsage
  | beginUsageTime
  | lastUsageTime
  | ceiling
  | floor
  | lastUpdateTime
  | remoteUser
  | startTime
  | slotWeight
  | submitterShare
  | submitterLimit
  | roundRobinTime
  | limitCount
  | matchedConcurrencyLimits
  /-- An attribute of an imported record under another name. -/
  | other (name : Text) (unlisted : name ∉ attrNames.map String.toList)
  deriving DecidableEq

abbrev Record (F : Type) := GoMap Attr (AttrValue F)

namespace Record

variable {F : Type} (r : Record F)

def attr? (a : Attr) : Option (AttrValue F) := r.lookup a

def getFloat [IntCast F] (a : Attr) : Option F := (r.attr? a).bind AttrValue.toFloat

def getInt (truncate : F → ℤ) (a : Attr) : Option ℤ := (r.attr? a).bind (AttrValue.toInt truncate)

def getString (a : Attr) : Option Text := (r.attr? a).bind AttrValue.toText

def has (a : Attr) : Bool := (r.attr? a).isSome

def assign (a : Attr) (v : AttrValue F) : Record F := r.insert a v

@[simp] theorem attr?_empty (a : Attr) : attr? (∅ : Record F) a = none := rfl

@[simp] theorem attr?_assign (a b : Attr) (v : AttrValue F) :
    (r.assign a v).attr? b = if b = a then some v else r.attr? b := by
  rw [attr?, assign]
  split
  · next h => rw [h, AList.lookup_insert]
  · next h => rw [AList.lookup_insert_ne h, attr?]

end Record

/-! ## The store -/

abbrev Tables (F : Type) := GoMap (Table × Text) (Record F)

/-- `logEntry`: one change of the tables. -/
inductive LogEntry (F : Type) where
  | set (tbl : Table) (key : Text) (attr : Attr) (v : AttrValue F)
  | del (tbl : Table) (key : Text)

def LogEntry.apply {F : Type} (tables : Tables F) : LogEntry F → Tables F
  | .set tbl key attr v =>
    tables.insert (tbl, key) (Record.assign ((tables.lookup (tbl, key)).getD ∅) attr v)
  | .del tbl key => tables.erase (tbl, key)

def replay {F : Type} (log : List (LogEntry F)) : Tables F := log.foldl LogEntry.apply ∅

/-- **`Store`**: the tables, and the log that describes them. -/
structure Store (F : Type) where
  tables : Tables F
  log : List (LogEntry F)
  replays : replay log = tables

namespace Store

variable {F : Type}

def openLog (log : List (LogEntry F)) : Store F := ⟨replay log, log, rfl⟩

theorem openLog_log (s : Store F) : openLog s.log = s := by
  obtain ⟨tables, log, rfl⟩ := s
  rfl

def empty : Store F := openLog []

variable (s : Store F)

def change (e : LogEntry F) : Store F where
  tables := e.apply s.tables
  log := s.log ++ [e]
  replays := by rw [replay, List.foldl_append, ← replay, s.replays]; rfl

def set (tbl : Table) (key : Text) (attr : Attr) (v : AttrValue F) : Store F :=
  s.change (.set tbl key attr v)

def record? (tbl : Table) (key : Text) : Option (Record F) := s.tables.lookup (tbl, key)

def deleteRecord (tbl : Table) (key : Text) : Store F :=
  if (s.record? tbl key).isSome then s.change (.del tbl key) else s

def sets (tbl : Table) (key : Text) (assignments : List (Attr × AttrValue F)) : Store F :=
  assignments.foldl (fun s p => s.set tbl key p.1 p.2) s

def attr? (tbl : Table) (key : Text) (attr : Attr) : Option (AttrValue F) :=
  (s.record? tbl key).bind fun r => r.attr? attr

def getFloat [IntCast F] (tbl : Table) (key : Text) (attr : Attr) : Option F :=
  (s.attr? tbl key attr).bind AttrValue.toFloat

def getInt (truncate : F → ℤ) (tbl : Table) (key : Text) (attr : Attr) : Option ℤ :=
  (s.attr? tbl key attr).bind (AttrValue.toInt truncate)

def getString (tbl : Table) (key : Text) (attr : Attr) : Option Text :=
  (s.attr? tbl key attr).bind AttrValue.toText

def keys (tbl : Table) : List Text :=
  ((s.tables.keys.filter fun p => p.1 = tbl).map Prod.snd).insertionSort (· ≤ ·)

/-! ### What the operations do to records -/

variable {s} {tbl tbl' : Table} {key key' : Text}

@[simp] theorem record?_empty : record? (empty : Store F) tbl key = none := rfl

theorem record?_set (attr : Attr) (v : AttrValue F) :
    (s.set tbl key attr v).record? tbl' key' =
      if tbl' = tbl ∧ key' = key then some (((s.record? tbl key).getD ∅).assign attr v)
      else s.record? tbl' key' := by
  simp only [record?, set, change, LogEntry.apply]
  split
  · next h => rw [h.1, h.2, AList.lookup_insert]
  · next h => rw [AList.lookup_insert_ne (by simpa using h)]

theorem record?_deleteRecord :
    (s.deleteRecord tbl key).record? tbl' key' =
      if tbl' = tbl ∧ key' = key then none else s.record? tbl' key' := by
  rw [deleteRecord]
  split
  · simp only [record?, change, LogEntry.apply]
    split
    · next h => rw [h.1, h.2, AList.lookup_erase]
    · next h => rw [AList.lookup_erase_ne (by simpa using h)]
  · next habsent =>
    split
    · next h => rw [h.1, h.2, Option.not_isSome_iff_eq_none.mp habsent]
    · rfl

theorem record?_sets_of_some {r : Record F} (h : s.record? tbl key = some r)
    (assignments : List (Attr × AttrValue F)) :
    (s.sets tbl key assignments).record? tbl key =
      some (assignments.foldl (fun r p => Record.assign r p.1 p.2) r) := by
  induction assignments generalizing s r with
  | nil => exact h
  | cons p ps ih =>
    rw [sets, foldl_cons, ← sets, foldl_cons]
    exact ih (by rw [record?_set, if_pos ⟨rfl, rfl⟩, h, Option.getD_some])

theorem record?_sets_of_ne (assignments : List (Attr × AttrValue F))
    (h : ¬ (tbl' = tbl ∧ key' = key)) :
    (s.sets tbl key assignments).record? tbl' key' = s.record? tbl' key' := by
  rw [sets]
  refine foldlRecOn (motive := fun s' : Store F => s'.record? tbl' key' = _)
    assignments _ rfl ?_
  rintro s' hs' p -
  rw [record?_set, if_neg h, hs']

/-! ### What the operations do to attributes -/

variable {attr attr' : Attr}

theorem attr?_set (v : AttrValue F) :
    (s.set tbl key attr v).attr? tbl' key' attr' =
      if tbl' = tbl ∧ key' = key ∧ attr' = attr then some v else s.attr? tbl' key' attr' := by
  rw [attr?, record?_set]
  by_cases h : tbl' = tbl ∧ key' = key
  · obtain ⟨rfl, rfl⟩ := h
    cases hrec : s.record? tbl' key' <;> simp [attr?, hrec]
  · rw [if_neg h, if_neg fun h' => h ⟨h'.1, h'.2.1⟩, attr?]

theorem attr?_deleteRecord :
    (s.deleteRecord tbl key).attr? tbl' key' attr =
      if tbl' = tbl ∧ key' = key then none else s.attr? tbl' key' attr := by
  rw [attr?, record?_deleteRecord]
  split <;> rfl

theorem attr?_sets_of_ne (assignments : List (Attr × AttrValue F))
    (h : ¬ (tbl' = tbl ∧ key' = key)) :
    (s.sets tbl key assignments).attr? tbl' key' attr = s.attr? tbl' key' attr := by
  rw [attr?, record?_sets_of_ne assignments h, attr?]

theorem mem_keys : key ∈ s.keys tbl ↔ (s.record? tbl key).isSome := by
  rw [keys, mem_insertionSort, record?, AList.lookup_isSome, AList.mem_keys]
  simp

theorem nodup_keys : (s.keys tbl).Nodup := by
  rw [keys, (perm_insertionSort _ _).nodup_iff]
  refine Nodup.map_on ?_ (s.tables.keys_nodup.filter _)
  intro p hp q hq h
  have hp' := (mem_filter.mp hp).2
  have hq' := (mem_filter.mp hq).2
  simp only [decide_eq_true_eq] at hp' hq'
  exact Prod.ext (hp'.trans hq'.symm) h

/-! ### Loops over keys -/

theorem attr?_foldl_set (v : AttrValue F) (ks : List Text) :
    (ks.foldl (fun s k => s.set tbl k attr v) s).attr? tbl' key attr' =
      if tbl' = tbl ∧ key ∈ ks ∧ attr' = attr then some v else s.attr? tbl' key attr' := by
  induction ks generalizing s with
  | nil => simp
  | cons k ks ih =>
    rw [foldl_cons, ih, attr?_set]
    grind

theorem record?_foldl_deleteRecord (ks : List Text) :
    (ks.foldl (fun s k => s.deleteRecord tbl k) s).record? tbl' key =
      if tbl' = tbl ∧ key ∈ ks then none else s.record? tbl' key := by
  induction ks generalizing s with
  | nil => simp
  | cons k ks ih =>
    rw [foldl_cons, ih, record?_deleteRecord]
    by_cases ht : tbl' = tbl <;> by_cases hk : key = k <;> by_cases hks : key ∈ ks <;>
      simp [ht, hk, hks]

end Store

end GolangCollector.Accountant
