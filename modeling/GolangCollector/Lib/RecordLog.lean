import Mathlib.Data.List.Induction
import GolangCollector.Lib.GoMap

/-! # Records with a log of their changes

Records of attributes by key, the changes that are made to them, and a log of these changes: a
restart replays the log. What a restart reads of a change may differ from the change, or be nothing
(`kept`), and a record can be created without a change. The log of a store is faithful if its replay
has the records of the store; what every single operation has to satisfy for this is `Loggable`. -/

namespace RecordLog

open List Option AList

variable {K A V : Type}

inductive Change (K A V : Type) where
  | set (key : K) (attr : A) (v : V)
  | del (key : K)
  deriving DecidableEq

abbrev Records (K A V : Type) := GoMap K (GoMap A V)

variable [DecidableEq K] [DecidableEq A]

def Change.apply (t : Records K A V) : Change K A V → Records K A V
  | .set key attr v => t.insert key (((t.lookup key).getD ∅).insert attr v)
  | .del key => t.erase key

def replay (log : List (Change K A V)) : Records K A V := log.foldl Change.apply ∅

theorem replay_concat (log : List (Change K A V)) (c : Change K A V) :
    replay (log ++ [c]) = c.apply (replay log) := by
  rw [replay, foldl_append]
  rfl

/-! ## Readings -/

def reading (t : Records K A V) (key : K) : Option (A → Option V) :=
  (t.lookup key).map fun r attr => r.lookup attr

def Same (t t' : Records K A V) : Prop := ∀ key, reading t key = reading t' key

theorem Same.refl (t : Records K A V) : Same t t := fun _ => rfl

theorem Same.trans {t t' t'' : Records K A V} (h : Same t t') (h' : Same t' t'') : Same t t'' :=
  fun key => (h key).trans (h' key)

@[simp] theorem reading_set (t : Records K A V) (key k : K) (attr : A) (v : V) :
    reading (Change.apply t (.set key attr v)) k =
      if k = key then some (fun a => if a = attr then some v else (reading t key).bind (· a))
      else reading t k := by
  rw [reading, Change.apply]
  split_ifs with hk
  · subst hk
    rw [lookup_insert, map_some]
    congr 1
    funext a
    split_ifs with ha
    · rw [ha, lookup_insert]
    · rw [lookup_insert_ne ha, reading]
      cases t.lookup k <;> rfl
  · rw [lookup_insert_ne hk, reading]

@[simp] theorem reading_del (t : Records K A V) (key k : K) :
    reading (Change.apply t (.del key)) k = if k = key then none else reading t k := by
  rw [reading, Change.apply]
  split_ifs with hk
  · rw [hk, lookup_erase, map_none]
  · rw [lookup_erase_ne hk, reading]

theorem Same.apply {t t' : Records K A V} (h : Same t t') (c : Change K A V) :
    Same (c.apply t) (c.apply t') := by
  intro k
  cases c with
  | set key attr v => rw [reading_set, reading_set, h key, h k]
  | del key => rw [reading_del, reading_del, h k]

theorem mem_of_reading_replay {log : List (Change K A V)} {key : K} {r : A → Option V}
    (h : reading (replay log) key = some r) :
    (∃ attr v, Change.set key attr v ∈ log) ∧
      ∀ attr v, r attr = some v → Change.set key attr v ∈ log := by
  -- a log that is one change longer
  induction log using reverseRecOn generalizing r with
  | nil => cases h
  | append_singleton log c ih =>
    rw [replay_concat] at h
    cases c with
    | del k =>
      rw [reading_del] at h
      split_ifs at h
      obtain ⟨⟨attr, v, hmem⟩, hattrs⟩ := ih h
      exact ⟨⟨attr, v, mem_append_left _ hmem⟩,
        fun attr v hr => mem_append_left _ (hattrs attr v hr)⟩
    | set k a w =>
      rw [reading_set] at h
      split_ifs at h with hk
      · subst hk
        cases h
        refine ⟨⟨a, w, by simp⟩, fun attr v hr => ?_⟩
        dsimp only at hr
        split_ifs at hr with ha
        · cases hr
          rw [ha]
          simp
        · obtain ⟨r', hr', hv⟩ := bind_eq_some_iff.mp hr
          exact mem_append_left _ ((ih hr').2 attr v hv)
      · obtain ⟨⟨attr, v, hmem⟩, hattrs⟩ := ih h
        exact ⟨⟨attr, v, mem_append_left _ hmem⟩,
          fun attr v hr => mem_append_left _ (hattrs attr v hr)⟩

/-! ## Operations -/

inductive Op (K A V : Type) where
  | set (key : K) (attr : A) (v : V)
  | delete (key : K)
  /-- Create the record, if it is missing. -/
  | ensure (key : K)

namespace Op

def effect (t : Records K A V) : Op K A V → Records K A V
  | set key attr v => Change.apply t (.set key attr v)
  | delete key => if (t.lookup key).isSome then Change.apply t (.del key) else t
  | ensure key => if (t.lookup key).isSome then t else t.insert key ∅

def change? (t : Records K A V) : Op K A V → Option (Change K A V)
  | set key attr v => some (.set key attr v)
  | delete key => if (t.lookup key).isSome then some (.del key) else none
  | ensure _ => none

end Op

/-- A store: its records, and its log as a restart reads it. -/
structure Logged (K A V : Type) [DecidableEq K] [DecidableEq A] where
  records : Records K A V
  log : List (Change K A V)

namespace Logged

def Faithful (s : Logged K A V) : Prop := Same (replay s.log) s.records

variable (kept : Change K A V → Option (Change K A V))

def perform (s : Logged K A V) (op : Op K A V) : Logged K A V :=
  ⟨op.effect s.records, s.log ++ ((op.change? s.records).bind kept).toList⟩

def run (s : Logged K A V) (ops : List (Op K A V)) : Logged K A V := ops.foldl (perform kept) s

end Logged

def Loggable (kept : Change K A V → Option (Change K A V)) (t : Records K A V) :
    Op K A V → Prop
  | .set key attr v => kept (.set key attr v) = some (.set key attr v)
  | .delete _ => True
  | .ensure key => (t.lookup key).isSome

structure Keeps (kept : Change K A V → Option (Change K A V)) : Prop where
  stable : ∀ {c c'}, kept c = some c' → kept c' = some c'
  del : ∀ {key attr v}, kept (.set key attr v) = some (.set key attr v) →
    kept (.del key) = some (.del key)

def Stable (kept : Change K A V → Option (Change K A V)) (log : List (Change K A V)) : Prop :=
  ∀ c ∈ log, kept c = some c

variable {kept : Change K A V → Option (Change K A V)} {s : Logged K A V}

theorem Stable.perform (hkept : Keeps kept) (h : Stable kept s.log) (op : Op K A V) :
    Stable kept (s.perform kept op).log := by
  intro c hc
  obtain hc | hc := mem_append.mp hc
  · exact h c hc
  · obtain ⟨c', -, hc'⟩ := bind_eq_some_iff.mp (mem_toList.mp hc)
    exact hkept.stable hc'

theorem reading_isSome {t : Records K A V} {key : K} :
    (reading t key).isSome = (t.lookup key).isSome := by
  rw [reading, isSome_map]

theorem perform_log_of_kept {op : Op K A V} {c : Change K A V}
    (hchange : op.change? s.records = some c) (hkept : kept c = some c) :
    (s.perform kept op).log = s.log ++ [c] := by
  rw [Logged.perform, hchange, bind_some, hkept, toList_some]

theorem perform_log_of_none {op : Op K A V} (hchange : op.change? s.records = none) :
    (s.perform kept op).log = s.log := by
  rw [Logged.perform, hchange, bind_none, toList_none, append_nil]

theorem Logged.Faithful.concat {c : Change K A V} (h : s.Faithful) :
    Same (replay (s.log ++ [c])) (c.apply s.records) := by
  rw [replay_concat]
  exact Same.apply h c

theorem faithful_perform_iff (hkept : Keeps kept) (hstable : Stable kept s.log) (h : s.Faithful)
    (op : Op K A V) : (s.perform kept op).Faithful ↔ Loggable kept s.records op := by
  cases op with
  | set key attr v =>
    constructor
    · intro h'
      have hread := h' key
      rw [show (s.perform kept (.set key attr v)).records =
        Change.apply s.records (.set key attr v) from rfl, reading_set, if_pos rfl] at hread
      exact hstable.perform hkept _ _
        ((mem_of_reading_replay hread).2 attr v (if_pos rfl))
    · intro hkeep
      rw [Logged.Faithful, perform_log_of_kept rfl hkeep]
      exact h.concat
  | delete key =>
    refine iff_of_true ?_ trivial
    by_cases hthere : (s.records.lookup key).isSome
    · -- the record has been logged, so its key is kept
      have hread := hthere
      rw [← reading_isSome, ← h key] at hread
      obtain ⟨r, hr⟩ := isSome_iff_exists.mp hread
      obtain ⟨⟨attr, v, hmem⟩, -⟩ := mem_of_reading_replay hr
      have hchange : Op.change? s.records (.delete key) = some (.del key) := if_pos hthere
      have heffect : Op.effect s.records (.delete key) = Change.apply s.records (.del key) :=
        if_pos hthere
      rw [Logged.Faithful, perform_log_of_kept hchange (hkept.del (hstable _ hmem)),
        Logged.perform, heffect]
      exact h.concat
    · have hchange : Op.change? s.records (.delete key) = none := if_neg hthere
      have heffect : Op.effect s.records (.delete key) = s.records := if_neg hthere
      rw [Logged.Faithful, perform_log_of_none hchange, Logged.perform, heffect]
      exact h
  | ensure key =>
    by_cases hthere : (s.records.lookup key).isSome
    · refine iff_of_true ?_ hthere
      rw [Logged.Faithful, perform_log_of_none rfl]
      rwa [show (s.perform kept (.ensure key)).records = s.records from if_pos hthere]
    · refine iff_of_false (fun h' => ?_) hthere
      have hread := h' key
      rw [perform_log_of_none rfl, h key,
        show (s.perform kept (.ensure key)).records = s.records.insert key ∅ from
          if_neg hthere] at hread
      rw [← reading_isSome, hread, reading, lookup_insert] at hthere
      exact hthere rfl

end RecordLog
