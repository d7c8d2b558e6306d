import GolangCollector.Lib.RecordLog

/-! # A load that is done once, and a start that is repeated

A store is started on its log: unless there is a record of some guarded kind, records are loaded
from a source; then some attributes are put right wherever they need it. Started again on a part of
its own log, the store gets the same records if no guarded record was logged, or if the whole load
was and nothing of it was lost; and conversely whatever the start does not put right itself has to
be in the log. -/

namespace RecordLog

open List

variable {K A V : Type} [DecidableEq K] [DecidableEq A]

/-! ## Values -/

def value (t : Records K A V) (key : K) (attr : A) : Option V := (reading t key).bind (· attr)

def There (t : Records K A V) (key : K) : Prop := (reading t key).isSome

namespace Op

def key : Op K A V → K
  | set key _ _ => key
  | delete key => key
  | ensure key => key

def Adds : Op K A V → Prop
  | delete _ => False
  | _ => True

def logged (kept : Change K A V → Option (Change K A V)) : Op K A V → Option (Change K A V)
  | set key attr v => kept (.set key attr v)
  | _ => none

end Op

variable {t t' : Records K A V} {key : K} {attr : A} {v : V}

theorem same_iff : Same t t' ↔
    (∀ key, There t key ↔ There t' key) ∧ ∀ key attr, value t key attr = value t' key attr := by
  constructor
  · intro h
    exact ⟨fun key => by rw [There, There, h key], fun key attr => by rw [value, value, h key]⟩
  · rintro ⟨hthere, hvalue⟩ key
    have hkey := hthere key
    have hattr := hvalue key
    simp only [There, value] at hkey hattr
    cases hr : reading t key with
    | none =>
      rw [hr] at hkey
      exact (Option.not_isSome_iff_eq_none.mp (mt hkey.mpr (by simp))).symm
    | some r =>
      obtain ⟨r', hr'⟩ := Option.isSome_iff_exists.mp (hkey.mp (by rw [hr]; rfl))
      rw [hr'] at hattr ⊢
      rw [hr] at hattr
      exact congrArg some (funext hattr)

theorem reading_ensure (t : Records K A V) (key k : K) :
    reading (Op.effect t (.ensure key)) k =
      if k = key then some (((reading t key).getD fun _ => none)) else reading t k := by
  rw [Op.effect]
  split_ifs with hthere hk hk
  · obtain ⟨r, hr⟩ := Option.isSome_iff_exists.mp hthere
    rw [hk, reading, hr]
    rfl
  · rfl
  · rw [reading, hk, AList.lookup_insert, reading, Option.not_isSome_iff_eq_none.mp hthere]
    rfl
  · rw [reading, AList.lookup_insert_ne hk, reading]

theorem there_effect {op : Op K A V} (hop : op.Adds) :
    There (op.effect t) key ↔ There t key ∨ op.key = key := by
  cases op with
  | delete k => exact hop.elim
  | set k a w =>
    rw [There, Op.effect, reading_set, Op.key]
    split_ifs with hk
    · exact iff_of_true rfl (.inr hk.symm)
    · exact (or_iff_left (Ne.symm hk)).symm
  | ensure k =>
    rw [There, reading_ensure, Op.key]
    split_ifs with hk
    · exact iff_of_true rfl (.inr hk.symm)
    · exact (or_iff_left (Ne.symm hk)).symm

theorem value_set (t : Records K A V) (k : K) (a : A) (w : V) :
    value (Op.effect t (.set k a w)) key attr =
      if key = k ∧ attr = a then some w else value t key attr := by
  rw [value, Op.effect, reading_set]
  by_cases hk : key = k
  · subst hk
    rw [if_pos rfl]
    by_cases ha : attr = a <;> simp [ha, value]
  · rw [if_neg hk, if_neg fun h => hk h.1, value]

theorem value_effect {op : Op K A V} (hop : op.Adds) (hset : ∀ v, op ≠ .set key attr v) :
    value (op.effect t) key attr = value t key attr := by
  cases op with
  | delete k => exact hop.elim
  | set k a w =>
    rw [value_set, if_neg]
    rintro ⟨rfl, rfl⟩
    exact hset w rfl
  | ensure k =>
    rw [value, reading_ensure]
    split_ifs with hk
    · rw [hk, value]
      cases reading t k <;> rfl
    · rfl

/-! ## Lists of operations -/

section

variable {ops : List (Op K A V)}

section

variable (hops : ∀ op ∈ ops, op.Adds)
include hops

theorem there_foldl (t : Records K A V) :
    There (ops.foldl Op.effect t) key ↔ There t key ∨ ∃ op ∈ ops, op.key = key := by
  induction ops generalizing t with
  | nil => simp
  | cons op ops ih =>
    rw [List.forall_mem_cons] at hops
    rw [List.foldl_cons, ih hops.2, there_effect hops.1, List.exists_mem_cons_iff, or_assoc]

theorem value_foldl_of_notMem (h : ∀ v, Op.set key attr v ∉ ops) (t : Records K A V) :
    value (ops.foldl Op.effect t) key attr = value t key attr := by
  induction ops generalizing t with
  | nil => rfl
  | cons op ops ih =>
    rw [forall_mem_cons] at hops
    rw [foldl_cons, ih hops.2 fun v hv => h v (mem_cons_of_mem op hv),
      value_effect hops.1 fun v hv => h v (by rw [hv]; exact mem_cons_self)]

theorem value_foldl_of_mem (hmem : Op.set key attr v ∈ ops)
    (hv : ∀ v', Op.set key attr v' ∈ ops → v' = v) (t : Records K A V) :
    value (ops.foldl Op.effect t) key attr = some v := by
  -- the last operation
  induction ops using reverseRecOn with
  | nil => cases hmem
  | append_singleton ops op ih =>
    rw [forall_mem_append, forall_mem_singleton] at hops
    rw [foldl_append, foldl_cons, foldl_nil]
    by_cases hop : ∃ w, op = .set key attr w
    · obtain ⟨w, rfl⟩ := hop
      rw [value_set, if_pos ⟨rfl, rfl⟩, hv w (by simp)]
    · rw [value_effect hops.2 fun w hw => hop ⟨w, hw⟩]
      refine ih hops.1 ?_ fun v' hv' => hv v' (mem_append_left _ hv')
      obtain hmem | hmem := mem_append.mp hmem
      · exact hmem
      · exact absurd ⟨v, (mem_singleton.mp hmem).symm⟩ hop

theorem Same.foldl_effect (h : Same t t') :
    Same (ops.foldl Op.effect t) (ops.foldl Op.effect t') := by
  induction ops generalizing t t' with
  | nil => exact h
  | cons op ops ih =>
    rw [forall_mem_cons] at hops
    refine ih hops.2 (same_iff.mpr ⟨fun k => ?_, fun k a => ?_⟩)
    · rw [there_effect hops.1, there_effect hops.1, (same_iff.mp h).1 k]
    · by_cases hset : ∃ v, op = .set k a v
      · obtain ⟨v, rfl⟩ := hset
        rw [value_set, value_set, if_pos ⟨rfl, rfl⟩, if_pos ⟨rfl, rfl⟩]
      · rw [value_effect hops.1 fun v hv => hset ⟨v, hv⟩,
          value_effect hops.1 fun v hv => hset ⟨v, hv⟩, (same_iff.mp h).2 k a]

end

variable {kept : Change K A V → Option (Change K A V)}

theorem Logged.records_run (s : Logged K A V) (ops : List (Op K A V)) :
    (s.run kept ops).records = ops.foldl Op.effect s.records := by
  induction ops generalizing s with
  | nil => rfl
  | cons op ops ih => exact ih (s.perform kept op)

theorem Logged.log_run (s : Logged K A V) (hops : ∀ op ∈ ops, op.Adds) :
    (s.run kept ops).log = s.log ++ ops.filterMap (Op.logged kept) := by
  induction ops generalizing s with
  | nil => exact (append_nil _).symm
  | cons op ops ih =>
    rw [forall_mem_cons] at hops
    have hop : (s.perform kept op).log = s.log ++ (Op.logged kept op).toList := by
      cases op with
      | delete k => exact hops.1.elim
      | set k a w => rfl
      | ensure k => rfl
    rw [Logged.run, foldl_cons, ← Logged.run, ih _ hops.2, hop, append_assoc]
    cases hlogged : Op.logged kept op <;> simp [hlogged]

end

/-! ## Logs of assignments -/

def keeping (enc : V → Bool) : Change K A V → Option (Change K A V)
  | .set key attr v => if enc v then some (.set key attr v) else none
  | .del key => some (.del key)

def Change.op : Change K A V → Op K A V
  | .set key attr v => .set key attr v
  | .del key => .delete key

variable {enc : V → Bool} {c : Change K A V}

omit [DecidableEq K] [DecidableEq A] in
theorem logged_eq_some {op : Op K A V} :
    Op.logged (keeping enc) op = some c ↔
      ∃ key attr v, op = .set key attr v ∧ c = .set key attr v ∧ enc v = true := by
  cases op with
  | set k a w =>
    simp only [Op.logged, keeping]
    split_ifs with hw
    · constructor
      · rintro ⟨rfl⟩
        exact ⟨k, a, w, rfl, rfl, hw⟩
      · rintro ⟨k', a', w', ⟨rfl⟩, rfl, -⟩
        rfl
    · refine iff_of_false (by simp) ?_
      rintro ⟨k', a', w', ⟨rfl⟩, -, hw'⟩
      exact hw hw'
  | delete k | ensure k =>
    exact iff_of_false (by simp [Op.logged]) (by rintro ⟨_, _, _, ⟨⟩, _⟩)

theorem foldl_apply_eq (log : List (Change K A V)) (hlog : ∀ c ∈ log, c.op.Adds)
    (t : Records K A V) : log.foldl Change.apply t = (log.map Change.op).foldl Op.effect t := by
  induction log generalizing t with
  | nil => rfl
  | cons c log ih =>
    rw [forall_mem_cons] at hlog
    rw [foldl_cons, map_cons, foldl_cons, ih hlog.2]
    cases c with
    | set k a w => rfl
    | del k => exact hlog.1.elim

omit [DecidableEq K] [DecidableEq A] in
theorem adds_of_mem_filterMap {ops : List (Op K A V)}
    (h : c ∈ ops.filterMap (Op.logged (keeping enc))) :
    ∃ key attr v, c = .set key attr v ∧ Op.set key attr v ∈ ops ∧ enc v = true := by
  obtain ⟨op, hop, hc⟩ := mem_filterMap.mp h
  obtain ⟨key, attr, v, rfl, rfl, hv⟩ := logged_eq_some.mp hc
  exact ⟨key, attr, v, rfl, hop, hv⟩

theorem there_replay_iff {log : List (Change K A V)} (hlog : ∀ c ∈ log, c.op.Adds) :
    There (replay log) key ↔ ∃ attr v, Change.set key attr v ∈ log := by
  rw [replay, foldl_apply_eq log hlog, there_foldl (by simpa using hlog)]
  constructor
  · rintro (h | ⟨op, hop, rfl⟩)
    · cases h
    · obtain ⟨c, hc, rfl⟩ := mem_map.mp hop
      cases c with
      | set k a w => exact ⟨a, w, hc⟩
      | del k => exact (hlog _ hc).elim
  · rintro ⟨attr, v, hmem⟩
    exact .inr ⟨_, mem_map_of_mem hmem, rfl⟩

/-! ## Putting attributes right -/

structure Fixup (K A V : Type) where
  key : K
  attr : A
  v : V
  needs : Option V → Bool

def Fixup.op? (t : Records K A V) (f : Fixup K A V) : Option (Op K A V) :=
  if f.needs (value t f.key f.attr) then some (.set f.key f.attr f.v) else none

def fixupOps (fs : List (Fixup K A V)) (t : Records K A V) : List (Op K A V) :=
  fs.filterMap (Fixup.op? t)

def fixed (fs : List (Fixup K A V)) (t : Records K A V) : Records K A V :=
  (fixupOps fs t).foldl Op.effect t

def Once (fs : List (Fixup K A V)) : Prop :=
  ∀ f ∈ fs, ∀ g ∈ fs, f.key = g.key → f.attr = g.attr → f = g

section

variable {fs : List (Fixup K A V)} {f : Fixup K A V}

theorem mem_fixupOps {op : Op K A V} : op ∈ fixupOps fs t ↔
    ∃ f ∈ fs, f.needs (value t f.key f.attr) = true ∧ op = .set f.key f.attr f.v := by
  simp only [fixupOps, mem_filterMap, Fixup.op?, Option.ite_none_right_eq_some,
    Option.some.injEq, eq_comm (a := op)]

theorem adds_of_mem_fixupOps {op : Op K A V} (h : op ∈ fixupOps fs t) : op.Adds := by
  obtain ⟨f, -, -, rfl⟩ := mem_fixupOps.mp h
  trivial

theorem there_fixed : There (fixed fs t) key ↔
    There t key ∨ ∃ f ∈ fs, f.needs (value t f.key f.attr) = true ∧ f.key = key := by
  rw [fixed, there_foldl fun op => adds_of_mem_fixupOps]
  refine or_congr_right ⟨?_, ?_⟩
  · rintro ⟨op, hop, rfl⟩
    obtain ⟨f, hf, hneeds, rfl⟩ := mem_fixupOps.mp hop
    exact ⟨f, hf, hneeds, rfl⟩
  · rintro ⟨f, hf, hneeds, rfl⟩
    exact ⟨_, mem_fixupOps.mpr ⟨f, hf, hneeds, rfl⟩, rfl⟩

theorem value_fixed_of_notMem (h : ∀ f ∈ fs, ¬ (f.key = key ∧ f.attr = attr)) :
    value (fixed fs t) key attr = value t key attr := by
  refine value_foldl_of_notMem (fun op => adds_of_mem_fixupOps) (fun v hv => ?_) t
  obtain ⟨f, hf, -, heq⟩ := mem_fixupOps.mp hv
  cases heq
  exact h f hf ⟨rfl, rfl⟩

theorem value_fixed_of_mem (hfs : Once fs) (hf : f ∈ fs) :
    value (fixed fs t) f.key f.attr =
      if f.needs (value t f.key f.attr) then some f.v else value t f.key f.attr := by
  -- another assignment to the attribute is the same one
  have honly : ∀ v, Op.set f.key f.attr v ∈ fixupOps fs t →
      f.needs (value t f.key f.attr) = true ∧ v = f.v := by
    intro v hv
    obtain ⟨g, hg, hneeds, heq⟩ := mem_fixupOps.mp hv
    injection heq with hkey hattr hvalue
    obtain rfl := hfs f hf g hg hkey hattr
    exact ⟨hneeds, hvalue⟩
  split_ifs with hneeds
  · exact value_foldl_of_mem (fun op => adds_of_mem_fixupOps)
      (mem_fixupOps.mpr ⟨f, hf, hneeds, rfl⟩) (fun v hv => (honly v hv).2) t
  · exact value_foldl_of_notMem (fun op => adds_of_mem_fixupOps)
      (fun v hv => hneeds (honly v hv).1) t

theorem Same.fixed (h : Same t t') : Same (RecordLog.fixed fs t) (RecordLog.fixed fs t') := by
  have hops : fixupOps fs t = fixupOps fs t' := by
    refine filterMap_congr fun f _ => ?_
    rw [Fixup.op?, Fixup.op?, (same_iff.mp h).2]
  rw [RecordLog.fixed, RecordLog.fixed, hops]
  exact h.foldl_effect fun op => adds_of_mem_fixupOps

theorem same_fixed_foldl (hfs : Once fs) {ops : List (Op K A V)} (hops : ops ⊆ fixupOps fs t) :
    Same (fixed fs (ops.foldl Op.effect t)) (fixed fs t) := by
  have hadds : ∀ op ∈ ops, op.Adds := fun op hop => adds_of_mem_fixupOps (hops hop)
  -- what has not been done is still to be done
  have hdone : ∀ f ∈ fs, (Op.set f.key f.attr f.v ∈ ops ∧
        f.needs (value t f.key f.attr) = true ∧
        value (ops.foldl Op.effect t) f.key f.attr = some f.v) ∨
      value (ops.foldl Op.effect t) f.key f.attr = value t f.key f.attr := by
    intro f hf
    have honly : ∀ v, Op.set f.key f.attr v ∈ ops →
        f.needs (value t f.key f.attr) = true ∧ v = f.v := by
      intro v hv
      obtain ⟨g, hg, hneeds, heq⟩ := mem_fixupOps.mp (hops hv)
      injection heq with hkey hattr hvalue
      obtain rfl := hfs f hf g hg hkey hattr
      exact ⟨hneeds, hvalue⟩
    by_cases hmem : Op.set f.key f.attr f.v ∈ ops
    · exact .inl ⟨hmem, (honly _ hmem).1,
        value_foldl_of_mem hadds hmem (fun v hv => (honly v hv).2) t⟩
    · refine .inr (value_foldl_of_notMem hadds (fun v hv => hmem ?_) t)
      rw [← (honly v hv).2]
      exact hv
  refine same_iff.mpr ⟨fun k => ?_, fun k a => ?_⟩
  · rw [there_fixed, there_fixed, there_foldl hadds]
    constructor
    · rintro ((h | ⟨op, hop, rfl⟩) | ⟨f, hf, hneeds, rfl⟩)
      · exact .inl h
      · obtain ⟨f, hf, hneeds, rfl⟩ := mem_fixupOps.mp (hops hop)
        exact .inr ⟨f, hf, hneeds, rfl⟩
      · obtain ⟨-, hneeds', -⟩ | hvalue := hdone f hf
        · exact .inr ⟨f, hf, hneeds', rfl⟩
        · rw [hvalue] at hneeds
          exact .inr ⟨f, hf, hneeds, rfl⟩
    · rintro (h | ⟨f, hf, hneeds, rfl⟩)
      · exact .inl (.inl h)
      · obtain ⟨hmem, -, -⟩ | hvalue := hdone f hf
        · exact .inl (.inr ⟨_, hmem, rfl⟩)
        · rw [← hvalue] at hneeds
          exact .inr ⟨f, hf, hneeds, rfl⟩
  · by_cases hf : ∃ f ∈ fs, f.key = k ∧ f.attr = a
    · obtain ⟨f, hf, rfl, rfl⟩ := hf
      rw [value_fixed_of_mem hfs hf, value_fixed_of_mem hfs hf]
      obtain ⟨-, hneeds, hvalue⟩ | hvalue := hdone f hf
      · rw [hvalue, if_pos hneeds, ite_self]
      · rw [hvalue]
    · have hnot : ∀ f ∈ fs, ¬ (f.key = k ∧ f.attr = a) := fun f hf' h => hf ⟨f, hf', h⟩
      rw [value_fixed_of_notMem hnot, value_fixed_of_notMem hnot]
      refine value_foldl_of_notMem hadds (fun v hv => ?_) t
      obtain ⟨g, hg, -, heq⟩ := mem_fixupOps.mp (hops hv)
      cases heq
      exact hnot g hg ⟨rfl, rfl⟩

end

/-! ## The start -/

/-- **What is done at a start.** -/
structure Loader (K A V : Type) where
  /-- The records to load, in order. -/
  source : List (K × List (A × V))
  /-- The records that say that the load was done. -/
  guard : K → Bool
  /-- The attributes that are put right, given the records. -/
  fixups : Records K A V → List (Fixup K A V)

namespace Loader

variable (l : Loader K A V) (enc : V → Bool)

def recordOps (p : K × List (A × V)) : List (Op K A V) :=
  .ensure p.1 :: p.2.map fun q => .set p.1 q.1 q.2

def loadOps : List (Op K A V) := l.source.flatMap recordOps

def loadLog : List (Change K A V) := l.loadOps.filterMap (Op.logged (keeping enc))

def guarded (t : Records K A V) : Bool := t.keys.any l.guard

def start (log : List (Change K A V)) : Logged K A V :=
  let s : Logged K A V := ⟨replay log, log⟩
  let s := if l.guarded s.records then s else s.run (keeping enc) l.loadOps
  s.run (keeping enc) (fixupOps (l.fixups s.records) s.records)

def Loads (key : K) (attr : A) (v : V) : Prop :=
  ∃ attrs, (key, attrs) ∈ l.source ∧ (attr, v) ∈ attrs

def Complete : Prop := ∀ p ∈ l.source, p.2 ≠ [] ∧ ∀ q ∈ p.2, enc q.2 = true

structure Lawful (own : K → A → Prop) (home : K) : Prop where
  source_once : ∀ {key attr v v'}, l.Loads key attr v → l.Loads key attr v' → v = v'
  once : ∀ t, Once (l.fixups t)
  congr : ∀ {t t'}, Same t t' → l.fixups t = l.fixups t'
  stable : ∀ {t ops}, ops ⊆ fixupOps (l.fixups t) t →
    l.fixups (ops.foldl Op.effect t) = l.fixups t
  guard : ∀ {t f}, f ∈ l.fixups t → l.guard f.key = true
  own : ∀ {t f}, f ∈ l.fixups t → own f.key f.attr
  there : ∀ {t f}, f ∈ l.fixups t → f.key = home ∨ There t f.key

variable {l enc}

omit [DecidableEq K] [DecidableEq A] in
theorem mem_loadOps {op : Op K A V} : op ∈ l.loadOps ↔
    (∃ p ∈ l.source, op = .ensure p.1) ∨
      ∃ key attr v, l.Loads key attr v ∧ op = .set key attr v := by
  simp only [loadOps, mem_flatMap, recordOps, mem_cons, mem_map]
  constructor
  · rintro ⟨⟨key, attrs⟩, hp, rfl | ⟨⟨attr, v⟩, hq, rfl⟩⟩
    · exact .inl ⟨_, hp, rfl⟩
    · exact .inr ⟨key, attr, v, ⟨attrs, hp, hq⟩, rfl⟩
  · rintro (⟨p, hp, rfl⟩ | ⟨key, attr, v, ⟨attrs, hp, hq⟩, rfl⟩)
    · exact ⟨p, hp, .inl rfl⟩
    · exact ⟨_, hp, .inr ⟨_, hq, rfl⟩⟩

omit [DecidableEq K] [DecidableEq A] in
theorem set_mem_loadOps : Op.set key attr v ∈ l.loadOps ↔ l.Loads key attr v := by
  rw [mem_loadOps]
  constructor
  · rintro (⟨p, -, ⟨⟩⟩ | ⟨key', attr', v', h, ⟨rfl⟩⟩)
    exact h
  · exact fun h => .inr ⟨key, attr, v, h, rfl⟩

omit [DecidableEq K] [DecidableEq A] in
theorem adds_of_mem_loadOps {op : Op K A V} (h : op ∈ l.loadOps) : op.Adds := by
  obtain ⟨p, -, rfl⟩ | ⟨key, attr, v, -, rfl⟩ := mem_loadOps.mp h <;> trivial

omit [DecidableEq K] [DecidableEq A] in
theorem mem_loadLog : c ∈ l.loadLog enc ↔
    ∃ key attr v, l.Loads key attr v ∧ enc v = true ∧ c = .set key attr v := by
  rw [loadLog, mem_filterMap]
  constructor
  · rintro ⟨op, hop, hc⟩
    obtain ⟨key, attr, v, rfl, rfl, hv⟩ := logged_eq_some.mp hc
    exact ⟨key, attr, v, set_mem_loadOps.mp hop, hv, rfl⟩
  · rintro ⟨key, attr, v, h, hv, rfl⟩
    exact ⟨_, set_mem_loadOps.mpr h, logged_eq_some.mpr ⟨key, attr, v, rfl, rfl, hv⟩⟩

theorem guarded_iff {t : Records K A V} : l.guarded t = true ↔
    ∃ key, There t key ∧ l.guard key = true := by
  simp only [guarded, List.any_eq_true, There, reading_isSome, AList.lookup_isSome,
    AList.mem_keys]

theorem records_start (log : List (Change K A V)) :
    (l.start enc log).records =
      let t := if l.guarded (replay log) then replay log
        else l.loadOps.foldl Op.effect (replay log)
      fixed (l.fixups t) t := by
  rw [start, Logged.records_run]
  split_ifs with h
  · rfl
  · simp only [Logged.records_run]
    rfl

def loaded (l : Loader K A V) : Records K A V := l.loadOps.foldl Op.effect ∅

def fixLog (l : Loader K A V) (enc : V → Bool) : List (Change K A V) :=
  (fixupOps (l.fixups l.loaded) l.loaded).filterMap (Op.logged (keeping enc))

theorem not_guarded_empty : l.guarded (replay ([] : List (Change K A V))) = false := rfl

theorem records_start_nil : (l.start enc []).records = fixed (l.fixups l.loaded) l.loaded := by
  rw [records_start, if_neg (by rw [not_guarded_empty]; exact Bool.false_ne_true)]
  rfl

theorem log_start_nil : (l.start enc []).log = l.loadLog enc ++ l.fixLog enc := by
  rw [start, Logged.log_run _ fun op => adds_of_mem_fixupOps]
  dsimp only
  rw [if_neg (by rw [not_guarded_empty]; exact Bool.false_ne_true),
    Logged.log_run _ fun op => adds_of_mem_loadOps, Logged.records_run]
  rfl

def stopped (l : Loader K A V) (enc : V → Bool) (n : ℕ) : List (Change K A V) :=
  (l.start enc []).log.take n

section

variable {own : K → A → Prop} {home : K} (hl : l.Lawful own home) {n : ℕ}
include hl

theorem Lawful.mem_stopped (hc : c ∈ l.stopped enc n) :
    ∃ key attr v, c = .set key attr v ∧ (l.Loads key attr v ∨ l.guard key = true) := by
  have hc := mem_of_mem_take hc
  rw [log_start_nil] at hc
  obtain hc | hc := mem_append.mp hc
  · obtain ⟨key, attr, v, hload, -, rfl⟩ := mem_loadLog.mp hc
    exact ⟨key, attr, v, rfl, .inl hload⟩
  · obtain ⟨key, attr, v, rfl, hop, -⟩ := adds_of_mem_filterMap hc
    obtain ⟨f, hf, -, heq⟩ := mem_fixupOps.mp hop
    cases heq
    exact ⟨_, _, _, rfl, .inr (hl.guard hf)⟩

theorem Lawful.adds_of_mem_stopped (hc : c ∈ l.stopped enc n) : c.op.Adds := by
  obtain ⟨key, attr, v, rfl, -⟩ := hl.mem_stopped hc
  trivial

theorem Lawful.guarded_stopped_iff : l.guarded (replay (l.stopped enc n)) = true ↔
    ∃ key attr v, Change.set key attr v ∈ l.stopped enc n ∧ l.guard key = true := by
  rw [guarded_iff]
  constructor
  · rintro ⟨key, hthere, hguard⟩
    obtain ⟨attr, v, hmem⟩ := (there_replay_iff fun c => hl.adds_of_mem_stopped).mp hthere
    exact ⟨key, attr, v, hmem, hguard⟩
  · rintro ⟨key, attr, v, hmem, hguard⟩
    exact ⟨key, (there_replay_iff fun c => hl.adds_of_mem_stopped).mpr ⟨attr, v, hmem⟩, hguard⟩

theorem Lawful.same_loaded (hguard : l.guarded (replay (l.stopped enc n)) = false) :
    Same (l.loadOps.foldl Op.effect (replay (l.stopped enc n))) l.loaded := by
  have hloads : ∀ key attr v, Change.set key attr v ∈ l.stopped enc n → l.Loads key attr v := by
    intro key attr v hmem
    obtain ⟨_, _, _, ⟨rfl⟩, h | h⟩ := hl.mem_stopped hmem
    · exact h
    · rw [← Bool.not_eq_true, hl.guarded_stopped_iff] at hguard
      exact absurd ⟨key, attr, v, hmem, h⟩ hguard
  have hadds : ∀ op ∈ l.loadOps, op.Adds := fun op => adds_of_mem_loadOps
  refine same_iff.mpr ⟨fun key => ?_, fun key attr => ?_⟩
  · rw [loaded, there_foldl hadds, there_foldl hadds]
    constructor
    · rintro (hthere | h)
      · obtain ⟨attr, v, hmem⟩ := (there_replay_iff fun c => hl.adds_of_mem_stopped).mp hthere
        exact .inr ⟨_, set_mem_loadOps.mpr (hloads key attr v hmem), rfl⟩
      · exact .inr h
    · rintro (hthere | h)
      · cases hthere
      · exact .inr h
  · by_cases hmem : ∃ v, l.Loads key attr v
    · obtain ⟨v, hv⟩ := hmem
      have honly : ∀ v', Op.set key attr v' ∈ l.loadOps → v' = v :=
        fun v' hv' => hl.source_once (set_mem_loadOps.mp hv') hv
      rw [loaded, value_foldl_of_mem hadds (set_mem_loadOps.mpr hv) honly,
        value_foldl_of_mem hadds (set_mem_loadOps.mpr hv) honly]
    · have hnone : ∀ v, Op.set key attr v ∉ l.loadOps :=
        fun v hv => hmem ⟨v, set_mem_loadOps.mp hv⟩
      rw [loaded, value_foldl_of_notMem hadds hnone, value_foldl_of_notMem hadds hnone]
      -- nothing was logged for the attribute either
      rw [value, Option.bind_eq_none_iff.mpr]
      · rfl
      · intro r hr
        rw [Option.eq_none_iff_forall_ne_some]
        intro v hv
        exact hmem ⟨v, hloads key attr v ((mem_of_reading_replay hr).2 attr v hv)⟩

theorem Lawful.same_replay_loadLog (hcomplete : l.Complete enc) :
    Same (replay (l.loadLog enc)) l.loaded := by
  have hmem : ∀ {key attr v}, l.Loads key attr v ↔ Change.set key attr v ∈ l.loadLog enc := by
    intro key attr v
    rw [mem_loadLog]
    constructor
    · rintro ⟨attrs, hp, hq⟩
      exact ⟨key, attr, v, ⟨attrs, hp, hq⟩, (hcomplete _ hp).2 _ hq, rfl⟩
    · rintro ⟨_, _, _, h, -, ⟨rfl⟩⟩
      exact h
  have hadds : ∀ c ∈ l.loadLog enc, c.op.Adds := by
    intro c hc
    obtain ⟨key, attr, v, -, -, rfl⟩ := mem_loadLog.mp hc
    trivial
  have hops : ∀ key attr v, Op.set key attr v ∈ (l.loadLog enc).map Change.op ↔
      l.Loads key attr v := by
    intro key attr v
    rw [hmem, mem_map]
    constructor
    · rintro ⟨c, hc, hop⟩
      cases c with
      | set k a w => cases hop; exact hc
      | del k => cases hop
    · exact fun h => ⟨_, h, rfl⟩
  refine same_iff.mpr ⟨fun key => ?_, fun key attr => ?_⟩
  · rw [there_replay_iff hadds, loaded, there_foldl fun op => adds_of_mem_loadOps]
    constructor
    · rintro ⟨attr, v, h⟩
      exact .inr ⟨_, set_mem_loadOps.mpr (hmem.mpr h), rfl⟩
    · rintro (h | ⟨op, hop, rfl⟩)
      · cases h
      · obtain ⟨⟨key, attrs⟩, hp, rfl⟩ | ⟨key, attr, v, h, rfl⟩ := mem_loadOps.mp hop
        · obtain ⟨⟨attr, v⟩, hq⟩ := exists_mem_of_ne_nil attrs (hcomplete _ hp).1
          exact ⟨attr, v, hmem.mp ⟨attrs, hp, hq⟩⟩
        · exact ⟨attr, v, hmem.mp h⟩
  · rw [replay, foldl_apply_eq _ hadds, loaded]
    by_cases h : ∃ v, l.Loads key attr v
    · obtain ⟨v, hv⟩ := h
      rw [value_foldl_of_mem (by simpa using hadds) ((hops key attr v).mpr hv)
          fun v' hv' => hl.source_once ((hops key attr v').mp hv') hv,
        value_foldl_of_mem (fun op => adds_of_mem_loadOps) (set_mem_loadOps.mpr hv)
          fun v' hv' => hl.source_once (set_mem_loadOps.mp hv') hv]
    · rw [value_foldl_of_notMem (by simpa using hadds)
          fun v hv => h ⟨v, (hops key attr v).mp hv⟩,
        value_foldl_of_notMem (fun op => adds_of_mem_loadOps)
          fun v hv => h ⟨v, set_mem_loadOps.mp hv⟩]

theorem Lawful.same_fixed_replay {part : List (Change K A V)} (hpart : part ⊆ l.fixLog enc)
    (hload : Same (replay (l.loadLog enc)) l.loaded) :
    let t := replay (l.loadLog enc ++ part)
    Same (fixed (l.fixups t) t) (fixed (l.fixups l.loaded) l.loaded) := by
  intro t
  have hadds : ∀ c ∈ part, c.op.Adds := by
    intro c hc
    obtain ⟨key, attr, v, rfl, -⟩ := adds_of_mem_filterMap (hpart hc)
    trivial
  have hops : part.map Change.op ⊆ fixupOps (l.fixups l.loaded) l.loaded := by
    intro op hop
    obtain ⟨c, hc, rfl⟩ := mem_map.mp hop
    obtain ⟨key, attr, v, rfl, hmem, -⟩ := adds_of_mem_filterMap (hpart hc)
    exact hmem
  have ht : Same t ((part.map Change.op).foldl Op.effect l.loaded) := by
    rw [show t = (part.map Change.op).foldl Op.effect (replay (l.loadLog enc)) by
      rw [← foldl_apply_eq part hadds, replay, ← foldl_append]; rfl]
    exact hload.foldl_effect fun op hop => adds_of_mem_fixupOps (hops hop)
  rw [hl.congr ht, hl.stable hops]
  exact ht.fixed.trans (same_fixed_foldl (hl.once _) hops)

theorem Lawful.same_start (hn : (∀ key attr v, Change.set key attr v ∈ l.stopped enc n →
      l.guard key = false) ∨ (l.Complete enc ∧ (l.loadLog enc).length ≤ n)) :
    Same (l.start enc (l.stopped enc n)).records (l.start enc []).records := by
  rw [records_start_nil, records_start]
  cases hguard : l.guarded (replay (l.stopped enc n)) with
  | false =>
    rw [if_neg Bool.false_ne_true]
    have hsame := hl.same_loaded hguard
    dsimp only
    rw [hl.congr hsame]
    exact hsame.fixed
  | true =>
    obtain hnone | ⟨hcomplete, hlength⟩ := hn
    · obtain ⟨key, attr, v, hmem, hkey⟩ := hl.guarded_stopped_iff.mp hguard
      exact absurd (hnone key attr v hmem) (by simp [hkey])
    · rw [if_pos rfl, stopped, log_start_nil, take_append,
        take_of_length_le hlength]
      exact hl.same_fixed_replay (take_subset _ _) (hl.same_replay_loadLog hcomplete)

theorem Lawful.mem_stopped_of_guarded
    (hguard : ∃ key attr v, Change.set key attr v ∈ l.stopped enc n ∧ l.guard key = true) :
    (∀ key, There (l.start enc (l.stopped enc n)).records key →
      key = home ∨ ∃ attr v, Change.set key attr v ∈ l.stopped enc n) ∧
    ∀ key attr v, l.Loads key attr v → ¬ own key attr →
      value (l.start enc (l.stopped enc n)).records key attr =
        value (l.start enc []).records key attr →
      Change.set key attr v ∈ l.stopped enc n := by
  rw [records_start_nil, records_start, if_pos (hl.guarded_stopped_iff.mpr hguard)]
  dsimp only
  have hreplay : ∀ key, There (replay (l.stopped enc n)) key ↔
      ∃ attr v, Change.set key attr v ∈ l.stopped enc n :=
    fun key => there_replay_iff fun c => hl.adds_of_mem_stopped
  constructor
  · intro key hthere
    obtain hthere | ⟨f, hf, -, rfl⟩ := there_fixed.mp hthere
    · exact .inr ((hreplay key).mp hthere)
    · exact (hl.there hf).imp_right (hreplay f.key).mp
  · intro key attr v hload hown hvalue
    have hnot : ∀ t, ∀ f ∈ l.fixups t, ¬ (f.key = key ∧ f.attr = attr) := by
      rintro t f hf ⟨rfl, rfl⟩
      exact hown (hl.own hf)
    have hloaded : value l.loaded key attr = some v :=
      value_foldl_of_mem (fun op => adds_of_mem_loadOps) (set_mem_loadOps.mpr hload)
        (fun v' hv' => hl.source_once (set_mem_loadOps.mp hv') hload) ∅
    rw [value_fixed_of_notMem (hnot _), value_fixed_of_notMem (hnot _), hloaded] at hvalue
    obtain ⟨r, hr, hv⟩ := Option.bind_eq_some_iff.mp hvalue
    exact (mem_of_reading_replay hr).2 attr v hv

end

end Loader

end RecordLog
