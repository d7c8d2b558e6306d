import GolangCollector.Lib.GoMap
import GolangCollector.Store.TextKey

/-! # The write buffer and its flush

`BufferedBackend` (`store/batch.go`) collects updates in a buffer, one per ad, and writes them to
the backend it wraps as one batch. This file models the buffer (`Buffer`, whose entries are stored
under the key they are for) and `flush` with all its failure paths:

* the whole batch is applied, or fails;
* where the context has ended, the batch goes back into the buffer unless a newer update arrived;
* otherwise every update is applied on its own: an update that fails is logged and dropped, and
  where the context has ended by then the rest of the batch goes back.

How the backend calls go and when the context ends is the argument `Outcomes`; the updates that
other goroutines put into the buffer meanwhile are the argument `during`. The result records every
backend call with the error it returned. -/

namespace GolangCollector

open GoStrings List

/-! ## Updates and their keys -/

structure PendingUpdate where
  /-- The ad's table. -/
  type : AdType
  /-- The wire text, of the public ad where `pvt` holds. -/
  text : Text
  /-- The private ad's text, where `pvt` holds. -/
  pvtText : Text
  /-- Whether this is a private update. -/
  pvt : Bool
  deriving DecidableEq, Repr

structure DedupKey where
  /-- The table. -/
  t : AdType
  /-- The key in the table. -/
  key : Text
  deriving DecidableEq, Repr

def PendingUpdate.dedupKey (p : PendingUpdate) : Option DedupKey :=
  if p.pvt then (hashKeyFromText .startdAd p.text).map fun k => ⟨.startdPvtAd, k⟩
  else (hashKeyFromText p.type p.text).map fun k => ⟨p.type, k⟩

structure Entry where
  /-- The key. -/
  key : DedupKey
  /-- The update. -/
  update : PendingUpdate
  /-- The update is for that key. -/
  keyed : update.dedupKey = some key
  deriving DecidableEq

/-! ## The buffer -/

/-- **The buffer**: at most one update per ad. -/
structure Buffer where
  /-- The updates by key. -/
  entries : GoMap DedupKey PendingUpdate
  /-- An update is stored under its own key. -/
  keyed : ∀ k p, entries.lookup k = some p → p.dedupKey = some k

namespace Buffer

def empty : Buffer := ⟨∅, fun _ _ h => by simp at h⟩

def lookup (b : Buffer) (k : DedupKey) : Option PendingUpdate := b.entries.lookup k

def put (b : Buffer) (e : Entry) : Buffer where
  entries := b.entries.insert e.key e.update
  keyed := by
    intro k p h
    by_cases hk : k = e.key
    · rw [hk, AList.lookup_insert, Option.some.injEq] at h
      rw [← h, hk]
      exact e.keyed
    · rw [AList.lookup_insert_ne hk] at h
      exact b.keyed k p h

def putBack (b : Buffer) (es : List Entry) : Buffer where
  entries := b.entries.putBack (es.map fun e => (e.key, e.update))
  keyed := by
    intro k p h
    rw [GoMap.lookup_putBack, Option.or_eq_some_iff, Option.map_eq_some_iff] at h
    rcases h with h | ⟨-, ⟨k', p'⟩, hfind, rfl⟩
    · exact b.keyed k p h
    · obtain rfl : k = k' := by simpa using List.find?_some hfind
      obtain ⟨e, -, heq⟩ := List.mem_map.mp (List.mem_of_find?_eq_some hfind)
      cases heq
      exact e.keyed

def putAll (b : Buffer) (es : List Entry) : Buffer := es.foldl put b

def drain (b : Buffer) : List Entry :=
  b.entries.entries.pmap (fun e he => ⟨e.1, e.2, b.keyed e.1 e.2 (AList.mem_lookup_iff.mpr he)⟩)
    fun _ he => he

@[simp] theorem lookup_empty (k : DedupKey) : empty.lookup k = none := rfl

theorem lookup_put (b : Buffer) (e : Entry) (k : DedupKey) :
    (b.put e).lookup k = if k = e.key then some e.update else b.lookup k := by
  rw [lookup, put]
  split
  · rename_i hk
    rw [hk, AList.lookup_insert]
  · rename_i hk
    rw [AList.lookup_insert_ne hk]
    rfl

theorem lookup_putBack (b : Buffer) (es : List Entry) (k : DedupKey) :
    (b.putBack es).lookup k =
      (b.lookup k).or ((es.find? fun e => k = e.key).map Entry.update) := by
  rw [lookup, putBack, GoMap.lookup_putBack, List.find?_map, Option.map_map]
  rfl

theorem mem_drain_iff {b : Buffer} {e : Entry} : e ∈ b.drain ↔ b.lookup e.key = some e.update := by
  rw [drain, mem_pmap, lookup, ← Option.mem_def, AList.mem_lookup_iff]
  constructor
  · rintro ⟨⟨k, p⟩, hmem, rfl⟩
    exact hmem
  · intro hmem
    exact ⟨⟨e.key, e.update⟩, hmem, rfl⟩

theorem nodup_drain (b : Buffer) : (b.drain.map Entry.key).Nodup := by
  rw [drain, List.map_pmap]
  have hkeys := b.entries.keys_nodup
  rw [AList.keys, List.keys] at hkeys
  rw [List.pmap_eq_map]
  exact hkeys

theorem lookup_of_drain_eq_nil {b : Buffer} (h : b.drain = []) (k : DedupKey) :
    b.lookup k = none := by
  cases hk : b.lookup k with
  | none => rfl
  | some p =>
    have hmem : (⟨k, p, b.keyed k p hk⟩ : Entry) ∈ b.drain := mem_drain_iff.mpr hk
    rw [h] at hmem
    cases hmem

end Buffer

theorem Entry.update_injective : Function.Injective Entry.update := by
  intro e e' h
  have hkey : e.key = e'.key :=
    Option.some.inj (e.keyed.symm.trans ((congrArg PendingUpdate.dedupKey h).trans e'.keyed))
  cases e
  cases e'
  simp_all

/-! ## The flush -/

structure Outcomes where
  /-- The error of the call on the whole batch. -/
  whole : Option Text
  /-- Whether the context has ended after that call. -/
  wholeEnded : Bool
  /-- The error of the call on update `i` alone. -/
  single : ℕ → Option Text
  /-- Whether the context has ended after that call. -/
  singleEnded : ℕ → Bool

inductive LogEntry where
  /-- `collector: rejected ad update ... (dropping just this one, keeping the rest)`. -/
  | rejected (update : PendingUpdate) (err : Text)
  /-- `collector: dropped %d of %d buffered ad update(s); the rest were applied`. -/
  | dropped (failed total : ℕ)
  deriving DecidableEq, Repr

structure BatchCall where
  /-- The updates it was given. -/
  updates : List PendingUpdate
  /-- The error it returned. -/
  err : Option Text
  deriving DecidableEq, Repr

structure FlushResult where
  /-- The buffer afterwards. -/
  buf : Buffer
  /-- The error returned. -/
  err : Option Text
  /-- The backend calls, in order. -/
  calls : List BatchCall
  /-- The log. -/
  logs : List LogEntry

def FlushResult.applied (r : FlushResult) : List PendingUpdate :=
  (r.calls.filter fun c => c.err.isNone).flatMap BatchCall.updates

def FlushResult.reported (r : FlushResult) : List PendingUpdate :=
  r.logs.filterMap fun
    | .rejected update _ => some update
    | .dropped _ _ => none

def Outcomes.answer (out : Outcomes) (batch : List Entry) : ℕ → Option BatchCall
  | 0 => some ⟨batch.map Entry.update, out.whole⟩
  | i + 1 => batch[i]?.map fun e => ⟨[e.update], out.single i⟩

def isolate (out : Outcomes) (buf : Buffer) (total : ℕ) : ℕ → ℕ → List Entry → FlushResult
  | _, failed, [] =>
    ⟨buf, none, [], if failed > 0 then [.dropped failed total] else []⟩
  | i, failed, e :: es =>
    match out.single i with
    | none =>
      let r := isolate out buf total (i + 1) failed es
      { r with calls := ⟨[e.update], none⟩ :: r.calls }
    | some err =>
      -- the context ended: this update and the rest go back, and no summary is logged
      if out.singleEnded i then ⟨buf.putBack (e :: es), some err, [⟨[e.update], some err⟩], []⟩
      else
        let r := isolate out buf total (i + 1) (failed + 1) es
        { r with
          calls := ⟨[e.update], some err⟩ :: r.calls
          logs := .rejected e.update err :: r.logs }

def flush (out : Outcomes) (during : List Entry) (buf : Buffer) : FlushResult :=
  match buf.drain with
  | [] => ⟨buf.putAll during, none, [], []⟩
  | e :: es =>
    -- the buffer is swapped out under the lock, so what arrives goes into an empty one
    let arrived := Buffer.empty.putAll during
    let batch := (e :: es).map Entry.update
    match out.whole with
    | none => ⟨arrived, none, [⟨batch, none⟩], []⟩
    | some err =>
      if out.wholeEnded then ⟨arrived.putBack (e :: es), some err, [⟨batch, some err⟩], []⟩
      else
        let r := isolate out arrived (e :: es).length 0 0 (e :: es)
        { r with calls := ⟨batch, some err⟩ :: r.calls }

/-! ## What becomes of a batch -/

structure Settles (arrived : Buffer) (batch : List Entry) (failed total : ℕ) (r : FlushResult)
    (good bad rest : List Entry) : Prop where
  perm : batch.Perm (good ++ bad ++ rest)
  applied : r.applied = good.map Entry.update
  reported : r.reported = bad.map Entry.update
  buf : r.buf = arrived.putBack rest
  err : r.err = none → rest = []
  summary : ∀ n m, LogEntry.dropped n m ∈ r.logs → n = failed + bad.length ∧ m = total
  rejected : ∀ p err, LogEntry.rejected p err ∈ r.logs → ⟨[p], some err⟩ ∈ r.calls

theorem exists_settles_isolate (out : Outcomes) (arrived : Buffer) (total i failed : ℕ)
    (batch : List Entry) :
    ∃ good bad rest, Settles arrived batch failed total (isolate out arrived total i failed batch)
      good bad rest := by
  -- along the loop; `failed` counts the updates reported before update `i`
  induction batch generalizing i failed with
  | nil =>
    refine ⟨[], [], [], Perm.nil, rfl, ?_, rfl, fun _ => rfl, fun n m h => ?_, fun p err h => ?_⟩
    · rw [isolate, FlushResult.reported]
      split <;> rfl
    · simp only [isolate] at h
      split at h
      · simpa using h
      · cases h
    · simp only [isolate] at h
      split at h <;> simp at h
  | cons e es ih =>
    rw [isolate]
    cases out.single i with
    | none =>
      obtain ⟨good, bad, rest, h⟩ := ih (i + 1) failed
      refine ⟨e :: good, bad, rest, h.perm.cons e, ?_, h.reported, h.buf, h.err, h.summary,
        fun p err hmem => mem_cons_of_mem _ (h.rejected p err hmem)⟩
      rw [map_cons, ← h.applied]
      rfl
    | some err =>
      by_cases hended : out.singleEnded i
      · simp only [hended, if_true]
        exact ⟨[], [], e :: es, Perm.refl _, rfl, rfl, rfl, fun h => by simp at h,
          fun n m h => by simp at h, fun p err h => by simp at h⟩
      · simp only [hended, Bool.false_eq_true, if_false]
        obtain ⟨good, bad, rest, h⟩ := ih (i + 1) (failed + 1)
        refine ⟨good, e :: bad, rest, ?_, h.applied, ?_, h.buf, h.err, ?_, ?_⟩
        · -- the reported update moves in front of the good ones
          refine (h.perm.cons e).trans ?_
          rw [append_assoc, append_assoc, cons_append]
          exact perm_middle.symm
        · have hcons := h.reported
          simp only [FlushResult.reported, filterMap_cons] at hcons ⊢
          rw [hcons, map_cons]
        · intro n m hmem
          have hsum := h.summary n m (by simpa using hmem)
          refine ⟨?_, hsum.2⟩
          rw [hsum.1, length_cons]
          omega
        · intro p err' hmem
          rcases mem_cons.mp hmem with heq | hmem
          · cases heq
            exact mem_cons_self
          · exact mem_cons_of_mem _ (h.rejected p err' hmem)

theorem calls_isolate (out : Outcomes) (arrived : Buffer) (total i failed : ℕ)
    (batch : List Entry) {j : ℕ} {call : BatchCall}
    (h : (isolate out arrived total i failed batch).calls[j]? = some call) :
    (batch[j]?.map fun e => ⟨[e.update], out.single (i + j)⟩) = some call := by
  induction batch generalizing i failed j with
  | nil => simp [isolate] at h
  | cons e es ih =>
    rw [isolate] at h
    cases hsingle : out.single i with
    | none =>
      rw [hsingle] at h
      cases j with
      | zero => simpa [hsingle] using h
      | succ j =>
        rw [← Nat.add_assoc, Nat.add_right_comm]
        exact ih (i + 1) failed h
    | some err =>
      rw [hsingle] at h
      by_cases hended : out.singleEnded i
      · simp only [hended, if_true] at h
        cases j with
        | zero => simpa [hsingle] using h
        | succ j => simp at h
      · simp only [hended, Bool.false_eq_true, if_false] at h
        cases j with
        | zero => simpa [hsingle] using h
        | succ j =>
          rw [← Nat.add_assoc, Nat.add_right_comm]
          exact ih (i + 1) (failed + 1) h

theorem calls_flush (out : Outcomes) (during : List Entry) (buf : Buffer) {i : ℕ}
    {call : BatchCall} (h : (flush out during buf).calls[i]? = some call) :
    out.answer buf.drain i = some call := by
  rw [flush] at h
  cases hdrain : buf.drain with
  | nil => simp [hdrain] at h
  | cons e es =>
    rw [hdrain] at h
    cases hwhole : out.whole with
    | none => cases i <;> simp_all [Outcomes.answer]
    | some err =>
      by_cases hended : out.wholeEnded
      · cases i <;> simp_all [Outcomes.answer]
      · simp only [hwhole, hended, Bool.false_eq_true, if_false] at h
        cases i with
        | zero => simpa [Outcomes.answer, hwhole] using h
        | succ i => simpa [Outcomes.answer] using calls_isolate out _ _ 0 0 _ (by simpa using h)

theorem exists_settles_flush (out : Outcomes) (during : List Entry) {buf : Buffer}
    (h : buf.drain ≠ []) :
    ∃ good bad rest, Settles (Buffer.empty.putAll during) buf.drain 0 buf.drain.length
      (flush out during buf) good bad rest := by
  rw [flush]
  cases hdrain : buf.drain with
  | nil => exact absurd hdrain h
  | cons e es =>
    cases out.whole with
    | none =>
      exact ⟨e :: es, [], [], by simp, append_nil _, rfl, rfl, fun _ => rfl,
        fun n m hmem => (by cases hmem), fun p err hmem => by cases hmem⟩
    | some err =>
      by_cases hended : out.wholeEnded
      · simp only [hended, if_true]
        exact ⟨[], [], e :: es, Perm.refl _, rfl, rfl, rfl, fun h => by simp at h,
          fun n m hmem => (by cases hmem), fun p err hmem => by cases hmem⟩
      · simp only [hended, Bool.false_eq_true, if_false]
        obtain ⟨good, bad, rest, h⟩ :=
          exists_settles_isolate out (Buffer.empty.putAll during) (e :: es).length 0 0 (e :: es)
        -- the failed call on the whole batch applied nothing
        exact ⟨good, bad, rest, h.perm, h.applied, h.reported, h.buf, h.err, h.summary,
          fun p err hmem => mem_cons_of_mem _ (h.rejected p err hmem)⟩

inductive Fate where
  | applied
  | requeued
  | superseded
  | dropped
  deriving DecidableEq, Repr

def Fate.Holds (arrived : Buffer) (r : FlushResult) (e : Entry) : Fate → Prop
  | applied => e.update ∈ r.applied
  | requeued => arrived.lookup e.key = none ∧ r.buf.lookup e.key = some e.update
  | superseded => e.update ∉ r.applied ∧ e.update ∉ r.reported ∧
      ∃ newer, arrived.lookup e.key = some newer ∧ r.buf.lookup e.key = some newer
  | dropped => e.update ∈ r.reported

structure FlushAccounts (out : Outcomes) (before : Buffer) (during : List Entry)
    (r : FlushResult) : Prop where
  /-- Every recorded call is one the backend answered, first the whole batch, then one update each. -/
  calls : ∀ i call, r.calls[i]? = some call → out.answer before.drain i = some call
  /-- An update is reported as dropped only with the error of the call on it alone. -/
  rejected : ∀ p err, LogEntry.rejected p err ∈ r.logs → ⟨[p], some err⟩ ∈ r.calls
  /-- Every drained update has exactly one fate. -/
  fate : ∀ e ∈ before.drain, ∃! f : Fate, f.Holds (Buffer.empty.putAll during) r e
  /-- An update that arrived meanwhile is not replaced. -/
  newer : ∀ k p, (Buffer.empty.putAll during).lookup k = some p → r.buf.lookup k = some p
  /-- Only what was drained or arrived meanwhile is in the buffer. -/
  buffered : ∀ k p, r.buf.lookup k = some p →
    (Buffer.empty.putAll during).lookup k = some p ∨ before.lookup k = some p
  /-- Only drained updates are applied or reported. -/
  drained : ∀ p, p ∈ r.applied ∨ p ∈ r.reported → ∃ k, before.lookup k = some p
  /-- The summary states how many updates were reported, of how many drained. -/
  summary : ∀ n m, LogEntry.dropped n m ∈ r.logs → n = r.reported.length ∧ m = before.drain.length
  /-- A flush that returns no error put nothing back. -/
  success : r.err = none → ∀ k, r.buf.lookup k = (Buffer.empty.putAll during).lookup k

namespace Settles

variable {arrived : Buffer} {batch good bad rest : List Entry} {failed total : ℕ} {r : FlushResult}
  (h : Settles arrived batch failed total r good bad rest)

include h

theorem mem_applied_iff (e : Entry) : e.update ∈ r.applied ↔ e ∈ good := by
  rw [h.applied, mem_map_of_injective Entry.update_injective]

theorem mem_reported_iff (e : Entry) : e.update ∈ r.reported ↔ e ∈ bad := by
  rw [h.reported, mem_map_of_injective Entry.update_injective]

theorem lookup_buf (hkeys : (batch.map Entry.key).Nodup) {e : Entry} (he : e ∈ batch) :
    r.buf.lookup e.key =
      (arrived.lookup e.key).or (if e ∈ rest then some e.update else none) := by
  have hsub : ∀ e' ∈ rest, e' ∈ batch := fun e' he' =>
    h.perm.mem_iff.mpr (mem_append_right _ he')
  -- so the put-back loop finds `e` under its key, or nothing
  have hsame : ∀ e' ∈ rest, e.key = e'.key → e' = e := fun e' he' hkey =>
    inj_on_of_nodup_map hkeys (hsub e' he') he hkey.symm
  rw [h.buf, Buffer.lookup_putBack]
  congr 1
  by_cases hrest : e ∈ rest
  · rw [if_pos hrest]
    obtain ⟨e', hfind⟩ := Option.isSome_iff_exists.mp
      (find?_isSome.mpr ⟨e, hrest, decide_eq_true rfl⟩ :
        (rest.find? fun e' => decide (e.key = e'.key)).isSome)
    have hkey : e.key = e'.key := by simpa using find?_some hfind
    rw [hfind, hsame e' (mem_of_find?_eq_some hfind) hkey, Option.map_some]
  · have hnone : (rest.find? fun e' => decide (e.key = e'.key)) = none := by
      rw [find?_eq_none]
      intro e' he' hkey
      exact hrest (hsame e' he' (of_decide_eq_true hkey) ▸ he')
    rw [if_neg hrest, hnone, Option.map_none]

theorem existsUnique_fate (hkeys : (batch.map Entry.key).Nodup) {e : Entry} (he : e ∈ batch) :
    ∃! f : Fate, f.Holds arrived r e := by
  have hbuf := h.lookup_buf hkeys he
  have hnodup : (good ++ bad ++ rest).Nodup := h.perm.nodup_iff.mp (Nodup.of_map _ hkeys)
  have hmem := h.perm.mem_iff.mp he
  rw [mem_append, mem_append] at hmem
  -- the three parts of the batch are disjoint, because its keys are distinct
  have hgb : ∀ x ∈ good, x ∉ bad := fun x hx hx' =>
    disjoint_of_nodup_append (Nodup.of_append_left hnodup) hx hx'
  have hr : ∀ x, x ∈ good ∨ x ∈ bad → x ∉ rest := fun x hx hx' =>
    disjoint_of_nodup_append hnodup (mem_append.mpr hx) hx'
  have happlied := h.mem_applied_iff e
  have hreported := h.mem_reported_iff e
  have hstay : e ∉ rest → ¬ Fate.requeued.Holds arrived r e := by
    rintro hnot ⟨hnone, hlook⟩
    rw [hbuf, hnone, if_neg hnot, Option.none_or] at hlook
    cases hlook
  rcases hmem with (hgood | hbad) | hrest
  · refine ⟨.applied, happlied.mpr hgood, fun f hf => ?_⟩
    cases f with
    | applied => rfl
    | requeued => exact absurd hf (hstay (hr e (Or.inl hgood)))
    | superseded => exact absurd (happlied.mpr hgood) hf.1
    | dropped => exact absurd (hreported.mp hf) (hgb e hgood)
  · refine ⟨.dropped, hreported.mpr hbad, fun f hf => ?_⟩
    cases f with
    | applied => exact absurd hbad (hgb e (happlied.mp hf))
    | requeued => exact absurd hf (hstay (hr e (Or.inr hbad)))
    | superseded => exact absurd (hreported.mpr hbad) hf.2.1
    | dropped => rfl
  · have hgood : e.update ∉ r.applied := fun hx => hr e (Or.inl (happlied.mp hx)) hrest
    have hbad : e.update ∉ r.reported := fun hx => hr e (Or.inr (hreported.mp hx)) hrest
    rw [if_pos hrest] at hbuf
    -- it was put back unless a newer update of its ad had arrived
    cases hnewer : arrived.lookup e.key with
    | none =>
      rw [hnewer, Option.none_or] at hbuf
      refine ⟨.requeued, ⟨hnewer, hbuf⟩, fun f hf => ?_⟩
      cases f with
      | applied => exact absurd hf hgood
      | requeued => rfl
      | superseded => simp [Fate.Holds, hnewer] at hf
      | dropped => exact absurd hf hbad
    | some newer =>
      rw [hnewer, Option.some_or] at hbuf
      refine ⟨.superseded, ⟨hgood, hbad, newer, hnewer, hbuf⟩, fun f hf => ?_⟩
      cases f with
      | applied => exact absurd hf hgood
      | requeued => simp [Fate.Holds, hnewer] at hf
      | superseded => rfl
      | dropped => exact absurd hf hbad

end Settles

theorem Buffer.lookup_putAll_congr {b b' : Buffer} (h : ∀ k, b.lookup k = b'.lookup k)
    (es : List Entry) (k : DedupKey) : (b.putAll es).lookup k = (b'.putAll es).lookup k := by
  induction es generalizing b b' with
  | nil => exact h k
  | cons e es ih =>
    refine ih fun k => ?_
    rw [lookup_put, lookup_put, h k]

/-- **A flush loses nothing silently**: an update is applied by a call that succeeded, reported by
one that failed, or back in the buffer. -/
theorem flush_accounts (out : Outcomes) (during : List Entry) (buf : Buffer) :
    FlushAccounts out buf during (flush out during buf) := by
  by_cases hdrain : buf.drain = []
  · -- nothing to drain: the buffer was empty, and gains what arrives
    have hsame : ∀ k, (buf.putAll during).lookup k = (Buffer.empty.putAll during).lookup k :=
      Buffer.lookup_putAll_congr (Buffer.lookup_of_drain_eq_nil hdrain) during
    have hflush : flush out during buf = ⟨buf.putAll during, none, [], []⟩ := by
      rw [flush, hdrain]
    rw [hflush]
    exact {
      calls := fun i call h => by cases h
      rejected := fun p err hmem => by cases hmem
      fate := fun e he => by rw [hdrain] at he; cases he
      newer := fun k p hk => (hsame k).trans hk
      buffered := fun k p hk => Or.inl ((hsame k).symm.trans hk)
      drained := fun p hp => by simp [FlushResult.applied, FlushResult.reported] at hp
      summary := fun n m hmem => by cases hmem
      success := fun _ => hsame }
  · obtain ⟨good, bad, rest, h⟩ := exists_settles_flush out during hdrain
    have hlookup : ∀ k, (flush out during buf).buf.lookup k = _ := fun k => by
      rw [h.buf, Buffer.lookup_putBack]
    have hbatch : ∀ e, e ∈ good ∨ e ∈ bad ∨ e ∈ rest → buf.lookup e.key = some e.update :=
      fun e he => Buffer.mem_drain_iff.mp (h.perm.mem_iff.mpr (by simpa [or_assoc] using he))
    exact {
      calls := fun i call hcall => calls_flush out during buf hcall
      rejected := h.rejected
      fate := fun e he => h.existsUnique_fate buf.nodup_drain he
      newer := fun k p hk => by rw [hlookup, hk, Option.some_or]
      buffered := fun k p hk => by
        rw [hlookup] at hk
        rcases Option.or_eq_some_iff.mp hk with harrived | ⟨-, hrest⟩
        · exact Or.inl harrived
        · obtain ⟨e, hfind, rfl⟩ := Option.map_eq_some_iff.mp hrest
          obtain rfl : k = e.key := by simpa using List.find?_some hfind
          exact Or.inr (hbatch e (Or.inr (Or.inr (List.mem_of_find?_eq_some hfind))))
      drained := fun p hp => by
        rw [h.applied, h.reported, List.mem_map, List.mem_map] at hp
        rcases hp with ⟨e, he, rfl⟩ | ⟨e, he, rfl⟩
        · exact ⟨e.key, hbatch e (Or.inl he)⟩
        · exact ⟨e.key, hbatch e (Or.inr (Or.inl he))⟩
      summary := fun n m hmem => by
        obtain ⟨hn, hm⟩ := h.summary n m hmem
        rw [h.reported, List.length_map, hn, Nat.zero_add]
        exact ⟨rfl, hm⟩
      success := fun herr k => by
        rw [hlookup, h.err herr]
        simp }

end GolangCollector
