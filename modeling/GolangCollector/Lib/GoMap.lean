import Mathlib.Algebra.GroupWithZero.Nat
import Mathlib.Data.List.AList

/-! # Go maps as association lists

`GoMap K V` is Mathlib's `AList` at a constant family: a list of pairs with distinct keys, in the
order a `range` over the map happens to visit them, with the bulk operations that stores and buffers
offer, their effect on lookups and the counts they report. -/

/-- A Go map from `K` to `V`. -/
abbrev GoMap (K V : Type) := AList fun _ : K => V

namespace GoMap

open List Option AList

variable {K V : Type}

/-- The pairs a `range` visits, in its order. -/
def pairs (m : GoMap K V) : List (K × V) := m.entries.map fun e => (e.1, e.2)

theorem mem_pairs_iff [DecidableEq K] {m : GoMap K V} {k : K} {v : V} :
    (k, v) ∈ m.pairs ↔ m.lookup k = some v := by
  rw [← mem_def, mem_lookup_iff, pairs, List.mem_map]
  constructor
  · rintro ⟨⟨k', v'⟩, hmem, heq⟩
    cases heq
    exact hmem
  · intro hmem
    exact ⟨⟨k, v⟩, hmem, rfl⟩

/-- The number of pairs. -/
def len (m : GoMap K V) : ℕ := m.entries.length

variable [DecidableEq K]

theorem len_eq_of_lookup_eq {m m' : GoMap K V} (h : ∀ k, m.lookup k = m'.lookup k) :
    m.len = m'.len := by
  have hperm : m.entries.Perm m'.entries :=
    List.lookup_ext m.nodupKeys m'.nodupKeys fun k v => by
      have := h k
      rw [AList.lookup, AList.lookup] at this
      rw [this]
  exact hperm.length_eq

/-- Two removals that leave the same took away equally many pairs. -/
theorem count_eq_of_lookup_eq {m : GoMap K V} {r r' : GoMap K V × ℕ} (hr : r.2 + r.1.len = m.len)
    (hr' : r'.2 + r'.1.len = m.len) (h : ∀ k, r.1.lookup k = r'.1.lookup k) : r.2 = r'.2 := by
  have hlen := len_eq_of_lookup_eq h
  omega

theorem lookup_of_len_eq_zero {m : GoMap K V} (h : m.len = 0) (k : K) : m.lookup k = none := by
  cases hk : m.lookup k with
  | none => rfl
  | some v =>
    have hmem := mem_lookup_iff.mp (mem_def.mpr hk)
    rw [length_eq_zero_iff.mp h] at hmem
    cases hmem

theorem pairs_insert (m : GoMap K V) (k : K) (v : V) :
    pairs (m.insert k v) = (k, v) :: pairs (m.erase k) := by
  rw [pairs, entries_insert, map_cons]
  rfl

theorem pairs_perm_of_lookup {m : GoMap K V} {k : K} {v : V} (h : m.lookup k = some v) :
    m.pairs.Perm ((k, v) :: pairs (m.erase k)) := by
  rw [← pairs_insert]
  refine Perm.map _ (lookup_ext m.nodupKeys (m.insert k v).nodupKeys fun k' w => ?_)
  rw [← AList.lookup, ← AList.lookup]
  by_cases hk : k' = k
  · rw [hk, lookup_insert, h]
  · rw [lookup_insert_ne hk]

/-! ## Putting pairs back -/

/-- `for i, k := range keys { if _, newer := m[k]; !newer { m[k] = vs[i] } }`. -/
def putBack (m : GoMap K V) : List (K × V) → GoMap K V
  | [] => m
  | p :: ps => putBack (if p.1 ∈ m then m else m.insert p.1 p.2) ps

section

variable (m : GoMap K V)

/-- **Putting back never replaces** what is there. -/
theorem lookup_putBack (ps : List (K × V)) (k : K) :
    (m.putBack ps).lookup k = (m.lookup k).or ((ps.find? fun p => k = p.1).map Prod.snd) := by
  -- along the pairs: the key is put back by its first pair if it is absent until then
  induction ps generalizing m with
  | nil => simp [putBack]
  | cons p ps ih =>
    rw [putBack, ih, find?_cons]
    by_cases hk : k = p.1
    · subst hk
      by_cases hmem : p.1 ∈ m
      · obtain ⟨v, hv⟩ := isSome_iff_exists.mp (lookup_isSome.mpr hmem)
        simp [hmem, hv]
      · simp [hmem, lookup_eq_none.mpr hmem]
    · by_cases hmem : p.1 ∈ m
      · simp [hmem, hk]
      · simp [hmem, hk, lookup_insert_ne hk]

theorem find?_pairs (k : K) : (m.pairs.find? fun p => k = p.1).map Prod.snd = m.lookup k := by
  cases hk : m.lookup k with
  | none =>
    rw [map_eq_none_iff, find?_eq_none]
    rintro ⟨k', v⟩ hmem heq
    obtain rfl : k = k' := by simpa using heq
    rw [mem_pairs_iff, hk] at hmem
    cases hmem
  | some v =>
    obtain ⟨p, hp⟩ := isSome_iff_exists.mp (find?_isSome.mpr
      ⟨(k, v), mem_pairs_iff.mpr hk, decide_eq_true rfl⟩ :
        (m.pairs.find? fun p => k = p.1).isSome)
    obtain ⟨k', w⟩ := p
    obtain rfl : k = k' := by simpa using find?_some hp
    have hmem := mem_pairs_iff.mp (mem_of_find?_eq_some hp)
    rw [hp, map_some, ← hk, hmem]

/-! ## Deleting a list of keys -/

/-- Delete keys one by one, counting those that were present. -/
def deleteKeys (m : GoMap K V) : List K → GoMap K V × ℕ
  | [] => (m, 0)
  | k :: ks =>
    let rest := deleteKeys (m.erase k) ks
    (rest.1, (if k ∈ m then 1 else 0) + rest.2)

/-- After the loop exactly the listed keys are gone. -/
theorem lookup_deleteKeys (ks : List K) (k : K) :
    (m.deleteKeys ks).1.lookup k = if k ∈ ks then none else m.lookup k := by
  induction ks generalizing m with
  | nil => simp [deleteKeys]
  | cons k' ks ih =>
    rw [deleteKeys, ih]
    by_cases hk : k = k'
    · subst hk
      simp
    · simp [hk, lookup_erase_ne hk]

theorem len_erase (k : K) : (if k ∈ m then 1 else 0) + len (m.erase k) = m.len := by
  have hkeys : len (m.erase k) = (m.keys.erase k).length := by
    rw [len, ← AList.keys_erase, AList.keys, List.keys, List.length_map]
  have hlen : m.len = m.keys.length := by
    rw [len, AList.keys, List.keys, List.length_map]
  rw [hkeys, hlen]
  split
  · rename_i hmem
    have hmem' : k ∈ m.keys := mem_keys.mp hmem
    have hpos := length_pos_of_mem hmem'
    rw [length_erase_of_mem hmem']
    omega
  · rename_i hmem
    rw [erase_of_not_mem fun h => hmem (mem_keys.mpr h)]
    omega

/-- The count of a deletion is the number of pairs it took away. -/
theorem deleteKeys_count (ks : List K) : (m.deleteKeys ks).2 + (m.deleteKeys ks).1.len = m.len := by
  induction ks generalizing m with
  | nil => simp [deleteKeys]
  | cons k ks ih =>
    have hrest := ih (m.erase k)
    have herase := len_erase m k
    rw [deleteKeys]
    simp only
    omega

/-! ## Deleting by predicate -/

/-- Remove every pair that satisfies `p`, counting them. -/
def deleteWhere (m : GoMap K V) (p : K → V → Bool) : GoMap K V × ℕ :=
  (⟨m.entries.filter fun e => !p e.1 e.2, m.nodupKeys.sublist List.filter_sublist⟩,
    (m.entries.filter fun e => p e.1 e.2).length)

/-- A key keeps its value unless the pair satisfied the predicate. -/
theorem lookup_deleteWhere (p : K → V → Bool) (k : K) :
    (m.deleteWhere p).1.lookup k = (m.lookup k).filter fun v => !p k v := by
  ext v
  rw [← mem_def, mem_lookup_iff, filter_eq_some_iff, ← mem_def,
    mem_lookup_iff, deleteWhere, mem_filter]

omit [DecidableEq K] in
/-- The count of a removal is the number of pairs it took away. -/
theorem deleteWhere_count (p : K → V → Bool) :
    (m.deleteWhere p).2 + (m.deleteWhere p).1.len = m.len := by
  have h := length_eq_length_filter_add (l := m.entries) (fun e => p e.1 e.2)
  rw [deleteWhere, len, len]
  exact h.symm

end

/-! ## Sweeping a family of maps -/

section Sweep

variable {T M : Type} [DecidableEq T]

/-- `for t := ... { n += f(t, &tables[t]) }`: each listed table becomes what `f` leaves of it. -/
def sweep (f : T → M → M × ℕ) : List T → (T → M) → (T → M) × ℕ
  | [], s => (s, 0)
  | t :: ts, s =>
    let rest := sweep f ts (Function.update s t (f t (s t)).1)
    (rest.1, (f t (s t)).2 + rest.2)

/-- A sweep over distinct tables treats each listed one once and leaves the others alone. -/
theorem sweep_fst (f : T → M → M × ℕ) {ts : List T} (hts : ts.Nodup) (s : T → M) (t : T) :
    (sweep f ts s).1 t = if t ∈ ts then (f t (s t)).1 else s t := by
  induction ts generalizing s with
  | nil => simp [sweep]
  | cons u us ih =>
    rw [nodup_cons] at hts
    rw [sweep, ih hts.2]
    by_cases htu : t = u
    · -- the rest of the sweep does not come back to `u`
      subst htu
      simp [hts.1]
    · simp [htu]

/-- The count of a sweep is the sum of its tables' counts. -/
theorem sweep_snd (f : T → M → M × ℕ) {ts : List T} (hts : ts.Nodup) (s : T → M) :
    (sweep f ts s).2 = (ts.map fun t => (f t (s t)).2).sum := by
  induction ts generalizing s with
  | nil => rfl
  | cons u us ih =>
    rw [nodup_cons] at hts
    -- the later rounds still see the tables' initial contents
    have hrest : us.map (fun t => (f t (Function.update s u (f u (s u)).1 t)).2) =
        us.map fun t => (f t (s t)).2 := by
      refine map_congr_left fun t ht => ?_
      rw [Function.update_of_ne fun h : t = u => hts.1 (h ▸ ht)]
    rw [sweep, ih hts.2, hrest, map_cons, sum_cons]

end Sweep

end GoMap
