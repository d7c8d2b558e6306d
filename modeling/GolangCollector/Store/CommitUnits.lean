import Mathlib.Algebra.Order.BigOperators.Group.List
import GolangCollector.Store.Remote

/-! # Commit units are a partition

`buildCommitUnits` (`store/rpcbackend.go`) cuts the tables of a batch into units for the lanes of
the write pool: a large table into several, and then, while there are more units than lanes, one
less for the table cut into most. -/

namespace GolangCollector

open GoStrings List Option AList

/-! ## The shrinking loop -/

def shrinkRound (lanes : ℕ) (s : List TableSplit × ℕ) : Option (List TableSplit × ℕ) :=
  if lanes < s.2 then
    (mostSplit s.1).map fun i =>
      (s.1.modify i fun split => { split with chunks := split.chunks - 1 }, s.2 - 1)
  else none

theorem shrinkRound_lt {lanes : ℕ} {s s' : List TableSplit × ℕ}
    (h : shrinkRound lanes s = some s') : s'.2 < s.2 := by
  rw [shrinkRound] at h
  split at h
  · obtain ⟨i, -, rfl⟩ := map_eq_some_iff.mp h
    dsimp only
    omega
  · cases h

theorem wellFounded_shrinkRound (lanes : ℕ) :
    WellFounded fun s' s => shrinkRound lanes s = some s' :=
  Subrelation.wf (fun h => shrinkRound_lt h) (measure fun s : List TableSplit × ℕ => s.2).wf

theorem shrinkSplits_ends (lanes : ℕ) (splits : List TableSplit) (total : ℕ) :
    ∃ total', Relation.ReflTransGen (fun s s' => shrinkRound lanes s = some s') (splits, total)
        (shrinkSplits (total - lanes) splits, total') ∧
      shrinkRound lanes (shrinkSplits (total - lanes) splits, total') = none := by
  induction hexcess : total - lanes generalizing splits total with
  | zero =>
    refine ⟨total, .refl, ?_⟩
    rw [shrinkRound, if_neg (by dsimp only; omega)]
  | succ excess ih =>
    have hlt : lanes < total := by omega
    rw [shrinkSplits]
    cases hmost : mostSplit splits with
    | none =>
      refine ⟨total, .refl, ?_⟩
      simp [shrinkRound, hmost]
    | some i =>
      obtain ⟨total', hrun, hend⟩ := ih
        (splits.modify i fun split => { split with chunks := split.chunks - 1 }) (total - 1)
        (by omega)
      refine ⟨total', .head ?_ hrun, hend⟩
      simp [shrinkRound, hlt, hmost]

variable {splits : List TableSplit}

theorem chunks_le_one_of_mostSplit (h : mostSplit splits = none) : ∀ s ∈ splits, s.chunks ≤ 1 := by
  have hfold : ∀ (l : List (TableSplit × ℕ)) (best : Option (ℕ × ℕ)),
      l.foldl pickMostSplit best = none → best = none ∧ ∀ s ∈ l, s.1.chunks ≤ 1 := by
    intro l
    induction l with
    | nil => exact fun best h => ⟨h, by simp⟩
    | cons s l ih =>
      intro best h
      obtain ⟨hbest, hrest⟩ := ih _ h
      rw [pickMostSplit] at hbest
      split at hbest
      · cases hbest
      · rename_i hnot
        subst hbest
        refine ⟨rfl, forall_mem_cons.mpr ⟨?_, hrest⟩⟩
        by_contra hcut
        exact hnot ⟨by omega, rfl⟩
  intro s hs
  obtain ⟨j, hj⟩ := mem_iff_getElem?.mp hs
  exact (hfold _ _ (map_eq_none_iff.mp h)).2 (s, j)
    (mem_zipIdx_iff_getElem?.mpr hj)

theorem forall_mem_shrinkSplits {P : TableSplit → Prop}
    (hdec : ∀ s, P s → P { s with chunks := s.chunks - 1 }) (excess : ℕ) (h : ∀ s ∈ splits, P s) :
    ∀ s ∈ shrinkSplits excess splits, P s := by
  induction excess generalizing splits with
  | zero => exact h
  | succ excess ih =>
    rw [shrinkSplits]
    split
    · exact h
    · refine ih fun s hs => ?_
      obtain ⟨j, hj⟩ := mem_iff_getElem?.mp hs
      rw [getElem?_modify] at hj
      obtain ⟨s', hs', rfl⟩ := map_eq_some_iff.mp hj
      have hold := h s' (mem_of_getElem? hs')
      split
      · exact hdec s' hold
      · exact hold

variable {s : TableSplit}

theorem sum_chunks_modify {i : ℕ} (hs : splits[i]? = some s) (hcut : 1 < s.chunks) :
    ((splits.modify i fun split => { split with chunks := split.chunks - 1 }).map
      TableSplit.chunks).sum + 1 = (splits.map TableSplit.chunks).sum := by
  induction splits generalizing i with
  | nil => cases hs
  | cons t splits ih =>
    cases i with
    | zero =>
      obtain rfl := some.inj hs
      rw [modify_zero_cons, map_cons, map_cons, sum_cons, sum_cons]
      dsimp only
      omega
    | succ i =>
      have hrest := ih (i := i) hs
      rw [modify_succ_cons, map_cons, map_cons, sum_cons, sum_cons]
      omega

theorem sum_chunks_shrinkSplits_le (excess : ℕ) (splits : List TableSplit) :
    ((shrinkSplits excess splits).map TableSplit.chunks).sum ≤
      max ((splits.map TableSplit.chunks).sum - excess) splits.length := by
  induction excess generalizing splits with
  | zero => exact le_max_left _ _
  | succ excess ih =>
    rw [shrinkSplits]
    cases hmost : mostSplit splits with
    | none =>
      refine le_max_of_le_right ?_
      have hone := chunks_le_one_of_mostSplit hmost
      calc (splits.map TableSplit.chunks).sum ≤ (splits.map fun _ => 1).sum :=
            sum_le_sum hone
        _ = splits.length := by simp
    | some i =>
      obtain ⟨s, hs, hcut⟩ := mostSplit_eq_some hmost
      have hsum := sum_chunks_modify hs hcut
      refine (ih _).trans ?_
      rw [length_modify]
      refine max_le_max (by omega) le_rfl

/-! ## The units of one table -/

theorem length_sliceItems_le {chunk : ℕ} (fuel : ℕ) {n : ℕ} {items : List KeyedText}
    (h : items.length ≤ n * chunk) : (sliceItems chunk fuel items).length ≤ n := by
  induction fuel generalizing n items with
  | zero => exact Nat.zero_le _
  | succ fuel ih =>
    rw [sliceItems]
    split
    · exact Nat.zero_le _
    · rename_i hne
      cases n with
      | zero => exact absurd (length_eq_zero_iff.mp (by omega)) hne
      | succ n =>
        have hrest : (items.drop chunk).length ≤ n * chunk := by
          rw [length_drop]
          rw [Nat.succ_mul] at h
          omega
        rw [length_cons]
        exact Nat.succ_le_succ (ih hrest)

theorem TableSplit.Valid.length_units_le (h : s.Valid) : s.units.length ≤ s.chunks := by
  rw [units]
  split
  · simp [h.cut]
  · rw [length_map]
    refine length_sliceItems_le _ ?_
    -- rounding up, the slices cover the items
    have hpos := h.cut
    have hdiv := Nat.div_add_mod (s.items.length + s.chunks - 1) s.chunks
    have hmod := Nat.mod_lt (s.items.length + s.chunks - 1) h.cut
    omega

/-! ## The partition -/

theorem filter_flatMap_units (hvalid : ∀ s ∈ splits, s.Valid)
    (hnodup : (splits.map TableSplit.table).Nodup) (hs : s ∈ splits) :
    (splits.flatMap TableSplit.units).filter (·.table = s.table) = s.units := by
  induction splits with
  | nil => cases hs
  | cons t splits ih =>
    rw [forall_mem_cons] at hvalid
    rw [map_cons, nodup_cons] at hnodup
    rw [flatMap_cons, filter_append]
    rcases mem_cons.mp hs with rfl | hs
    · -- none of the other tables has this name
      have hself : s.units.filter (·.table = s.table) = s.units :=
        filter_eq_self.mpr fun u hu => by simp [(hvalid.1.units_spec.1 u hu).1]
      have hrest : (splits.flatMap TableSplit.units).filter (·.table = s.table) = [] := by
        refine filter_eq_nil_iff.mpr fun u hu => ?_
        obtain ⟨t, ht, hut⟩ := mem_flatMap.mp hu
        rw [((hvalid.2 t ht).units_spec.1 u hut).1, decide_eq_true_eq]
        exact fun heq => hnodup.1 (mem_map.mpr ⟨t, ht, heq⟩)
      rw [hself, hrest, append_nil]
    · have hother : t.units.filter (·.table = s.table) = [] := by
        refine filter_eq_nil_iff.mpr fun u hu => ?_
        rw [(hvalid.1.units_spec.1 u hu).1, decide_eq_true_eq]
        exact fun heq => hnodup.1 (mem_map.mpr ⟨s, hs, heq.symm⟩)
      rw [hother, ih hvalid.2 hnodup.2 hs, nil_append]

theorem filter_flatMap_units_of_notMem (hvalid : ∀ s ∈ splits, s.Valid) {table : Text}
    (h : table ∉ splits.map TableSplit.table) :
    (splits.flatMap TableSplit.units).filter (·.table = table) = [] := by
  refine filter_eq_nil_iff.mpr fun u hu => ?_
  obtain ⟨t, ht, hut⟩ := mem_flatMap.mp hu
  rw [((hvalid t ht).units_spec.1 u hut).1, decide_eq_true_eq]
  exact fun heq => h (mem_map.mpr ⟨t, ht, heq⟩)

/-- **What is known of the cuts.** -/
structure GoodSplits (lanes : ℕ) (byTable : List (Text × List KeyedText))
    (splits : List TableSplit) : Prop where
  valid : ∀ s ∈ splits, s.Valid
  tables : splits.map (fun s => (s.table, s.items)) = byTable.filter fun t => t.2 ≠ []
  chunks_le : ∀ s ∈ splits, s.chunks ≤ lanes
  small : ∀ s ∈ splits, s.items.length ≤ adaptiveFanoutChunk → s.chunks = 1
  sum_le : (splits.map TableSplit.chunks).sum ≤
    max lanes (byTable.filter fun t => t.2 ≠ []).length

theorem goodSplits_finalSplits {lanes : ℕ} (hlanes : 1 ≤ lanes)
    (byTable : List (Text × List KeyedText)) :
    GoodSplits lanes byTable (finalSplits lanes byTable) := by
  obtain ⟨hvalid, htables⟩ := finalSplits_spec lanes byTable
  rw [finalSplits] at hvalid htables ⊢
  set splits := (byTable.filter fun t => t.2 ≠ []).map (TableSplit.ofTable lanes) with hsplits
  have hbounds : ∀ s ∈ splits, s.chunks ≤ lanes ∧
      (s.items.length ≤ adaptiveFanoutChunk → s.chunks ≤ 1) := by
    intro s hs
    obtain ⟨t, -, rfl⟩ := mem_map.mp hs
    rw [TableSplit.ofTable]
    dsimp only
    split
    · rename_i hbig
      exact ⟨min_le_right _ _, fun hsmall => by omega⟩
    · exact ⟨hlanes, fun _ => le_rfl⟩
  have hfinal := forall_mem_shrinkSplits
    (P := fun s => s.chunks ≤ lanes ∧ (s.items.length ≤ adaptiveFanoutChunk → s.chunks ≤ 1))
    (fun s h => ⟨(Nat.sub_le _ _).trans h.1, fun hs => (Nat.sub_le _ _).trans (h.2 hs)⟩)
    ((splits.map TableSplit.chunks).sum - lanes) hbounds
  refine ⟨hvalid, htables, fun s hs => (hfinal s hs).1, fun s hs hsmall => ?_, ?_⟩
  · exact le_antisymm ((hfinal s hs).2 hsmall) (hvalid s hs).cut
  · refine (sum_chunks_shrinkSplits_le _ _).trans (max_le_max (by omega) ?_)
    rw [hsplits, length_map]

/-- **The commit units are an exact partition** of the tables, in order. -/
theorem commitUnits_partition (lanes : ℕ) (hlanes : 1 ≤ lanes)
    (byTable : GoMap Text (List KeyedText)) (order : List (Text × List KeyedText))
    (horder : order.Perm (GoMap.pairs byTable)) :
    (∀ u ∈ buildCommitUnits lanes order, u.items ≠ []) ∧
    (∀ table, ((buildCommitUnits lanes order).filter (·.table = table)).flatMap CommitUnit.items =
      (byTable.lookup table).getD []) ∧
    (buildCommitUnits lanes order).length ≤ max lanes (order.filter fun t => t.2 ≠ []).length ∧
    (∀ table, ((buildCommitUnits lanes order).filter (·.table = table)).length ≤ lanes) ∧
    (∀ table items, byTable.lookup table = some items → items ≠ [] →
      items.length ≤ adaptiveFanoutChunk →
      (buildCommitUnits lanes order).filter (·.table = table) = [⟨table, items⟩]) ∧
    (WellFounded fun s' s => shrinkRound lanes s = some s') ∧
    (∀ splits total, ∃ total',
      Relation.ReflTransGen (fun s s' => shrinkRound lanes s = some s') (splits, total)
        (shrinkSplits (total - lanes) splits, total') ∧
      shrinkRound lanes (shrinkSplits (total - lanes) splits, total') = none) := by
  have hgood := goodSplits_finalSplits hlanes order
  rw [buildCommitUnits_eq]
  generalize finalSplits lanes order = splits at hgood
  have hmem : ∀ table items, (table, items) ∈ order ↔ byTable.lookup table = some items :=
    fun table items => horder.mem_iff.trans GoMap.mem_pairs_iff
  -- the names of the cuts are names of the map, each once
  have hnodup : (splits.map TableSplit.table).Nodup := by
    have hnames : splits.map TableSplit.table = (order.filter fun t => t.2 ≠ []).map Prod.fst := by
      rw [← hgood.tables, List.map_map]
      rfl
    rw [hnames]
    refine Nodup.sublist (filter_sublist.map _) ?_
    rw [(horder.map Prod.fst).nodup_iff, GoMap.pairs, List.map_map]
    exact byTable.nodupKeys
  have htable : ∀ table, (∃ s ∈ splits, s.table = table ∧ byTable.lookup table = some s.items) ∨
      table ∉ splits.map TableSplit.table ∧ (byTable.lookup table).getD [] = [] := by
    intro table
    by_cases hin : table ∈ splits.map TableSplit.table
    · obtain ⟨s, hs, rfl⟩ := mem_map.mp hin
      have hpair : (s.table, s.items) ∈ order.filter fun t => t.2 ≠ [] := by
        rw [← hgood.tables]
        exact mem_map.mpr ⟨s, hs, rfl⟩
      exact .inl ⟨s, hs, rfl, (hmem _ _).mp (mem_filter.mp hpair).1⟩
    · refine .inr ⟨hin, ?_⟩
      cases hlook : byTable.lookup table with
      | none => rfl
      | some items =>
        by_contra hne
        have hpair : (table, items) ∈ splits.map fun s => (s.table, s.items) := by
          rw [hgood.tables, mem_filter]
          exact ⟨(hmem _ _).mpr hlook, by simpa using hne⟩
        obtain ⟨s, hs, heq⟩ := mem_map.mp hpair
        exact hin (mem_map.mpr ⟨s, hs, congrArg Prod.fst heq⟩)
  refine ⟨?_, ?_, ?_, ?_, ?_, wellFounded_shrinkRound lanes, shrinkSplits_ends lanes⟩
  · intro u hu
    obtain ⟨s, hs, hus⟩ := mem_flatMap.mp hu
    exact ((hgood.valid s hs).units_spec.1 u hus).2
  · intro table
    rcases htable table with ⟨s, hs, rfl, hlook⟩ | ⟨hnot, hnil⟩
    · rw [filter_flatMap_units hgood.valid hnodup hs, (hgood.valid s hs).units_spec.2, hlook]
      rfl
    · rw [filter_flatMap_units_of_notMem hgood.valid hnot, hnil]
      rfl
  · refine le_trans ?_ hgood.sum_le
    rw [length_flatMap]
    exact sum_le_sum fun s hs => (hgood.valid s hs).length_units_le
  · intro table
    rcases htable table with ⟨s, hs, rfl, -⟩ | ⟨hnot, -⟩
    · rw [filter_flatMap_units hgood.valid hnodup hs]
      exact (hgood.valid s hs).length_units_le.trans (hgood.chunks_le s hs)
    · rw [filter_flatMap_units_of_notMem hgood.valid hnot]
      exact Nat.zero_le _
  · intro table items hlook hne hsmall
    rcases htable table with ⟨s, hs, rfl, hsame⟩ | ⟨-, hnil⟩
    · obtain rfl := some.inj (hsame.symm.trans hlook)
      rw [filter_flatMap_units hgood.valid hnodup hs, TableSplit.units,
        if_pos (hgood.small s hs hsmall)]
    · rw [hlook] at hnil
      exact absurd hnil hne

def heavyBatch : GoMap Text (List KeyedText) :=
  ((∅ : GoMap Text (List KeyedText)).insert "Startd".toList
    (List.replicate 600 ⟨"a".toList, []⟩)).insert "Master".toList [⟨"b".toList, []⟩]

theorem commitUnits_partition_heavyBatch :
    ((buildCommitUnits 2 (GoMap.pairs heavyBatch)).filter
      (·.table = "Master".toList)) = [⟨"Master".toList, [⟨"b".toList, []⟩]⟩] ∧
    ((buildCommitUnits 2 (GoMap.pairs heavyBatch)).filter (·.table = "Startd".toList)).flatMap
      CommitUnit.items = List.replicate 600 ⟨"a".toList, []⟩ ∧
    (buildCommitUnits 2 (GoMap.pairs heavyBatch)).length ≤ 2 := by
  obtain ⟨-, hitems, htotal, -, hsmall, -⟩ :=
    commitUnits_partition 2 (by decide) heavyBatch (GoMap.pairs heavyBatch) (.refl _)
  have hlookup : heavyBatch.lookup "Startd".toList =
      some (replicate 600 ⟨"a".toList, []⟩) := by
    rw [heavyBatch, lookup_insert_ne (by decide), lookup_insert]
  refine ⟨hsmall _ _ (lookup_insert _) (by decide) (by decide), ?_, ?_⟩
  · rw [hitems, hlookup]
    rfl
  · refine htotal.trans (max_le le_rfl ?_)
    exact (length_filter_le _ _).trans (by decide)

end GolangCollector
