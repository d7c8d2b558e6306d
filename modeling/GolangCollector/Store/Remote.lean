import GolangCollector.Store.Batch
import GolangCollector.Store.Memory

/-! # The remote database backend

`RPCBackend` (`store/rpcbackend.go`) keeps the ads in a database server. Every operation runs in a
retry envelope on one connection; a batch of updates is grouped by table, cut into commit units and
written with one transaction per unit. This file models

* the errors and their classes, and one round of `withRetry` (`RetryPolicy.round`);
* `putBatchTx`, as a function of what the calls of its transaction return (`TxOutcome`);
* the grouping of `UpdateBatch` (`groupByTable`) and `buildCommitUnits`.

A duration is its number of nanoseconds. -/

namespace GolangCollector

open GoStrings List Option

/-! ## Errors -/

inductive RpcError where
  /-- `*db.ConflictError`: a commit met newer versions of these keys. -/
  | conflict (keys : List Text)
  /-- `*dbrpc.ServerError`. -/
  | server (msg : Text)
  /-- `errNoReplay`: a stream broke after its first row. -/
  | noReplay (err : RpcError)
  /-- The error of an ended context. -/
  | context
  /-- Any other failure of a connection or a dial. -/
  | transport (msg : Text)
  /-- The retry budget is spent; the last failure is wrapped. -/
  | unavailable (lastErr : RpcError)
  deriving DecidableEq, Repr

namespace RpcError

def conflictKeys : RpcError → Option (List Text)
  | conflict keys => some keys
  | noReplay err => conflictKeys err
  | unavailable err => conflictKeys err
  | _ => none

def isConflict (e : RpcError) : Bool := e.conflictKeys.isSome

def serverMsg : RpcError → Option Text
  | server msg => some msg
  | noReplay err => serverMsg err
  | unavailable err => serverMsg err
  | _ => none

def isNoSuchTxn (e : RpcError) : Bool := e.serverMsg = some "no such transaction".toList

def isNoReplay : RpcError → Bool
  | noReplay _ => true
  | unavailable err => isNoReplay err
  | _ => false

def isPermanent (e : RpcError) : Bool := e.isNoReplay || (e.serverMsg.isSome && !e.isNoSuchTxn)

end RpcError

/-! ## The retry envelope -/

structure RetryPolicy where
  /-- The time after which an operation is given up; 0 for never. -/
  maxElapsed : ℕ
  deriving DecidableEq, Repr

def maxConflictRetries : ℕ := 100

inductive Retry (α : Type) where
  /-- `withRetry` returns. -/
  | returns (r : Except RpcError α)
  /-- The operation is run again at once, with this many conflicts so far. -/
  | again (conflicts : ℕ)
  /-- The operation is run again after a wait, which the end of the context cuts short. -/
  | waits

def RetryPolicy.afterTransient {α : Type} (policy : RetryPolicy) (elapsed : ℕ)
    (lastErr : RpcError) : Retry α :=
  if 0 < policy.maxElapsed ∧ policy.maxElapsed ≤ elapsed then
    .returns (.error (.unavailable lastErr))
  else .waits

def RetryPolicy.round {α : Type} (policy : RetryPolicy) (elapsed : ℕ) (ctxDone : Bool)
    (conflicts : ℕ) : Except RpcError (Except RpcError α) → Retry α
  -- no connection
  | .error err =>
    if ctxDone then .returns (.error err) else policy.afterTransient elapsed err
  | .ok (.ok a) => .returns (.ok a)
  | .ok (.error opErr) =>
    if opErr.isConflict then
      if maxConflictRetries < conflicts + 1 then .returns (.error opErr)
      else .again (conflicts + 1)
    else if opErr.isPermanent then .returns (.error opErr)
    else if ctxDone then .returns (.error .context)
    else policy.afterTransient elapsed opErr

/-! ## One transaction -/

structure KeyedText where
  /-- The key. -/
  key : Text
  /-- The ad's text. -/
  text : Text
  deriving DecidableEq, Repr

inductive TxOutcome where
  /-- `BeginTable` fails. -/
  | beginFails (err : RpcError)
  /-- Writing the ads fails as a whole. -/
  | writeFails (err : RpcError)
  /-- The server rejects the ads at these places and applies the others; then `Commit` returns. -/
  | commits (rejects : List ℕ) (err : Option RpcError)
  deriving DecidableEq, Repr

structure Receipt where
  /-- The rejected places. -/
  rejects : List ℕ
  /-- The conflicted keys. -/
  conflicted : List Text
  deriving DecidableEq, Repr

def putBatchTx (items : List KeyedText) (tx : TxOutcome) : Except RpcError Receipt :=
  if items = [] then .ok ⟨[], []⟩
  else
    match tx with
    | .beginFails err => .error err
    | .writeFails err => .error err
    | .commits rejects none => .ok ⟨rejects, []⟩
    | .commits rejects (some err) =>
      match err.conflictKeys with
      | some keys => .ok ⟨rejects, keys⟩
      | none => .error err

/-! ## Grouping a batch by table -/

def PendingUpdate.keyedText (now : Int) (p : PendingUpdate) : Option (Text × KeyedText) :=
  if p.pvt then
    (hashKeyFromText .startdAd p.text).map fun key =>
      (AdType.startdPvtAd.name, ⟨key, pvtAdText p.text p.pvtText now⟩)
  else
    (hashKeyFromText p.type p.text).map fun key => (p.type.name, ⟨key, stampText p.text now⟩)

def appendItem (m : GoMap Text (List KeyedText)) (x : Text × KeyedText) :
    GoMap Text (List KeyedText) :=
  m.insert x.1 ((m.lookup x.1).getD [] ++ [x.2])

def groupByTable (batch : List (Int × PendingUpdate)) : GoMap Text (List KeyedText) :=
  (batch.filterMap fun p => p.2.keyedText p.1).foldl appendItem ∅

def itemsOf (tables : List (Text × List KeyedText)) : List (Text × KeyedText) :=
  tables.flatMap fun t => t.2.map fun item => (t.1, item)

theorem itemsOf_filter (tables : List (Text × List KeyedText)) :
    itemsOf (tables.filter fun t => t.2 ≠ []) = itemsOf tables := by
  induction tables with
  | nil => rfl
  | cons t ts ih =>
    rw [itemsOf, itemsOf] at ih
    by_cases ht : t.2 = []
    · simpa [itemsOf, ht] using ih
    · simpa [itemsOf, ht] using ih

theorem perm_itemsOf_appendItem (m : GoMap Text (List KeyedText)) (x : Text × KeyedText) :
    (itemsOf (GoMap.pairs (appendItem m x))).Perm (itemsOf (GoMap.pairs m) ++ [x]) := by
  rw [appendItem, GoMap.pairs_insert]
  cases htable : m.lookup x.1 with
  | none =>
    -- the table is new
    have herase : m.erase x.1 = m :=
      AList.ext (kerase_of_notMem_keys (AList.lookup_eq_none.mp htable))
    rw [herase]
    exact (perm_append_singleton x _).symm
  | some items =>
    have htables := (GoMap.pairs_perm_of_lookup htable).flatMap_right
      fun t => t.2.map fun item => (t.1, item)
    have hnew : itemsOf ((x.1, items ++ [x.2]) :: GoMap.pairs (m.erase x.1)) =
        (items.map fun item => (x.1, item)) ++ ([x] ++ itemsOf (GoMap.pairs (m.erase x.1))) := by
      simp [itemsOf]
    rw [getD_some, hnew]
    refine Perm.trans (perm_append_comm.append_left _) ?_
    rw [← append_assoc]
    exact htables.symm.append_right _

theorem perm_itemsOf_groupByTable (batch : List (Int × PendingUpdate)) :
    (itemsOf (GoMap.pairs (groupByTable batch))).Perm
      (batch.filterMap fun p => p.2.keyedText p.1) := by
  have hrun : ∀ (xs : List (Text × KeyedText)) (m : GoMap Text (List KeyedText)),
      (itemsOf (GoMap.pairs (xs.foldl appendItem m))).Perm (itemsOf (GoMap.pairs m) ++ xs) := by
    intro xs
    induction xs with
    | nil =>
      intro m
      rw [foldl_nil, append_nil]
    | cons x xs ih =>
      intro m
      refine (ih (appendItem m x)).trans ?_
      rw [← singleton_append (l := xs), ← append_assoc]
      exact (perm_itemsOf_appendItem m x).append_right _
  exact hrun _ ∅

/-! ## Commit units -/

/-- `commitUnit`: items of one table, committed as one transaction. -/
structure CommitUnit where
  /-- The table. -/
  table : Text
  /-- The items. -/
  items : List KeyedText
  deriving DecidableEq, Repr

def adaptiveFanoutChunk : ℕ := 256

structure TableSplit where
  /-- The table. -/
  table : Text
  /-- The items. -/
  items : List KeyedText
  /-- The number of units. -/
  chunks : ℕ
  deriving DecidableEq, Repr

def TableSplit.ofTable (lanes : ℕ) (t : Text × List KeyedText) : TableSplit where
  table := t.1
  items := t.2
  chunks :=
    if 1 < lanes ∧ adaptiveFanoutChunk < t.2.length then
      min ((t.2.length + adaptiveFanoutChunk - 1) / adaptiveFanoutChunk) lanes
    else 1

def pickMostSplit (best : Option (ℕ × ℕ)) (s : TableSplit × ℕ) : Option (ℕ × ℕ) :=
  if 1 < s.1.chunks ∧ best.all (fun b => b.1 < s.1.chunks) then some (s.1.chunks, s.2) else best

def mostSplit (splits : List TableSplit) : Option ℕ :=
  (splits.zipIdx.foldl pickMostSplit none).map Prod.snd

def shrinkSplits : ℕ → List TableSplit → List TableSplit
  | 0, splits => splits
  | excess + 1, splits =>
    match mostSplit splits with
    -- every table is already one unit
    | none => splits
    | some i =>
      shrinkSplits excess (splits.modify i fun s => { s with chunks := s.chunks - 1 })

def sliceItems (chunk : ℕ) : ℕ → List KeyedText → List (List KeyedText)
  | 0, _ => []
  | fuel + 1, items =>
    if items = [] then [] else items.take chunk :: sliceItems chunk fuel (items.drop chunk)

def TableSplit.units (s : TableSplit) : List CommitUnit :=
  if s.chunks = 1 then [⟨s.table, s.items⟩]
  else
    let chunk := (s.items.length + s.chunks - 1) / s.chunks
    (sliceItems chunk s.items.length s.items).map fun items => ⟨s.table, items⟩

def buildCommitUnits (lanes : ℕ) (byTable : List (Text × List KeyedText)) : List CommitUnit :=
  let splits := (byTable.filter fun t => t.2 ≠ []).map (TableSplit.ofTable lanes)
  let total := (splits.map TableSplit.chunks).sum
  (shrinkSplits (total - lanes) splits).flatMap TableSplit.units

structure TableSplit.Valid (s : TableSplit) : Prop where
  /-- It is at least one unit. -/
  cut : 1 ≤ s.chunks
  /-- It has items. -/
  nonempty : s.items ≠ []

theorem TableSplit.valid_ofTable (lanes : ℕ) {t : Text × List KeyedText} (h : t.2 ≠ []) :
    (TableSplit.ofTable lanes t).Valid where
  cut := by
    rw [ofTable]
    dsimp only
    split
    · rename_i hsplit
      refine le_min ?_ (by omega)
      exact (Nat.one_le_div_iff (by decide)).mpr (by omega)
    · exact le_rfl
  nonempty := h

theorem mostSplit_eq_some {splits : List TableSplit} {i : ℕ} (h : mostSplit splits = some i) :
    ∃ s, splits[i]? = some s ∧ 1 < s.chunks := by
  have hfold : ∀ (l : List (TableSplit × ℕ)) (best : Option (ℕ × ℕ)) (b : ℕ × ℕ),
      l.foldl pickMostSplit best = some b →
        best = some b ∨ ∃ s ∈ l, 1 < s.1.chunks ∧ s.2 = b.2 := by
    intro l
    induction l with
    | nil => exact fun best b h => Or.inl h
    | cons s l ih =>
      intro best b h
      rw [foldl_cons] at h
      rcases ih _ b h with hb | ⟨s', hs', hb⟩
      · rw [pickMostSplit] at hb
        split at hb
        · rename_i hs
          exact Or.inr ⟨s, mem_cons_self, hs.1, by rw [← some.inj hb]⟩
        · exact Or.inl hb
      · exact Or.inr ⟨s', mem_cons_of_mem _ hs', hb⟩
  obtain ⟨b, hb, rfl⟩ := map_eq_some_iff.mp h
  rcases hfold _ _ _ hb with hnone | ⟨s, hs, hcut, hi⟩
  · cases hnone
  · exact ⟨s.1, hi ▸ mem_zipIdx_iff_getElem?.mp hs, hcut⟩

theorem shrinkSplits_spec {splits : List TableSplit} (h : ∀ s ∈ splits, s.Valid) (excess : ℕ) :
    (∀ s ∈ shrinkSplits excess splits, s.Valid) ∧
      (shrinkSplits excess splits).map (fun s => (s.table, s.items)) =
        splits.map fun s => (s.table, s.items) := by
  induction excess generalizing splits with
  | zero => exact ⟨h, rfl⟩
  | succ excess ih =>
    rw [shrinkSplits]
    split
    · exact ⟨h, rfl⟩
    · rename_i i hi
      obtain ⟨s, hs, hcut⟩ := mostSplit_eq_some hi
      have hvalid : ∀ s' ∈ splits.modify i fun s => { s with chunks := s.chunks - 1 },
          s'.Valid := by
        intro s' hs'
        obtain ⟨j, hj⟩ := mem_iff_getElem?.mp hs'
        rw [getElem?_modify] at hj
        obtain ⟨s'', hs'', rfl⟩ := map_eq_some_iff.mp hj
        have hold := h s'' (mem_of_getElem? hs'')
        split
        · rename_i hij
          rw [← hij, hs, some.injEq] at hs''
          subst hs''
          exact ⟨by dsimp only; omega, hold.nonempty⟩
        · exact hold
      refine ⟨(ih hvalid).1, (ih hvalid).2.trans ?_⟩
      ext1 j
      rw [getElem?_map, getElem?_map, getElem?_modify,
        Option.map_eq_map, Option.map_map]
      congr 1
      funext s'
      rw [Function.comp_apply]
      split <;> rfl

theorem sliceItems_spec {chunk : ℕ} (hchunk : 1 ≤ chunk) {fuel : ℕ} {items : List KeyedText}
    (hfuel : items.length ≤ fuel) :
    (sliceItems chunk fuel items).flatten = items ∧
      ∀ part ∈ sliceItems chunk fuel items, part ≠ [] := by
  induction fuel generalizing items with
  | zero =>
    rw [length_eq_zero_iff.mp (Nat.le_zero.mp hfuel)]
    simp [sliceItems]
  | succ fuel ih =>
    rw [sliceItems]
    split
    · rename_i hnil
      simp [hnil]
    · rename_i hne
      have hlen : (items.drop chunk).length ≤ fuel := by
        rw [length_drop]
        omega
      have hrest := ih hlen
      refine ⟨?_, forall_mem_cons.mpr ⟨?_, hrest.2⟩⟩
      · rw [flatten_cons, hrest.1, take_append_drop]
      · rw [Ne, take_eq_nil_iff, not_or]
        exact ⟨by omega, hne⟩

theorem TableSplit.Valid.units_spec {s : TableSplit} (h : s.Valid) :
    (∀ u ∈ s.units, u.table = s.table ∧ u.items ≠ []) ∧
      s.units.flatMap CommitUnit.items = s.items := by
  rw [units]
  split
  · simp [h.nonempty]
  · have hlen : 0 < s.items.length := length_pos_of_ne_nil h.nonempty
    have hcut := h.cut
    have hchunk : 1 ≤ (s.items.length + s.chunks - 1) / s.chunks :=
      (Nat.one_le_div_iff h.cut).mpr (by omega)
    obtain ⟨hflat, hne⟩ := sliceItems_spec hchunk (le_refl s.items.length)
    refine ⟨?_, ?_⟩
    · intro u hu
      obtain ⟨part, hpart, rfl⟩ := mem_map.mp hu
      exact ⟨rfl, hne part hpart⟩
    · rw [flatMap_map]
      exact flatMap_id'.trans hflat

def unitItems (units : List CommitUnit) : List (Text × KeyedText) :=
  units.flatMap fun u => u.items.map fun item => (u.table, item)

def finalSplits (lanes : ℕ) (byTable : List (Text × List KeyedText)) : List TableSplit :=
  let splits := (byTable.filter fun t => t.2 ≠ []).map (TableSplit.ofTable lanes)
  shrinkSplits ((splits.map TableSplit.chunks).sum - lanes) splits

theorem buildCommitUnits_eq (lanes : ℕ) (byTable : List (Text × List KeyedText)) :
    buildCommitUnits lanes byTable = (finalSplits lanes byTable).flatMap TableSplit.units := rfl

theorem finalSplits_spec (lanes : ℕ) (byTable : List (Text × List KeyedText)) :
    (∀ s ∈ finalSplits lanes byTable, s.Valid) ∧
      (finalSplits lanes byTable).map (fun s => (s.table, s.items)) =
        byTable.filter fun t => t.2 ≠ [] := by
  have hvalid : ∀ s ∈ (byTable.filter fun t => t.2 ≠ []).map (TableSplit.ofTable lanes),
      s.Valid := by
    intro s hs
    obtain ⟨t, ht, rfl⟩ := mem_map.mp hs
    exact TableSplit.valid_ofTable lanes (by simpa using (mem_filter.mp ht).2)
  obtain ⟨hcut, hitems⟩ := shrinkSplits_spec hvalid _
  refine ⟨hcut, hitems.trans ?_⟩
  rw [List.map_map]
  exact map_id _

theorem buildCommitUnits_spec (lanes : ℕ) (byTable : List (Text × List KeyedText)) :
    (∀ u ∈ buildCommitUnits lanes byTable, u.items ≠ []) ∧
      unitItems (buildCommitUnits lanes byTable) = itemsOf byTable := by
  obtain ⟨hcut, htables⟩ := finalSplits_spec lanes byTable
  rw [buildCommitUnits_eq]
  constructor
  · intro u hu
    obtain ⟨s, hs, hus⟩ := mem_flatMap.mp hu
    exact ((hcut s hs).units_spec.1 u hus).2
  · have hunits : ∀ s ∈ finalSplits lanes byTable,
        unitItems s.units = s.items.map fun item => (s.table, item) := by
      intro s hs
      obtain ⟨htable, hflat⟩ := (hcut s hs).units_spec
      rw [← hflat, unitItems, map_flatMap]
      exact flatMap_congr fun u hu => by rw [(htable u hu).1]
    calc unitItems ((finalSplits lanes byTable).flatMap TableSplit.units)
        = (finalSplits lanes byTable).flatMap fun s => s.items.map fun item => (s.table, item) := by
          rw [unitItems, flatMap_assoc]
          exact flatMap_congr hunits
      _ = itemsOf (byTable.filter fun t => t.2 ≠ []) := by
          rw [← htables, itemsOf, flatMap_map]
      _ = itemsOf byTable := itemsOf_filter byTable

theorem perm_unitItems {lanes : ℕ} {batch : List (Int × PendingUpdate)}
    {order : List (Text × List KeyedText)}
    (horder : order.Perm (GoMap.pairs (groupByTable batch))) :
    (unitItems (buildCommitUnits lanes order)).Perm
      (batch.filterMap fun p => p.2.keyedText p.1) := by
  rw [(buildCommitUnits_spec lanes order).2]
  exact (horder.flatMap_right _).trans (perm_itemsOf_groupByTable batch)

end GolangCollector
