import GolangCollector.Store.MemoryExpiry
import GolangCollector.Store.TargetDemotion

/-! # The embedded database backend

`DBBackend` (`store/dbbackend.go`) keeps the same tables in an embedded database and hands it
constraints as text. This file models its `query` and `invalidate` next to those of the in-memory
store.

The two differ in how a constraint becomes an expression: the store trims it, takes a literal `true`
for "no constraint" and demotes `TARGET` references, while the database parses the text as it
stands. An invalidation by `true` removes one ad in the store and every ad in the database. -/

namespace GolangCollector

open GoStrings List Option AList

/-! ## The database -/

def Table.dbQuery (lib : Library) (tab : Table) (constraint : Text) :
    Except StoreError (List ClassAd) :=
  match lib.parseExpr constraint with
  | none => .error (.badConstraint constraint)
  | some e => .ok (tab.scan.filter (lib.selects e))

def Table.dbDeleteWhere (lib : Library) (tab : Table) (constraint : Text) :
    Except StoreError (Table × ℕ) :=
  match lib.parseExpr constraint with
  | none => .error (.badConstraint constraint)
  | some e => .ok (GoMap.deleteWhere tab fun _ ad => lib.selects e ad)

def dbConstraint (constraint : Text) : Text :=
  if constraint = [] then "true" else constraint

/-- The embedded database backend. -/
structure DBBackend where
  /-- The database tables. -/
  tables : Tables
  /-- The lifetime of an ad that carries none of its own. -/
  defaultLifetime : Int

def Store.toDB (s : Store) : DBBackend := ⟨s.cols, s.defaultLifetime⟩

namespace DBBackend

variable (lib : Library) (b : DBBackend)

def queryTables (constraint : Text) : List AdType → List ClassAd
  | [] => []
  | t :: ts =>
    match (b.tables t).dbQuery lib constraint with
    | .error _ => []
    | .ok ads => ads ++ queryTables constraint ts

def query (t : AdType) (constraint : Text) : Except StoreError (List ClassAd) :=
  if t = .anyAd then
    (parseConstraint lib constraint).map fun _ =>
      b.queryTables lib (dbConstraint constraint) AdType.publicTypes
  else (b.tables t).dbQuery lib (dbConstraint constraint)

def deleteKey (t : AdType) (key : Text) : DBBackend × ℕ :=
  let removed := removeKeys b.tables t [key]
  ({ b with tables := removed.1 }, removed.2)

def invalidate (t : AdType) (constraint : Text) (keyAd : Option ClassAd) :
    Except StoreError (DBBackend × ℕ) :=
  if t = .anyAd then .ok (b, 0)
  else if constraint = [] then
    match keyAd with
    | none => .ok (b, 0)
    | some ad =>
      match hashKey lib.eval t ad with
      | none => .ok (b, 0)
      | some key => .ok (b.deleteKey t key)
  else if t ≠ .startdAd then
    ((b.tables t).dbDeleteWhere lib (dbConstraint constraint)).map fun removed =>
      ({ b with tables := Function.update b.tables t removed.1 }, removed.2)
  else
    ((b.tables t).dbQuery lib (dbConstraint constraint)).map fun ads =>
      let removed := removeKeys b.tables t (ads.filterMap (hashKey lib.eval .startdAd))
      ({ b with tables := removed.1 }, removed.2)

end DBBackend

/-! ## What the parser is assumed to do -/

structure Library.ReadsConstraints (lib : Library) : Prop where
  /-- Outer spaces do not matter. -/
  trims : ∀ s, lib.parseExpr (trimSpace s) = lib.parseExpr s
  /-- Blank text is no expression. -/
  blank : lib.parseExpr [] = none
  /-- `true` is true, in any case and for every ad. -/
  literalTrue : ∀ s, isLiteralTrue s →
    ∃ e, lib.parseExpr s = some e ∧ ∀ ad, lib.eval ad e = .bool true

def Library.Accepts (lib : Library) (constraint : Text) : Prop :=
  constraint = [] ∨ (lib.parseExpr constraint).isSome

structure Compiled (lib : Library) (constraint : Text) (q : Option Expr) (e : Expr) : Prop where
  /-- What the store compiles. -/
  store : parseConstraint lib constraint = .ok q
  /-- What the database parses. -/
  db : lib.parseExpr (dbConstraint constraint) = some e

section Compile

variable {lib : Library} (hlib : lib.ReadsConstraints) {constraint : Text}

include hlib

theorem compiled_everything (h : constraint = [] ∨ isLiteralTrue constraint) :
    ∃ e, Compiled lib constraint none e ∧ ∀ ad, lib.selects e ad := by
  have hstore : parseConstraint lib constraint = .ok none := by
    rw [parseConstraint, if_pos]
    rcases h with rfl | h
    · exact Or.inl rfl
    · exact Or.inr h
  rcases h with rfl | h
  · obtain ⟨e, hparse, heval⟩ := hlib.literalTrue "true" (by decide)
    exact ⟨e, ⟨hstore, hparse⟩, fun ad => by simp [Library.selects, heval ad]⟩
  · obtain ⟨e, hparse, heval⟩ := hlib.literalTrue _ h
    have hne : constraint ≠ [] := by rintro rfl; exact absurd h (by decide)
    refine ⟨e, ⟨hstore, ?_⟩, fun ad => by simp [Library.selects, heval ad]⟩
    rw [dbConstraint, if_neg hne, hparse]

variable {e : Expr}

theorem compiled_expression (hne : constraint ≠ []) (htrue : ¬ isLiteralTrue constraint)
    (hparse : lib.parseExpr constraint = some e) :
    Compiled lib constraint (some e.demoteTargetToSelf) e := by
  have hblank : trimSpace constraint ≠ [] := by
    intro hblank
    rw [← hlib.trims, hblank, hlib.blank] at hparse
    cases hparse
  constructor
  · rw [parseConstraint, if_neg (not_or.mpr ⟨hblank, htrue⟩), hlib.trims, hparse]
  · rw [dbConstraint, if_neg hne, hparse]

end Compile

/-! ## Queries -/

theorem AdType.ne_anyAd_of_mem_visited {t t' : AdType} (h : t' ∈ t.visited) : t' ≠ .anyAd := by
  revert h
  cases t <;> cases t' <;> decide

theorem flatMap_filter_eq_iff {α β : Type} (f : α → List β) (p q : β → Bool) (l : List α) :
    l.flatMap (fun a => (f a).filter p) = l.flatMap (fun a => (f a).filter q) ↔
      ∀ a ∈ l, ∀ b ∈ f a, p b = q b := by
  constructor
  · intro h a ha b hb
    -- an element selected on one side is selected on the other, possibly from another table
    have hiff : p b = true ↔ q b = true := by
      constructor
      · intro hp
        have hmem : b ∈ l.flatMap (fun a => (f a).filter q) :=
          h ▸ mem_flatMap.mpr ⟨a, ha, mem_filter.mpr ⟨hb, hp⟩⟩
        obtain ⟨a', -, hb'⟩ := mem_flatMap.mp hmem
        exact (mem_filter.mp hb').2
      · intro hq
        have hmem : b ∈ l.flatMap (fun a => (f a).filter p) :=
          h ▸ mem_flatMap.mpr ⟨a, ha, mem_filter.mpr ⟨hb, hq⟩⟩
        obtain ⟨a', -, hb'⟩ := mem_flatMap.mp hmem
        exact (mem_filter.mp hb').2
    exact Bool.eq_iff_iff.mpr hiff
  · intro h
    refine flatMap_congr fun a ha => filter_congr fun b hb => h a ha b hb

section Compare

variable {lib : Library} {constraint : Text} {q : Option Expr} {e : Expr}

section

variable (h : Compiled lib constraint q e)
include h

theorem Store.query_eq (s : Store) (t : AdType) :
    s.query lib t constraint =
      .ok (t.visited.flatMap fun t' => (s.cols t').scan.filter (lib.satisfies q)) := by
  have hone : ∀ t', t' ≠ .anyAd →
      s.queryOne lib t' q = (s.cols t').scan.filter (lib.satisfies q) :=
    fun t' ht' => by rw [Store.queryOne, if_neg ht']
  rw [Store.query, h.store, Except.map, Store.queryCompiled, AdType.visited]
  split
  · exact congrArg Except.ok (flatMap_congr fun t' ht' =>
      hone t' (AdType.ne_anyAd_of_mem_visited (t := .anyAd) ht'))
  · rw [flatMap_singleton, hone t ‹_›]

theorem DBBackend.query_eq (b : DBBackend) (t : AdType) :
    b.query lib t constraint =
      .ok (t.visited.flatMap fun t' => (b.tables t').scan.filter (lib.selects e)) := by
  have hone : ∀ t', (b.tables t').dbQuery lib (dbConstraint constraint) =
      .ok ((b.tables t').scan.filter (lib.selects e)) := fun t' => by rw [Table.dbQuery, h.db]
  have hloop : ∀ ts, b.queryTables lib (dbConstraint constraint) ts =
      ts.flatMap fun t' => (b.tables t').scan.filter (lib.selects e) := by
    intro ts
    induction ts with
    | nil => rfl
    | cons t' ts ih => rw [DBBackend.queryTables, hone, ih, flatMap_cons]
  rw [DBBackend.query, AdType.visited]
  split
  · rw [h.store, Except.map, hloop]
  · rw [hone, flatMap_singleton]

theorem query_eq_iff (s : Store) (t : AdType) :
    s.query lib t constraint = s.toDB.query lib t constraint ↔
      ∀ t' ∈ t.visited, ∀ ad ∈ (s.cols t').scan, lib.satisfies q ad = lib.selects e ad := by
  rw [Store.query_eq h, DBBackend.query_eq h, Except.ok.injEq]
  exact flatMap_filter_eq_iff (fun t' => (s.cols t').scan) _ _ _

end

end Compare

/-! ## Invalidations -/

def SameRemoval :
    Except StoreError (Store × ℕ) → Except StoreError (DBBackend × ℕ) → Prop
  | .ok (s, n), .ok (b, m) => (∀ t k, (s.cols t).lookup k = (b.tables t).lookup k) ∧ n = m
  | _, _ => False

theorem removeKeys_agree_iff (cols : Tables) (t : AdType) (keys keys' : List Text) :
    ((∀ t' k, ((removeKeys cols t keys).1 t').lookup k =
        ((removeKeys cols t keys').1 t').lookup k) ∧
      (removeKeys cols t keys).2 = (removeKeys cols t keys').2) ↔
    ∀ t', shadows t t' → ∀ k ∈ cols t', (k ∈ keys ↔ k ∈ keys') := by
  constructor
  · rintro ⟨hlookup, -⟩ t' hshadow k hk
    have hne : (cols t').lookup k ≠ none := fun hnone => lookup_eq_none.mp hnone hk
    have hlook := hlookup t' k
    rw [lookup_removeKeys, lookup_removeKeys] at hlook
    -- a stored key that only one removal lists is looked up differently afterwards
    by_cases hkeys : k ∈ keys <;> by_cases hkeys' : k ∈ keys' <;> simp_all
  · intro h
    have hlookup : ∀ t' k, ((removeKeys cols t keys).1 t').lookup k =
        ((removeKeys cols t keys').1 t').lookup k := by
      intro t' k
      rw [lookup_removeKeys, lookup_removeKeys]
      by_cases hshadow : shadows t t'
      · by_cases hk : k ∈ cols t'
        · simp only [h t' hshadow k hk]
        · simp [lookup_eq_none.mpr hk]
      · simp [hshadow]
    -- the same is left of table `t`, so the counts agree too
    have hself : shadows t t := by simp [shadows]
    refine ⟨hlookup, GoMap.count_eq_of_lookup_eq (GoMap.deleteKeys_count (cols t) keys)
      (GoMap.deleteKeys_count (cols t) keys') fun k => ?_⟩
    simpa [removeKeys, hself] using hlookup t k

section Compare

variable {lib : Library} {constraint : Text} {q : Option Expr} {e : Expr}

def DBBackend.invalidatedKeys (lib : Library) (b : DBBackend) (t : AdType) (constraint : Text)
    (e : Expr) (keyAd : Option ClassAd) : List Text :=
  if constraint = [] then (keyAd.bind (hashKey lib.eval t)).toList
  else (b.tables t).keysWhere lib t (lib.selects e)

variable {s : Store}

theorem Store.Keyed.deleteWhere_eq (hs : s.Keyed lib) (t : AdType) (p : ClassAd → Bool) :
    (∀ k, (GoMap.deleteWhere (s.cols t) fun _ ad => p ad).1.lookup k =
      ((s.cols t).deleteKeys ((s.cols t).keysWhere lib t p)).1.lookup k) ∧
    (GoMap.deleteWhere (s.cols t) fun _ ad => p ad).2 =
      ((s.cols t).deleteKeys ((s.cols t).keysWhere lib t p)).2 := by
  have hlookup : ∀ k, (GoMap.deleteWhere (s.cols t) fun _ ad => p ad).1.lookup k =
      ((s.cols t).deleteKeys ((s.cols t).keysWhere lib t p)).1.lookup k := by
    intro k
    rw [GoMap.lookup_deleteWhere, GoMap.lookup_deleteKeys]
    simp only [hs.mem_keysWhere_iff]
    cases hk : (s.cols t).lookup k with
    | none => simp
    | some ad => cases hp : p ad <;> simp [hp]
  exact ⟨hlookup, GoMap.count_eq_of_lookup_eq (GoMap.deleteWhere_count _ _)
    (GoMap.deleteKeys_count _ _) hlookup⟩

variable {t : AdType}

theorem DBBackend.invalidate_eq (h : Compiled lib constraint q e) (hs : s.Keyed lib)
    (ht : t ≠ .anyAd) (keyAd : Option ClassAd) :
    ∃ b n, s.toDB.invalidate lib t constraint keyAd = .ok (b, n) ∧
      (∀ t' k, (b.tables t').lookup k = ((removeKeys s.cols t
        (s.toDB.invalidatedKeys lib t constraint e keyAd)).1 t').lookup k) ∧
      n = (removeKeys s.cols t (s.toDB.invalidatedKeys lib t constraint e keyAd)).2 := by
  unfold DBBackend.invalidate DBBackend.invalidatedKeys
  rw [if_neg ht]
  by_cases hempty : constraint = []
  · rw [if_pos hempty, if_pos hempty]
    have hnothing : ∀ t' k, (s.cols t').lookup k = ((removeKeys s.cols t []).1 t').lookup k :=
      fun t' k => by simp [lookup_removeKeys]
    cases keyAd with
    | none => exact ⟨s.toDB, 0, rfl, hnothing, rfl⟩
    | some ad =>
      cases hkey : hashKey lib.eval t ad with
      | none =>
        simp only [bind_some, hkey]
        exact ⟨s.toDB, 0, rfl, hnothing, rfl⟩
      | some key =>
        simp only [bind_some, hkey]
        exact ⟨(s.toDB.deleteKey t key).1, (s.toDB.deleteKey t key).2, rfl, fun _ _ => rfl, rfl⟩
  · rw [if_neg hempty, if_neg hempty]
    by_cases hstartd : t = .startdAd
    · -- the startd table: query, then delete key by key in both tables
      subst hstartd
      rw [if_neg (by simp), Table.dbQuery, h.db]
      exact ⟨_, _, rfl, fun _ _ => rfl, rfl⟩
    · -- any other table has no shadow, and is deleted from by predicate
      rw [if_pos hstartd, Table.dbDeleteWhere, h.db]
      obtain ⟨hlookup, hcount⟩ := hs.deleteWhere_eq t (lib.selects e)
      refine ⟨_, _, rfl, fun t' k => ?_, hcount⟩
      by_cases htt : t' = t
      · subst htt
        simp only [Function.update_self, removeKeys, shadows, decide_true, Bool.true_or, if_true]
        exact hlookup k
      · have hshadow : ¬ shadows t t' := by simp [shadows, htt, hstartd]
        simp only [Function.update_of_ne htt, removeKeys, if_neg hshadow]
        rfl

theorem invalidate_agree_iff (h : Compiled lib constraint q e) (hs : s.Keyed lib) (ht : t ≠ .anyAd)
    (keyAd : Option ClassAd) :
    SameRemoval (s.invalidate lib t constraint keyAd) (s.toDB.invalidate lib t constraint keyAd) ↔
      ∀ t', shadows t t' → ∀ k ∈ s.cols t',
        (k ∈ s.invalidatedKeys lib t q keyAd ↔
          k ∈ s.toDB.invalidatedKeys lib t constraint e keyAd) := by
  obtain ⟨b, n, hdb, hlookup, hcount⟩ := DBBackend.invalidate_eq h hs ht keyAd
  rw [Store.invalidate, h.store, Except.map, if_neg ht, hdb, SameRemoval,
    ← removeKeys_agree_iff]
  simp only [hlookup, hcount]

end Compare

/-! ## The exact condition -/

def namedKey (lib : Library) (t : AdType) (keyAd : Option ClassAd) : Option Text :=
  keyAd.bind (hashKey lib.eval t)

def ConstraintsAgree (lib : Library) (s : Store) (t : AdType) (constraint : Text)
    (keyAd : Option ClassAd) : Prop :=
  if constraint = [] then True
  else if isLiteralTrue constraint then
    t ≠ .anyAd →
      (∀ k ∈ s.cols t, namedKey lib t keyAd = some k) ∧
        (t = .startdAd → ∀ k ∈ s.cols .startdPvtAd, namedKey lib t keyAd = some k →
          k ∈ s.cols .startdAd)
  else
    ∀ e, lib.parseExpr constraint = some e → ∀ t' ∈ t.visited, ∀ ad ∈ (s.cols t').scan,
      lib.selects e.demoteTargetToSelf ad = lib.selects e ad

def BackendsAgree (lib : Library) (s : Store) (t : AdType) (constraint : Text)
    (keyAd : Option ClassAd) : Prop :=
  s.query lib t constraint = s.toDB.query lib t constraint ∧
    SameRemoval (s.invalidate lib t constraint keyAd) (s.toDB.invalidate lib t constraint keyAd)

section Condition

variable {lib : Library} {s : Store} {t : AdType} {constraint : Text} {keyAd : Option ClassAd}

theorem sameRemoval_anyAd {q : Option Expr} (h : Compiled lib constraint q e) :
    SameRemoval (s.invalidate lib .anyAd constraint keyAd)
      (s.toDB.invalidate lib .anyAd constraint keyAd) := by
  rw [Store.invalidate, h.store]
  exact ⟨fun _ _ => rfl, rfl⟩

theorem query_agree_of_everything (h : Compiled lib constraint none e)
    (heverything : ∀ ad, lib.selects e ad) :
    s.query lib t constraint = s.toDB.query lib t constraint := by
  rw [query_eq_iff h]
  intro t' _ ad _
  rw [heverything ad, Library.satisfies]

theorem Store.Keyed.mem_keysWhere_all (hs : s.Keyed lib) {p : ClassAd → Bool} (hp : ∀ ad, p ad)
    {k : Text} : k ∈ (s.cols t).keysWhere lib t p ↔ k ∈ s.cols t := by
  rw [hs.mem_keysWhere_iff, ← lookup_isSome, isSome_iff_exists]
  simp [hp]

theorem literalTrue_agree_iff (hs : s.Keyed lib) (hne : constraint ≠ []) (ht : t ≠ .anyAd)
    (h : Compiled lib constraint none e) (heverything : ∀ ad, lib.selects e ad) :
    SameRemoval (s.invalidate lib t constraint keyAd)
        (s.toDB.invalidate lib t constraint keyAd) ↔
      (∀ k ∈ s.cols t, namedKey lib t keyAd = some k) ∧
        (t = .startdAd → ∀ k ∈ s.cols .startdPvtAd, namedKey lib t keyAd = some k →
          k ∈ s.cols .startdAd) := by
  have hstore : ∀ k, k ∈ s.invalidatedKeys lib t none keyAd ↔ namedKey lib t keyAd = some k := by
    intro k
    rw [Store.invalidatedKeys, mem_toList, namedKey]
  have hdb : ∀ k, k ∈ s.toDB.invalidatedKeys lib t constraint e keyAd ↔ k ∈ s.cols t := by
    intro k
    rw [DBBackend.invalidatedKeys, if_neg hne]
    exact hs.mem_keysWhere_all heverything
  rw [invalidate_agree_iff h hs ht]
  simp only [hstore, hdb]
  constructor
  · intro hagree
    constructor
    · intro k hk
      exact (hagree t (by simp [shadows]) k hk).mpr hk
    · rintro rfl k hk hnamed
      exact (hagree .startdPvtAd (by decide) k hk).mp hnamed
  · -- the table itself, and for the startd table its shadow
    rintro ⟨htable, hshadow⟩ t' hsh k hk
    refine ⟨fun hnamed => ?_, fun hmem => htable k hmem⟩
    rcases Bool.or_eq_true_iff.mp hsh with heq | hpvt
    · exact of_decide_eq_true heq ▸ hk
    · rw [Bool.and_eq_true, decide_eq_true_iff, decide_eq_true_iff] at hpvt
      obtain ⟨rfl, rfl⟩ := hpvt
      exact hshadow rfl k hk hnamed

theorem expression_agree_iff (hs : s.Keyed lib) (hne : constraint ≠ []) (ht : t ≠ .anyAd)
    {e e' : Expr} (h : Compiled lib constraint (some e') e) :
    SameRemoval (s.invalidate lib t constraint keyAd)
        (s.toDB.invalidate lib t constraint keyAd) ↔
      ∀ ad ∈ (s.cols t).scan, lib.selects e' ad = lib.selects e ad := by
  have hstore : s.invalidatedKeys lib t (some e') keyAd =
      (s.cols t).keysWhere lib t (lib.selects e') := by
    rw [Store.invalidatedKeys, Store.queryOne, if_neg ht]
    rfl
  have hdb : s.toDB.invalidatedKeys lib t constraint e keyAd =
      (s.cols t).keysWhere lib t (lib.selects e) := by
    rw [DBBackend.invalidatedKeys, if_neg hne]
    rfl
  rw [invalidate_agree_iff h hs ht, hstore, hdb]
  simp only [hs.mem_keysWhere_iff]
  constructor
  · intro hagree ad had
    obtain ⟨k, hk⟩ := Table.mem_scan_iff.mp had
    have hmem : k ∈ s.cols t := lookup_isSome.mp (by rw [hk]; rfl)
    have hiff := hagree t (by simp [shadows]) k hmem
    rw [hk] at hiff
    exact Bool.eq_iff_iff.mpr (by simpa using hiff)
  · intro hagree t' _ k _
    refine exists_congr fun ad => and_congr_right fun hk => ?_
    rw [hagree ad (Table.mem_scan_iff.mpr ⟨k, hk⟩)]

end Condition

/-- **The backends agree on a constraint exactly under `ConstraintsAgree`**. -/
theorem backends_agree_iff (lib : Library) (hlib : lib.ReadsConstraints) (s : Store)
    (hs : s.Keyed lib) (t : AdType) (constraint : Text) (hc : lib.Accepts constraint)
    (keyAd : Option ClassAd) :
    BackendsAgree lib s t constraint keyAd ↔ ConstraintsAgree lib s t constraint keyAd := by
  rw [BackendsAgree, ConstraintsAgree]
  by_cases hempty : constraint = []
  · obtain ⟨e, h, heverything⟩ := compiled_everything hlib (Or.inl hempty)
    rw [if_pos hempty, iff_true]
    refine ⟨query_agree_of_everything h heverything, ?_⟩
    by_cases ht : t = .anyAd
    · exact ht ▸ sameRemoval_anyAd h
    · rw [invalidate_agree_iff h hs ht, DBBackend.invalidatedKeys, if_pos hempty]
      exact fun _ _ _ _ => Iff.rfl
  · rw [if_neg hempty]
    by_cases htrue : isLiteralTrue constraint
    · obtain ⟨e, h, heverything⟩ := compiled_everything hlib (Or.inr htrue)
      rw [if_pos htrue, and_iff_right (query_agree_of_everything h heverything)]
      by_cases ht : t = .anyAd
      · exact iff_of_true (ht ▸ sameRemoval_anyAd h) fun hne => absurd ht hne
      · rw [literalTrue_agree_iff hs hempty ht h heverything]
        exact ⟨fun hcond _ => hcond, fun hcond => hcond ht⟩
    · rw [if_neg htrue]
      obtain ⟨e, hparse⟩ := isSome_iff_exists.mp (hc.resolve_left hempty)
      have h := compiled_expression hlib hempty htrue hparse
      have hquery := query_eq_iff h s t
      simp only [hparse, some.injEq, forall_eq']
      rw [hquery]
      -- the queries' condition is also enough for the invalidations
      refine and_iff_left_of_imp fun hcond => ?_
      by_cases ht : t = .anyAd
      · exact ht ▸ sameRemoval_anyAd h
      · rw [expression_agree_iff hs hempty ht h]
        exact hcond t (by rw [AdType.visited, if_neg ht]; exact mem_singleton_self t)

theorem constraintsAgree_of_targetFree {lib : Library} {constraint : Text}
    {keyAd : Option ClassAd} (htrue : ¬ isLiteralTrue constraint)
    (h : ∀ e, lib.parseExpr constraint = some e → e.targetFree) :
    ConstraintsAgree lib s t constraint keyAd := by
  rw [ConstraintsAgree]
  split
  · trivial
  · intro e hparse _ _ ad _
    rw [Expr.demoteTargetToSelf_of_targetFree e (h e hparse)]

theorem constraintsAgree_of_lacksTarget {lib : Library}
    {constraint : Text} {keyAd : Option ClassAd} (htrue : ¬ isLiteralTrue constraint) {V : Type}
    {sem : Semantics V} {depth : ℕ} {value : V → Value}
    (heval : ∀ ad e, lib.eval ad e = value (ad.evalAgainst sem depth none [] e))
    (h : ∀ e, lib.parseExpr constraint = some e → ∀ r ∈ e.refsIn [], r.Uncaptured ∧
      ∀ t' ∈ t.visited, ∀ ad ∈ (s.cols t').scan, r.LacksTarget ad) :
    ConstraintsAgree lib s t constraint keyAd := by
  rw [ConstraintsAgree]
  split
  · trivial
  · intro e hparse t' ht' ad had
    rw [Library.selects, Library.selects, heval, heval]
    rw [show ad.evalAgainst sem depth none [] e.demoteTargetToSelf = _ from
      ad.evalAgainst_demoteTargetToSelf (p := fun r => r.Uncaptured ∧ r.LacksTarget ad)
        sem (fun _ _ _ (_ : True) _ => rfl)
        (fun r hr => ⟨hr.1, fun _ => trivial, fun hscope => .inr ⟨rfl, hr.2 hscope⟩⟩) depth [] e
        trivial fun r hr => ⟨(h e hparse r hr).1, (h e hparse r hr).2 t' ht' ad had⟩]

/-! ## A library of references -/

def parseReference (s : Text) : Option Expr :=
  if trimSpace s = [] then none
  else if isLiteralTrue s then some (.lit (.bool true))
  else if "TARGET.".toList.isPrefixOf (trimSpace s) then
    some (.attributeReference .targetScope ((trimSpace s).drop 7))
  else some (.attributeReference .noScope (trimSpace s))

def evalReference : Evaluator
  | _, .lit v => v
  | ad, .attributeReference .noScope name =>
    match ad.lookup name with
    | some (.lit v) => v
    | _ => .undefined
  | _, _ => .undefined

def referenceLibrary : Library := ⟨parseReference, evalReference, .firstWins⟩

theorem referenceLibrary_readsConstraints : referenceLibrary.ReadsConstraints where
  trims := by
    intro s
    show parseReference (trimSpace s) = parseReference s
    rw [parseReference, parseReference, isLiteralTrue, isLiteralTrue, trimSpace_trimSpace]
  blank := by decide
  literalTrue := by
    intro s h
    refine ⟨.lit (.bool true), ?_, fun ad => rfl⟩
    have hne : trimSpace s ≠ [] := by
      intro hnil
      rw [isLiteralTrue, hnil] at h
      exact absurd h (by decide)
    show parseReference s = _
    rw [parseReference, if_neg hne, if_pos h]

def busyAd : ClassAd :=
  ⟨[(attrName, .lit (.str "slot1@a")), ("Busy", .lit (.bool true))]⟩

def busyStore : Store :=
  Store.new.setCol .masterAd ((∅ : Table).insert "slot1@a\x00" busyAd)

theorem busyStore_keyed : busyStore.Keyed referenceLibrary := by
  intro t k ad h
  rcases StoreOp.lookup_setCol_insert (s := Store.new) h with hold | hnew
  · simp [Store.new] at hold
  · cases hnew
    decide

theorem backends_agree_busy :
    BackendsAgree referenceLibrary busyStore .masterAd "Busy" none :=
  (backends_agree_iff referenceLibrary referenceLibrary_readsConstraints busyStore busyStore_keyed
    .masterAd "Busy".toList (Or.inr (by decide)) none).mpr
    (constraintsAgree_of_targetFree (by decide) fun e he => by
      cases (show some (Expr.attributeReference .noScope "Busy".toList) = some e from he)
      decide)

theorem backends_disagree :
    ¬ BackendsAgree referenceLibrary busyStore .masterAd "TARGET.Busy" none ∧
      ¬ BackendsAgree referenceLibrary busyStore .masterAd "true" none := by
  constructor
  · rintro ⟨hquery, -⟩
    exact absurd hquery (by decide)
  · rintro ⟨-, -, hcount⟩
    exact absurd hcount (by decide)

end GolangCollector
