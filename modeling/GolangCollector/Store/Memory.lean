import GolangCollector.Lib.GoMap
import GolangCollector.Store.Constraint
import GolangCollector.Store.TextKey

/-! # The in-memory store

`Store` (`store/store.go`) holds one collection per storage table: a map from an ad's key to the ad.
This file models its operations: the three updates, `query`, `get`, `invalidate`, `expire` and
`len`. The clock is the argument `now`, the classad library the argument `lib`; a collection is a
`GoMap`, and the text updates parse what they are given (`Table.updateOld`) and fail where it does
not parse.

What the operations share with the embedded database backend stands first: the texts they build
(`stampText`, `pvtAdText`) and the removal of a list of keys together with a startd's private ads
(`removeKeys`). -/

namespace GolangCollector

open GoStrings GoInt List

/-! ## Tables -/

abbrev Table := GoMap Text ClassAd

abbrev Tables := AdType → Table

def Table.scan (tab : Table) : List ClassAd := (GoMap.pairs tab).map Prod.snd

def Table.updateOld (lib : Library) (tab : Table) (key text : Text) : Except StoreError Table :=
  match parseOld lib text with
  | none => .error (.badText text)
  | some ad => .ok (tab.insert key ad)

def Table.keysWhere (lib : Library) (t : AdType) (tab : Table) (p : ClassAd → Bool) : List Text :=
  (tab.scan.filter p).filterMap (hashKey lib.eval t)

theorem Table.mem_scan_iff {tab : Table} {ad : ClassAd} :
    ad ∈ tab.scan ↔ ∃ k, tab.lookup k = some ad := by
  rw [scan, mem_map]
  constructor
  · rintro ⟨⟨k, ad'⟩, hmem, rfl⟩
    exact ⟨k, GoMap.mem_pairs_iff.mp hmem⟩
  · rintro ⟨k, hk⟩
    exact ⟨(k, ad), GoMap.mem_pairs_iff.mpr hk, rfl⟩

theorem Table.mem_keysWhere_iff {lib : Library} {t : AdType} {tab : Table} {p : ClassAd → Bool}
    {k : Text} :
    k ∈ tab.keysWhere lib t p ↔
      ∃ k' ad, tab.lookup k' = some ad ∧ p ad ∧ hashKey lib.eval t ad = some k := by
  rw [keysWhere, mem_filterMap]
  constructor
  · rintro ⟨ad, hmem, hkey⟩
    rw [mem_filter, Table.mem_scan_iff] at hmem
    obtain ⟨⟨k', hk'⟩, hp⟩ := hmem
    exact ⟨k', ad, hk', hp, hkey⟩
  · rintro ⟨k', ad, hk', hp, hkey⟩
    exact ⟨ad, mem_filter.mpr ⟨Table.mem_scan_iff.mpr ⟨k', hk'⟩, hp⟩, hkey⟩

/-! ## Texts -/

def stampText (text : Text) (now : Int) : Text :=
  endLine text ++ attrLastHeardFrom ++ " = " ++ formatInt now ++ ['\n']

theorem attrLines_stampText (text : Text) (now : Int) :
    attrLines (stampText text now) = attrLines text ++ [(attrLastHeardFrom, formatInt now)] := by
  -- the appended line holds no newline of its own, so it is one line
  have hline : '\n' ∉ attrLastHeardFrom ++ " = " ++ formatInt now := by
    intro hmem
    rcases mem_append.mp hmem with h | h
    · exact absurd h (by decide)
    · rcases mem_formatInt h with hd | hd <;> exact absurd hd (by decide)
  have hcut : cut '=' (attrLastHeardFrom ++ " = " ++ formatInt now) =
      some (attrLastHeardFrom ++ [' '], ' ' :: formatInt now) :=
    cut_eq_some_iff.mpr ⟨rfl, by decide⟩
  have hname : trimSpace (attrLastHeardFrom ++ [' ']) = attrLastHeardFrom := by decide
  have hvalue : trimSpace (' ' :: formatInt now) = formatInt now := by
    rw [trimSpace, dropWhile_cons_of_pos (by decide)]
    exact trimSpace_of_trimmed (trimmed_formatInt now)
  have hsplit : splitLine (attrLastHeardFrom ++ " = " ++ formatInt now) =
      some (attrLastHeardFrom, formatInt now) := by
    rw [splitLine, hcut, Option.map_some, hname, hvalue]
  have hlast : attrLines (attrLastHeardFrom ++ " = " ++ formatInt now ++ ['\n']) =
      [(attrLastHeardFrom, formatInt now)] := by
    rw [attrLines, lines_line_append hline, filterMap_cons, hsplit]
    rfl
  rw [stampText, append_assoc, append_assoc, append_assoc, attrLines_endLine_append,
    ← append_assoc, ← append_assoc, hlast]

theorem sourceBy_stampText (rule : DuplicateRule) (text attr : Text) (now : Int) :
    sourceBy rule (stampText text now) attr =
      if toLower attr = toLower attrLastHeardFrom then
        match rule with
        | .firstWins => (sourceBy rule text attr).or (some (formatInt now))
        | .lastWins => some (formatInt now)
      else sourceBy rule text attr := by
  rw [sourceBy, attrLines_stampText, sourceIn_append]
  by_cases hattr : toLower attr = toLower attrLastHeardFrom
  · cases rule <;> simp [hattr, sourceIn, sourceBy]
  · cases rule <;> simp [hattr, Ne.symm hattr, sourceIn, sourceBy]

def copyAttrLine (want : List Text) (acc : List Text × Text) (line : Text) : List Text × Text :=
  match cut '=' line with
  | none => acc
  | some (name, _) =>
    let name := toLower (trimSpace name)
    if name ∈ want ∧ name ∉ acc.1 then
      (name :: acc.1, acc.2 ++ line.rdropWhile (· = '\r') ++ ['\n'])
    else acc

def copyAttrLines (text : Text) (attrs : List Text) : Text :=
  ((lines text).foldl (copyAttrLine (attrs.map toLower)) ([], [])).2

def identityAttrs : List Text := [attrName, attrMyAddress, attrMyType]

def pvtBody (publicText pvtText : Text) : Text :=
  copyAttrLines publicText identityAttrs ++ endLine pvtText

def pvtAdText (publicText pvtText : Text) (now : Int) : Text :=
  stampText (pvtBody publicText pvtText) now

/-! ## Removing keys -/

def shadows (t t' : AdType) : Bool := t' = t || (t = .startdAd && t' = .startdPvtAd)

def removeKeys (cols : Tables) (t : AdType) (keys : List Text) : Tables × ℕ :=
  (fun t' => if shadows t t' then ((cols t').deleteKeys keys).1 else cols t',
    ((cols t).deleteKeys keys).2)

theorem lookup_removeKeys (cols : Tables) (t t' : AdType) (keys : List Text) (k : Text) :
    ((removeKeys cols t keys).1 t').lookup k =
      if shadows t t' ∧ k ∈ keys then none else (cols t').lookup k := by
  rw [removeKeys]
  by_cases hshadow : shadows t t'
  · simp [hshadow, GoMap.lookup_deleteKeys]
  · simp [hshadow]

/-! ## The store -/

def DefaultLifetime : Int := 900

/-- The in-memory store. -/
structure Store where
  /-- The collections. -/
  cols : Tables
  /-- The lifetime of an ad that carries none of its own. -/
  defaultLifetime : Int

namespace Store

def new : Store := ⟨fun _ => ∅, DefaultLifetime⟩

def setCol (s : Store) (t : AdType) (tab : Table) : Store :=
  { s with cols := Function.update s.cols t tab }

variable (lib : Library) (now : Int) (s : Store)

def update (t : AdType) (ad : ClassAd) : Except StoreError Store :=
  if t = .anyAd then .error (.notStorageTable t.name)
  else
    match hashKey lib.eval t ad with
    | none => .error (.noKey t.name)
    | some key =>
      .ok (s.setCol t ((s.cols t).insert key (ad.insert attrLastHeardFrom (.lit (.int now)))))

def updateOldText (t : AdType) (text : Text) : Except StoreError Store :=
  if t = .anyAd then .error (.notStorageTable t.name)
  else
    match hashKeyFromText t text with
    | none => .error (.noKey t.name)
    | some key => (Table.updateOld lib (s.cols t) key (stampText text now)).map (s.setCol t)

def updatePvt (publicText pvtText : Text) : Except StoreError Store :=
  match hashKeyFromText .startdAd publicText with
  | none => .error .noPublicKey
  | some key =>
    (Table.updateOld lib (s.cols .startdPvtAd) key (pvtAdText publicText pvtText now)).map
      (s.setCol .startdPvtAd)

def get (t : AdType) (ad : ClassAd) : Option ClassAd :=
  if t = .anyAd then none else (hashKey lib.eval t ad).bind fun key => (s.cols t).lookup key

def queryOne (t : AdType) (q : Option Expr) : List ClassAd :=
  if t = .anyAd then [] else (s.cols t).scan.filter (lib.satisfies q)

def queryCompiled (t : AdType) (q : Option Expr) : List ClassAd :=
  if t = .anyAd then AdType.publicTypes.flatMap fun at' => s.queryOne lib at' q
  else s.queryOne lib t q

def query (t : AdType) (constraint : Text) : Except StoreError (List ClassAd) :=
  (parseConstraint lib constraint).map (s.queryCompiled lib t)

def invalidatedKeys (t : AdType) (q : Option Expr) (keyAd : Option ClassAd) : List Text :=
  match q with
  -- no key ad, or one without a key: nothing is removed
  | none => (keyAd.bind (hashKey lib.eval t)).toList
  | some e => (s.queryOne lib t (some e)).filterMap (hashKey lib.eval t)

def invalidate (t : AdType) (constraint : Text) (keyAd : Option ClassAd) :
    Except StoreError (Store × ℕ) :=
  (parseConstraint lib constraint).map fun q =>
    if t = .anyAd then (s, 0)
    else
      let removed := removeKeys s.cols t (s.invalidatedKeys lib t q keyAd)
      ({ s with cols := removed.1 }, removed.2)

def stale (defaultLifetime : Int) (ad : ClassAd) : Bool :=
  match ad.evaluateAttrInt lib.eval attrLastHeardFrom with
  | none => false
  | some lastHeard =>
    (ad.evaluateAttrInt lib.eval attrClassAdLifetime).getD defaultLifetime <
      wrap (now - lastHeard)

def staleKeys (defaultLifetime : Int) (t : AdType) (tab : Table) : List Text :=
  tab.keysWhere lib t (stale lib now defaultLifetime)

def expire : Store × ℕ :=
  let swept := GoMap.sweep
    (fun t tab => tab.deleteKeys (staleKeys lib now s.defaultLifetime t tab))
    AdType.storageTypes s.cols
  ({ s with cols := swept.1 }, swept.2)

def len (t : AdType) : ℕ := if t = .anyAd then 0 else (s.cols t).len

end Store

theorem AdType.nodup_storageTypes : AdType.storageTypes.Nodup := by decide

namespace Store

variable {lib : Library} {now : Int} {s : Store}

@[simp] theorem setCol_cols (s : Store) (t : AdType) (tab : Table) :
    (s.setCol t tab).cols = Function.update s.cols t tab := rfl

theorem lookup_expire {t : AdType} (ht : t ∈ AdType.storageTypes) (k : Text) :
    ((s.expire lib now).1.cols t).lookup k =
      if k ∈ staleKeys lib now s.defaultLifetime t (s.cols t) then none
      else (s.cols t).lookup k := by
  rw [expire]
  simp only [GoMap.sweep_fst _ AdType.nodup_storageTypes, if_pos ht, GoMap.lookup_deleteKeys]
  congr

end Store

end GolangCollector
