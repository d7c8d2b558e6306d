import GolangCollector.Store.Database

/-! # Expiry in the two backends

The in-memory store computes `now - LastHeardFrom > lifetime` in Go, with the default lifetime where
the ad has no integer one. The embedded database hands the sweep to its database as the constraint
`now > LastHeardFrom + ifThenElse(ClassAdLifetime =!= undefined, ClassAdLifetime, default)`. Ad by
ad the two tests agree exactly under `ExpiryAlike`:

* for integers, when `now - LastHeardFrom` and `LastHeardFrom + lifetime` both overflow or neither
  does;
* for a string lifetime, which makes the constraint an error, when the store's default has not
  passed;
* for reals and booleans it is up to the library's arithmetic (`Arithmetic`). -/

namespace GolangCollector

open GoStrings GoInt List Option

/-! ## The database sweep -/

namespace DBBackend

def expireConstraint (now defaultLifetime : Int) : Text :=
  formatInt now ++ " > " ++ attrLastHeardFrom ++ " + ifThenElse(" ++
    attrClassAdLifetime ++ " =!= undefined, " ++ attrClassAdLifetime ++ ", " ++
    formatInt defaultLifetime ++ ")"

def deleteWhereAll (lib : Library) (constraint : Text) :
    List AdType → Tables → Tables × ℕ × Option StoreError
  | [], tables => (tables, 0, none)
  | t :: ts, tables =>
    match (tables t).dbDeleteWhere lib constraint with
    | .error err => (tables, 0, some err)
    | .ok removed =>
      let rest := deleteWhereAll lib constraint ts (Function.update tables t removed.1)
      (rest.1, removed.2 + rest.2.1, rest.2.2)

def expire (lib : Library) (now : Int) (b : DBBackend) : DBBackend × ℕ × Option StoreError :=
  let swept := deleteWhereAll lib (expireConstraint now b.defaultLifetime) AdType.storageTypes
    b.tables
  ({ b with tables := swept.1 }, swept.2)

theorem deleteWhereAll_eq {lib : Library} {constraint : Text} {e : Expr}
    (h : lib.parseExpr constraint = some e) (ts : List AdType) (tables : Tables) :
    deleteWhereAll lib constraint ts tables =
      ((GoMap.sweep (fun _ tab => GoMap.deleteWhere tab fun _ ad => lib.selects e ad) ts tables).1,
        (GoMap.sweep (fun _ tab => GoMap.deleteWhere tab fun _ ad => lib.selects e ad) ts tables).2,
        none) := by
  induction ts generalizing tables with
  | nil => rfl
  | cons t ts ih =>
    rw [deleteWhereAll, Table.dbDeleteWhere, h]
    simp only [ih, GoMap.sweep]

end DBBackend

/-! ## The library's arithmetic -/

structure Arithmetic where
  /-- `+`. -/
  add : Value → Value → Value
  /-- `>`. -/
  gt : Value → Value → Value

structure Arithmetic.Lawful (ops : Arithmetic) : Prop where
  add_int : ∀ i j, ops.add (.int i) (.int j) = .int (wrap (i + j))
  gt_int : ∀ i j, ops.gt (.int i) (.int j) = .bool (j < i)
  add_str_left : ∀ s v, v ≠ .undefined → ops.add (.str s) v = .error
  add_str_right : ∀ i s, ops.add (.int i) (.str s) = .error
  add_error_left : ∀ v, ops.add .error v = .error
  add_error_right : ∀ v, ops.add v .error = .error
  add_undefined : ∀ v, ops.add .undefined v = .undefined ∨ ops.add .undefined v = .error
  gt_undefined : ∀ i, ops.gt (.int i) .undefined = .undefined
  gt_error : ∀ v, ops.gt v .error = .error

def expireExpr (now defaultLifetime : Expr) : Expr :=
  .binaryOp ">" now
    (.binaryOp "+" (.attributeReference .noScope attrLastHeardFrom)
      (.functionCall "ifThenElse"
        (.cons (.binaryOp "=!=" (.attributeReference .noScope attrClassAdLifetime)
            (.lit .undefined))
          (.cons (.attributeReference .noScope attrClassAdLifetime)
            (.cons defaultLifetime .nil)))))

structure Library.ReadsExpiry (lib : Library) (ops : Arithmetic) (now defaultLifetime : Int) :
    Prop where
  literal : lib.eval.Literal
  parses : ∃ n d, lib.parseExpr (DBBackend.expireConstraint now defaultLifetime) =
    some (expireExpr n d) ∧ (∀ ad, lib.eval ad n = .int now) ∧
      ∀ ad, lib.eval ad d = .int defaultLifetime
  reference : ∀ ad name, (∀ e, ad.lookup name = some e → ∃ v, e = .lit v) →
    lib.eval ad (.attributeReference .noScope name) = ad.evaluateAttr lib.eval name
  greater : ∀ ad l r,
    lib.eval ad (.binaryOp ">" l r) = ops.gt (lib.eval ad l) (lib.eval ad r)
  plus : ∀ ad l r, lib.eval ad (.binaryOp "+" l r) = ops.add (lib.eval ad l) (lib.eval ad r)
  isnt : ∀ ad l r,
    lib.eval ad (.binaryOp "=!=" l r) = .bool (lib.eval ad l ≠ lib.eval ad r)
  ifThenElse : ∀ ad c a b (cond : Bool), lib.eval ad c = .bool cond →
    lib.eval ad (.functionCall "ifThenElse" (.cons c (.cons a (.cons b .nil)))) =
      if cond then lib.eval ad a else lib.eval ad b

/-! ## Ad by ad -/

def dbLifetime (defaultLifetime : Int) (lifetime : Value) : Value :=
  if lifetime = .undefined then .int defaultLifetime else lifetime

def dbStale (ops : Arithmetic) (now defaultLifetime : Int) (lastHeard lifetime : Value) : Bool :=
  ops.gt (.int now) (ops.add lastHeard (dbLifetime defaultLifetime lifetime)) = .bool true

def memStale (now defaultLifetime : Int) (lastHeard lifetime : Value) : Bool :=
  match lastHeard with
  | .int heard =>
    match lifetime with
    | .int life => life < wrap (now - heard)
    | _ => defaultLifetime < wrap (now - heard)
  | _ => false

def ExpiryAlike (ops : Arithmetic) (now defaultLifetime : Int) (lastHeard lifetime : Value) :
    Prop :=
  match lastHeard, lifetime with
  -- integers: both comparisons overflow or neither does
  | .int heard, .int life => IsInt64 (now - heard) ↔ IsInt64 (heard + life)
  | .int heard, .undefined => IsInt64 (now - heard) ↔ IsInt64 (heard + defaultLifetime)
  -- an ill-typed lifetime never expires in the database
  | .int heard, .str _ | .int heard, .error => wrap (now - heard) ≤ defaultLifetime
  -- reals and booleans: what the library makes of the sum
  | .int heard, life =>
    (defaultLifetime < wrap (now - heard)) ↔
      ops.gt (.int now) (ops.add (.int heard) life) = .bool true
  | .undefined, _ | .str _, _ | .error, _ => True
  -- a real or boolean receive time never expires in the store
  | heard, life =>
    ops.gt (.int now) (ops.add heard (dbLifetime defaultLifetime life)) ≠ .bool true

theorem dbLifetime_ne_undefined (d : Int) (lifetime : Value) :
    dbLifetime d lifetime ≠ .undefined := by
  rw [dbLifetime]
  split_ifs with h
  · simp
  · exact h

theorem Arithmetic.Lawful.gt_add_ne_true {ops : Arithmetic} (hops : ops.Lawful) {i : Int}
    {w : Value} (h : w = .undefined ∨ w = .error) : ops.gt (.int i) w ≠ .bool true := by
  rcases h with rfl | rfl
  · rw [hops.gt_undefined]; simp
  · rw [hops.gt_error]; simp

theorem memStale_eq_dbStale_iff {ops : Arithmetic} (hops : ops.Lawful) {now d : Int}
    (hnow : IsInt64 now) (hd : IsInt64 d) {lastHeard lifetime : Value}
    (hheard : ∀ i, lastHeard = .int i → IsInt64 i) (hlife : ∀ i, lifetime = .int i → IsInt64 i) :
    memStale now d lastHeard lifetime = dbStale ops now d lastHeard lifetime ↔
      ExpiryAlike ops now d lastHeard lifetime := by
  -- two integers: moving the term across the comparison
  have hint : ∀ heard life, IsInt64 heard → IsInt64 life →
      (decide (life < wrap (now - heard)) =
          decide (ops.gt (.int now) (ops.add (.int heard) (.int life)) = .bool true) ↔
        (IsInt64 (now - heard) ↔ IsInt64 (heard + life))) := by
    intro heard life hh hl
    rw [hops.add_int, hops.gt_int, Bool.eq_iff_iff, decide_eq_true_iff, decide_eq_true_iff,
      Value.bool.injEq, decide_eq_true_iff, lt_wrap_sub_iff_wrap_add_lt hnow hh hl]
  -- a sum that is an error never reaps, so the store must not either
  have herror : ∀ heard w, ops.add (.int heard) w = .error →
      (decide (d < wrap (now - heard)) =
          decide (ops.gt (.int now) (ops.add (.int heard) w) = .bool true) ↔
        wrap (now - heard) ≤ d) := by
    intro heard w hw
    rw [hw, hops.gt_error]
    simp
  cases lastHeard with
  | int heard =>
    have hh := hheard heard rfl
    cases lifetime with
    | int life => exact hint heard life hh (hlife life rfl)
    | undefined => exact hint heard d hh hd
    | str s => exact herror heard (.str s) (hops.add_str_right _ _)
    | error => exact herror heard .error (hops.add_error_right _)
    | real q | bool b =>
      exact Bool.eq_iff_iff.trans (by simp [ExpiryAlike, memStale, dbStale, dbLifetime])
  | undefined =>
    simp [memStale, dbStale, ExpiryAlike, hops.gt_add_ne_true (hops.add_undefined _)]
  | str s =>
    simp [memStale, dbStale, ExpiryAlike, hops.gt_error,
      hops.add_str_left s _ (dbLifetime_ne_undefined d lifetime)]
  | error => simp [memStale, dbStale, ExpiryAlike, hops.add_error_left, hops.gt_error]
  | real q | bool b => simp [memStale, dbStale, ExpiryAlike]

/-! ## Table by table -/

structure TimeLiterals (lib : Library) (ad : ClassAd) : Prop where
  literal : ∀ attr ∈ [attrLastHeardFrom, attrClassAdLifetime], ∀ e, ad.lookup attr = some e →
    ∃ v, e = .lit v
  int64 : ∀ attr ∈ [attrLastHeardFrom, attrClassAdLifetime], ∀ i,
    ad.evaluateAttr lib.eval attr = .int i → IsInt64 i

def ClassAd.ExpiryAlike (lib : Library) (ops : Arithmetic) (now defaultLifetime : Int)
    (ad : ClassAd) : Prop :=
  GolangCollector.ExpiryAlike ops now defaultLifetime (ad.evaluateAttr lib.eval attrLastHeardFrom)
    (ad.evaluateAttr lib.eval attrClassAdLifetime)

/-- **The two sweeps reap the same.** -/
structure SameReaping (lib : Library) (now : Int) (s : Store) : Prop where
  tables : ∀ t ∈ AdType.storageTypes, ∀ k, ((s.expire lib now).1.cols t).lookup k =
    ((s.toDB.expire lib now).1.tables t).lookup k
  count : (s.expire lib now).2 = (s.toDB.expire lib now).2.1
  noError : (s.toDB.expire lib now).2.2 = none

section Tables

variable {lib : Library} {ops : Arithmetic} {now : Int} {s : Store}

theorem Store.stale_eq (d : Int) (ad : ClassAd) :
    Store.stale lib now d ad = memStale now d (ad.evaluateAttr lib.eval attrLastHeardFrom)
      (ad.evaluateAttr lib.eval attrClassAdLifetime) := by
  rw [Store.stale, ClassAd.evaluateAttrInt, ClassAd.evaluateAttrInt]
  cases ad.evaluateAttr lib.eval attrLastHeardFrom with
  | int heard => cases ad.evaluateAttr lib.eval attrClassAdLifetime <;> rfl
  | _ => rfl

theorem Library.ReadsExpiry.exists_selects {d : Int} (hlib : lib.ReadsExpiry ops now d) :
    ∃ e, lib.parseExpr (DBBackend.expireConstraint now d) = some e ∧
      ∀ ad, TimeLiterals lib ad →
        lib.selects e ad = dbStale ops now d (ad.evaluateAttr lib.eval attrLastHeardFrom)
          (ad.evaluateAttr lib.eval attrClassAdLifetime) := by
  obtain ⟨n, d', hparse, hn, hd'⟩ := hlib.parses
  refine ⟨_, hparse, fun ad had => ?_⟩
  have hheard := hlib.reference ad attrLastHeardFrom (had.literal _ (by simp))
  have hlife := hlib.reference ad attrClassAdLifetime (had.literal _ (by simp))
  have hcond := hlib.isnt ad (.attributeReference .noScope attrClassAdLifetime) (.lit .undefined)
  rw [hlife, hlib.literal ad .undefined] at hcond
  -- the conditional gives the ad's own lifetime unless it is undefined
  have hchoice : lib.eval ad (.functionCall "ifThenElse" _) =
      dbLifetime d (ad.evaluateAttr lib.eval attrClassAdLifetime) :=
    (hlib.ifThenElse ad _ (.attributeReference .noScope attrClassAdLifetime) d' _ hcond).trans (by
      rw [hlife, hd' ad, dbLifetime]
      by_cases hundef : ad.evaluateAttr lib.eval attrClassAdLifetime = .undefined <;> simp [hundef])
  rw [Library.selects, expireExpr, hlib.greater, hlib.plus, hn, hheard, hchoice, dbStale]

theorem Store.Keyed.lookup_expire (hs : s.Keyed lib) {t : AdType} (ht : t ∈ AdType.storageTypes)
    (k : Text) : ((s.expire lib now).1.cols t).lookup k =
      ((s.cols t).lookup k).filter fun ad => !Store.stale lib now s.defaultLifetime ad := by
  rw [Store.lookup_expire ht, Store.staleKeys]
  simp only [hs.mem_keysWhere_iff]
  cases hk : (s.cols t).lookup k with
  | none => simp
  | some ad =>
    cases hstale : Store.stale lib now s.defaultLifetime ad <;> simp [filter_some, hstale]

theorem DBBackend.lookup_expire {b : DBBackend} {e : Expr}
    (he : lib.parseExpr (expireConstraint now b.defaultLifetime) = some e) {t : AdType}
    (ht : t ∈ AdType.storageTypes) (k : Text) :
    ((b.expire lib now).1.tables t).lookup k =
      ((b.tables t).lookup k).filter fun ad => !lib.selects e ad := by
  rw [expire]
  simp only [deleteWhereAll_eq he, GoMap.sweep_fst _ AdType.nodup_storageTypes, if_pos ht,
    GoMap.lookup_deleteWhere]

theorem expire_count_eq {e : Expr}
    (he : lib.parseExpr (DBBackend.expireConstraint now s.defaultLifetime) = some e)
    (h : ∀ t ∈ AdType.storageTypes, ∀ k, ((s.expire lib now).1.cols t).lookup k =
      ((s.toDB.expire lib now).1.tables t).lookup k) :
    (s.expire lib now).2 = (s.toDB.expire lib now).2.1 := by
  have he' : lib.parseExpr (DBBackend.expireConstraint now s.toDB.defaultLifetime) = some e := he
  rw [Store.expire, DBBackend.expire, DBBackend.deleteWhereAll_eq he']
  simp only [GoMap.sweep_snd _ AdType.nodup_storageTypes]
  -- the counts are sums over the tables, and agree table by table
  refine congrArg sum (map_congr_left fun t ht => ?_)
  have hlookup := h t ht
  rw [Store.expire, DBBackend.expire, DBBackend.deleteWhereAll_eq he'] at hlookup
  simp only [GoMap.sweep_fst _ AdType.nodup_storageTypes, if_pos ht] at hlookup
  exact GoMap.count_eq_of_lookup_eq (GoMap.deleteKeys_count _ _) (GoMap.deleteWhere_count _ _)
    hlookup

end Tables

/-- **The two backends' expiry agrees exactly when it agrees ad by ad.** -/
theorem expire_agree_iff (lib : Library) (ops : Arithmetic) (hops : ops.Lawful) (now : Int)
    (hnow : IsInt64 now) (s : Store) (hs : s.Keyed lib) (hd : IsInt64 s.defaultLifetime)
    (hlib : lib.ReadsExpiry ops now s.defaultLifetime)
    (hads : ∀ t ∈ AdType.storageTypes, ∀ ad ∈ (s.cols t).scan, TimeLiterals lib ad) :
    SameReaping lib now s ↔
      ∀ t ∈ AdType.storageTypes, ∀ ad ∈ (s.cols t).scan,
        ad.ExpiryAlike lib ops now s.defaultLifetime := by
  obtain ⟨e, hparse, hselects⟩ := hlib.exists_selects
  have hdb : lib.parseExpr (DBBackend.expireConstraint now s.toDB.defaultLifetime) = some e :=
    hparse
  -- on one stored ad, the two sweeps' verdicts agree iff its values are alike
  have hverdict : ∀ t ∈ AdType.storageTypes, ∀ ad ∈ (s.cols t).scan,
      (Store.stale lib now s.defaultLifetime ad = lib.selects e ad ↔
        ad.ExpiryAlike lib ops now s.defaultLifetime) := by
    intro t ht ad had
    have htimes := hads t ht ad had
    rw [Store.stale_eq, hselects ad htimes]
    exact memStale_eq_dbStale_iff hops hnow hd (htimes.int64 _ (by simp)) (htimes.int64 _ (by simp))
  constructor
  · intro hsame t ht ad had
    obtain ⟨k, hk⟩ := Table.mem_scan_iff.mp had
    refine (hverdict t ht ad had).mp ?_
    have hlookup := hsame.tables t ht k
    rw [hs.lookup_expire ht, DBBackend.lookup_expire hdb ht] at hlookup
    change _ = ((s.cols t).lookup k).filter _ at hlookup
    rw [hk, filter_some, filter_some] at hlookup
    cases hstale : Store.stale lib now s.defaultLifetime ad <;>
      cases hsel : lib.selects e ad <;> simp [hstale, hsel] at hlookup ⊢
  · intro halike
    have htables : ∀ t ∈ AdType.storageTypes, ∀ k, ((s.expire lib now).1.cols t).lookup k =
        ((s.toDB.expire lib now).1.tables t).lookup k := by
      intro t ht k
      rw [hs.lookup_expire ht, DBBackend.lookup_expire hdb ht]
      change _ = ((s.cols t).lookup k).filter _
      cases hk : (s.cols t).lookup k with
      | none => rfl
      | some ad =>
        have had : ad ∈ (s.cols t).scan := Table.mem_scan_iff.mpr ⟨k, hk⟩
        have hsame := (hverdict t ht ad had).mpr (halike t ht ad had)
        simp only [filter_some, hsame]
    refine ⟨htables, expire_count_eq hparse htables, ?_⟩
    rw [DBBackend.expire, DBBackend.deleteWhereAll_eq hdb]

/-! ## An evaluator for the constraint -/

def plainArithmetic : Arithmetic where
  add
    | .error, _ | _, .error => .error
    | .undefined, _ | _, .undefined => .undefined
    | .str _, _ | _, .str _ => .error
    | .int i, .int j => .int (wrap (i + j))
    | .int i, .real q | .real q, .int i => .real (i + q)
    | .real q, .real r => .real (q + r)
    | .bool _, _ | _, .bool _ => .error
  gt
    | .error, _ | _, .error => .error
    | .undefined, _ | _, .undefined => .undefined
    | .int i, .int j => .bool (j < i)
    | .int i, .real q => .bool (q < i)
    | _, _ => .error

theorem plainArithmetic_lawful : plainArithmetic.Lawful where
  add_int _ _ := rfl
  gt_int _ _ := rfl
  add_str_left _ v h := by cases v <;> simp_all [plainArithmetic]
  add_str_right _ _ := rfl
  add_error_left v := by cases v <;> rfl
  add_error_right v := by cases v <;> rfl
  add_undefined v := by cases v <;> simp [plainArithmetic]
  gt_undefined _ := rfl
  gt_error v := by cases v <;> rfl

def chooseValue : List Value → Value
  | [.bool cond, a, b] => if cond then a else b
  | _ => .error

mutual

def evalArithmetic (ops : Arithmetic) (ad : ClassAd) : Expr → Value
  | .lit v => v
  | .attributeReference .noScope name =>
    match ad.lookup name with
    | some (.lit v) => v
    | _ => .undefined
  | .binaryOp op left right =>
    if op = ">" then ops.gt (evalArithmetic ops ad left) (evalArithmetic ops ad right)
    else if op = "+" then
      ops.add (evalArithmetic ops ad left) (evalArithmetic ops ad right)
    else .bool (evalArithmetic ops ad left ≠ evalArithmetic ops ad right)
  | .functionCall _ args => chooseValue (evalArguments ops ad args)
  | _ => .undefined

def evalArguments (ops : Arithmetic) (ad : ClassAd) : Exprs → List Value
  | .nil => []
  | .cons head tail => evalArithmetic ops ad head :: evalArguments ops ad tail

end

def expiryLibrary (ops : Arithmetic) (now defaultLifetime : Int) : Library where
  parseExpr text :=
    if text = DBBackend.expireConstraint now defaultLifetime then
      some (expireExpr (.lit (.int now)) (.lit (.int defaultLifetime)))
    else none
  eval := evalArithmetic ops
  duplicates := .firstWins

theorem expiryLibrary_readsExpiry (ops : Arithmetic) (now d : Int) :
    (expiryLibrary ops now d).ReadsExpiry ops now d where
  literal ad v := by simp [expiryLibrary, evalArithmetic]
  parses := ⟨_, _, if_pos rfl, fun _ => by simp [expiryLibrary, evalArithmetic],
    fun _ => by simp [expiryLibrary, evalArithmetic]⟩
  reference ad name h := by
    simp only [expiryLibrary, evalArithmetic, ClassAd.evaluateAttr]
    cases hlookup : ad.lookup name with
    | none => rfl
    | some e =>
      obtain ⟨v, rfl⟩ := h e hlookup
      simp [evalArithmetic]
  greater ad l r := by simp [expiryLibrary, evalArithmetic]
  plus ad l r := by simp [expiryLibrary, evalArithmetic]
  isnt ad l r := by
    simp only [expiryLibrary, evalArithmetic]
    rw [if_neg (by decide), if_neg (by decide)]
    congr
  ifThenElse ad c a b cond h := by
    simp only [expiryLibrary, evalArithmetic, evalArguments] at h ⊢
    rw [h, chooseValue]

def timedAd (lifetime : Value) : ClassAd :=
  ⟨[(attrName, .lit (.str "m")), (attrLastHeardFrom, .lit (.int 1000)),
    (attrClassAdLifetime, .lit lifetime)]⟩

def timedStore (lifetime : Value) : Store :=
  Store.new.setCol .masterAd ((∅ : Table).insert "m\x00" (timedAd lifetime))

theorem expire_agree_sixty :
    SameReaping (expiryLibrary plainArithmetic 1061 DefaultLifetime) 1061
      (timedStore (.int 60)) := by
  have honly : ∀ t k ad, ((timedStore (.int 60)).cols t).lookup k = some ad →
      (t, k, ad) = (.masterAd, "m\x00".toList, timedAd (.int 60)) := by
    intro t k ad h
    rcases StoreOp.lookup_setCol_insert (s := Store.new) h with hold | hnew
    · simp [Store.new] at hold
    · exact hnew
  have hscan : ∀ t, ∀ ad ∈ ((timedStore (.int 60)).cols t).scan, ad = timedAd (.int 60) := by
    intro t ad had
    obtain ⟨k, hk⟩ := Table.mem_scan_iff.mp had
    cases honly t k ad hk
    rfl
  refine (expire_agree_iff _ plainArithmetic plainArithmetic_lawful 1061 (by decide)
    (timedStore (.int 60)) ?_ (by decide) (expiryLibrary_readsExpiry _ _ _) ?_).mpr ?_
  · intro t k ad h
    cases honly t k ad h
    decide
  · intro t _ ad had
    rw [hscan t ad had]
    refine ⟨?_, ?_⟩ <;> intro attr hattr <;>
      rcases mem_pair.mp hattr with rfl | rfl <;> intro x hx
    · cases (show some (Expr.lit (.int 1000)) = some x from hx); exact ⟨_, rfl⟩
    · cases (show some (Expr.lit (.int 60)) = some x from hx); exact ⟨_, rfl⟩
    · cases (show Value.int 1000 = Value.int x from hx); decide
    · cases (show Value.int 60 = Value.int x from hx); decide
  · intro t _ ad had
    rw [hscan t ad had]
    show IsInt64 (1061 - 1000) ↔ IsInt64 (1000 + 60)
    decide

theorem expire_disagree :
    ¬ SameReaping (expiryLibrary plainArithmetic 1001 DefaultLifetime) 1001
        (timedStore (.int 9223372036854775807)) ∧
      ¬ SameReaping (expiryLibrary plainArithmetic 2000 DefaultLifetime) 2000
        (timedStore (.str "60")) := by
  constructor
  · intro h
    exact absurd h.count (by decide)
  · intro h
    exact absurd h.count (by decide)

end GolangCollector
