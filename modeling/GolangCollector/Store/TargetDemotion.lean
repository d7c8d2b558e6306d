import GolangCollector.ClassAd.Evaluation
import GolangCollector.Store.Constraint

/-! # What demoting `TARGET` means

A constraint is evaluated against one candidate ad, and the scan has no match target: so
`demoteTargetToSelf` (`store/constraint_scope.go`) makes `TARGET` references unscoped. An unscoped
name is first looked up in the record literal that it stands in, and the candidate's own attributes
are not rewritten. -/

namespace GolangCollector

open GoStrings Option

/-! ## Evaluation in the scope of records -/

def Attrs.lookup : Attrs → Text → Option Expr
  | .nil, _ => none
  | .cons attr value tail, name =>
    if toLower attr = toLower name then some value else tail.lookup name

variable {V : Type} (sem : Semantics V)

mutual

def Expr.evalIn (resolve : List Attrs → Scope → Text → V) (records : List Attrs) : Expr → V
  | .lit v => sem.lit v
  | .attributeReference scope name => resolve records scope name
  | .binaryOp op left right =>
    sem.binaryOp op (left.evalIn resolve records) (right.evalIn resolve records)
  | .unaryOp op expr => sem.unaryOp op (expr.evalIn resolve records)
  | .parenExpr inner => inner.evalIn resolve records
  | .listLiteral elements => sem.listLiteral (elements.evalIn resolve records)
  | .functionCall name args => sem.functionCall name (args.evalIn resolve records)
  | .conditionalExpr condition trueExpr falseExpr =>
    sem.conditional (condition.evalIn resolve records) (trueExpr.evalIn resolve records)
      (falseExpr.evalIn resolve records)
  | .elvisExpr left right => sem.elvis (left.evalIn resolve records) (right.evalIn resolve records)
  | .selectExpr record attr => sem.select (record.evalIn resolve records) attr
  | .subscriptExpr container index =>
    sem.subscript (container.evalIn resolve records) (index.evalIn resolve records)
  | .recordLiteral attributes =>
    sem.recordLiteral (attributes.evalIn resolve (attributes :: records))

def Exprs.evalIn (resolve : List Attrs → Scope → Text → V) (records : List Attrs) : Exprs → List V
  | .nil => []
  | .cons head tail => head.evalIn resolve records :: tail.evalIn resolve records

def Attrs.evalIn (resolve : List Attrs → Scope → Text → V) (records : List Attrs) :
    Attrs → List (Text × V)
  | .nil => []
  | .cons name value tail => (name, value.evalIn resolve records) :: tail.evalIn resolve records

end

def ClassAd.find (ad : ClassAd) (evalAt : List Attrs → Expr → V) (records : List Attrs)
    (name : Text) : Option V :=
  ((records.head?.bind (·.lookup name)).map (evalAt records)).or
    ((ad.lookup name).map (evalAt []))

def ClassAd.evalAgainst : ℕ → ClassAd → Option ClassAd → List Attrs → Expr → V
  | 0, _, _, _, _ => sem.tooDeep
  | n + 1, my, target, records, e =>
    e.evalIn sem (fun records scope name =>
      (match scope with
        | .noScope => my.find (evalAgainst n my target) records name
        | .myScope => my.find (evalAgainst n my target) [] name
        | .targetScope => target.bind fun ad => ad.find (evalAgainst n ad (some my)) [] name
        | .parentScope =>
          match records with
          | [] => none
          | _ :: outer => my.find (evalAgainst n my target) outer name).getD sem.undefined)
      records

/-! ## References and the records that they stand in -/

structure Reference where
  records : List Attrs
  scope : Scope
  name : Text

mutual

def Expr.refsIn (records : List Attrs) : Expr → List Reference
  | .lit _ => []
  | .attributeReference scope name => [⟨records, scope, name⟩]
  | .binaryOp _ left right | .elvisExpr left right | .subscriptExpr left right =>
    left.refsIn records ++ right.refsIn records
  | .unaryOp _ expr | .parenExpr expr | .selectExpr expr _ => expr.refsIn records
  | .listLiteral elements | .functionCall _ elements => elements.refsIn records
  | .conditionalExpr condition trueExpr falseExpr =>
    condition.refsIn records ++ (trueExpr.refsIn records ++ falseExpr.refsIn records)
  | .recordLiteral attributes => attributes.refsIn (attributes :: records)

def Exprs.refsIn (records : List Attrs) : Exprs → List Reference
  | .nil => []
  | .cons head tail => head.refsIn records ++ tail.refsIn records

def Attrs.refsIn (records : List Attrs) : Attrs → List Reference
  | .nil => []
  | .cons _ value tail => value.refsIn records ++ tail.refsIn records

end

theorem Attrs.mem_refsIn_of_lookup {records : List Attrs} {name : Text} {value : Expr} {as : Attrs}
    (h : as.lookup name = some value) {r : Reference} (hr : r ∈ value.refsIn records) :
    r ∈ as.refsIn records := by
  cases as with
  | nil => cases h
  | cons attr v tail =>
    rw [Attrs.refsIn, List.mem_append]
    rw [Attrs.lookup] at h
    split at h
    · cases h
      exact .inl hr
    · exact .inr (tail.mem_refsIn_of_lookup h hr)

theorem Attrs.lookup_demoteTargetToSelf (name : Text) (as : Attrs) :
    as.demoteTargetToSelf.lookup name = (as.lookup name).map Expr.demoteTargetToSelf := by
  cases as with
  | nil => rfl
  | cons attr v tail =>
    rw [Attrs.demoteTargetToSelf, Attrs.lookup, Attrs.lookup, tail.lookup_demoteTargetToSelf name]
    split <;> rfl

variable {p : Reference → Prop}

def Enclosed (p : Reference → Prop) : List Attrs → Prop
  | [] => True
  | record :: outer => (∀ r ∈ record.refsIn (record :: outer), p r) ∧ Enclosed p outer

def SameOn (p : Reference → Prop) (resolve resolve' : List Attrs → Scope → Text → V) : Prop :=
  ∀ r : Reference, Enclosed p r.records → p r →
    resolve r.records r.scope r.name = resolve' r.records r.scope r.name

section

variable {sem} {resolve resolve' : List Attrs → Scope → Text → V}

mutual

theorem Expr.evalIn_congr (h : SameOn p resolve resolve') :
    ∀ (e : Expr) (records : List Attrs), Enclosed p records → (∀ r ∈ e.refsIn records, p r) →
    e.evalIn sem resolve records = e.evalIn sem resolve' records
  | .lit _, _, _, _ => rfl
  | .attributeReference scope name, records, hin, he =>
    h ⟨records, scope, name⟩ hin (he _ (List.mem_singleton_self _))
  | .binaryOp _ left right, records, hin, he | .elvisExpr left right, records, hin, he
  | .subscriptExpr left right, records, hin, he => by
    rw [Expr.refsIn, List.forall_mem_append] at he
    rw [Expr.evalIn, Expr.evalIn, left.evalIn_congr h records hin he.1,
      right.evalIn_congr h records hin he.2]
  | .unaryOp _ e, records, hin, he | .parenExpr e, records, hin, he
  | .selectExpr e _, records, hin, he => by
    rw [Expr.evalIn, Expr.evalIn, e.evalIn_congr h records hin he]
  | .listLiteral es, records, hin, he | .functionCall _ es, records, hin, he => by
    rw [Expr.evalIn, Expr.evalIn, es.evalIn_congr h records hin he]
  | .conditionalExpr condition trueExpr falseExpr, records, hin, he => by
    rw [Expr.refsIn, List.forall_mem_append, List.forall_mem_append] at he
    rw [Expr.evalIn, Expr.evalIn, condition.evalIn_congr h records hin he.1,
      trueExpr.evalIn_congr h records hin he.2.1, falseExpr.evalIn_congr h records hin he.2.2]
  | .recordLiteral attributes, records, hin, he => by
    have hin' : Enclosed p (attributes :: records) := ⟨he, hin⟩
    rw [Expr.evalIn, Expr.evalIn, attributes.evalIn_congr h _ hin' he]

theorem Exprs.evalIn_congr (h : SameOn p resolve resolve') :
    ∀ (es : Exprs) (records : List Attrs), Enclosed p records → (∀ r ∈ es.refsIn records, p r) →
    es.evalIn sem resolve records = es.evalIn sem resolve' records
  | .nil, _, _, _ => rfl
  | .cons head tail, records, hin, he => by
    rw [Exprs.refsIn, List.forall_mem_append] at he
    rw [Exprs.evalIn, Exprs.evalIn, head.evalIn_congr h records hin he.1,
      tail.evalIn_congr h records hin he.2]

theorem Attrs.evalIn_congr (h : SameOn p resolve resolve') :
    ∀ (as : Attrs) (records : List Attrs), Enclosed p records → (∀ r ∈ as.refsIn records, p r) →
    as.evalIn sem resolve records = as.evalIn sem resolve' records
  | .nil, _, _, _ => rfl
  | .cons name value tail, records, hin, he => by
    rw [Attrs.refsIn, List.forall_mem_append] at he
    rw [Attrs.evalIn, Attrs.evalIn, value.evalIn_congr h records hin he.1,
      tail.evalIn_congr h records hin he.2]

end

end

section

variable {sem} (resolve : List Attrs → Scope → Text → V)

def demoted (records : List Attrs) (scope : Scope) (name : Text) : V :=
  resolve (records.map Attrs.demoteTargetToSelf) scope.demote name

mutual

theorem Expr.evalIn_demoteTargetToSelf : ∀ (e : Expr) (records : List Attrs),
    e.demoteTargetToSelf.evalIn sem resolve (records.map Attrs.demoteTargetToSelf) =
      e.evalIn sem (demoted resolve) records
  | .lit _, _ | .attributeReference _ _, _ => rfl
  | .binaryOp _ left right, records | .elvisExpr left right, records
  | .subscriptExpr left right, records => by
    rw [Expr.demoteTargetToSelf, Expr.evalIn, Expr.evalIn, left.evalIn_demoteTargetToSelf,
      right.evalIn_demoteTargetToSelf]
  | .unaryOp _ e, records | .parenExpr e, records | .selectExpr e _, records => by
    rw [Expr.demoteTargetToSelf, Expr.evalIn, Expr.evalIn, e.evalIn_demoteTargetToSelf]
  | .listLiteral es, records | .functionCall _ es, records => by
    rw [Expr.demoteTargetToSelf, Expr.evalIn, Expr.evalIn, es.evalIn_demoteTargetToSelf]
  | .conditionalExpr condition trueExpr falseExpr, records => by
    rw [Expr.demoteTargetToSelf, Expr.evalIn, Expr.evalIn, condition.evalIn_demoteTargetToSelf,
      trueExpr.evalIn_demoteTargetToSelf, falseExpr.evalIn_demoteTargetToSelf]
  | .recordLiteral attributes, records => by
    rw [Expr.demoteTargetToSelf, Expr.evalIn, Expr.evalIn, ← List.map_cons,
      attributes.evalIn_demoteTargetToSelf]

theorem Exprs.evalIn_demoteTargetToSelf : ∀ (es : Exprs) (records : List Attrs),
    es.demoteTargetToSelf.evalIn sem resolve (records.map Attrs.demoteTargetToSelf) =
      es.evalIn sem (demoted resolve) records
  | .nil, _ => rfl
  | .cons head tail, records => by
    rw [Exprs.demoteTargetToSelf, Exprs.evalIn, Exprs.evalIn, head.evalIn_demoteTargetToSelf,
      tail.evalIn_demoteTargetToSelf]

theorem Attrs.evalIn_demoteTargetToSelf : ∀ (as : Attrs) (records : List Attrs),
    as.demoteTargetToSelf.evalIn sem resolve (records.map Attrs.demoteTargetToSelf) =
      as.evalIn sem (demoted resolve) records
  | .nil, _ => rfl
  | .cons name value tail, records => by
    rw [Attrs.demoteTargetToSelf, Attrs.evalIn, Attrs.evalIn, value.evalIn_demoteTargetToSelf,
      tail.evalIn_demoteTargetToSelf]

end

end

/-! ## Candidates and constraints -/

namespace Reference

def captured (r : Reference) : Option Expr := r.records.head?.bind (·.lookup r.name)

def asksAd (r : Reference) : Bool :=
  match r.scope, r.records with
  | .noScope, _ => r.captured.isNone
  | .myScope, _ | .targetScope, _ => true
  | .parentScope, [] => false
  | .parentScope, _ :: outer => (captured ⟨outer, .noScope, r.name⟩).isNone

def Uncaptured (r : Reference) : Prop := r.scope = .targetScope → r.captured = none

def LacksTarget (ad : ClassAd) (r : Reference) : Prop :=
  r.scope = .targetScope → ad.lookup r.name = none

end Reference

/-- **The attributes of an ad that an expression reaches.** -/
inductive ClassAd.Reaches (ad : ClassAd) (e : Expr) : Text → Prop
  | direct {r : Reference} (hr : r ∈ e.refsIn []) (hask : r.asksAd) : Reaches ad e r.name
  | through {name : Text} {own : Expr} {r : Reference} (hname : Reaches ad e name)
    (hown : ad.lookup name = some own) (hr : r ∈ own.refsIn []) (hask : r.asksAd) :
    Reaches ad e r.name

def ClassAd.SelfTargetFree (ad : ClassAd) (e : Expr) : Prop :=
  ∀ name own, ad.Reaches e name → ad.lookup name = some own →
    ∀ r ∈ own.refsIn [], r.LacksTarget ad

def ClassAd.Closed (ad : ClassAd) (asked : Text → Prop) : Prop :=
  ∀ name own, asked name → ad.lookup name = some own →
    ∀ r ∈ own.refsIn [], r.LacksTarget ad ∧ (r.asksAd → asked r.name)

theorem ClassAd.SelfTargetFree.closed {ad : ClassAd} {e : Expr} (h : ad.SelfTargetFree e) :
    ad.Closed (ad.Reaches e) := fun name own hname hown r hr =>
  ⟨h name own hname hown r hr, .through hname hown hr⟩

section

variable {ad : ClassAd} {asked : Text → Prop}

theorem ClassAd.find_congr {evalAt evalAt' : List Attrs → Expr → V} {name : Text}
    (f : Expr → Expr) {records records' : List Attrs}
    (hown : records.head?.bind (·.lookup name) = none → ∀ e, ad.lookup name = some e →
      evalAt [] e = evalAt' [] e)
    (hlookup : records'.head?.bind (·.lookup name) = (records.head?.bind (·.lookup name)).map f)
    (hrecord : ∀ e, records.head?.bind (·.lookup name) = some e →
      evalAt records' (f e) = evalAt' records e) :
    ad.find evalAt records' name = ad.find evalAt' records name := by
  rw [find, find, hlookup]
  cases hfound : records.head?.bind (·.lookup name) with
  | none => exact map_congr (hown hfound)
  | some e =>
    rw [map_some, map_some, map_some, some_or, some_or, hrecord e hfound]

theorem Enclosed.of_lookup {records : List Attrs} (h : Enclosed p records) {name : Text}
    {e : Expr} (he : records.head?.bind (·.lookup name) = some e) :
    ∀ r ∈ e.refsIn records, p r := by
  cases records with
  | nil => cases he
  | cons record outer => exact fun r hr => h.1 r (record.mem_refsIn_of_lookup he hr)

theorem ClassAd.evalAgainst_none (had : ad.Closed asked) (n : ℕ) :
    ∀ (records : List Attrs) (e : Expr),
      Enclosed (fun r => r.LacksTarget ad ∧ (r.asksAd → asked r.name)) records →
      (∀ r ∈ e.refsIn records, r.LacksTarget ad ∧ (r.asksAd → asked r.name)) →
      ad.evalAgainst sem n none records e = ad.evalAgainst sem n (some ad) records e := by
  induction n with
  | zero => exact fun _ _ _ _ => rfl
  | succ n ih =>
    intro records e hin he
    have hfind : ∀ records name,
        Enclosed (fun r => r.LacksTarget ad ∧ (r.asksAd → asked r.name)) records →
        (records.head?.bind (·.lookup name) = none → asked name) →
        ad.find (ad.evalAgainst sem n none) records name =
          ad.find (ad.evalAgainst sem n (some ad)) records name := by
      intro records name hin hask
      exact find_congr id (fun hnone e he => ih [] e trivial (had name e (hask hnone) he))
        map_id'.symm fun e he => ih records e hin (hin.of_lookup he)
    refine e.evalIn_congr (fun ⟨records, scope, name⟩ hin ⟨hlacks, hask⟩ => ?_) records hin he
    refine congrArg (getD · sem.undefined) ?_
    cases scope with
    | noScope => exact hfind records name hin fun hnone => hask (isNone_iff_eq_none.mpr hnone)
    | myScope => exact hfind [] name trivial fun _ => hask rfl
    | targetScope =>
      have hnone : ad.lookup name = none := hlacks rfl
      simp [find, hnone]
    | parentScope =>
      cases records with
      | nil => rfl
      | cons record outer =>
        exact hfind outer name hin.2 fun hnone => hask (isNone_iff_eq_none.mpr hnone)

theorem ClassAd.evalAgainst_demoteTargetToSelf {target : Option ClassAd}
    (hown : ∀ n name own, asked name → ad.lookup name = some own →
      ad.evalAgainst sem n none [] own = ad.evalAgainst sem n target [] own)
    (hp : ∀ r, p r → r.Uncaptured ∧ (r.asksAd → asked r.name) ∧ (r.scope = .targetScope →
      target = some ad ∨ target = none ∧ ad.lookup r.name = none)) (n : ℕ) :
    ∀ (records : List Attrs) (e : Expr), Enclosed p records → (∀ r ∈ e.refsIn records, p r) →
      ad.evalAgainst sem n none (records.map Attrs.demoteTargetToSelf) e.demoteTargetToSelf =
        ad.evalAgainst sem n target records e := by
  induction n with
  | zero => exact fun _ _ _ _ => rfl
  | succ n ih =>
    intro records e hin he
    have hfind : ∀ records name, Enclosed p records →
        (records.head?.bind (·.lookup name) = none → asked name) →
        ad.find (ad.evalAgainst sem n none) (records.map Attrs.demoteTargetToSelf) name =
          ad.find (ad.evalAgainst sem n target) records name := by
      intro records name hin hask
      refine find_congr Expr.demoteTargetToSelf (fun hnone e => hown n name e (hask hnone)) ?_
        fun e he => ih records e hin (hin.of_lookup he)
      cases records with
      | nil => rfl
      | cons record outer => exact record.lookup_demoteTargetToSelf name
    rw [evalAgainst, Expr.evalIn_demoteTargetToSelf]
    refine e.evalIn_congr (fun ⟨records, scope, name⟩ hin hr => ?_) records hin he
    obtain ⟨huncaptured, hask, htarget⟩ := hp _ hr
    refine congrArg (getD · sem.undefined) ?_
    cases scope with
    | noScope => exact hfind records name hin fun hnone => hask (isNone_iff_eq_none.mpr hnone)
    | myScope => exact hfind [] name trivial fun _ => hask rfl
    | targetScope =>
      -- the record does not have the name, so that the ad is asked
      have hnone : records.head?.bind (·.lookup name) = none := huncaptured rfl
      refine (hfind records name hin fun _ => hask rfl).trans ?_
      obtain rfl | ⟨rfl, hlookup⟩ := htarget rfl
      · simp [find, hnone]
      · simp [find, hnone, hlookup]
    | parentScope =>
      cases records with
      | nil => rfl
      | cons record outer =>
        exact hfind outer name hin.2 fun hnone => hask (isNone_iff_eq_none.mpr hnone)

end

/-- **Demoting `TARGET` keeps the meaning of a constraint** if no record takes a `TARGET` reference
for its own and no attribute that it reaches refers to the candidate as `TARGET`. -/
theorem target_demotion_preserves_meaning (ad : ClassAd) (e : Expr)
    (he : ∀ r ∈ e.refsIn [], r.Uncaptured) (had : ad.SelfTargetFree e) (n : ℕ) :
    ad.evalAgainst sem n none [] e.demoteTargetToSelf = ad.evalAgainst sem n (some ad) [] e :=
  ad.evalAgainst_demoteTargetToSelf (p := fun r => r.Uncaptured ∧ (r.asksAd → ad.Reaches e r.name))
    sem (fun n name own hname hown =>
      ad.evalAgainst_none sem had.closed n [] own trivial (had.closed name own hname hown))
    (fun _ hr => ⟨hr.1, hr.2, fun _ => .inl rfl⟩) n [] e trivial fun r hr => ⟨he r hr, .direct hr⟩

def recordValues : Semantics (List (Text × Value)) where
  lit v := [([], v)]
  undefined := []
  tooDeep := []
  binaryOp _ _ _ := []
  unaryOp _ _ := []
  listLiteral _ := []
  functionCall _ _ := []
  conditional _ _ _ := []
  elvis a _ := a
  select record attr := ((record.find? fun p => toLower p.1 = toLower attr).map fun p =>
    ([], p.2)).toList
  subscript _ _ := []
  recordLiteral attrs := attrs.flatMap fun p => p.2.map fun v => (p.1, v.2)

def recordConstraint (name : String) : Expr :=
  .selectExpr (.recordLiteral (.cons "X" (.lit (.int 1))
    (.cons "Y" (.attributeReference .targetScope name.toList) .nil))) "Y"

theorem target_demotion_preserves_record :
    let ad : ClassAd := ⟨[("X", .lit (.int 2)), ("Z", .lit (.int 3)),
      ("W", .attributeReference .targetScope "X")]⟩
    ad.evalAgainst recordValues 2 none [] (recordConstraint "Z").demoteTargetToSelf =
        ad.evalAgainst recordValues 2 (some ad) [] (recordConstraint "Z") ∧
      ad.evalAgainst recordValues 2 none [] (recordConstraint "Z").demoteTargetToSelf =
        [([], .int 3)] := by
  intro ad
  have hrefs : ∀ r ∈ (recordConstraint "Z").refsIn [], r.name = "Z" ∧ r.captured = none := by
    intro r hr
    rw [List.mem_singleton.mp hr]
    exact ⟨rfl, rfl⟩
  have hown : ∀ own, ad.lookup "Z" = some own → own.refsIn [] = [] := by
    intro own hown
    obtain rfl : Expr.lit (.int 3) = own :=
      some.inj ((by decide +kernel : some (.lit (.int 3)) = ad.lookup "Z").trans hown)
    rfl
  have hreached : ∀ name, ad.Reaches (recordConstraint "Z") name → name = "Z" := by
    intro name hname
    induction hname with
    | direct hr => exact (hrefs _ hr).1
    | through _ hfound hr _ ih =>
      subst ih
      rw [hown _ hfound] at hr
      cases hr
  refine ⟨target_demotion_preserves_meaning recordValues ad _ (fun r hr _ => (hrefs r hr).2) ?_ 2,
    by decide +kernel⟩
  intro name own hname hfound r hr
  obtain rfl := hreached name hname
  rw [hown own hfound] at hr
  cases hr

theorem target_demotion_changes_meaning :
    let ad : ClassAd := ⟨[("X", .lit (.int 2)),
      ("Z", .attributeReference .targetScope "X")]⟩
    let e : Expr := .attributeReference .noScope "Z"
    ad.evalAgainst recordValues 3 none [] (recordConstraint "X").demoteTargetToSelf =
        [([], .int 1)] ∧
      ad.evalAgainst recordValues 3 (some ad) [] (recordConstraint "X") = [([], .int 2)] ∧
      ad.evalAgainst recordValues 3 none [] e.demoteTargetToSelf = [] ∧
      ad.evalAgainst recordValues 3 (some ad) [] e = [([], .int 2)] := by
  decide +kernel

end GolangCollector
