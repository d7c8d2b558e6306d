import Mathlib.Data.Rat.Defs
import GolangCollector.Lib.GoStrings

/-! # ClassAds as the collector sees them

The classad library is outside this repository, so only what the collector's own code relies on is
modelled: the expression nodes that `walkExprNodes` visits (`store/constraint_scope.go`), an ad as
its list of `name = expression` attributes, and evaluation as a parameter `Evaluator` whose one
named law (`Evaluator.Literal`) is that a literal evaluates to itself. -/

namespace GolangCollector

open GoStrings List

/-! ## Values and expressions -/

inductive Value where
  | undefined
  | error
  | bool (b : Bool)
  | int (i : Int)
  | real (q : ℚ)
  | str (s : Text)
  deriving DecidableEq, Repr

inductive Scope where
  | noScope
  | myScope
  | targetScope
  | parentScope
  deriving DecidableEq, Repr

mutual

/-- A ClassAd expression, node for node as `walkExprNodes` takes it apart. -/
inductive Expr where
  /-- Any literal. -/
  | lit (v : Value)
  | attributeReference (scope : Scope) (name : Text)
  | binaryOp (op : Text) (left right : Expr)
  | unaryOp (op : Text) (expr : Expr)
  | parenExpr (inner : Expr)
  | listLiteral (elements : Exprs)
  | functionCall (name : Text) (args : Exprs)
  | conditionalExpr (condition trueExpr falseExpr : Expr)
  | elvisExpr (left right : Expr)
  | selectExpr (record : Expr) (attr : Text)
  | subscriptExpr (container index : Expr)
  | recordLiteral (attributes : Attrs)
  deriving DecidableEq, Repr

inductive Exprs where
  | nil
  | cons (head : Expr) (tail : Exprs)
  deriving DecidableEq, Repr

inductive Attrs where
  | nil
  | cons (name : Text) (value : Expr) (tail : Attrs)
  deriving DecidableEq, Repr

end

/-! ## Ads -/

/-- A ClassAd: its attributes, in order, with their expressions. -/
structure ClassAd where
  /-- The `name = expression` pairs. -/
  attrs : List (Text × Expr)
  deriving DecidableEq, Repr

namespace ClassAd

def lookup (ad : ClassAd) (attr : Text) : Option Expr :=
  (ad.attrs.find? fun p => toLower p.1 = toLower attr).map Prod.snd

def insert (ad : ClassAd) (attr : Text) (e : Expr) : ClassAd :=
  ⟨ad.attrs.filter (fun p => toLower p.1 ≠ toLower attr) ++ [(attr, e)]⟩

def delete (ad : ClassAd) (attr : Text) : ClassAd :=
  ⟨ad.attrs.filter fun p => toLower p.1 ≠ toLower attr⟩

theorem lookup_insert_of_eq (ad : ClassAd) {attr other : Text} (e : Expr)
    (h : toLower other = toLower attr) : (ad.insert attr e).lookup other = some e := by
  have hnone : (ad.attrs.filter fun p => toLower p.1 ≠ toLower attr).find?
      (fun p => toLower p.1 = toLower other) = none := by
    rw [find?_eq_none]
    intro p hp
    simpa [h] using (mem_filter.mp hp).2
  rw [lookup, insert, find?_append, hnone]
  simp [h]

theorem lookup_insert_of_ne (ad : ClassAd) {attr other : Text} (e : Expr)
    (h : toLower other ≠ toLower attr) : (ad.insert attr e).lookup other = ad.lookup other := by
  have hfilter : (ad.attrs.filter fun p => toLower p.1 ≠ toLower attr).find?
      (fun p => toLower p.1 = toLower other) =
        ad.attrs.find? (fun p => toLower p.1 = toLower other) := by
    rw [find?_filter]
    congr 1
    funext p
    by_cases hp : toLower p.1 = toLower other
    · simp [hp, h]
    · simp [hp]
  rw [lookup, insert, find?_append, hfilter]
  simp [lookup, h.symm]

end ClassAd

/-! ## Evaluation -/

abbrev Evaluator := ClassAd → Expr → Value

def Evaluator.Literal (ev : Evaluator) : Prop := ∀ ad v, ev ad (.lit v) = v

def literalEvaluator : Evaluator
  | _, .lit v => v
  | _, _ => .undefined

namespace ClassAd

variable (ev : Evaluator)

def evaluateAttr (ad : ClassAd) (attr : Text) : Value :=
  match ad.lookup attr with
  | some e => ev ad e
  | none => .undefined

def evaluateAttrString (ad : ClassAd) (attr : Text) : Option Text :=
  match ad.evaluateAttr ev attr with
  | .str s => some s
  | _ => none

def evaluateAttrInt (ad : ClassAd) (attr : Text) : Option Int :=
  match ad.evaluateAttr ev attr with
  | .int i => some i
  | _ => none

end ClassAd

end GolangCollector
