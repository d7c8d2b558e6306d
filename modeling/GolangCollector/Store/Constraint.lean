import GolangCollector.ClassAd.WireText

/-! # Constraints

A query or invalidation carries its constraint as text. The in-memory store compiles it with
`parseConstraint` (`store/store.go`): blank text and a literal `true` select everything, and any
other expression has its `TARGET` references demoted to unscoped ones (`demoteTargetToSelf`,
`store/constraint_scope.go`), because a collection scan has no match target. -/

namespace GolangCollector

open GoStrings

/-! ## Demoting `TARGET` -/

def Scope.demote : Scope → Scope
  | .targetScope => .noScope
  | s => s

mutual

def Expr.demoteTargetToSelf : Expr → Expr
  | .lit v => .lit v
  | .attributeReference scope name => .attributeReference scope.demote name
  | .binaryOp op left right => .binaryOp op left.demoteTargetToSelf right.demoteTargetToSelf
  | .unaryOp op expr => .unaryOp op expr.demoteTargetToSelf
  | .parenExpr inner => .parenExpr inner.demoteTargetToSelf
  | .listLiteral elements => .listLiteral elements.demoteTargetToSelf
  | .functionCall name args => .functionCall name args.demoteTargetToSelf
  | .conditionalExpr condition trueExpr falseExpr =>
    .conditionalExpr condition.demoteTargetToSelf trueExpr.demoteTargetToSelf
      falseExpr.demoteTargetToSelf
  | .elvisExpr left right => .elvisExpr left.demoteTargetToSelf right.demoteTargetToSelf
  | .selectExpr record attr => .selectExpr record.demoteTargetToSelf attr
  | .subscriptExpr container index =>
    .subscriptExpr container.demoteTargetToSelf index.demoteTargetToSelf
  | .recordLiteral attributes => .recordLiteral attributes.demoteTargetToSelf

def Exprs.demoteTargetToSelf : Exprs → Exprs
  | .nil => .nil
  | .cons head tail => .cons head.demoteTargetToSelf tail.demoteTargetToSelf

def Attrs.demoteTargetToSelf : Attrs → Attrs
  | .nil => .nil
  | .cons name value tail => .cons name value.demoteTargetToSelf tail.demoteTargetToSelf

end

mutual

def Expr.targetFree : Expr → Bool
  | .lit _ => true
  | .attributeReference scope _ => scope ≠ .targetScope
  | .binaryOp _ left right => left.targetFree && right.targetFree
  | .unaryOp _ expr => expr.targetFree
  | .parenExpr inner => inner.targetFree
  | .listLiteral elements => elements.targetFree
  | .functionCall _ args => args.targetFree
  | .conditionalExpr condition trueExpr falseExpr =>
    condition.targetFree && trueExpr.targetFree && falseExpr.targetFree
  | .elvisExpr left right => left.targetFree && right.targetFree
  | .selectExpr record _ => record.targetFree
  | .subscriptExpr container index => container.targetFree && index.targetFree
  | .recordLiteral attributes => attributes.targetFree

def Exprs.targetFree : Exprs → Bool
  | .nil => true
  | .cons head tail => head.targetFree && tail.targetFree

def Attrs.targetFree : Attrs → Bool
  | .nil => true
  | .cons _ value tail => value.targetFree && tail.targetFree

end

mutual

theorem Expr.demoteTargetToSelf_of_targetFree :
    ∀ e : Expr, e.targetFree → e.demoteTargetToSelf = e
  | .lit _, _ => rfl
  | .attributeReference scope name, h => by
      cases scope <;> simp_all [Expr.targetFree, Expr.demoteTargetToSelf, Scope.demote]
  | .binaryOp _ left right, h | .elvisExpr left right, h | .subscriptExpr left right, h => by
      simp only [Expr.targetFree, Bool.and_eq_true] at h
      rw [Expr.demoteTargetToSelf, left.demoteTargetToSelf_of_targetFree h.1,
        right.demoteTargetToSelf_of_targetFree h.2]
  | .unaryOp _ e, h | .parenExpr e, h | .selectExpr e _, h => by
      rw [Expr.demoteTargetToSelf, e.demoteTargetToSelf_of_targetFree h]
  | .listLiteral es, h | .functionCall _ es, h => by
      rw [Expr.demoteTargetToSelf, es.demoteTargetToSelf_of_targetFree h]
  | .conditionalExpr condition trueExpr falseExpr, h => by
      simp only [Expr.targetFree, Bool.and_eq_true] at h
      rw [Expr.demoteTargetToSelf, condition.demoteTargetToSelf_of_targetFree h.1.1,
        trueExpr.demoteTargetToSelf_of_targetFree h.1.2,
        falseExpr.demoteTargetToSelf_of_targetFree h.2]
  | .recordLiteral attributes, h => by
      rw [Expr.demoteTargetToSelf, attributes.demoteTargetToSelf_of_targetFree h]

theorem Exprs.demoteTargetToSelf_of_targetFree :
    ∀ es : Exprs, es.targetFree → es.demoteTargetToSelf = es
  | .nil, _ => rfl
  | .cons head tail, h => by
      simp only [Exprs.targetFree, Bool.and_eq_true] at h
      rw [Exprs.demoteTargetToSelf, head.demoteTargetToSelf_of_targetFree h.1,
        tail.demoteTargetToSelf_of_targetFree h.2]

theorem Attrs.demoteTargetToSelf_of_targetFree :
    ∀ as : Attrs, as.targetFree → as.demoteTargetToSelf = as
  | .nil, _ => rfl
  | .cons name value tail, h => by
      simp only [Attrs.targetFree, Bool.and_eq_true] at h
      rw [Attrs.demoteTargetToSelf, value.demoteTargetToSelf_of_targetFree h.1,
        tail.demoteTargetToSelf_of_targetFree h.2]

end

/-! ## Compiling a constraint -/

/-- The errors of the store's operations. -/
inductive StoreError where
  /-- `collector: %s is not a storage table`. -/
  | notStorageTable (table : Text)
  /-- `collector: %s ad has no Name/Machine to key on`. -/
  | noKey (table : Text)
  /-- `collector: startd private ad's public ad has no Name to key on`. -/
  | noPublicKey
  /-- `collector: constraint %q: ...`. -/
  | badConstraint (constraint : Text)
  /-- The collection or database rejects an ad text that does not parse. -/
  | badText (text : Text)
  deriving DecidableEq, Repr

def isLiteralTrue (constraint : Text) : Bool :=
  equalFold (trimSpace constraint) "true"

def parseConstraint (lib : Library) (constraint : Text) : Except StoreError (Option Expr) :=
  if trimSpace constraint = [] ∨ isLiteralTrue constraint then .ok none
  else
    match lib.parseExpr (trimSpace constraint) with
    | none => .error (.badConstraint constraint)
    | some e => .ok (some e.demoteTargetToSelf)

def Library.selects (lib : Library) (e : Expr) (ad : ClassAd) : Bool := lib.eval ad e = .bool true

def Library.satisfies (lib : Library) (q : Option Expr) (ad : ClassAd) : Bool :=
  match q with
  | none => true
  | some e => lib.selects e ad

end GolangCollector
