import Mathlib.Algebra.BigOperators.Group.List.Basic
import Mathlib.Algebra.GroupWithZero.Nat
import GolangCollector.ClassAd.Ad

/-! # Evaluation of expressions in a match

The value of an expression is made of the values of its parts, and the value of a reference is that
of the attribute it names, evaluated where it stands: an unscoped name is looked up in the ad at
hand (MY) first and then in the other one (TARGET), and what is found there is evaluated with the
two ads exchanged. The operators and functions, and the depth to which references are followed, are
parameters. -/

namespace GolangCollector

open GoStrings

structure Semantics (V : Type) where
  lit : Value → V
  /-- The value of a reference to nothing. -/
  undefined : V
  /-- The value of a reference that is too deep. -/
  tooDeep : V
  binaryOp : Text → V → V → V
  unaryOp : Text → V → V
  listLiteral : List V → V
  functionCall : Text → List V → V
  conditional : V → V → V → V
  elvis : V → V → V
  select : V → Text → V
  subscript : V → V → V
  recordLiteral : List (Text × V) → V

variable {V : Type} (sem : Semantics V)

mutual

def Expr.evalWith (resolve : Scope → Text → V) : Expr → V
  | .lit v => sem.lit v
  | .attributeReference scope name => resolve scope name
  | .binaryOp op left right => sem.binaryOp op (left.evalWith resolve) (right.evalWith resolve)
  | .unaryOp op expr => sem.unaryOp op (expr.evalWith resolve)
  | .parenExpr inner => inner.evalWith resolve
  | .listLiteral elements => sem.listLiteral (elements.evalWith resolve)
  | .functionCall name args => sem.functionCall name (args.evalWith resolve)
  | .conditionalExpr condition trueExpr falseExpr =>
    sem.conditional (condition.evalWith resolve) (trueExpr.evalWith resolve)
      (falseExpr.evalWith resolve)
  | .elvisExpr left right => sem.elvis (left.evalWith resolve) (right.evalWith resolve)
  | .selectExpr record attr => sem.select (record.evalWith resolve) attr
  | .subscriptExpr container index =>
    sem.subscript (container.evalWith resolve) (index.evalWith resolve)
  | .recordLiteral attributes => sem.recordLiteral (attributes.evalWith resolve)

def Exprs.evalWith (resolve : Scope → Text → V) : Exprs → List V
  | .nil => []
  | .cons head tail => head.evalWith resolve :: tail.evalWith resolve

def Attrs.evalWith (resolve : Scope → Text → V) : Attrs → List (Text × V)
  | .nil => []
  | .cons name value tail => (name, value.evalWith resolve) :: tail.evalWith resolve

end

mutual

def Expr.refs (intoRecords : Bool) : Expr → List (Scope × Text)
  | .lit _ => []
  | .attributeReference scope name => [(scope, name)]
  | .binaryOp _ left right => left.refs intoRecords ++ right.refs intoRecords
  | .unaryOp _ expr => expr.refs intoRecords
  | .parenExpr inner => inner.refs intoRecords
  | .listLiteral elements => elements.refs intoRecords
  | .functionCall _ args => args.refs intoRecords
  | .conditionalExpr condition trueExpr falseExpr =>
    condition.refs intoRecords ++ (trueExpr.refs intoRecords ++ falseExpr.refs intoRecords)
  | .elvisExpr left right => left.refs intoRecords ++ right.refs intoRecords
  | .selectExpr record _ => record.refs intoRecords
  | .subscriptExpr container index => container.refs intoRecords ++ index.refs intoRecords
  | .recordLiteral attributes => if intoRecords then attributes.refs intoRecords else []

def Exprs.refs (intoRecords : Bool) : Exprs → List (Scope × Text)
  | .nil => []
  | .cons head tail => head.refs intoRecords ++ tail.refs intoRecords

def Attrs.refs (intoRecords : Bool) : Attrs → List (Scope × Text)
  | .nil => []
  | .cons _ value tail => value.refs intoRecords ++ tail.refs intoRecords

end

def ClassAd.eval : ℕ → ClassAd → ClassAd → Expr → V
  | 0, _, _, _ => sem.tooDeep
  | n + 1, my, target, e =>
    e.evalWith sem fun scope name =>
      let own := (my.lookup name).map (eval n my target)
      let other := (target.lookup name).map (eval n target my)
      match scope with
      | .noScope => (own.or other).getD sem.undefined
      | .myScope => own.getD sem.undefined
      | .targetScope => other.getD sem.undefined
      | .parentScope => sem.undefined

section

variable {sem} {resolve resolve' : Scope → Text → V}

mutual

theorem Expr.evalWith_congr : ∀ e : Expr,
    (∀ r ∈ e.refs true, resolve r.1 r.2 = resolve' r.1 r.2) →
    e.evalWith sem resolve = e.evalWith sem resolve'
  | .lit _, _ => rfl
  | .attributeReference scope name, h => h (scope, name) (by simp [Expr.refs])
  | .binaryOp _ left right, h | .elvisExpr left right, h | .subscriptExpr left right, h => by
      simp only [Expr.refs, List.forall_mem_append] at h
      rw [Expr.evalWith, Expr.evalWith, left.evalWith_congr h.1, right.evalWith_congr h.2]
  | .unaryOp _ e, h | .parenExpr e, h | .selectExpr e _, h => by
      rw [Expr.evalWith, Expr.evalWith, e.evalWith_congr h]
  | .listLiteral es, h | .functionCall _ es, h => by
      rw [Expr.evalWith, Expr.evalWith, es.evalWith_congr h]
  | .conditionalExpr condition trueExpr falseExpr, h => by
      simp only [Expr.refs, List.forall_mem_append] at h
      rw [Expr.evalWith, Expr.evalWith, condition.evalWith_congr h.1,
        trueExpr.evalWith_congr h.2.1, falseExpr.evalWith_congr h.2.2]
  | .recordLiteral attributes, h => by
      rw [Expr.evalWith, Expr.evalWith, attributes.evalWith_congr h]

theorem Exprs.evalWith_congr : ∀ es : Exprs,
    (∀ r ∈ es.refs true, resolve r.1 r.2 = resolve' r.1 r.2) →
    es.evalWith sem resolve = es.evalWith sem resolve'
  | .nil, _ => rfl
  | .cons head tail, h => by
      simp only [Exprs.refs, List.forall_mem_append] at h
      rw [Exprs.evalWith, Exprs.evalWith, head.evalWith_congr h.1, tail.evalWith_congr h.2]

theorem Attrs.evalWith_congr : ∀ as : Attrs,
    (∀ r ∈ as.refs true, resolve r.1 r.2 = resolve' r.1 r.2) →
    as.evalWith sem resolve = as.evalWith sem resolve'
  | .nil, _ => rfl
  | .cons name value tail, h => by
      simp only [Attrs.refs, List.forall_mem_append] at h
      rw [Attrs.evalWith, Attrs.evalWith, value.evalWith_congr h.1, tail.evalWith_congr h.2]

end

end

/-! ## Counting undefined references -/

def undefinedCount : Semantics ℕ where
  lit _ := 0
  undefined := 1
  tooDeep := 0
  binaryOp _ a b := a + b
  unaryOp _ a := a
  listLiteral := List.sum
  functionCall _ := List.sum
  conditional a b c := a + (b + c)
  elvis a b := a + b
  select a _ := a
  subscript a b := a + b
  recordLiteral vs := (vs.map Prod.snd).sum

section

variable (resolve : Scope → Text → ℕ)

mutual

theorem Expr.evalWith_undefinedCount : ∀ e : Expr,
    e.evalWith undefinedCount resolve = ((e.refs true).map fun r => resolve r.1 r.2).sum
  | .lit _ => rfl
  | .attributeReference scope name => by simp [Expr.evalWith, Expr.refs]
  | .binaryOp _ left right | .elvisExpr left right | .subscriptExpr left right => by
      rw [Expr.refs, List.map_append, List.sum_append, ← left.evalWith_undefinedCount,
        ← right.evalWith_undefinedCount]
      rfl
  | .unaryOp _ e | .parenExpr e | .selectExpr e _ => e.evalWith_undefinedCount
  | .listLiteral es | .functionCall _ es => es.evalWith_undefinedCount
  | .conditionalExpr condition trueExpr falseExpr => by
      rw [Expr.refs, List.map_append, List.map_append, List.sum_append, List.sum_append,
        ← condition.evalWith_undefinedCount, ← trueExpr.evalWith_undefinedCount,
        ← falseExpr.evalWith_undefinedCount]
      rfl
  | .recordLiteral attributes => attributes.evalWith_undefinedCount

theorem Exprs.evalWith_undefinedCount : ∀ es : Exprs,
    (es.evalWith undefinedCount resolve).sum = ((es.refs true).map fun r => resolve r.1 r.2).sum
  | .nil => rfl
  | .cons head tail => by
      simp [Exprs.evalWith, Exprs.refs, head.evalWith_undefinedCount, tail.evalWith_undefinedCount]

theorem Attrs.evalWith_undefinedCount : ∀ as : Attrs,
    ((as.evalWith undefinedCount resolve).map Prod.snd).sum =
      ((as.refs true).map fun r => resolve r.1 r.2).sum
  | .nil => rfl
  | .cons _ value tail => by
      simp [Attrs.evalWith, Attrs.refs, value.evalWith_undefinedCount, tail.evalWith_undefinedCount]

end

end

/-! ## Ads that agree -/

def ClassAd.Leaves (ad : ClassAd) (r : Scope × Text) : Prop :=
  r.1 = .targetScope ∨ r.1 = .noScope ∧ ad.lookup r.2 = none

def Keeps (r : Scope × Text) : Prop := r.1 = .noScope ∨ r.1 = .myScope

/-- **Two ads agree on attributes** that are closed under references. -/
structure AgreeOn (A : Text → Prop) (ad ad' : ClassAd) : Prop where
  lookup_eq : ∀ a, A a → ad.lookup a = ad'.lookup a
  closed : ∀ a, A a → ∀ e, ad.lookup a = some e → ∀ r ∈ e.refs true, Keeps r → A r.2

def RefersTo (A : Text → Prop) (ad : ClassAd) : Prop :=
  ∀ a e, ad.lookup a = some e → ∀ r ∈ e.refs true, ad.Leaves r → A r.2

section

variable {A : Text → Prop} {ad ad' other : ClassAd}

theorem AgreeOn.eval_eq (h : AgreeOn A ad ad') (hother : RefersTo A other) (n : ℕ) :
    (∀ e : Expr, (∀ r ∈ e.refs true, other.Leaves r → A r.2) →
      other.eval sem n ad e = other.eval sem n ad' e) ∧
    ∀ e : Expr, (∀ r ∈ e.refs true, Keeps r → A r.2) →
      ad.eval sem n other e = ad'.eval sem n other e := by
  induction n with
  | zero => exact ⟨fun _ _ => rfl, fun _ _ => rfl⟩
  | succ n ih =>
    -- The attributes of the other ad, and those agreed on, have the same values one level down.
    have hout : ∀ name, (other.lookup name).map (other.eval sem n ad) =
        (other.lookup name).map (other.eval sem n ad') := by
      intro name
      exact Option.map_congr fun e he => ih.1 e (hother name e he)
    have hin : ∀ name, A name → (ad.lookup name).map (ad.eval sem n other) =
        (ad'.lookup name).map (ad'.eval sem n other) := by
      intro name hname
      rw [← h.lookup_eq name hname]
      exact Option.map_congr fun e he => ih.2 e (h.closed name hname e he)
    constructor
    · intro e he
      apply Expr.evalWith_congr
      rintro ⟨scope, name⟩ hr
      have hA := he _ hr
      cases scope with
      | noScope =>
        cases hl : other.lookup name with
        | none => simp [hin name (hA (.inr ⟨rfl, hl⟩))]
        | some e' => simpa [hl] using hout name
      | myScope => simp [hout name]
      | targetScope => simp [hin name (hA (.inl rfl))]
      | parentScope => rfl
    · intro e he
      apply Expr.evalWith_congr
      rintro ⟨scope, name⟩ hr
      have hA := he _ hr
      cases scope with
      | noScope => simp [hin name (hA (.inl rfl)), hout name]
      | myScope => simp [hin name (hA (.inr rfl))]
      | targetScope => simp [hout name]
      | parentScope => rfl

end

end GolangCollector
