import GolangCollector.ClassAd.WireText

/-! # Query ads

How a query ad is read (`server/query.go`): its constraint, the attributes it wants and the number
of results it asks for, for a query of one table (`parseQuery`) and for one target of a query of
several (`parseSubQuery`). -/

namespace GolangCollector

open GoStrings

structure QueryLibrary extends Library where
  /-- The source of an expression. -/
  unparse : Expr → Text

def printingLibrary : QueryLibrary where
  toLibrary := literalLibrary .firstWins
  unparse
    | .lit (.str s) => quoted s
    | .lit (.int i) => formatInt i
    | _ => []

def attrRequirements : Text := "Requirements"
def attrProjection : Text := "Projection"
def attrProjectionAttributes : Text := "ProjectionAttributes"
def attrLimitResults : Text := "LimitResults"
def attrTargetType : Text := "TargetType"

/-- What a query asks for. -/
structure QuerySpec where
  constraint : Text
  projection : List Text
  limit : ℕ
  deriving DecidableEq, Repr

def splitAttrs (s : Text) : List Text :=
  fieldsFunc (fun r => r = ',' || r = ' ' || r = '\t' || r = '\n') s

def project (ad : ClassAd) (attrs : List Text) : ClassAd :=
  if attrs = [] then ad
  else attrs.foldl (fun out a =>
    match ad.lookup a with
    | some e => out.insert a e
    | none => out) ⟨[]⟩

variable (lib : QueryLibrary) (queryAd : ClassAd)

def constraintOf (attr : Text) : Text :=
  match queryAd.lookup attr with
  | some e =>
    let s := trimSpace (lib.unparse e)
    if equalFold s "true" then [] else s
  | none => []

def namesOf (attr : Text) : Option (List Text) :=
  match queryAd.evaluateAttrString lib.eval attr with
  | some s => if trimSpace s = [] then none else some (splitAttrs s)
  | none => none

def limitOf (attr : Text) : Option ℕ :=
  match queryAd.evaluateAttrInt lib.eval attr with
  | some l => if 0 < l then some l.toNat else none
  | none => none

def parseProjection : List Text :=
  ((namesOf lib queryAd attrProjection).or (namesOf lib queryAd attrProjectionAttributes)).getD []

def parseQuery : QuerySpec where
  constraint := constraintOf lib queryAd attrRequirements
  projection := parseProjection lib queryAd
  limit := (limitOf lib queryAd attrLimitResults).getD 0

def parseSubQuery (target : Text) : QuerySpec where
  constraint :=
    constraintOf lib queryAd
      (if (queryAd.lookup (target ++ attrRequirements)).isSome then target ++ attrRequirements
        else attrRequirements)
  projection :=
    (namesOf lib queryAd (target ++ attrProjection)).getD (parseProjection lib queryAd)
  limit :=
    ((limitOf lib queryAd (target ++ attrLimitResults)).or
      (limitOf lib queryAd attrLimitResults)).getD 0

end GolangCollector
