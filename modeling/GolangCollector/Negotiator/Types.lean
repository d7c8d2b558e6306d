import Mathlib.Algebra.Ring.Int.Defs
import GolangCollector.Lib.GoFloat
import GolangCollector.Lib.Selection
import GolangCollector.ClassAd.Ad

/-! # The negotiator's data

Requests, candidates with their rank tuples and the order on them, and what a match is limited by
(`negotiator/types.go`, `negotiator/interfaces.go`). Numbers are of a type `F` with the operations
the code uses: floats with a NaN where comparisons matter, an ordered field where sums do. The
classad library's matching functions are a parameter, `MatchLibrary`. -/

namespace GolangCollector.Negotiator

open GoStrings Selection

/-! ## Values and the matching library -/

inductive MatchValue (F : Type) where
  | undefined
  | error
  | bool (b : Bool)
  | int (i : Int)
  | real (f : F)
  | str (s : Text)
  deriving DecidableEq, Repr

/-- What is asked of the classad library and `strconv`; a pair is a job and a slot. -/
structure MatchLibrary (F : Type) where
  /-- `parser.ParseExpr`. -/
  parseExpr : Text → Option Expr
  /-- `strconv.ParseFloat`; NaN and the infinities are outside of `F` (see `FiniteWeights`). -/
  parseFloat : Text → Option F
  /-- The literal that `Set` and `InsertAttrFloat` store for a float. -/
  floatLit : F → Expr
  /-- `ad.EvaluateAttr(attr)`. -/
  evaluateAttr : ClassAd → Text → MatchValue F
  /-- `mc.Symmetry("Requirements", "Requirements")`. -/
  symmetry : ClassAd → ClassAd → Bool
  /-- `mc.EvaluateExprRight(expr)`: MY is the slot, TARGET the job. -/
  evaluateExprRight : ClassAd → ClassAd → Expr → MatchValue F
  /-- `mc.EvaluateAttrLeft(attr)`: MY is the job, TARGET the slot. -/
  evaluateAttrLeft : ClassAd → ClassAd → Text → MatchValue F
  /-- `mc.EvaluateRankLeft()`. -/
  evaluateRankLeft : ClassAd → ClassAd → Option F

namespace MatchValue

variable {F : Type}

def stringValue : MatchValue F → Option Text
  | .str s => some s
  | _ => none

def numberOf [IntCast F] : MatchValue F → Option F
  | .real f => some f
  | .int i => some i
  | _ => none

def isTrue : MatchValue F → Bool
  | .bool b => b
  | _ => false

end MatchValue

namespace MatchLibrary

variable {F : Type} (lib : MatchLibrary F)

def evaluateAttrString (ad : ClassAd) (attr : Text) : Option Text :=
  (lib.evaluateAttr ad attr).stringValue

def evaluateAttrInt (ad : ClassAd) (attr : Text) : Option Int :=
  match lib.evaluateAttr ad attr with
  | .int i => some i
  | _ => none

def evaluateAttrTrue (ad : ClassAd) (attr : Text) : Bool := (lib.evaluateAttr ad attr).isTrue

def evalNumber [IntCast F] (ad : ClassAd) (attr : Text) : Option F :=
  (lib.evaluateAttr ad attr).numberOf

def slotWeight [Zero F] [One F] [IntCast F] [LE F] [DecidableLE F] (useSlotWeights : Bool)
    (slot : ClassAd) : F :=
  if !useSlotWeights then 1
  else
    match (lib.evalNumber slot "SlotWeight").filter fun f => 0 ≤ f with
    | some f => f
    | none => ((lib.evalNumber slot "Cpus").filter fun f => 0 ≤ f).getD 1

def remoteUserOf (slot : ClassAd) : Text :=
  (["PreemptingAccountingGroup".toList, "PreemptingUser".toList, "AccountingGroup".toList,
      "RemoteUser".toList].findSome? fun attr =>
    (lib.evaluateAttrString slot attr).filter fun user => user ≠ []).getD []

end MatchLibrary

/-! ## A library that knows literals -/

section

variable {F : Type} (ofRat : ℚ → F) (nan : F)

def literalValue : Expr → MatchValue F
  | .lit (.bool b) => .bool b
  | .lit (.int i) => .int i
  | .lit (.real q) => .real (ofRat q)
  | .lit (.str s) => .str s
  | .lit .error => .error
  | .functionCall name _ => if name = "real" then .real nan else .undefined
  | _ => .undefined

def literalAttr (ad : ClassAd) (attr : Text) : MatchValue F :=
  ((ad.lookup attr).map (literalValue ofRat nan)).getD .undefined

def literalMatchLibrary : MatchLibrary F where
  parseExpr s := some (.attributeReference .myScope s)
  parseFloat _ := none
  floatLit _ := .lit (.real 0)
  evaluateAttr := literalAttr ofRat nan
  symmetry _ _ := true
  evaluateExprRight _ slot
    | .attributeReference _ name => literalAttr ofRat nan slot name
    | e => literalValue ofRat nan e
  evaluateAttrLeft job slot attr :=
    match job.lookup attr with
    | some (.attributeReference _ name) => literalAttr ofRat nan slot name
    | _ => literalAttr ofRat nan job attr
  evaluateRankLeft job slot :=
    match job.lookup "Rank" with
    | some (.attributeReference _ name) =>
      match literalAttr ofRat nan slot name with
      | .real f => some f
      | _ => none
    | _ => none

end

/-! ## Requests -/

structure Request where
  ad : ClassAd
  cluster : Int
  proc : Int
  /-- The schedd's autocluster, for the bookkeeping of rejections. -/
  autoClusterID : Int
  /-- The size of the group. -/
  count : Int
  deriving DecidableEq, Repr

def parseRequest {F : Type} (lib : MatchLibrary F) (ad : ClassAd) : Request where
  ad := ad
  cluster := (lib.evaluateAttrInt ad "ClusterId").getD 0
  proc := (lib.evaluateAttrInt ad "ProcId").getD 0
  autoClusterID := (lib.evaluateAttrInt ad "AutoClusterId").getD 0
  count := ((lib.evaluateAttrInt ad "_condor_RESOURCE_COUNT").filter fun v => 0 < v).getD 1

/-! ## Candidates -/

inductive PreemptTier where
  /-- Preempt for user priority. -/
  | prio
  /-- Preempt because the machine prefers the job. -/
  | rank
  /-- The slot is unclaimed, or preemption is off. -/
  | none
  deriving DecidableEq, Repr

def PreemptTier.code : PreemptTier → ℕ
  | prio => 0
  | rank => 1
  | none => 2

structure Candidate (F : Type) where
  slot : ClassAd
  preJobRank : F
  rank : F
  postJobRank : F
  preemptTier : PreemptTier
  preemptRank : F
  scanIndex : ℕ
  deriving Repr

namespace Candidate

variable {F : Type} [BEq F] [LT F] [DecidableLT F]

def better (c o : Candidate F) : Bool :=
  if c.preJobRank != o.preJobRank then o.preJobRank < c.preJobRank
  else if c.rank != o.rank then o.rank < c.rank
  else if c.postJobRank != o.postJobRank then o.postJobRank < c.postJobRank
  else if c.preemptTier.code != o.preemptTier.code then o.preemptTier.code < c.preemptTier.code
  else if c.preemptRank != o.preemptRank then o.preemptRank < c.preemptRank
  else c.scanIndex < o.scanIndex

def ranksThen (last : Candidate F → Candidate F → Bool) : Candidate F → Candidate F → Bool :=
  lexBeats (· == ·) (fun a b => decide (b < a)) preJobRank
    (lexBeats (· == ·) (fun a b => decide (b < a)) Candidate.rank
      (lexBeats (· == ·) (fun a b => decide (b < a)) postJobRank
        (lexBeats (· == ·) (fun a b => decide (b < a)) (fun c => c.preemptTier.code)
          (lexBeats (· == ·) (fun a b => decide (b < a)) preemptRank last))))

def outranks (c o : Candidate F) : Bool := ranksThen (fun _ _ => false) c o

theorem better_eq_ranksThen (c o : Candidate F) :
    c.better o = ranksThen (fun c o => decide (c.scanIndex < o.scanIndex)) c o := rfl

theorem better_eq_outranks {c o : Candidate F} (h : o.scanIndex < c.scanIndex) :
    c.better o = c.outranks o := by
  simp only [better_eq_ranksThen, outranks, ranksThen, lexBeats, decide_eq_false h.not_gt]

end Candidate

namespace Candidate

variable {R : Type} [LinearOrder R]

theorem keyOrder_goFloat :
    KeyOrder (fun a b : GoFloat R => a == b) (fun a b => decide (b < a)) where
  eq_trans a b c := by cases a <;> cases b <;> cases c <;> simp_all
  gt_trans a b c hab hbc := by
    cases a <;> cases b <;> cases c <;> simp_all
    exact hbc.trans hab
  gt_of_gt_of_eq a b c hab hbc := by cases a <;> cases b <;> cases c <;> simp_all
  gt_of_eq_of_gt a b c := by cases a <;> cases b <;> cases c <;> simp_all
  ne_of_gt a b hab := by
    cases a <;> cases b <;> simp_all
    exact hab.ne'

theorem keyOrder_nat : KeyOrder (fun a b : ℕ => a == b) (fun a b => decide (b < a)) := by
  constructor <;> simp <;> omega

theorem outranks_trans (x y z : Candidate (GoFloat R)) (hxy : x.outranks y) (hyz : y.outranks z) :
    x.outranks z := by
  refine lexBeats_trans keyOrder_goFloat (lexBeats_trans keyOrder_goFloat (lexBeats_trans
    keyOrder_goFloat (lexBeats_trans keyOrder_nat (lexBeats_trans keyOrder_goFloat ?_)))) x y z
      hxy hyz
  simp

theorem outranks_irrefl (x : Candidate (GoFloat R)) : x.outranks x = false := by
  have hlt : ∀ a : GoFloat R, ¬ a < a := fun a => by cases a <;> simp
  simp [outranks, ranksThen, lexBeats, hlt]

theorem better_irrefl (x : Candidate (GoFloat R)) : x.better x = false := by
  have hlt : ∀ a : GoFloat R, ¬ a < a := fun a => by cases a <;> simp
  simp [better, hlt]

structure RanksAreNumbers (c : Candidate (GoFloat R)) : Prop where
  preJobRank : c.preJobRank.IsNum
  rank : c.rank.IsNum
  postJobRank : c.postJobRank.IsNum
  preemptRank : c.preemptRank.IsNum

def keyThen {ρ : Type} (last : Candidate (GoFloat R) → ρ) :
    Candidate (GoFloat R) → WithBot R ×ₗ WithBot R ×ₗ WithBot R ×ₗ ℕ ×ₗ WithBot R ×ₗ ρ :=
  lexKey (fun c => c.preJobRank.toWithBot) (lexKey (fun c => c.rank.toWithBot)
    (lexKey (fun c => c.postJobRank.toWithBot) (lexKey (fun c => c.preemptTier.code)
      (lexKey (fun c => c.preemptRank.toWithBot) last))))

def key (c : Candidate (GoFloat R)) :
    WithBot R ×ₗ WithBot R ×ₗ WithBot R ×ₗ ℕ ×ₗ WithBot R ×ₗ ℕᵒᵈ :=
  keyThen (fun c => OrderDual.toDual c.scanIndex) c

variable {c o : Candidate (GoFloat R)}

theorem ranksThen_iff_keyThen_lt {ρ : Type} [LT ρ]
    {last : Candidate (GoFloat R) → Candidate (GoFloat R) → Bool} {r : Candidate (GoFloat R) → ρ}
    (hc : c.RanksAreNumbers) (ho : o.RanksAreNumbers) (hlast : last c o = true ↔ r o < r c) :
    ranksThen last c o = true ↔ keyThen r o < keyThen r c := by
  have hnum : ∀ {a b : GoFloat R}, a.IsNum → b.IsNum →
      ((a == b) = true ↔ a.toWithBot = b.toWithBot) ∧
        (decide (b < a) = true ↔ b.toWithBot < a.toWithBot) := fun ha hb =>
    ⟨GoFloat.beq_iff_toWithBot_eq ha hb, by
      rw [decide_eq_true_eq, GoFloat.lt_iff_toWithBot_lt hb ha]⟩
  have h₁ := hnum hc.preJobRank ho.preJobRank
  have h₂ := hnum hc.rank ho.rank
  have h₃ := hnum hc.postJobRank ho.postJobRank
  have h₄ := hnum hc.preemptRank ho.preemptRank
  exact lexBeats_iff_lexKey_lt h₁.1 h₁.2 <| lexBeats_iff_lexKey_lt h₂.1 h₂.2 <|
    lexBeats_iff_lexKey_lt h₃.1 h₃.2 <| lexBeats_iff_lexKey_lt (by simp) (by simp) <|
      lexBeats_iff_lexKey_lt h₄.1 h₄.2 hlast

theorem better_iff_key_lt (hc : c.RanksAreNumbers) (ho : o.RanksAreNumbers) :
    c.better o = true ↔ o.key < c.key := by
  rw [better_eq_ranksThen]
  exact ranksThen_iff_keyThen_lt hc ho (by rw [decide_eq_true_eq, OrderDual.toDual_lt_toDual])

theorem cotransitive_outranks {S : Set (Candidate (GoFloat R))}
    (hS : ∀ c ∈ S, c.RanksAreNumbers) : Cotransitive outranks S := by
  have hiff : ∀ c ∈ S, ∀ o ∈ S, c.outranks o = true ↔
      keyThen (fun _ => ()) o < keyThen (fun _ => ()) c := fun c hc o ho =>
    ranksThen_iff_keyThen_lt (hS c hc) (hS o ho) (by simp)
  intro x hx a ha c hc h
  rw [hiff c hc a ha, hiff a ha x hx]
  exact ((hiff c hc x hx).mp h).gt_or_lt _ |>.symm

end Candidate

/-! ## What limits a match -/

structure ConcurrencyLimits (F : Type) where
  usage : Text → F
  max : Text → F

structure MatchLimits (F : Type) where
  submitterLimit : F
  limitUsed : F
  pieLeft : F
  ceiling : F
  submitterLimitUnclaimed : F
  limitUsedUnclaimed : F
  onlyForStartdRank : Bool
  submitterName : Text
  concurrency : Option (ConcurrencyLimits F)

structure RejectInfo where
  reason : Text
  forSubmitterLimit : ℕ
  forConcurrencyLim : ℕ
  forPreemptionPolicy : ℕ
  forPreemptionRank : ℕ
  deriving DecidableEq, Repr

end GolangCollector.Negotiator
