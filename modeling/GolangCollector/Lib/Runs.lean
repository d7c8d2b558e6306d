import Mathlib.Data.List.Basic

/-! # Runs of a labelled step function

A system is given by `step : S → L → Option S`: a label is the choice of who moves, and `none` means
that the move is not enabled. `exec` runs a list of labels; `Run P` is a run all of whose moves meet
a condition `P` on the state before the move and its label, and `Run.invariant` is the induction
over such runs. -/

namespace Runs

open Option

variable {S L : Type}

def exec (step : S → L → Option S) : S → List L → Option S
  | s, [] => some s
  | s, l :: ls => (step s l).bind fun s' => exec step s' ls

/-- **A run under a condition** on the labels. -/
inductive Run (step : S → L → Option S) (P : S → L → Prop) : S → List L → S → Prop where
  | nil (s : S) : Run step P s [] s
  | cons {s s' s'' : S} {l : L} {ls : List L} (hstep : step s l = some s') (hcond : P s l)
      (hrest : Run step P s' ls s'') : Run step P s (l :: ls) s''

variable {step : S → L → Option S} {P Q : S → L → Prop} {s s' : S} {ls : List L}

theorem Run.invariant {I : S → Prop}
    (hstep : ∀ s l s', step s l = some s' → P s l → I s → I s') (h : Run step P s ls s')
    (hinit : I s) : I s' := by
  induction h with
  | nil s => exact hinit
  | cons hmove hcond _ ih => exact ih (hstep _ _ _ hmove hcond hinit)

theorem Run.length_le {rank : S → ℕ}
    (hstep : ∀ s l s', step s l = some s' → P s l → rank s' < rank s) (h : Run step P s ls s') :
    ls.length ≤ rank s := by
  induction h with
  | nil s => exact Nat.zero_le _
  | cons hmove hcond _ ih =>
    have hless := hstep _ _ _ hmove hcond
    rw [List.length_cons]
    omega

theorem Run.mono (h : Run step P s ls s') (hPQ : ∀ s l, P s l → Q s l) : Run step Q s ls s' := by
  induction h with
  | nil s => exact .nil s
  | cons hmove hcond _ ih => exact .cons hmove (hPQ _ _ hcond) ih

theorem Run.and (h : Run step P s ls s') (h' : Run step Q s ls s') :
    Run step (fun s l => P s l ∧ Q s l) s ls s' := by
  induction h with
  | nil s => exact .nil s
  | cons hmove hcond _ ih =>
    cases h' with
    | cons hmove' hcond' hrest' =>
      obtain rfl := some.inj (hmove.symm.trans hmove')
      exact .cons hmove ⟨hcond, hcond'⟩ (ih hrest')

theorem Run.snoc (h : Run step P s ls s') {l : L} {s'' : S} (hmove : step s' l = some s'')
    (hcond : P s' l) : Run step P s (ls ++ [l]) s'' := by
  induction h with
  | nil s => exact .cons hmove hcond (.nil s'')
  | cons hfirst hcond' _ ih => exact .cons hfirst hcond' (ih hmove hcond)

theorem Run.of_append {ls₁ ls₂ : List L} {s₁ : S} (h : Run step P s (ls₁ ++ ls₂) s')
    (h₁ : Run step Q s ls₁ s₁) : Run step P s ls₁ s₁ := by
  induction h₁ with
  | nil s => exact .nil s
  | cons hmove _ _ ih =>
    cases h with
    | cons hmove' hcond' hrest' =>
      obtain rfl := some.inj (hmove.symm.trans hmove')
      exact .cons hmove hcond' (ih hrest')

theorem Run.run_or_break (h : Run step Q s ls s') :
    Run step P s ls s' ∨ ∃ ls₁ l ls₂ s₁ s₂, ls = ls₁ ++ l :: ls₂ ∧ Run step Q s ls₁ s₁ ∧
      step s₁ l = some s₂ ∧ ¬ P s₁ l ∧ Run step Q s₂ ls₂ s' := by
  induction h with
  | nil s => exact Or.inl (.nil s)
  | @cons s s₁ s' l ls hmove hcond hrest ih =>
    by_cases hP : P s l
    · rcases ih with hrun | ⟨ls₁, l', ls₂, s₂, s₃, rfl, hbefore, hbreak⟩
      · exact Or.inl (.cons hmove hP hrun)
      · exact Or.inr ⟨l :: ls₁, l', ls₂, s₂, s₃, rfl, .cons hmove hcond hbefore, hbreak⟩
    · exact Or.inr ⟨[], l, ls, s, s₁, rfl, .nil s, hmove, hP, hrest⟩

theorem Run.of_exec (h : exec step s ls = some s') (hP : ∀ l ∈ ls, ∀ s, P s l) :
    Run step P s ls s' := by
  induction ls generalizing s with
  | nil =>
    obtain rfl : s = s' := some.inj h
    exact .nil _
  | cons l ls ih =>
    rw [List.forall_mem_cons] at hP
    obtain ⟨s₁, hmove, hrest⟩ := bind_eq_some_iff.mp h
    exact .cons hmove (hP.1 s) (ih hrest hP.2)

def execUnder (step : S → L → Option S) (P : S → L → Prop) [∀ s l, Decidable (P s l)] :
    S → List L → Option S
  | s, [] => some s
  | s, l :: ls => if P s l then (step s l).bind fun s' => execUnder step P s' ls else none

theorem Run.of_execUnder [∀ s l, Decidable (P s l)] (h : execUnder step P s ls = some s') :
    Run step P s ls s' := by
  induction ls generalizing s with
  | nil =>
    obtain rfl : s = s' := some.inj h
    exact .nil _
  | cons l ls ih =>
    rw [execUnder] at h
    split at h
    · next hcond =>
      obtain ⟨s₁, hmove, hrest⟩ := bind_eq_some_iff.mp h
      exact .cons hmove hcond (ih hrest)
    · cases h

end Runs
