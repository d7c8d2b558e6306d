import Mathlib.Data.List.Basic

/-! # Text in lines

The lines of a text over any alphabet with a separator, as a line scanner returns them: what stands
behind the last separator is a line too, unless it is empty. A text that ends at a line boundary can
be cut and continued line by line; where a text of whole lines is cut elsewhere, a part of one line
is left. -/

namespace LineLog

open List

variable {α : Type} [DecidableEq α] (nl : α)

def consFirst (c : α) : List (List α) → List (List α)
  | [] => [[c]]
  | l :: ls => (c :: l) :: ls

def lines : List α → List (List α)
  | [] => []
  | c :: cs => if c = nl then [] :: lines cs else consFirst c (lines cs)

/-- A text ends at a line boundary. -/
def EndsLine (text : List α) : Prop := text = [] ∨ text.getLast? = some nl

instance (text : List α) : Decidable (EndsLine nl text) := inferInstanceAs (Decidable (_ ∨ _))

variable {nl}

theorem lines_append_cons {l : List α} (hl : nl ∉ l) (rest : List α) :
    lines nl (l ++ nl :: rest) = l :: lines nl rest := by
  induction l with
  | nil => rw [nil_append, lines, if_pos rfl]
  | cons c cs ih =>
    rw [mem_cons, not_or] at hl
    rw [cons_append, lines, if_neg (Ne.symm hl.1), ih hl.2, consFirst]

theorem lines_line {l : List α} (hl : nl ∉ l) : lines nl (l ++ [nl]) = [l] :=
  lines_append_cons hl []

theorem lines_of_notMem {l : List α} (hl : nl ∉ l) (hne : l ≠ []) : lines nl l = [l] := by
  induction l with
  | nil => exact absurd rfl hne
  | cons c cs ih =>
    rw [mem_cons, not_or] at hl
    rw [lines, if_neg (Ne.symm hl.1)]
    cases cs with
    | nil => rfl
    | cons d ds => rw [ih hl.2 (cons_ne_nil d ds), consFirst]

theorem lines_ne_nil {text : List α} (h : text ≠ []) : lines nl text ≠ [] := by
  cases text with
  | nil => exact absurd rfl h
  | cons c cs =>
    rw [lines]
    split_ifs
    · exact cons_ne_nil _ _
    · cases lines nl cs <;> exact cons_ne_nil _ _

theorem lines_append {text : List α} (h : EndsLine nl text) (rest : List α) :
    lines nl (text ++ rest) = lines nl text ++ lines nl rest := by
  induction text with
  | nil => rfl
  | cons c cs ih =>
    cases cs with
    | nil =>
      obtain h | h := h
      · cases h
      · obtain rfl : c = nl := by simpa using h
        rw [singleton_append, lines, if_pos rfl, lines, if_pos rfl]
        rfl
    | cons d ds =>
      have hends : EndsLine nl (d :: ds) := by
        obtain h | h := h
        · cases h
        · exact .inr (by simpa [getLast?_cons_cons] using h)
      have hne : lines nl (d :: ds) ≠ [] := lines_ne_nil (cons_ne_nil d ds)
      rw [cons_append, lines, ih hends, lines.eq_2 nl c (d :: ds)]
      split_ifs
      · rfl
      · cases hlines : lines nl (d :: ds) with
        | nil => exact absurd hlines hne
        | cons l ls => rfl

omit [DecidableEq α] in
theorem endsLine_concat (text : List α) : EndsLine nl (text ++ [nl]) :=
  .inr getLast?_concat

omit [DecidableEq α] in
theorem not_endsLine_append {text l : List α} (hl : nl ∉ l) (hne : l ≠ []) :
    ¬ EndsLine nl (text ++ l) := by
  rintro (h | h)
  · exact hne (append_eq_nil_iff.mp h).2
  · rw [getLast?_append_of_ne_nil _ hne] at h
    exact hl (mem_of_getLast? h)

omit [DecidableEq α] in
theorem isPrefix_append_line {text l cut : List α} (h : cut <+: text ++ (l ++ [nl])) :
    cut <+: text ∨ (∃ part, part ≠ [] ∧ part <+: l ∧ cut = text ++ part) ∨
      cut = text ++ (l ++ [nl]) := by
  obtain hcut | ⟨part, rfl⟩ := List.prefix_or_prefix_of_prefix h (prefix_append text _)
  · exact .inl hcut
  · rw [prefix_append_right_inj, prefix_concat_iff] at h
    obtain rfl | hpart := h
    · exact .inr (.inr rfl)
    · by_cases hne : part = []
      · exact .inl (by simp [hne])
      · exact .inr (.inl ⟨part, hne, hpart, rfl⟩)

end LineLog
