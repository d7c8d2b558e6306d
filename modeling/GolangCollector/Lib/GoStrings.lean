import Mathlib.Data.List.DropRight
import Mathlib.Data.List.Lex
import GolangCollector.Lib.CaseRanges

/-! # Go strings as lists of code points

The functions of Go's `strings` and `strconv` packages that line-oriented scanners use, over `Text =
List Char` (the code points of a valid UTF-8 string; concatenation of byte strings is concatenation
of code-point lists, and two valid byte strings are equal iff their code points are). -/

namespace GoStrings

open List Option
open CaseRange (mapCode lowerRanges foldRanges)

/-- A Go string, as its list of code points. -/
abbrev Text := List Char

/-- The test on texts is equality. -/
instance instLawfulBEqText : LawfulBEq Text := inferInstance

instance : Coe String Text := ⟨String.toList⟩

/-! ## Spaces and case -/

/-- `unicode.IsSpace`. -/
def isSpace (c : Char) : Bool :=
  c.toNat ∈ [9, 10, 11, 12, 13, 32, 0x85, 0xa0, 0x1680, 0x2028, 0x2029, 0x202f, 0x205f, 0x3000]
    || (0x2000 ≤ c.toNat && c.toNat ≤ 0x200a)

/-- `strings.TrimSpace`. -/
def trimSpace (s : Text) : Text := (s.dropWhile isSpace).rdropWhile isSpace

/-- `unicode.ToLower`. -/
def lowerChar (c : Char) : Char :=
  if c.toNat < 128 then c.toLower
  else ((mapCode lowerRanges c.toNat).map Char.ofNat).getD c

/-- `strings.ToLower`. -/
def toLower (s : Text) : Text := s.map lowerChar

/-- The representative of a rune under `unicode.SimpleFold`. -/
def foldChar (c : Char) : Char :=
  if c.toNat < 128 then c.toLower
  else ((mapCode foldRanges c.toNat).map Char.ofNat).getD (lowerChar c)

/-- `strings.EqualFold`. -/
def equalFold (s t : Text) : Bool := s.map foldChar = t.map foldChar

/-- Text with no leading and no trailing space. -/
def Trimmed (s : Text) : Prop :=
  (∀ c, s.head? = some c → isSpace c = false) ∧ (∀ c, s.getLast? = some c → isSpace c = false)

-- by a look at the two ends: the instance for all characters would go through the whole type
instance (s : Text) : Decidable (Trimmed s) :=
  @instDecidableAnd _ _ (Option.decidableForallMem s.head?) (Option.decidableForallMem s.getLast?)

theorem trimSpace_of_trimmed {s : Text} (h : Trimmed s) : trimSpace s = s := by
  have hhead : s.dropWhile isSpace = s := by
    cases s with
    | nil => rfl
    | cons c cs => rw [dropWhile_cons_of_neg (by simpa using h.1 c rfl)]
  rw [trimSpace, hhead, rdropWhile_eq_self_iff]
  intro hne
  simpa using h.2 (s.getLast hne) (getLast?_eq_some_getLast hne)

theorem trimmed_trimSpace (s : Text) : Trimmed (trimSpace s) := by
  constructor
  · intro c hc
    -- trimming the end keeps the first character, which `dropWhile` stopped at
    obtain ⟨rest, hrest⟩ := List.rdropWhile_prefix isSpace (s.dropWhile isSpace)
    have hhead : (s.dropWhile isSpace).head? = some c := by
      rw [← hrest, head?_append, ← trimSpace, hc, some_or]
    have hstop := head?_dropWhile_not isSpace s
    rw [hhead] at hstop
    exact hstop
  · intro c hc
    have hne : trimSpace s ≠ [] := by
      intro hnil
      simp [hnil] at hc
    have hstop := rdropWhile_last_not isSpace (s.dropWhile isSpace) hne
    rw [getLast?_eq_some_getLast hne, some.injEq] at hc
    exact hc ▸ Bool.not_eq_true _ ▸ hstop

theorem trimSpace_trimSpace (s : Text) : trimSpace (trimSpace s) = trimSpace s :=
  trimSpace_of_trimmed (trimmed_trimSpace s)

theorem trimSpace_append_spaces {s w : Text} (h : ∀ c ∈ w, isSpace c) :
    trimSpace (s ++ w) = trimSpace s := by
  induction w using reverseRecOn with
  | nil => rw [append_nil]
  | append_singleton w c ih =>
    have hc : isSpace c := h c (by simp)
    rw [← ih fun d hd => h d (mem_append_left _ hd), ← append_assoc, trimSpace,
      dropWhile_append, trimSpace]
    split
    · rename_i hall
      rw [isEmpty_iff.mp hall, dropWhile_cons_of_pos hc, dropWhile_nil]
    · exact rdropWhile_concat_pos _ _ _ hc

theorem lowerChar_of_notMem {c : Char} (hascii : ¬ (65 ≤ c.toNat ∧ c.toNat ≤ 90))
    (htable : 128 ≤ c.toNat → mapCode lowerRanges c.toNat = none) :
    lowerChar c = c := by
  rw [lowerChar]
  split_ifs with h
  · delta Char.toLower
    rw [dif_neg]
    simpa [UInt32.le_iff_toNat_le] using hascii
  · rw [htable (not_lt.mp h)]
    rfl

theorem toNat_toLower {c : Char} (h : 65 ≤ c.toNat ∧ c.toNat ≤ 90) :
    c.toLower.toNat = c.toNat + 32 := by
  delta Char.toLower
  rw [dif_pos (by simpa [UInt32.le_iff_toNat_le] using h)]
  simp only [Char.toNat] at h ⊢
  rw [UInt32.toNat_add, Nat.mod_eq_of_lt]
  · rfl
  · have hshift : ('a'.val - 'A'.val).toNat = 32 := by decide
    omega

theorem lowerChar_lowerChar (c : Char) : lowerChar (lowerChar c) = lowerChar c := by
  by_cases hcapital : 65 ≤ c.toNat ∧ c.toNat ≤ 90
  · have hlower : lowerChar c = c.toLower := if_pos (by omega)
    have hnat := toNat_toLower hcapital
    rw [hlower, lowerChar_of_notMem] <;> omega
  · cases htable : mapCode lowerRanges c.toNat with
    | none =>
      have hself := lowerChar_of_notMem hcapital fun _ => htable
      rw [hself, hself]
    | some m =>
      obtain ⟨hn, hm, hvalid, hagain⟩ := CaseRange.mapCode_lowerRanges htable
      have hlower : lowerChar c = Char.ofNat m := by
        rw [lowerChar, if_neg (not_lt.mpr hn), htable]
        rfl
      have hnat : (Char.ofNat m).toNat = m := by
        rw [Char.ofNat, dif_pos hvalid]
        rfl
      rw [hlower, lowerChar_of_notMem] <;> rw [hnat]
      · omega
      · exact fun _ => hagain

@[simp] theorem toLower_toLower (s : Text) : toLower (toLower s) = toLower s := by
  simp [toLower, Function.comp_def, lowerChar_lowerChar]

/-! ## Splitting -/

/-- The slices around the first separator, as `strings.IndexByte` finds it. -/
def cut (sep : Char) : Text → Option (Text × Text)
  | [] => none
  | c :: cs => if c = sep then some ([], cs) else (cut sep cs).map fun p => (c :: p.1, p.2)

/-- `cut` finds the first separator: what stands before it is free of it. -/
theorem cut_eq_some_iff {sep : Char} {s a b : Text} :
    cut sep s = some (a, b) ↔ s = a ++ sep :: b ∧ sep ∉ a := by
  induction s generalizing a with
  | nil => simp [cut]
  | cons c cs ih =>
    by_cases hc : c = sep
    · -- cut here, with nothing in front
      subst hc
      cases a with
      | nil => simp [cut, eq_comm]
      | cons d ds =>
        simp only [cut, if_pos, cons_append, cons.injEq, mem_cons, not_or]
        constructor
        · intro h; simp at h
        · rintro ⟨⟨rfl, _⟩, hne, _⟩; exact absurd rfl hne
    · cases a with
      | nil => simp [cut, hc]
      | cons d ds =>
        -- the cut lies in the tail, and `c` goes in front of its first part
        have hmap : ((cut sep cs).map fun p => (c :: p.1, p.2)) = some (d :: ds, b) ↔
            c = d ∧ cut sep cs = some (ds, b) := by
          cases cut sep cs <;> simp [Prod.ext_iff, and_assoc]
        rw [cut, if_neg hc, hmap, ih]
        simp only [cons_append, cons.injEq, mem_cons, not_or]
        constructor
        · rintro ⟨rfl, rfl, hds⟩; exact ⟨⟨rfl, rfl⟩, fun h => hc h.symm, hds⟩
        · rintro ⟨⟨rfl, rfl⟩, _, hds⟩; exact ⟨rfl, rfl, hds⟩

/-- The slices around the last separator, as `strings.LastIndex` finds it. -/
def cutLast (sep : Char) (s : Text) : Option (Text × Text) :=
  (cut sep s.reverse).map fun p => (p.2.reverse, p.1.reverse)

/-- `cutLast` finds the last separator: what stands behind it is free of it. -/
theorem cutLast_eq_some_iff {sep : Char} {s a b : Text} :
    cutLast sep s = some (a, b) ↔ s = a ++ sep :: b ∧ sep ∉ b := by
  rw [cutLast, map_eq_some_iff]
  constructor
  · rintro ⟨⟨x, y⟩, hcut, heq⟩
    cases heq
    obtain ⟨hs, hx⟩ := cut_eq_some_iff.mp hcut
    rw [reverse_eq_iff] at hs
    exact ⟨by simpa using hs, by simpa using hx⟩
  · rintro ⟨rfl, hb⟩
    exact ⟨(b.reverse, a.reverse), cut_eq_some_iff.mpr ⟨by simp, by simpa using hb⟩, by simp⟩

theorem cutLast_isSome_iff {sep : Char} {s : Text} : (cutLast sep s).isSome ↔ sep ∈ s := by
  rw [cutLast, isSome_map, ← mem_reverse]
  generalize s.reverse = t
  induction t with
  | nil => simp [cut]
  | cons c cs ih =>
    rw [cut]
    split
    · next h => simp [h]
    · next h => simpa [Ne.symm h] using ih

theorem cut_append_of_notMem {sep : Char} {w : Text} (h : sep ∉ w) (s : Text) :
    cut sep (s ++ w) = (cut sep s).map fun p => (p.1, p.2 ++ w) := by
  induction s with
  | nil =>
    cases hcut : cut sep w with
    | none => simpa [cut] using hcut
    | some p =>
      have hw := (cut_eq_some_iff.mp hcut).1
      exact absurd (by rw [hw]; simp) h
  | cons c cs ih =>
    rw [cons_append, cut, cut, ih]
    split
    · simp
    · simp [Function.comp_def]

/-- `strings.FieldsFunc`: the non-empty runs of code points without `p`. -/
def fieldsFunc (p : Char → Bool) (s : Text) : List Text := (s.splitOnP p).filter (· ≠ [])

/-- Put a code point in front of the first line. -/
def consLine (c : Char) : List Text → List Text
  | [] => [[c]]
  | l :: ls => (c :: l) :: ls

/-- The lines that a `for len(text) > 0` loop peels off. -/
def lines : Text → List Text
  | [] => []
  | c :: cs => if c = '\n' then [] :: lines cs else consLine c (lines cs)

/-- `text += "\n"` unless it ends in one. -/
def endLine (text : Text) : Text :=
  if text.getLast? = some '\n' then text else text ++ ['\n']

/-- A line and its newline are peeled off whole. -/
theorem lines_line_append {l rest : Text} (h : '\n' ∉ l) :
    lines (l ++ '\n' :: rest) = l :: lines rest := by
  induction l with
  | nil => simp [lines]
  | cons c cs ih =>
    simp only [mem_cons, not_or] at h
    rw [cons_append, lines, if_neg (Ne.symm h.1), ih h.2, consLine]

theorem lines_cons_ne_nil (c : Char) (cs : Text) : lines (c :: cs) ≠ [] := by
  rw [lines]
  split
  · simp
  · cases lines cs <;> simp [consLine]

theorem newline_notMem_lines {text : Text} : ∀ l ∈ lines text, '\n' ∉ l := by
  induction text with
  | nil => simp [lines]
  | cons c cs ih =>
    rw [lines]
    split
    · intro l hl
      rcases mem_cons.mp hl with rfl | hl
      · simp
      · exact ih l hl
    · rename_i hc
      intro l hl
      cases hcs : lines cs with
      | nil =>
        rw [hcs, consLine, mem_singleton] at hl
        subst hl
        simpa using Ne.symm hc
      | cons l' ls =>
        rw [hcs] at ih
        rw [hcs, consLine] at hl
        rcases mem_cons.mp hl with rfl | hl
        · have hl' := ih l' (mem_cons_self ..)
          simp [hl', Ne.symm hc]
        · exact ih l (mem_cons_of_mem _ hl)

theorem lines_append_of_endLine {a b : Text} (h : a = [] ∨ a.getLast? = some '\n') :
    lines (a ++ b) = lines a ++ lines b := by
  induction a with
  | nil => simp [lines]
  | cons c cs ih =>
    cases cs with
    | nil =>
      have hc : c = '\n' := by simpa using h
      simp [lines, hc]
    | cons d ds =>
      have htail : (d :: ds).getLast? = some '\n' := by simpa using h
      rw [cons_append, lines, ih (Or.inr htail)]
      conv_rhs => rw [lines]
      split
      · simp
      · -- `c` joins the first line of the rest, which is still one of `a`
        obtain ⟨m, ms, hl⟩ := exists_cons_of_ne_nil (lines_cons_ne_nil d ds)
        rw [hl]
        simp [consLine]

theorem lines_append_newline {text : Text} (hne : text ≠ []) (h : text.getLast? ≠ some '\n') :
    lines (text ++ ['\n']) = lines text := by
  induction text with
  | nil => exact absurd rfl hne
  | cons c cs ih =>
    cases cs with
    | nil =>
      have hc : c ≠ '\n' := by simpa using h
      simp [lines, hc, consLine]
    | cons d ds =>
      have htail : (d :: ds).getLast? ≠ some '\n' := by simpa using h
      rw [cons_append, lines, ih (cons_ne_nil _ _) htail]
      conv_rhs => rw [lines]

theorem getLast?_endLine (text : Text) : (endLine text).getLast? = some '\n' := by
  rw [endLine]
  split
  · assumption
  · simp

/-! ## Integers -/

/-- `strconv.FormatInt(i, 10)`. -/
def formatInt : Int → Text
  | .ofNat n => Nat.toDigits 10 n
  | .negSucc n => '-' :: Nat.toDigits 10 (n + 1)

theorem mem_formatInt {i : Int} {c : Char} (h : c ∈ formatInt i) : c.isDigit ∨ c = '-' := by
  cases i with
  | ofNat n => exact Or.inl (Nat.isDigit_of_mem_toDigits (by decide) le_rfl h)
  | negSucc n =>
    rcases mem_cons.mp h with rfl | h
    · exact Or.inr rfl
    · exact Or.inl (Nat.isDigit_of_mem_toDigits (by decide) le_rfl h)

theorem isSpace_of_isDigit {c : Char} (h : c.isDigit) : isSpace c = false := by
  have hrange : 48 ≤ c.toNat ∧ c.toNat ≤ 57 := by
    rw [Char.isDigit, Bool.and_eq_true, decide_eq_true_iff, decide_eq_true_iff] at h
    exact ⟨h.1, h.2⟩
  simp only [isSpace, Bool.or_eq_false_iff, Bool.and_eq_false_iff, decide_eq_false_iff_not,
    mem_cons, not_mem_nil, or_false]
  omega

theorem trimmed_formatInt (i : Int) : Trimmed (formatInt i) := by
  have hchar : ∀ c ∈ formatInt i, isSpace c = false := by
    intro c hc
    rcases mem_formatInt hc with hd | rfl
    · exact isSpace_of_isDigit hd
    · decide
  exact ⟨fun c hc => hchar c (mem_of_head? hc), fun c hc => hchar c (mem_of_getLast? hc)⟩

end GoStrings
