import Mathlib.Data.Nat.Digits.Defs
import GolangCollector.Lib.LineLog

/-! # Go strings as bytes

A Go string is a sequence of bytes, which need not be the encoding of a text. Where what is stored
in a file is concerned, strings are taken as such: the lines of a file, spaces, and numbers in
decimal. -/

/-- A string of Go, as its bytes. -/
abbrev GoString := List UInt8

def ascii (s : String) : GoString := s.toList.map fun c => c.toNat.toUInt8

namespace GoString

open List Option

def IsASCII (s : GoString) : Prop := ∀ b ∈ s, b < 128

instance (s : GoString) : Decidable s.IsASCII := List.decidableBAll _ _

/-! ## Lines -/

def newline : UInt8 := 10

def carriageReturn : UInt8 := 13

def dropCR (b : GoString) : GoString :=
  if b.getLast? = some carriageReturn then b.dropLast else b

theorem dropCR_of_getLast? {b : GoString} (h : b.getLast? ≠ some carriageReturn) : dropCR b = b :=
  if_neg h

theorem dropCR_of_notMem {b : GoString} (h : carriageReturn ∉ b) : dropCR b = b :=
  dropCR_of_getLast? fun hlast => h (mem_of_getLast? hlast)

/-! ## Spaces -/

def spaces : List GoString :=
  [[9], [10], [11], [12], [13], [32], [0xc2, 0x85], [0xc2, 0xa0], [0xe1, 0x9a, 0x80],
    [0xe2, 0x80, 0x80], [0xe2, 0x80, 0x81], [0xe2, 0x80, 0x82], [0xe2, 0x80, 0x83],
    [0xe2, 0x80, 0x84], [0xe2, 0x80, 0x85], [0xe2, 0x80, 0x86], [0xe2, 0x80, 0x87],
    [0xe2, 0x80, 0x88], [0xe2, 0x80, 0x89], [0xe2, 0x80, 0x8a], [0xe2, 0x80, 0xa8],
    [0xe2, 0x80, 0xa9], [0xe2, 0x80, 0xaf], [0xe2, 0x81, 0x9f], [0xe3, 0x80, 0x80]]

def trimFront (words : List GoString) : ℕ → GoString → GoString
  | 0, s => s
  | n + 1, s =>
    match words.find? (·.isPrefixOf s) with
    | none => s
    | some w => trimFront words n (s.drop w.length)

def trimSpace (s : GoString) : GoString :=
  let s := trimFront spaces s.length s
  (trimFront (spaces.map List.reverse) s.length s.reverse).reverse

variable {s : GoString} {words : List GoString}

theorem trimFront_of_head {n : ℕ} {b : UInt8} (h : ∀ w ∈ words, w.head? ≠ some b ∧ w ≠ []) :
    trimFront words n (b :: s) = b :: s := by
  cases n with
  | zero => rfl
  | succ n =>
    have hnone : words.find? (·.isPrefixOf (b :: s)) = none := by
      rw [find?_eq_none]
      intro w hw hpre
      obtain ⟨hhead, hne⟩ := h w hw
      cases w with
      | nil => exact hne rfl
      | cons c w =>
        rw [List.isPrefixOf_iff_prefix, cons_prefix_cons] at hpre
        exact hhead (by rw [hpre.1]; rfl)
    rw [trimFront, hnone]

def Solid (b : UInt8) : Prop := 32 < b ∧ b < 128

instance (b : UInt8) : Decidable (Solid b) := inferInstanceAs (Decidable (_ ∧ _))

theorem not_solid_of_head : ∀ words ∈ [spaces, spaces.map List.reverse], ∀ w ∈ words,
    w ≠ [] ∧ ∀ b ∈ w.head?, ¬ Solid b := by
  decide +kernel

theorem trimFront_of_solid (hwords : words ∈ [spaces, spaces.map List.reverse]) {n : ℕ} {b : UInt8}
    (hb : Solid b) : trimFront words n (b :: s) = b :: s := by
  refine trimFront_of_head fun w hw => ?_
  obtain ⟨hne, hhead⟩ := not_solid_of_head words hwords w hw
  exact ⟨fun h => hhead b h hb, hne⟩

theorem trimSpace_of_solid (hne : s ≠ []) (hhead : ∀ b ∈ s.head?, Solid b)
    (hlast : ∀ b ∈ s.getLast?, Solid b) : trimSpace s = s := by
  obtain ⟨b, t, rfl⟩ := exists_cons_of_ne_nil hne
  have hfront : trimFront spaces (b :: t).length (b :: t) = b :: t :=
    trimFront_of_solid (by simp) (hhead b rfl)
  rw [trimSpace, hfront]
  obtain ⟨c, r, hr⟩ := exists_cons_of_ne_nil (reverse_ne_nil_iff.mpr hne)
  have hc : Solid c := hlast c (by rw [getLast?_eq_head?_reverse, hr]; rfl)
  rw [hr, trimFront_of_solid (by simp) hc, ← hr, reverse_reverse]

theorem not_solid_of_mem : ∀ words ∈ [spaces, spaces.map List.reverse], ∀ w ∈ words,
    ∀ b ∈ w, ¬ Solid b := by
  decide +kernel

theorem trimFront_append_solid (hwords : words ∈ [spaces, spaces.map List.reverse]) {b : UInt8}
    (hb : Solid b) (n : ℕ) (s : GoString) : ∃ s', trimFront words n (s ++ [b]) = s' ++ [b] := by
  induction n generalizing s with
  | zero => exact ⟨s, rfl⟩
  | succ n ih =>
    rw [trimFront]
    cases hw : words.find? (·.isPrefixOf (s ++ [b])) with
    | none => exact ⟨s, rfl⟩
    | some w =>
      have hfound : w.isPrefixOf (s ++ [b]) = true := by simpa using find?_some hw
      have hpre : w <+: s ++ [b] := isPrefixOf_iff_prefix.mp hfound
      obtain rfl | hpre := prefix_concat_iff.mp hpre
      · exact absurd hb (not_solid_of_mem words hwords _ (mem_of_find?_eq_some hw) b
          (by simp))
      · obtain ⟨rest, rfl⟩ := hpre
        dsimp only
        rw [append_assoc, drop_left]
        exact ih rest

theorem trimSpace_ne_nil {b : UInt8} (hb : Solid b) (s : GoString) : trimSpace (b :: s) ≠ [] := by
  rw [trimSpace, trimFront_of_solid (by simp) hb]
  obtain ⟨s', hs'⟩ := @trimFront_append_solid (spaces.map reverse) (by simp) b hb
    (b :: s).length s.reverse
  rw [reverse_cons, hs', reverse_append]
  exact cons_ne_nil _ _

/-! ## Numbers -/

def IsDigit (b : UInt8) : Prop := 48 ≤ b ∧ b ≤ 57

instance (b : UInt8) : Decidable (IsDigit b) := inferInstanceAs (Decidable (_ ∧ _))

def AllDigits (s : GoString) : Prop := ∀ b ∈ s, IsDigit b

instance (s : GoString) : Decidable s.AllDigits := List.decidableBAll _ _

def parseNat (s : GoString) : Option ℕ :=
  if s ≠ [] ∧ s.AllDigits then some (s.foldl (fun n b => 10 * n + (b - 48).toNat) 0)
  else none

def parseInt (s : GoString) : Option ℤ :=
  match s with
  | 43 :: digits => (parseNat digits).bind fun n => if n < 2 ^ 63 then some (n : ℤ) else none
  | 45 :: digits => (parseNat digits).bind fun n => if n ≤ 2 ^ 63 then some (-n : ℤ) else none
  | digits => (parseNat digits).bind fun n => if n < 2 ^ 63 then some (n : ℤ) else none

def decimalNat (n : ℕ) : GoString :=
  if n = 0 then [48] else (Nat.digits 10 n).reverse.map fun d => 48 + d.toUInt8

def decimal : ℤ → GoString
  | .ofNat n => decimalNat n
  | .negSucc n => 45 :: decimalNat (n + 1)

theorem digit_toUInt8 {d : ℕ} (h : d < 10) :
    IsDigit (48 + d.toUInt8) ∧ (48 + d.toUInt8 - 48).toNat = d := by
  have hall : ∀ d < 10, IsDigit (48 + d.toUInt8) ∧ (48 + d.toUInt8 - 48).toNat = d := by decide
  exact hall d h

theorem isDigit_of_mem_decimalNat {n : ℕ} {b : UInt8} (h : b ∈ decimalNat n) : IsDigit b := by
  rw [decimalNat] at h
  split_ifs at h
  · rw [mem_singleton.mp h]
    decide
  · obtain ⟨d, hd, rfl⟩ := mem_map.mp h
    exact (digit_toUInt8 (Nat.digits_lt_base (by decide) (mem_reverse.mp hd))).1

theorem decimalNat_ne_nil (n : ℕ) : decimalNat n ≠ [] := by
  rw [decimalNat]
  split_ifs with h
  · exact cons_ne_nil _ _
  · simp [Nat.digits_eq_nil_iff_eq_zero, h]

theorem parseNat_decimalNat (n : ℕ) : parseNat (decimalNat n) = some n := by
  rw [parseNat, if_pos ⟨decimalNat_ne_nil n, fun b => isDigit_of_mem_decimalNat⟩, decimalNat]
  split_ifs with h
  · rw [h]
    rfl
  · congr 1
    calc ((Nat.digits 10 n).reverse.map fun d => 48 + d.toUInt8).foldl
          (fun n b => 10 * n + (b - 48).toNat) 0
      _ = (Nat.digits 10 n).foldr (fun d n => 10 * n + (48 + d.toUInt8 - 48).toNat) 0 := by
          rw [foldl_map, foldl_reverse]
      _ = (Nat.digits 10 n).foldr (fun d n => d + 10 * n) 0 := by
          refine foldr_ext _ _ _ fun d hd m => ?_
          rw [(digit_toUInt8 (Nat.digits_lt_base (by decide) hd)).2, Nat.add_comm]
      _ = n := by simpa [Nat.ofDigits_eq_foldr] using Nat.ofDigits_digits 10 n

theorem parseInt_of_isDigit (h : ∀ b ∈ s, IsDigit b) :
    parseInt s = (parseNat s).bind fun n => if n < 2 ^ 63 then some (n : ℤ) else none := by
  rw [parseInt]
  · rintro digits rfl
    exact absurd (h 43 mem_cons_self) (by decide)
  · rintro digits rfl
    exact absurd (h 45 mem_cons_self) (by decide)

theorem parseInt_eq_none {b : UInt8} (hb : b ∈ s) (hdigit : ¬ IsDigit b) (hplus : b ≠ 43)
    (hminus : b ≠ 45) : parseInt s = none := by
  have hnat : ∀ {digits : GoString}, b ∈ digits → parseNat digits = none := by
    intro digits hmem
    rw [parseNat, if_neg fun h => hdigit (h.2 b hmem)]
  rw [parseInt.eq_def]
  split
  · rw [hnat ((mem_cons.mp hb).resolve_left hplus), bind_none]
  · rw [hnat ((mem_cons.mp hb).resolve_left hminus), bind_none]
  · rw [hnat hb, bind_none]

theorem parseInt_decimal {i : ℤ} (hlow : -2 ^ 63 ≤ i) (hhigh : i < 2 ^ 63) :
    parseInt (decimal i) = some i := by
  cases i with
  | ofNat n =>
    have hn : n < 2 ^ 63 := by
      rw [Int.ofNat_eq_natCast] at hhigh
      omega
    rw [decimal, parseInt_of_isDigit fun b => isDigit_of_mem_decimalNat, parseNat_decimalNat,
      bind_some, if_pos hn]
    rfl
  | negSucc n =>
    have hn : n + 1 ≤ 2 ^ 63 := by omega
    rw [decimal, parseInt, parseNat_decimalNat, bind_some, if_pos hn]
    rfl

end GoString
