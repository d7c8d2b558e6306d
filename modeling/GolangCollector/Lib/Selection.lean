import Mathlib.Data.Prod.Lex
import Mathlib.Data.List.Basic
import Mathlib.Data.List.Induction

/-! # Selecting a best element by scanning

A scan keeps an incumbent and replaces it by an element that beats it (`bestOf`). What it returns
depends on the order of the elements in general; a scan of several parts, followed by a scan of the
parts' winners, returns the same as one scan when `beats` is transitive and *cotransitive*
(`bestOf_flatten`): whoever beats the first of two beats the second, or the second beats the first.

`lexBeats` is one stage of a lexicographic comparison, as a chain of `if a != b { return a > b }`
computes it; it is transitive (`lexBeats_trans`) even for keys that are not equal to themselves. -/

namespace Selection

open List Option

variable {α κ ρ : Type}

/-! ## Scans -/

def keepBetter (beats : α → α → Bool) : Option α → α → Option α
  | none, x => some x
  | some b, x => some (if beats x b then x else b)

def bestOf (beats : α → α → Bool) (l : List α) : Option α := l.foldl (keepBetter beats) none

variable {beats : α → α → Bool}

@[simp] theorem bestOf_nil : bestOf beats [] = none := rfl

theorem bestOf_concat (l : List α) (x : α) :
    bestOf beats (l ++ [x]) = keepBetter beats (bestOf beats l) x := by
  simp [bestOf]

variable {l : List α}

theorem bestOf_eq_none_iff : bestOf beats l = none ↔ l = [] := by
  induction l using reverseRecOn with
  | nil => simp
  | append_singleton l x _ =>
    rw [bestOf_concat]
    cases bestOf beats l <;> simp [keepBetter]

theorem mem_of_bestOf {b : α} (h : bestOf beats l = some b) : b ∈ l := by
  induction l using reverseRecOn generalizing b with
  | nil => simp at h
  | append_singleton l x ih =>
    rw [bestOf_concat] at h
    cases hl : bestOf beats l with
    | none => simp_all [keepBetter]
    | some a =>
      rw [hl, keepBetter, some.injEq] at h
      by_cases hx : beats x a
      · simp_all
      · simp only [hx, Bool.false_eq_true, if_false] at h
        exact mem_append_left _ (h ▸ ih hl)

theorem not_beats_of_bestOf {b : α} (hirrefl : ∀ x, beats x x = false)
    (htrans : ∀ x ∈ l, ∀ y ∈ l, ∀ z ∈ l, beats x y → beats y z → beats x z)
    (h : bestOf beats l = some b) : ∀ a ∈ l, beats a b = false := by
  induction l using reverseRecOn generalizing b with
  | nil => simp
  | append_singleton l x ih =>
    have htrans' : ∀ u ∈ l, ∀ v ∈ l, ∀ w ∈ l, beats u v → beats v w → beats u w :=
      fun u hu v hv w hw => htrans u (by simp [hu]) v (by simp [hv]) w (by simp [hw])
    rw [bestOf_concat] at h
    intro a ha
    cases hl : bestOf beats l with
    | none =>
      obtain rfl := bestOf_eq_none_iff.mp hl
      simp_all [keepBetter]
    | some c =>
      have hc := mem_of_bestOf hl
      rw [hl, keepBetter, some.injEq] at h
      by_cases hx : beats x c
      · -- the new element wins: what beat it would have beaten the old incumbent
        obtain rfl : x = b := by simpa [hx] using h
        rcases mem_append.mp ha with ha | ha
        · by_contra hax
          have := htrans a (by simp [ha]) x (by simp) c (by simp [hc]) (by simpa using hax) hx
          simp [ih htrans' hl a ha] at this
        · simp_all
      · obtain rfl : c = b := by simpa [hx] using h
        rcases mem_append.mp ha with ha | ha
        · exact ih htrans' hl a ha
        · simp_all

theorem bestOf_congr {beats' : α → α → Bool} (h : l.Pairwise fun x y => beats y x = beats' y x) :
    bestOf beats l = bestOf beats' l := by
  induction l using reverseRecOn with
  | nil => rfl
  | append_singleton l x ih =>
    obtain ⟨hl, -, hx⟩ := pairwise_append.mp h
    rw [bestOf_concat, bestOf_concat, ih hl]
    cases hb : bestOf beats' l with
    | none => rfl
    | some b => rw [keepBetter, keepBetter, hx b (mem_of_bestOf hb) x (by simp)]

/-! ## Scans of parts -/

def Cotransitive (beats : α → α → Bool) (S : Set α) : Prop :=
  ∀ x ∈ S, ∀ a ∈ S, ∀ c ∈ S, beats c x → beats c a ∨ beats a x

theorem foldl_keepBetter_some {b : α} (htrans : ∀ x y z, beats x y → beats y z → beats x z)
    (hco : Cotransitive beats {x | x = b ∨ x ∈ l}) :
    l.foldl (keepBetter beats) (some b) =
      (bestOf beats l).elim (some b) (keepBetter beats (some b)) := by
  induction l using reverseRecOn with
  | nil => rfl
  | append_singleton l y ih =>
    have hco' : Cotransitive beats {x | x = b ∨ x ∈ l} :=
      fun x hx a ha c hc => hco x (by aesop) a (by aesop) c (by aesop)
    rw [foldl_append, ih hco', bestOf_concat]
    cases hl : bestOf beats l with
    | none => rfl
    | some a =>
      have ha := mem_of_bestOf hl
      simp only [foldl_cons, foldl_nil, elim_some, keepBetter]
      by_cases hab : beats a b
      · by_cases hya : beats y a
        · simp [hab, hya, htrans y a b hya hab]
        · simp [hab, hya]
      · by_cases hya : beats y a
        · simp [hab, hya]
        · -- neither the new element nor the rest's winner can beat the incumbent
          have hyb : ¬ beats y b := fun h =>
            (hco b (by simp) a (by simp [ha]) y (by simp) h).elim hya hab
          simp [hab, hya, hyb]

variable {parts : List (List α)}

theorem bestOf_flatten (htrans : ∀ x y z, beats x y → beats y z → beats x z)
    (hco : Cotransitive beats {x | x ∈ parts.flatten}) :
    bestOf beats (parts.filterMap (bestOf beats)) = bestOf beats parts.flatten := by
  induction parts using reverseRecOn with
  | nil => rfl
  | append_singleton parts l ih =>
    have hco' : Cotransitive beats {x | x ∈ parts.flatten} :=
      fun x hx a ha c hc => hco x (by simp_all) a (by simp_all) c (by simp_all)
    have hflat : (parts ++ [l]).flatten = parts.flatten ++ l := by simp
    rw [filterMap_append, hflat]
    have hl : bestOf beats (parts.flatten ++ l) =
        l.foldl (keepBetter beats) (bestOf beats parts.flatten) := by
      rw [bestOf, foldl_append, ← bestOf]
    rw [hl, ← ih hco']
    cases hb : bestOf beats (parts.filterMap (bestOf beats)) with
    | none =>
      have hnone := bestOf_eq_none_iff.mp hb
      rw [hnone, nil_append]
      cases hbl : bestOf beats l with
      | none =>
        rw [filterMap_cons_none hbl, bestOf_eq_none_iff.mp hbl]
        rfl
      | some c =>
        rw [filterMap_cons_some hbl]
        exact hbl.symm
    | some b =>
      have hbmem : b ∈ parts.flatten := mem_of_bestOf (by rw [← ih hco', hb])
      have hcob : Cotransitive beats {x | x = b ∨ x ∈ l} := by
        have hsub : ∀ x, x = b ∨ x ∈ l → x ∈ (parts ++ [l]).flatten := by
          rintro x (rfl | hx)
          · exact hflat ▸ mem_append_left _ hbmem
          · exact hflat ▸ mem_append_right _ hx
        exact fun x hx a ha c hc => hco x (hsub x hx) a (hsub a ha) c (hsub c hc)
      rw [foldl_keepBetter_some htrans hcob]
      cases hbl : bestOf beats l with
      | none => rw [filterMap_cons_none hbl, filterMap_nil, append_nil, hb,
          elim_none]
      | some c =>
        rw [filterMap_cons_some hbl, filterMap_nil, bestOf_concat, hb,
          elim_some]

theorem pairwise_winners {r : α → α → Prop} (h : parts.flatten.Pairwise r) :
    (parts.filterMap (bestOf beats)).Pairwise r := by
  induction parts with
  | nil => exact Pairwise.nil
  | cons l parts ih =>
    obtain ⟨-, hparts, hcross⟩ := pairwise_append.mp h
    cases hl : bestOf beats l with
    | none => rw [filterMap_cons_none hl]; exact ih hparts
    | some b =>
      rw [filterMap_cons_some hl, pairwise_cons]
      refine ⟨fun c hc => ?_, ih hparts⟩
      obtain ⟨part, hpart, hwin⟩ := mem_filterMap.mp hc
      exact hcross b (mem_of_bestOf hl) c
        (mem_flatten.mpr ⟨part, hpart, mem_of_bestOf hwin⟩)

theorem bestOf_flatten_of_agree {beats' : α → α → Bool}
    (hagree : parts.flatten.Pairwise fun x y => beats y x = beats' y x)
    (htrans : ∀ x y z, beats' x y → beats' y z → beats' x z)
    (hco : Cotransitive beats' {x | x ∈ parts.flatten}) :
    bestOf beats (parts.filterMap (bestOf beats)) = bestOf beats parts.flatten := by
  have hparts : parts.filterMap (bestOf beats) = parts.filterMap (bestOf beats') :=
    filterMap_congr fun l hl => bestOf_congr ((pairwise_flatten.mp hagree).1 l hl)
  rw [bestOf_congr (pairwise_winners hagree), hparts, bestOf_flatten htrans hco,
    bestOf_congr hagree]

/-! ## Lexicographic comparison -/

def lexBeats (eq gt : κ → κ → Bool) (key : α → κ) (rest : α → α → Bool) (c o : α) : Bool :=
  if !eq (key c) (key o) then gt (key c) (key o) else rest c o

/-- What the two comparisons of a key satisfy. -/
structure KeyOrder (eq gt : κ → κ → Bool) : Prop where
  eq_trans : ∀ a b c, eq a b → eq b c → eq a c
  gt_trans : ∀ a b c, gt a b → gt b c → gt a c
  gt_of_gt_of_eq : ∀ a b c, gt a b → eq b c → gt a c
  gt_of_eq_of_gt : ∀ a b c, eq a b → gt b c → gt a c
  ne_of_gt : ∀ a b, gt a b → eq a b = false

theorem lexBeats_trans {eq gt : κ → κ → Bool} {key : α → κ} {rest : α → α → Bool}
    (hkey : KeyOrder eq gt) (hrest : ∀ x y z, rest x y → rest y z → rest x z) (x y z : α)
    (hxy : lexBeats eq gt key rest x y) (hyz : lexBeats eq gt key rest y z) :
    lexBeats eq gt key rest x z := by
  have of_gt : gt (key x) (key z) → lexBeats eq gt key rest x z := fun h => by
    simp [lexBeats, hkey.ne_of_gt _ _ h, h]
  simp only [lexBeats] at hxy hyz
  by_cases h₁ : eq (key x) (key y)
  · by_cases h₂ : eq (key y) (key z)
    · simp only [h₁, h₂, Bool.not_true, Bool.false_eq_true, if_false] at hxy hyz
      simp [lexBeats, hkey.eq_trans _ _ _ h₁ h₂, hrest _ _ _ hxy hyz]
    · simp only [h₂, Bool.not_false, if_true] at hyz
      exact of_gt (hkey.gt_of_eq_of_gt _ _ _ h₁ hyz)
  · simp only [h₁, Bool.not_false, if_true] at hxy
    by_cases h₂ : eq (key y) (key z)
    · exact of_gt (hkey.gt_of_gt_of_eq _ _ _ hxy h₂)
    · simp only [h₂, Bool.not_false, if_true] at hyz
      exact of_gt (hkey.gt_trans _ _ _ hxy hyz)

def lexKey {ι : Type} (k : α → ι) (r : α → ρ) (c : α) : ι ×ₗ ρ := toLex (k c, r c)

theorem lexBeats_iff_lexKey_lt {ι : Type} [LinearOrder ι] [LT ρ] {eq gt : κ → κ → Bool}
    {key : α → κ} {rest : α → α → Bool} {k : α → ι} {r : α → ρ} {c o : α}
    (heq : eq (key c) (key o) = true ↔ k c = k o) (hgt : gt (key c) (key o) = true ↔ k o < k c)
    (hrest : rest c o = true ↔ r o < r c) :
    lexBeats eq gt key rest c o = true ↔ lexKey k r o < lexKey k r c := by
  rw [lexKey, lexKey, Prod.Lex.toLex_lt_toLex]
  by_cases h : eq (key c) (key o)
  · have hk : k o = k c := (heq.mp h).symm
    simp [lexBeats, h, hrest, hk]
  · have hk : k o ≠ k c := fun hk => h (heq.mpr hk.symm)
    simp [lexBeats, h, hgt, hk]

end Selection
