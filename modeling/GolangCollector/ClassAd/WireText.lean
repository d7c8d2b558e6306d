import Mathlib.Data.Nat.Digits.Defs
import GolangCollector.ClassAd.Ad
import GolangCollector.Lib.GoInt

/-! # Old-ClassAd wire text

An ad travels as text with one `Attr = Expr` per line. `attrLines` takes such a text apart into the
trimmed name and expression source of each line, `parseOld` builds the ad with the expression parser
and the duplicate rule of a `Library` (the classad library is outside this repository),
`sourceOf` is the source of an attribute under the first-occurrence rule, and `sourceBy` the one
under either rule. -/

namespace GolangCollector

open GoStrings GoInt List Option

/-! ## The library -/

inductive DuplicateRule where
  | firstWins
  | lastWins
  deriving DecidableEq, Repr

/-- What the collector uses of the classad library. -/
structure Library where
  /-- Parse the source of one expression. -/
  parseExpr : Text → Option Expr
  /-- Evaluate an expression in the scope of an ad. -/
  eval : Evaluator
  /-- The wire encoder's rule for repeated attributes. -/
  duplicates : DuplicateRule

def quoted (body : Text) : Text := '"' :: body ++ ['"']

structure Library.ReadsLiterals (lib : Library) : Prop where
  /-- A plain string literal evaluates to the text between its quotes. -/
  string : ∀ body, '"' ∉ body → '\\' ∉ body →
    ∃ e, lib.parseExpr (quoted body) = some e ∧ ∀ ad, lib.eval ad e = .str body
  /-- A decimal integer of 64 bits evaluates to its value. -/
  integer : ∀ i, IsInt64 i →
    ∃ e, lib.parseExpr (formatInt i) = some e ∧ ∀ ad, lib.eval ad e = .int i

/-! ## Lines -/

def splitLine (line : Text) : Option (Text × Text) :=
  (cut '=' line).map fun p => (trimSpace p.1, trimSpace p.2)

def attrLines (text : Text) : List (Text × Text) := (lines text).filterMap splitLine

def sourceOf (text attr : Text) : Option Text :=
  ((attrLines text).find? fun p => toLower p.1 = toLower attr).map Prod.snd

def parseAttrs (lib : Library) (text : Text) : Option (List (Text × Expr)) :=
  (attrLines text).mapM fun p => (lib.parseExpr p.2).map fun e => (p.1, e)

def parseOld (lib : Library) (text : Text) : Option ClassAd :=
  if (lines text).all fun l => trimSpace l = [] || '=' ∈ l then
    (parseAttrs lib text).map fun attrs =>
      -- a lookup takes the first attribute of a name, so the last one wins from the back
      match lib.duplicates with
      | .firstWins => ⟨attrs⟩
      | .lastWins => ⟨attrs.reverse⟩
  else none

def NoRepeats (text : Text) : Prop := ((attrLines text).map fun p => toLower p.1).Nodup

instance (text : Text) : Decidable (NoRepeats text) := inferInstanceAs (Decidable (List.Nodup _))

structure WellFormed (lib : Library) (text : Text) (ad : ClassAd) : Prop where
  /-- The text parses to the ad. -/
  parses : parseOld lib text = some ad
  /-- No attribute is repeated. -/
  noRepeats : NoRepeats text

theorem attrLines_endLine (text : Text) : attrLines (endLine text) = attrLines text := by
  rw [endLine]
  split
  · rfl
  · rename_i h
    cases text with
    | nil => decide
    | cons c cs => rw [attrLines, lines_append_newline (List.cons_ne_nil _ _) h, attrLines]

theorem attrLines_endLine_append (text rest : Text) :
    attrLines (endLine text ++ rest) = attrLines text ++ attrLines rest := by
  rw [← attrLines_endLine text, attrLines, lines_append_of_endLine (Or.inr (getLast?_endLine text)),
    List.filterMap_append, ← attrLines, ← attrLines]

/-! ## A library of literals

String literals with backslash escapes and decimal integers, which is all that most ads hold. -/

def unescape : Text → Option Text
  | [] => some []
  | ['\\'] => none
  | '\\' :: c :: rest => (unescape rest).map (c :: ·)
  | '"' :: _ => none
  | c :: rest => (unescape rest).map (c :: ·)

def parseDigits (ds : Text) : Option ℕ :=
  if ds ≠ [] ∧ ds.all Char.isDigit then some (Nat.ofDigitChars 10 ds 0) else none

def parseLiteral : Text → Option Expr
  | '"' :: rest =>
    if rest.getLast? = some '"' then (unescape rest.dropLast).map fun s => .lit (.str s) else none
  | '-' :: ds => (parseDigits ds).map fun n : ℕ => .lit (.int (-n))
  | ds => (parseDigits ds).map fun n : ℕ => .lit (.int n)

def literalLibrary (rule : DuplicateRule) : Library := ⟨parseLiteral, literalEvaluator, rule⟩

theorem unescape_of_plain {body : Text} (hquote : '"' ∉ body) (hback : '\\' ∉ body) :
    unescape body = some body := by
  induction body with
  | nil => rfl
  | cons c cs ih =>
    rw [List.mem_cons, not_or] at hquote hback
    rw [unescape, ih hquote.2 hback.2, Option.map_some]
    · exact fun hc _ => hback.1 hc.symm
    · exact fun _ _ hc _ => hback.1 hc.symm
    · exact fun hc => hquote.1 hc.symm

theorem length_of_unescape {body s : Text} (h : unescape body = some s) :
    s.length ≤ body.length ∧ (s = [] → body = []) ∧
      (body.length ≤ s.length → '"' ∉ body ∧ '\\' ∉ body) := by
  induction body using unescape.induct generalizing s with
  | case1 => simp_all [unescape]
  | case2 => simp [unescape] at h
  | case3 c rest ih =>
    rw [unescape] at h
    obtain ⟨s', hs', rfl⟩ := map_eq_some_iff.mp h
    have hlen := (ih hs').1
    refine ⟨?_, by simp, fun hle => ?_⟩ <;> simp only [length_cons] at * <;> omega
  | case4 => simp [unescape] at h
  | case5 c rest hlone hesc hquote ih =>
    rw [unescape] at h
    · obtain ⟨s', hs', rfl⟩ := map_eq_some_iff.mp h
      obtain ⟨hlen, -, hplain⟩ := ih hs'
      have hback : c ≠ '\\' := by
        rintro rfl
        cases rest with
        | nil => exact hlone rfl rfl
        | cons d ds => exact hesc d ds rfl rfl
      refine ⟨by simpa using hlen, by simp, fun hle => ?_⟩
      obtain ⟨hq, hb⟩ := hplain (by simpa using hle)
      simp [hq, hb, hback.symm, Ne.symm hquote]
    all_goals assumption

theorem parseDigits_toDigits (n : ℕ) : parseDigits (Nat.toDigits 10 n) = some n := by
  have hdigits : (Nat.toDigits 10 n).all Char.isDigit := by
    rw [List.all_eq_true]
    exact fun c hc => Nat.isDigit_of_mem_toDigits (by decide) le_rfl hc
  rw [parseDigits, if_pos ⟨Nat.toDigits_ne_nil, hdigits⟩,
    Nat.ofDigitChars_toDigits (by decide) le_rfl]

theorem literalLibrary_readsLiterals (rule : DuplicateRule) :
    (literalLibrary rule).ReadsLiterals where
  string := by
    intro body hquote hback
    refine ⟨.lit (.str body), ?_, fun _ => rfl⟩
    change parseLiteral ('"' :: (body ++ ['"'])) = _
    rw [parseLiteral, if_pos (by simp), List.dropLast_concat, unescape_of_plain hquote hback,
      Option.map_some]
  integer := by
    intro i _
    refine ⟨.lit (.int i), ?_, fun _ => rfl⟩
    change parseLiteral (formatInt i) = _
    cases i with
    | negSucc n =>
      rw [formatInt, parseLiteral, parseDigits_toDigits]
      rfl
    | ofNat n =>
      -- a digit stands in front, so it is neither a string nor a negative number
      have hdigit : ∀ c ∈ Nat.toDigits 10 n, c.isDigit := fun c hc =>
        Nat.isDigit_of_mem_toDigits (by decide) le_rfl hc
      rw [formatInt, parseLiteral, parseDigits_toDigits]
      · rfl
      · intro rest hrest
        exact absurd (hdigit '"' (hrest ▸ mem_cons_self)) (by decide)
      · intro rest hrest
        exact absurd (hdigit '-' (hrest ▸ mem_cons_self)) (by decide)

structure Library.ReadsWire (lib : Library) : Prop extends lib.ReadsLiterals where
  /-- A string literal with escapes evaluates to a string of at most one character for each. -/
  escaped : ∀ body s, unescape body = some s →
    ∃ e v, lib.parseExpr (quoted body) = some e ∧ (∀ ad, lib.eval ad e = .str v) ∧
      v.length ≤ s.length ∧ (v = [] → s = [])
  /-- Digits evaluate to an integer that prints no longer than the source. -/
  digits : ∀ src i, parseLiteral src = some (.lit (.int i)) → IsInt64 i →
    ∃ e j, lib.parseExpr src = some e ∧ (∀ ad, lib.eval ad e = .int j) ∧ IsInt64 j ∧
      (formatInt j).length ≤ src.length

theorem ofDigitChars_lt {ds : Text} (h : ds.all Char.isDigit) :
    Nat.ofDigitChars 10 ds 0 < 10 ^ ds.length := by
  induction ds with
  | nil => simp
  | cons c cs ih =>
    rw [all_cons, Bool.and_eq_true] at h
    have hdigit : c.toNat - '0'.toNat ≤ 9 := by
      have hle := h.1
      rw [Char.isDigit, Bool.and_eq_true, decide_eq_true_iff, decide_eq_true_iff] at hle
      have : c.toNat ≤ 57 := hle.2
      have : '0'.toNat = 48 := rfl
      omega
    rw [Nat.ofDigitChars_cons, Nat.ofDigitChars_eq_ofDigitChars_zero, length_cons, pow_succ,
      Nat.mul_zero, Nat.zero_add]
    have hlow := ih h.2
    have hhigh := Nat.mul_le_mul_left (10 ^ cs.length) hdigit
    omega

theorem length_of_parseDigits {ds : Text} {n : ℕ} (h : parseDigits ds = some n) :
    (Nat.toDigits 10 n).length ≤ ds.length ∧ 0 < ds.length := by
  rw [parseDigits] at h
  split at h
  · rename_i hds
    rw [some.injEq] at h
    have hpos := length_pos_iff.mpr hds.1
    exact ⟨Nat.toDigits_length 10 n _ hpos (h ▸ ofDigitChars_lt hds.2), hpos⟩
  · cases h

theorem length_of_parseLiteral {src : Text} {i : Int} (h : parseLiteral src = some (.lit (.int i))) :
    (formatInt i).length ≤ src.length ∧ src.head? ≠ some '"' := by
  rw [parseLiteral.eq_def] at h
  split at h
  · split at h
    · obtain ⟨s, -, hs⟩ := map_eq_some_iff.mp h
      cases hs
    · cases h
  · obtain ⟨n, hn, hi⟩ := map_eq_some_iff.mp h
    cases hi
    have hlen := length_of_parseDigits hn
    cases n with
    | zero => exact ⟨by simp [formatInt], by simp⟩
    | succ n =>
      rw [Nat.cast_succ, ← Int.negSucc_eq, formatInt, length_cons, length_cons]
      exact ⟨Nat.succ_le_succ hlen.1, by simp⟩
  · rename_i hquote _
    obtain ⟨n, hn, hi⟩ := map_eq_some_iff.mp h
    cases hi
    refine ⟨(length_of_parseDigits hn).1, fun hhead => ?_⟩
    obtain ⟨rest, rfl⟩ := head?_eq_some_iff.mp hhead
    exact hquote rest rfl

theorem literalLibrary_readsWire (rule : DuplicateRule) : (literalLibrary rule).ReadsWire where
  toReadsLiterals := literalLibrary_readsLiterals rule
  escaped := by
    intro body s hs
    refine ⟨.lit (.str s), s, ?_, fun _ => rfl, le_rfl, id⟩
    change parseLiteral ('"' :: (body ++ ['"'])) = _
    rw [parseLiteral, if_pos (by simp), List.dropLast_concat, hs, Option.map_some]
  digits := fun src i h hi => ⟨_, i, h, fun _ => rfl, hi, (length_of_parseLiteral h).1⟩

/-! ## Looking up a parsed attribute -/

variable {α β : Type} {l : List α}

theorem find?_of_mapM (f : α → Option β) (p : α → Bool) (q : β → Bool)
    (hpq : ∀ a b, f a = some b → p a = q b) {m : List β} (h : l.mapM f = some m) :
    m.find? q = (l.find? p).bind f := by
  induction l generalizing m with
  | nil => simp_all
  | cons a as ih =>
    rw [mapM_cons] at h
    obtain ⟨b, hb, h⟩ := bind_eq_some_iff.mp h
    obtain ⟨bs, hbs, h⟩ := bind_eq_some_iff.mp h
    obtain rfl : b :: bs = m := by simpa using h
    rw [find?_cons, find?_cons, ← hpq a b hb]
    cases p a with
    | true => simp [hb]
    | false => exact ih hbs

theorem find?_reverse_of_nodup [DecidableEq β] (f : α → β) (b : β) (h : (l.map f).Nodup) :
    l.reverse.find? (fun a => f a = b) = l.find? (fun a => f a = b) := by
  induction l with
  | nil => rfl
  | cons a as ih =>
    rw [map_cons, nodup_cons] at h
    rw [reverse_cons, find?_append, ih h.2, find?_cons]
    by_cases hab : f a = b
    · -- `a` is the match from the front, and no later element has its key
      have hnone : as.find? (fun a => f a = b) = none := by
        rw [find?_eq_none]
        intro x hx hxb
        refine h.1 (mem_map.mpr ⟨x, hx, ?_⟩)
        rw [hab]
        simpa using hxb
      simp [hnone, hab]
    · cases hfind : as.find? (fun a => f a = b) <;> simp [hab, hfind]

def sourceIn (rule : DuplicateRule) (ls : List (Text × Text)) (attr : Text) : Option Text :=
  match rule with
  | .firstWins => (ls.find? fun p => toLower p.1 = toLower attr).map Prod.snd
  | .lastWins => (ls.reverse.find? fun p => toLower p.1 = toLower attr).map Prod.snd

def sourceBy (rule : DuplicateRule) (text attr : Text) : Option Text :=
  sourceIn rule (attrLines text) attr

variable {text : Text}

theorem sourceBy_of_noRepeats (rule : DuplicateRule) (h : NoRepeats text) (attr : Text) :
    sourceBy rule text attr = sourceOf text attr := by
  cases rule with
  | firstWins => rfl
  | lastWins =>
    rw [sourceBy, sourceIn, find?_reverse_of_nodup (fun p : Text × Text => toLower p.1) _ h]
    rfl

theorem sourceIn_append (rule : DuplicateRule) (front back : List (Text × Text)) (attr : Text) :
    sourceIn rule (front ++ back) attr =
      match rule with
      | .firstWins => (sourceIn rule front attr).or (sourceIn rule back attr)
      | .lastWins => (sourceIn rule back attr).or (sourceIn rule front attr) := by
  cases rule with
  | firstWins => simp only [sourceIn, find?_append, map_or]
  | lastWins => simp only [sourceIn, reverse_append, find?_append, map_or]

theorem mapM_reverse (f : α → Option β) {m : List β} (h : l.mapM f = some m) :
    l.reverse.mapM f = some m.reverse := by
  induction l generalizing m with
  | nil => simp_all
  | cons a as ih =>
    rw [mapM_cons] at h
    obtain ⟨b, hb, h⟩ := bind_eq_some_iff.mp h
    obtain ⟨bs, hbs, h⟩ := bind_eq_some_iff.mp h
    obtain rfl : b :: bs = m := by simpa using h
    rw [reverse_cons, mapM_append, ih hbs]
    simp [hb]

variable {lib : Library}

theorem lookup_parseOld {ad : ClassAd} (hparse : parseOld lib text = some ad) (attr : Text) :
    ad.lookup attr = (sourceBy lib.duplicates text attr).bind lib.parseExpr := by
  -- the attributes of a list of lines, front to back
  have hfind : ∀ (ls : List (Text × Text)) (attrs : List (Text × Expr)),
      ls.mapM (fun p => (lib.parseExpr p.2).map fun e => (p.1, e)) = some attrs →
        (attrs.find? fun p => toLower p.1 = toLower attr).map Prod.snd =
          ((ls.find? fun p => toLower p.1 = toLower attr).map Prod.snd).bind lib.parseExpr := by
    intro ls attrs h
    rw [find?_of_mapM _ (fun p => toLower p.1 = toLower attr)
      (fun p : Text × Expr => toLower p.1 = toLower attr) ?_ h]
    · cases ls.find? fun p => toLower p.1 = toLower attr with
      | none => rfl
      | some p => cases hp : lib.parseExpr p.2 <;> simp [hp]
    · intro a b hab
      obtain ⟨e, -, rfl⟩ := map_eq_some_iff.mp hab
      rfl
  rw [parseOld] at hparse
  split at hparse
  · obtain ⟨attrs, hattrs, had⟩ := map_eq_some_iff.mp hparse
    cases hrule : lib.duplicates with
    | firstWins =>
      rw [hrule] at had
      rw [← had]
      exact hfind _ _ hattrs
    | lastWins =>
      rw [hrule] at had
      rw [← had]
      exact hfind _ _ (mapM_reverse _ hattrs)
  · cases hparse

theorem parseOld_isSome_iff :
    (parseOld lib text).isSome ↔
      (∀ l ∈ lines text, trimSpace l = [] ∨ '=' ∈ l) ∧
        ∀ p ∈ attrLines text, (lib.parseExpr p.2).isSome := by
  have hmapM : ∀ ls : List (Text × Text),
      (ls.mapM fun p => (lib.parseExpr p.2).map fun e => (p.1, e)).isSome ↔
        ∀ p ∈ ls, (lib.parseExpr p.2).isSome := by
    intro ls
    induction ls with
    | nil => simp
    | cons p ps ih =>
      rw [forall_mem_cons, ← ih, mapM_cons]
      cases lib.parseExpr p.2 with
      | none => simp
      | some e => cases hps : ps.mapM fun p => (lib.parseExpr p.2).map fun e => (p.1, e) <;> simp
  rw [parseOld]
  split
  · rename_i hlines
    rw [isSome_map, parseAttrs, hmapM]
    simp only [List.all_eq_true, Bool.or_eq_true, decide_eq_true_eq] at hlines
    exact ⟨fun h => ⟨hlines, h⟩, And.right⟩
  · rename_i hlines
    simp only [List.all_eq_true, Bool.or_eq_true, decide_eq_true_eq] at hlines
    simp [hlines]

theorem lookup_eq_none_iff {ad : ClassAd} (hparse : parseOld lib text = some ad) (attr : Text) :
    ad.lookup attr = none ↔ sourceBy lib.duplicates text attr = none := by
  rw [lookup_parseOld hparse attr, bind_eq_none_iff, eq_none_iff_forall_ne_some]
  refine forall_congr' fun src => ?_
  refine ⟨fun h hsrc => ?_, fun h hsrc => absurd hsrc h⟩
  -- the line is one of the text, so its source parses
  have hexprs := (parseOld_isSome_iff.mp (isSome_iff_exists.mpr ⟨ad, hparse⟩)).2
  have hmem : ∃ p ∈ attrLines text, p.2 = src := by
    cases hrule : lib.duplicates with
    | firstWins =>
      rw [hrule] at hsrc
      obtain ⟨p, hp, rfl⟩ := map_eq_some_iff.mp hsrc
      exact ⟨p, mem_of_find?_eq_some hp, rfl⟩
    | lastWins =>
      rw [hrule] at hsrc
      obtain ⟨p, hp, rfl⟩ := map_eq_some_iff.mp hsrc
      exact ⟨p, mem_reverse.mp (mem_of_find?_eq_some hp), rfl⟩
  obtain ⟨p, hp, rfl⟩ := hmem
  exact absurd (h hsrc) (isSome_iff_ne_none.mp (hexprs p hp))

theorem parseOld_isSome_of_lines {part text : Text} (h : ∀ l ∈ lines part, l ∈ lines text)
    (hparse : (parseOld lib text).isSome) : (parseOld lib part).isSome := by
  rw [parseOld_isSome_iff] at hparse ⊢
  refine ⟨fun l hl => hparse.1 l (h l hl), fun p hp => hparse.2 p ?_⟩
  obtain ⟨l, hl, hsplit⟩ := mem_filterMap.mp hp
  exact mem_filterMap.mpr ⟨l, h l hl, hsplit⟩

end GolangCollector
