import GolangCollector.ClassAd.WireText
import GolangCollector.Store.HashKey

/-! # Keying an ad from its wire text

The ingest path computes an ad's key without parsing it: `scanKeyAttrs` (`store/hashkey.go`) walks
the lines of the wire text and takes the key attributes' values verbatim between their quotes, and
`hashKeyFromText` feeds them to the same `keyFields` as `HashKey`. Everything that later finds the
ad by key (`Get`, `Invalidate`, `Expire`) recomputes the key from the parsed ad. -/

namespace GolangCollector

open GoStrings GoInt List Option

/-! ## The scanner -/

def keyAttrNames : List Text :=
  [attrName, attrMachine, attrMyAddress, attrSlotID, attrStartdIPAddr, attrScheddName,
    attrScheddIPAddr]

def keyAttrs : List Text := keyAttrNames.map toLower

def unquote (val : Text) : Text :=
  match val with
  | '"' :: rest => if rest.getLast? = some '"' then rest.dropLast else val
  | _ => val

def scanLine (out : List (Text × Text)) (line : Text) : List (Text × Text) :=
  match splitLine line with
  | none => out
  | some (name, val) =>
    if toLower name ∈ keyAttrs then
      if (out.lookup (toLower name)).isSome then out else out ++ [(toLower name, unquote val)]
    else out

def scanKeyAttrs (text : Text) : List (Text × Text) := (lines text).foldl scanLine []

def hashKeyFromText (t : AdType) (text : Text) : Option Text :=
  keyFields t fun attr => (scanKeyAttrs text).lookup (toLower attr)

def scanned (text attr : Text) : Option Text := (sourceOf text attr).map unquote

theorem lookup_foldl_scanLine {attr : Text} (hattr : toLower attr ∈ keyAttrs) (ls : List Text)
    (out : List (Text × Text)) :
    (ls.foldl scanLine out).lookup (toLower attr) =
      ((out.lookup (toLower attr)).or
        (((ls.filterMap splitLine).find? fun p => toLower p.1 = toLower attr).map
          fun p => unquote p.2)) := by
  -- along the lines, with what is recorded so far as the accumulator
  induction ls generalizing out with
  | nil => simp
  | cons l ls ih =>
    rw [foldl_cons, ih, filterMap_cons, scanLine]
    cases splitLine l with
    | none => rfl
    | some p =>
      obtain ⟨name, val⟩ := p
      simp only [find?_cons]
      by_cases hname : toLower name = toLower attr
      · -- the line is for this attribute: it is recorded unless an earlier line was
        rw [hname, if_pos hattr]
        cases hout : out.lookup (toLower attr) with
        | some v => simp [hout]
        | none => simp [hout, lookup_append]
      · -- a line for another attribute changes no lookup of this one
        have hskip : (out ++ [(toLower name, unquote val)]).lookup (toLower attr) =
            out.lookup (toLower attr) := by
          have hne : (toLower attr == toLower name) = false := by
            simpa using fun h => hname h.symm
          rw [lookup_append]
          simp [lookup_cons, hne]
        simp only [hname, decide_false]
        split
        · split
          · rfl
          · rw [hskip]
        · rfl

theorem lookup_scanKeyAttrs {attr : Text} (hattr : toLower attr ∈ keyAttrs) (text : Text) :
    (scanKeyAttrs text).lookup (toLower attr) = scanned text attr := by
  rw [scanKeyAttrs, lookup_foldl_scanLine hattr, lookup_nil, none_or, scanned, sourceOf,
    Option.map_map]
  rfl

/-! ## Resolvers

The name, the qualifier and the address of a key are each the first of a list of attributes that is
present and not empty, so an attribute matters only where those before it in its list are absent or
empty (`tried`). -/

variable {get get' : Text → Option Text} {t : AdType}

theorem keyFields_congr (h : ∀ attr, toLower attr ∈ keyAttrs → get attr = get' attr) :
    keyFields t get = keyFields t get' := by
  have hname := h attrName (by decide)
  have hmachine := h attrMachine (by decide)
  have haddr := h attrMyAddress (by decide)
  have hslot := h attrSlotID (by decide)
  have hstartd := h attrStartdIPAddr (by decide)
  have hschedd := h attrScheddName (by decide)
  have hip := h attrScheddIPAddr (by decide)
  simp only [keyFields, keyName, firstOf, hname, hmachine, haddr, hslot, hstartd, hschedd, hip]

theorem hashKeyFromText_eq (t : AdType) (text : Text) :
    hashKeyFromText t text = keyFields t (scanned text) :=
  keyFields_congr fun _ hattr => lookup_scanKeyAttrs hattr text

def reading (get : Text → Option Text) (attr : Text) : Text := (get attr).getD []

def tried (get : Text → Option Text) : List Text → List Text
  | [] => []
  | a :: as => a :: if reading get a = [] then tried get as else []

def nameAttrs : List Text := [attrName, attrMachine]

def qualifierAttrs : AdType → List Text
  | .startdAd | .startdPvtAd => [attrSlotID]
  | .scheddAd | .submitterAd => [attrScheddName]
  | _ => []

def addressAttrs : AdType → List Text
  | .startdAd | .startdPvtAd => [attrMyAddress, attrStartdIPAddr]
  | .scheddAd | .submitterAd => [attrMyAddress, attrScheddIPAddr]
  | .masterAd => []
  | _ => [attrMyAddress]

def consulted (t : AdType) (get : Text → Option Text) : List Text :=
  tried get nameAttrs ++
    if firstOf get nameAttrs = [] then []
    else tried get (qualifierAttrs t) ++ tried get (addressAttrs t)

theorem firstOf_cons (get : Text → Option Text) (a : Text) (as : List Text) :
    firstOf get (a :: as) = if reading get a = [] then firstOf get as else reading get a := by
  rw [firstOf, reading]
  rcases get a with _ | _ | ⟨c, cs⟩ <;> simp

theorem keyFields_eq_firstOf (t : AdType) (get : Text → Option Text) :
    keyFields t get =
      if firstOf get nameAttrs = [] then none
      else some (Identity.flatten t ⟨firstOf get nameAttrs, firstOf get (qualifierAttrs t),
        firstOf get (addressAttrs t)⟩) := by
  have hname : keyName get =
      if firstOf get nameAttrs = [] then none else some (firstOf get nameAttrs) := by
    rw [keyName, nameAttrs, firstOf, firstOf, firstOf]
    rcases get attrName with _ | _ | ⟨c, cs⟩ <;> rcases get attrMachine with _ | _ | ⟨d, ds⟩ <;>
      simp
  have hone : ∀ a, firstOf get [a] = (get a).getD [] := by
    intro a
    rw [firstOf_cons, firstOf, reading]
    split <;> simp_all
  rw [keyFields_eq_map_flatten, Identity.resolve, hname]
  split
  · rfl
  · cases t <;> simp only [Option.map_some, qualifierAttrs, addressAttrs, hone] <;> rfl

def Shrinks (v v' : Text) : Prop := v'.length ≤ v.length ∧ (v' = [] ↔ v = [])

theorem shrinks_firstOf {as : List Text}
    (h : ∀ a ∈ tried get as, Shrinks (reading get a) (reading get' a)) :
    Shrinks (firstOf get as) (firstOf get' as) ∧
      (firstOf get as = firstOf get' as ↔ ∀ a ∈ tried get as, reading get a = reading get' a) := by
  induction as with
  | nil => simp [firstOf, tried, Shrinks]
  | cons a as ih =>
    rw [tried, forall_mem_cons] at h
    rw [tried, forall_mem_cons, firstOf_cons, firstOf_cons]
    by_cases ha : reading get a = []
    · rw [if_pos ha] at h ⊢
      have ha' := h.1.2.mpr ha
      rw [if_pos ha', if_pos ha, ha, ha']
      simpa using ih h.2
    · have ha' : ¬ reading get' a = [] := fun h' => ha (h.1.2.mp h')
      rw [if_neg ha, if_neg ha, if_neg ha']
      exact ⟨h.1, by simp⟩

theorem Shrinks.suffix {v v' : Text} (h : Shrinks v v') (t : AdType) :
    (Identity.suffix t v').length ≤ (Identity.suffix t v).length := by
  have hle := h.1
  have hnil := h.2
  cases t <;> simp only [Identity.suffix] <;> (try split_ifs) <;> simp_all

theorem keyFields_eq_iff (h : ∀ a ∈ consulted t get, Shrinks (reading get a) (reading get' a)) :
    keyFields t get = keyFields t get' ↔ ∀ a ∈ consulted t get, reading get a = reading get' a := by
  rw [consulted, forall_mem_append] at h ⊢
  obtain ⟨hname, hnameIff⟩ := shrinks_firstOf h.1
  rw [keyFields_eq_firstOf, keyFields_eq_firstOf, ← hnameIff]
  by_cases hnone : firstOf get nameAttrs = []
  · rw [if_pos hnone, if_pos (hname.2.mpr hnone), if_pos hnone, hnone, hname.2.mpr hnone]
    simp
  · have hrest := h.2
    rw [if_neg hnone, forall_mem_append] at hrest
    obtain ⟨hqual, hqualIff⟩ := shrinks_firstOf hrest.1
    obtain ⟨haddr, haddrIff⟩ := shrinks_firstOf hrest.2
    rw [if_neg hnone, if_neg (fun hx => hnone (hname.2.mp hx)), if_neg hnone, forall_mem_append,
      ← hqualIff, ← haddrIff, some.injEq]
    simp only [Identity.flatten]
    constructor
    · intro hkey
      have hlen := congrArg length hkey
      simp only [length_append, length_cons] at hlen
      have hnameLe := hname.1
      have haddrLe := haddr.1
      have hsuffixLe := hqual.suffix t
      obtain ⟨hfront, hback⟩ := append_inj hkey (by simp only [length_append]; omega)
      obtain ⟨hn, hs⟩ := append_inj hfront (by omega)
      refine ⟨hn, ?_, (cons.inj hback).2⟩
      cases t
      case startdAd | startdPvtAd => exact Identity.suffix_startdAd_injective hs
      case scheddAd | submitterAd => exact hs
      all_goals rfl
    · rintro ⟨hn, hq, ha⟩
      rw [hn, hq, ha]

theorem keyFields_eq_of_reading (h : ∀ a ∈ consulted t get, reading get a = reading get' a) :
    keyFields t get = keyFields t get' :=
  (keyFields_eq_iff fun a ha => by rw [h a ha]; exact ⟨le_rfl, Iff.rfl⟩).mpr h

variable {get : Text → Option Text}

theorem mem_of_mem_tried {a : Text} {as : List Text} (h : a ∈ tried get as) : a ∈ as := by
  induction as with
  | nil => cases h
  | cons b bs ih =>
    rw [tried, mem_cons] at h
    rcases h with rfl | h
    · exact mem_cons_self
    · split at h
      · exact mem_cons_of_mem _ (ih h)
      · cases h

theorem mem_keyAttrNames_of_consulted {a : Text} (h : a ∈ consulted t get) : a ∈ keyAttrNames := by
  have hall : ∀ t : AdType, nameAttrs ⊆ keyAttrNames ∧ qualifierAttrs t ⊆ keyAttrNames ∧
      addressAttrs t ⊆ keyAttrNames := by
    intro t
    cases t <;> decide
  rw [consulted, mem_append] at h
  rcases h with h | h
  · exact (hall t).1 (mem_of_mem_tried h)
  · split at h
    · cases h
    · rcases mem_append.mp h with h | h
      · exact (hall t).2.1 (mem_of_mem_tried h)
      · exact (hall t).2.2 (mem_of_mem_tried h)

theorem ne_lastHeardFrom_of_consulted {a : Text} (h : a ∈ consulted t get) :
    toLower a ≠ toLower attrLastHeardFrom :=
  (by decide : ∀ a ∈ keyAttrNames, toLower a ≠ toLower attrLastHeardFrom) a
    (mem_keyAttrNames_of_consulted h)

/-! ## Text against ad -/

/-- A source that the scanner reads as the evaluator does. -/
def Verbatim (attr src : Text) : Prop :=
  if attr = attrSlotID then ∃ i, IsInt64 i ∧ src = formatInt i
  else ∃ body, src = quoted body ∧ '"' ∉ body ∧ '\\' ∉ body

def KeyLiteral (attr src : Text) : Prop :=
  if attr = attrSlotID then ∃ i, IsInt64 i ∧ parseLiteral src = some (.lit (.int i))
  else ∃ body s, src = quoted body ∧ unescape body = some s

theorem unquote_quoted (body : Text) : unquote (quoted body) = body := by
  simp [unquote, quoted]

theorem unquote_of_head {src : Text} (h : src.head? ≠ some '"') : unquote src = src := by
  rw [unquote.eq_def]
  split
  · simp at h
  · rfl

theorem head?_formatInt (i : Int) : (formatInt i).head? ≠ some '"' := by
  intro h
  rcases mem_formatInt (mem_of_head? h) with hd | hd <;> exact absurd hd (by decide)

theorem Verbatim.keyLiteral {attr src : Text} (h : Verbatim attr src) : KeyLiteral attr src := by
  rw [Verbatim] at h
  rw [KeyLiteral]
  split at h
  · obtain ⟨i, hi, rfl⟩ := h
    obtain ⟨e, he, heval⟩ := (literalLibrary_readsLiterals .firstWins).integer i hi
    have hlit : e = .lit (.int i) := by
      cases e with
      | lit v => exact congrArg Expr.lit (heval ⟨[]⟩)
      | _ => cases heval ⟨[]⟩
    rw [if_pos ‹_›]
    exact ⟨i, hi, hlit ▸ he⟩
  · obtain ⟨body, rfl, hquote, hback⟩ := h
    rw [if_neg ‹_›]
    exact ⟨body, body, rfl, unescape_of_plain hquote hback⟩

section Reading

variable {lib : Library} {text attr src : Text} {ad : ClassAd}

section

variable (hparse : parseOld lib text = some ad)
include hparse

theorem reading_absent (hsrc : sourceBy lib.duplicates text attr = none) :
    reading (ad.keyAttr lib.eval) attr = [] := by
  have hundefined : ad.evaluateAttr lib.eval attr = .undefined := by
    rw [ClassAd.evaluateAttr, (lookup_eq_none_iff hparse attr).mpr hsrc]
  rw [reading, ClassAd.keyAttr, ClassAd.evaluateAttrInt, ClassAd.evaluateAttrString, hundefined]
  split <;> rfl

theorem reading_string (hattr : attr ≠ attrSlotID)
    (hsrc : sourceBy lib.duplicates text attr = some src) {e : Expr} {v : Text}
    (he : lib.parseExpr src = some e) (hv : ∀ ad, lib.eval ad e = .str v) :
    reading (ad.keyAttr lib.eval) attr = v := by
  rw [reading, ClassAd.keyAttr, if_neg hattr, ClassAd.evaluateAttrString, ClassAd.evaluateAttr,
    lookup_parseOld hparse, hsrc, bind_some, he]
  simp only [hv ad, getD_some]

theorem reading_integer (hsrc : sourceBy lib.duplicates text attrSlotID = some src) {e : Expr}
    {i : Int} (he : lib.parseExpr src = some e) (hi : ∀ ad, lib.eval ad e = .int i) :
    reading (ad.keyAttr lib.eval) attrSlotID = formatInt i := by
  rw [reading, ClassAd.keyAttr, if_pos rfl, ClassAd.evaluateAttrInt, ClassAd.evaluateAttr,
    lookup_parseOld hparse, hsrc, bind_some, he]
  simp only [hi ad, Option.map_some, getD_some]

end

theorem Verbatim.reading_eq (h : Verbatim attr src) (hlib : lib.ReadsLiterals)
    (hparse : parseOld lib text = some ad) (hsrc : sourceBy lib.duplicates text attr = some src) :
    reading (ad.keyAttr lib.eval) attr = unquote src := by
  rw [Verbatim] at h
  split at h
  · rename_i hattr
    subst hattr
    obtain ⟨i, hi, rfl⟩ := h
    obtain ⟨e, he, heval⟩ := hlib.integer i hi
    rw [reading_integer hparse hsrc he heval, unquote_of_head (head?_formatInt i)]
  · rename_i hattr
    obtain ⟨body, rfl, hquote, hback⟩ := h
    obtain ⟨e, he, heval⟩ := hlib.string body hquote hback
    rw [reading_string hparse hattr hsrc he heval, unquote_quoted]

theorem KeyLiteral.shrinks (h : KeyLiteral attr src) (hlib : lib.ReadsWire)
    (hparse : parseOld lib text = some ad) (hsrc : sourceBy lib.duplicates text attr = some src) :
    Shrinks (unquote src) (reading (ad.keyAttr lib.eval) attr) ∧
      (unquote src = reading (ad.keyAttr lib.eval) attr → Verbatim attr src) := by
  rw [KeyLiteral] at h
  rw [Verbatim]
  split at h
  · rename_i hattr
    subst hattr
    obtain ⟨i, hi, hlit⟩ := h
    obtain ⟨e, j, he, heval, hj, hlen⟩ := hlib.digits src i hlit hi
    have hpos : ∀ k, formatInt k ≠ [] := fun k => by
      cases k <;> simp [formatInt, Nat.toDigits_ne_nil]
    have hsrcPos : src ≠ [] := fun hnil => by
      rw [hnil, length_nil, Nat.le_zero, length_eq_zero_iff] at hlen
      exact hpos j hlen
    rw [reading_integer hparse hsrc he heval, unquote_of_head (length_of_parseLiteral hlit).2,
      if_pos rfl]
    exact ⟨⟨hlen, iff_of_false (hpos j) hsrcPos⟩, fun heq => ⟨j, hj, heq⟩⟩
  · rename_i hattr
    obtain ⟨body, s, rfl, hs⟩ := h
    obtain ⟨e, v, he, heval, hlen, hnil⟩ := hlib.escaped body s hs
    obtain ⟨hle, hempty, hplain⟩ := length_of_unescape hs
    rw [reading_string hparse hattr hsrc he heval, unquote_quoted, if_neg hattr]
    refine ⟨⟨hlen.trans hle, fun hv => hempty (hnil hv), fun hb => ?_⟩, fun heq =>
      ⟨body, rfl, hplain (heq ▸ hlen)⟩⟩
    rw [← length_eq_zero_iff]
    rw [hb, length_nil] at hle
    omega

end Reading

def escapedNameText : Text := "Name = \"a\\\"b\""

def escapedNameAd : ClassAd := ⟨[(attrName, .lit (.str "a\"b"))]⟩

theorem wellFormed_escapedName (rule : DuplicateRule) :
    WellFormed (literalLibrary rule) escapedNameText escapedNameAd where
  parses := by cases rule <;> decide
  noRepeats := by decide

def plainSlotText : Text := "Name = \"slot1@a\"\nSlotID = 1"

def plainSlotAd : ClassAd :=
  ⟨[(attrName, .lit (.str "slot1@a")), (attrSlotID, .lit (.int 1))]⟩

end GolangCollector
