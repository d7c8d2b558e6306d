import GolangCollector.ClassAd.WireText

/-! # Ads in wire-ready form

A `RawAd` is an ad as `name = value` lines, with its two type attributes taken out of the lines; it
is what the raw query paths yield. A reader of the wire takes the name of a line from before its
first `=` (`lineName`). The collector's own scans stop at a blank as well (`rawExprAttrName`); on
the lines of a `RawAd`, which are rendered from attribute names, both find the same name.

`projectRawExprs` (`store/rawproject.go`) and `redactRawExprs` (`server/server.go`) drop lines by
name. -/

namespace GolangCollector

open GoStrings List

/-! ## Lines -/

def lineName (line : Text) : Text :=
  match cut '=' line with
  | some (name, _) => trimSpace name
  | none => trimSpace line

def rawExprAttrName (expr : Text) : Text :=
  (expr.dropWhile fun c => c = ' ' || c = '\t').takeWhile fun c => c ≠ '=' && c ≠ ' ' && c ≠ '\t'

def IsAttrName (name : Text) : Prop := name ≠ [] ∧ ∀ c ∈ name, isSpace c = false ∧ c ≠ '='

-- by a search of the name: the instance for all characters would go through the whole type
instance (name : Text) : Decidable (IsAttrName name) :=
  @instDecidableAnd _ _ inferInstance (List.decidableBAll _ name)

def attrLine (name value : Text) : Text := name ++ " = " ++ value

def IsAttrLine (line : Text) : Prop := ∃ name value, IsAttrName name ∧ line = attrLine name value

theorem lineName_attrLine {name : Text} (h : IsAttrName name) (value : Text) :
    lineName (attrLine name value) = name := by
  have hcut : cut '=' (attrLine name value) = some (name ++ [' '], ' ' :: value) := by
    refine cut_eq_some_iff.mpr ⟨?_, ?_⟩
    · simp [attrLine]
    · intro hmem
      rcases mem_append.mp hmem with hname | hblank
      · exact (h.2 _ hname).2 rfl
      · exact absurd hblank (by decide)
  obtain ⟨hne, hchars⟩ := h
  rw [lineName, hcut]
  simp only
  cases name with
  | nil => exact absurd rfl hne
  | cons c cs =>
    have hlast : ∀ l : Text, (∀ d ∈ l, isSpace d = false) → l.rdropWhile isSpace = l := by
      intro l hl
      rw [rdropWhile_eq_self_iff]
      intro hl' hspace
      rw [hl _ (getLast_mem hl')] at hspace
      cases hspace
    rw [trimSpace, cons_append, dropWhile_cons_of_neg (by simp [hchars c]),
      ← cons_append, rdropWhile_concat_pos _ _ _ (by decide)]
    exact hlast _ fun d hd => (hchars d hd).1

theorem rawExprAttrName_attrLine {name : Text} (h : IsAttrName name) (value : Text) :
    rawExprAttrName (attrLine name value) = name := by
  obtain ⟨hne, hchars⟩ := h
  have hkeep : ∀ c ∈ name, (c ≠ '=' && c ≠ ' ' && c ≠ '\t') = true := by
    intro c hc
    obtain ⟨hspace, heq⟩ := hchars c hc
    have hblank : c ≠ ' ' := fun h => by rw [h] at hspace; exact absurd hspace (by decide)
    have htab : c ≠ '\t' := fun h => by rw [h] at hspace; exact absurd hspace (by decide)
    simp [heq, hblank, htab]
  cases name with
  | nil => exact absurd rfl hne
  | cons c cs =>
    have hfirst : ¬ (c = ' ' || c = '\t') = true := by
      have := hkeep c mem_cons_self
      simp only [Bool.and_eq_true, decide_eq_true_eq, ne_eq] at this
      simp [this]
    rw [rawExprAttrName, attrLine, cons_append, cons_append,
      dropWhile_cons, if_neg hfirst, ← cons_append, ← cons_append,
      append_assoc, takeWhile_append_of_pos hkeep]
    simp

theorem IsAttrLine.rawExprAttrName_eq {line : Text} (h : IsAttrLine line) :
    rawExprAttrName line = lineName line := by
  obtain ⟨name, value, hname, rfl⟩ := h
  rw [rawExprAttrName_attrLine hname, lineName_attrLine hname]

/-! ## Raw ads -/

/-- `collections.RawAd`: the lines of an ad, and its type attributes. -/
structure RawAd where
  /-- The expression lines, without the type attributes. -/
  exprs : List Text
  /-- The value of `MyType`, empty if absent. -/
  myType : Text
  /-- The value of `TargetType`, empty if absent. -/
  targetType : Text
  /-- The lines are rendered from attributes. -/
  rendered : ∀ e ∈ exprs, IsAttrLine e

def dropExprs (drop : Text → Bool) (exprs : List Text) : List Text :=
  match exprs.findIdx? drop with
  | none => exprs
  | some first => exprs.take first ++ (exprs.drop (first + 1)).filter fun e => !drop e

theorem dropExprs_eq_filter (drop : Text → Bool) (exprs : List Text) :
    dropExprs drop exprs = exprs.filter fun e => !drop e := by
  induction exprs with
  | nil => rfl
  | cons e es ih =>
    rw [dropExprs, findIdx?_cons]
    cases he : drop e with
    | true => simp [he]
    | false =>
      rw [dropExprs] at ih
      cases hes : es.findIdx? drop with
      | none | some i =>
        rw [hes] at ih
        simpa [he, hes] using ih

def redactRawExprs (isPrivate : Text → Bool) (exprs : List Text) : List Text :=
  dropExprs (fun e => isPrivate (rawExprAttrName e)) exprs

namespace RawAd

def drop (p : Text → Bool) (ra : RawAd) : RawAd where
  exprs := dropExprs p ra.exprs
  myType := ra.myType
  targetType := ra.targetType
  rendered := by
    intro e he
    rw [dropExprs_eq_filter] at he
    exact ra.rendered e (List.mem_of_mem_filter he)

theorem mem_exprs_drop {p : Text → Bool} {ra : RawAd} {e : Text} :
    e ∈ (ra.drop p).exprs ↔ e ∈ ra.exprs ∧ p e = false := by
  show e ∈ dropExprs p ra.exprs ↔ _
  rw [dropExprs_eq_filter, mem_filter, Bool.not_eq_true']

def project (projection : List Text) (ra : RawAd) : RawAd :=
  if projection = [] then ra
  else ra.drop fun e => toLower (rawExprAttrName e) ∉ projection.map toLower

def redact (isPrivate : Text → Bool) (ra : RawAd) : RawAd :=
  ra.drop fun e => isPrivate (rawExprAttrName e)

def Public (isPrivate : Text → Bool) (ra : RawAd) : Prop :=
  ∀ e ∈ ra.exprs, isPrivate (lineName e) = false

theorem public_redact (isPrivate : Text → Bool) (ra : RawAd) :
    (ra.redact isPrivate).Public isPrivate := by
  intro e he
  obtain ⟨hmem, hkept⟩ := mem_exprs_drop.mp he
  rw [← (ra.rendered e hmem).rawExprAttrName_eq]
  exact hkept

theorem Public.project {isPrivate : Text → Bool} {ra : RawAd} (h : ra.Public isPrivate)
    (projection : List Text) : (ra.project projection).Public isPrivate := by
  rw [RawAd.project]
  split
  · exact h
  · exact fun e he => h e (mem_exprs_drop.mp he).1

end RawAd

end GolangCollector
