import GolangCollector.Store.MemoryExpiry

/-! # The receive stamp and the copied identity

A text update appends the receive time to what the sender wrote (`stampText`), and a private update
also puts the identifying lines of the public ad in front (`pvtAdText`). The appended line counts
only where the wire encoder keeps the last of several lines for one attribute, the lines in front
only where it keeps the first. `StampCounts` and `IdentityCounts` are the conditions on what the
sender wrote. -/

namespace GolangCollector

open GoStrings GoInt List Option

/-! ## What a text update adds to the text -/

theorem splitLine_rdropWhile (line : Text) :
    splitLine (line.rdropWhile (· = '\r')) = splitLine line := by
  have hw : ∀ c ∈ line.rtakeWhile (· = '\r'), c = '\r' := by
    intro c hc
    simpa using mem_rtakeWhile_imp hc
  have hsep : '=' ∉ line.rtakeWhile (· = '\r') := fun hmem => absurd (hw _ hmem) (by decide)
  have hspace : ∀ c ∈ line.rtakeWhile (· = '\r'), isSpace c := by
    intro c hc
    rw [hw c hc]
    decide
  conv_rhs => rw [← rdropWhile_append_rtakeWhile (p := (· = '\r')) (l := line)]
  rw [splitLine, splitLine, cut_append_of_notMem hsep, Option.map_map]
  congr 1
  funext p
  rw [Function.comp_apply, trimSpace_append_spaces hspace]

/-- What `copyAttrLines` has built so far. -/
structure Copied (want : List Text) (ls : List Text) (acc : List Text × Text) : Prop where
  /-- What is copied ends at a line end. -/
  closed : acc.2 = [] ∨ acc.2.getLast? = some '\n'
  /-- The names seen are those of the copied lines. -/
  seen : ((attrLines acc.2).map fun p => toLower p.1).reverse = acc.1
  /-- Only wanted names are copied. -/
  wanted : ∀ name ∈ acc.1, name ∈ want
  /-- No name is copied twice. -/
  nodup : acc.1.Nodup
  /-- The copied line of a wanted name is its first line. -/
  first : ∀ name ∈ want, (attrLines acc.2).find? (fun p => toLower p.1 = name) =
    (ls.filterMap splitLine).find? (fun p => toLower p.1 = name)

theorem Copied.step {want ls : List Text} {acc : List Text × Text} {line : Text}
    (h : Copied want ls acc) (hline : '\n' ∉ line) :
    Copied want (ls ++ [line]) (copyAttrLine want acc line) := by
  -- a name is seen exactly when a line of it was copied
  have hseen : ∀ name, name ∈ acc.1 ↔
      ((attrLines acc.2).find? fun p => toLower p.1 = name).isSome := by
    intro name
    rw [← h.seen, mem_reverse, find?_isSome]
    simp
  rw [copyAttrLine]
  cases hcut : cut '=' line with
  | none =>
    have hsplit : splitLine line = none := by rw [splitLine, hcut, map_none]
    refine ⟨h.closed, h.seen, h.wanted, h.nodup, fun name hname => ?_⟩
    rw [h.first name hname, filterMap_append, filterMap_cons, hsplit,
      filterMap_nil, append_nil]
  | some q =>
    have hsplit : splitLine line = some (trimSpace q.1, trimSpace q.2) := by
      rw [splitLine, hcut, map_some]
    have hfirst : ∀ name ∈ want,
        ((ls ++ [line]).filterMap splitLine).find? (fun p => toLower p.1 = name) =
          ((attrLines acc.2).find? fun p => toLower p.1 = name).or
            ([(trimSpace q.1, trimSpace q.2)].find? fun p => toLower p.1 = name) := by
      intro name hname
      rw [h.first name hname, filterMap_append, filterMap_cons, hsplit,
        filterMap_nil, find?_append]
    dsimp only
    split
    · -- the line is copied, without its carriage returns
      rename_i hcopy
      have hnl : '\n' ∉ line.rdropWhile (· = '\r') := fun hmem =>
        hline ((List.rdropWhile_prefix _ _).subset hmem)
      have hattr : attrLines (acc.2 ++ line.rdropWhile (· = '\r') ++ ['\n']) =
          attrLines acc.2 ++ [(trimSpace q.1, trimSpace q.2)] := by
        rw [attrLines, append_assoc, lines_append_of_endLine h.closed,
          lines_line_append hnl, filterMap_append, filterMap_cons,
          splitLine_rdropWhile, hsplit]
        rfl
      refine ⟨Or.inr (by simp), ?_, ?_, ?_, fun name hname => ?_⟩
      · rw [hattr, map_append, reverse_append, h.seen]
        rfl
      · exact forall_mem_cons.mpr ⟨hcopy.1, h.wanted⟩
      · exact nodup_cons.mpr ⟨hcopy.2, h.nodup⟩
      · rw [hfirst name hname, hattr, find?_append]
    · -- not wanted, or already copied
      rename_i hskip
      refine ⟨h.closed, h.seen, h.wanted, h.nodup, fun name hname => ?_⟩
      rw [hfirst name hname]
      by_cases hq : toLower (trimSpace q.1) = name
      · have hmem : name ∈ acc.1 := by
          by_contra hnot
          exact hskip (hq ▸ ⟨hname, hnot⟩)
        obtain ⟨p, hp⟩ := isSome_iff_exists.mp ((hseen name).mp hmem)
        rw [hp, some_or]
      · simp [hq]

theorem copied_copyAttrLines (text : Text) (attrs : List Text) :
    ∃ seen, Copied (attrs.map toLower) (lines text) (seen, copyAttrLines text attrs) := by
  have hrun : ∀ ls done acc, (∀ l ∈ ls, '\n' ∉ l) → Copied (attrs.map toLower) done acc →
      Copied (attrs.map toLower) (done ++ ls)
        (ls.foldl (copyAttrLine (attrs.map toLower)) acc) := by
    intro ls
    induction ls with
    | nil =>
      intro done acc _ h
      simpa using h
    | cons l ls ih =>
      intro done acc hls h
      rw [forall_mem_cons] at hls
      simpa using ih (done ++ [l]) _ hls.2 (h.step hls.1)
  have hnil : Copied (attrs.map toLower) [] ([], []) :=
    ⟨Or.inl rfl, rfl, by simp, nodup_nil, fun _ _ => rfl⟩
  exact ⟨_, hrun _ [] _ newline_notMem_lines hnil⟩

theorem sourceBy_pvtBody (rule : DuplicateRule) (publicText pvtText : Text) {attr : Text}
    (hattr : attr ∈ identityAttrs) :
    sourceBy rule (pvtBody publicText pvtText) attr =
      match rule with
      | .firstWins => (sourceOf publicText attr).or (sourceBy rule pvtText attr)
      | .lastWins => (sourceBy rule pvtText attr).or (sourceOf publicText attr) := by
  obtain ⟨seen, hcopied⟩ := copied_copyAttrLines publicText identityAttrs
  have hlines : attrLines (pvtBody publicText pvtText) =
      attrLines (copyAttrLines publicText identityAttrs) ++ attrLines pvtText := by
    rw [pvtBody, attrLines, lines_append_of_endLine hcopied.closed, filterMap_append,
      ← attrLines, ← attrLines, attrLines_endLine]
  have hrep : NoRepeats (copyAttrLines publicText identityAttrs) := by
    rw [NoRepeats, ← nodup_reverse, hcopied.seen]
    exact hcopied.nodup
  -- the copied line is the public text's first one, whatever the rule
  have hheader : sourceIn rule (attrLines (copyAttrLines publicText identityAttrs)) attr =
      sourceOf publicText attr := by
    rw [← sourceBy, sourceBy_of_noRepeats rule hrep, sourceOf,
      hcopied.first _ (mem_map_of_mem hattr)]
    rfl
  rw [sourceBy, hlines, sourceIn_append, hheader]
  rfl

theorem mem_lines_stampText {text : Text} (now : Int) {l : Text} (h : l ∈ lines text) :
    l ∈ lines (stampText text now) := by
  rw [stampText, append_assoc, append_assoc, append_assoc,
    lines_append_of_endLine (Or.inr (getLast?_endLine text))]
  refine mem_append_left _ ?_
  rw [endLine]
  split
  · exact h
  · rename_i hlast
    rwa [lines_append_newline (fun hnil => by simp [hnil, lines] at h) hlast]

/-! ## What the stored ad says -/

def Evaluator.Extensional (ev : Evaluator) : Prop :=
  ∀ ad ad' : ClassAd, (∀ attr, ad.lookup attr = ad'.lookup attr) → ∀ e, ev ad e = ev ad' e

theorem Evaluator.Extensional.evaluateAttrInt_congr {ev : Evaluator} (h : ev.Extensional)
    {ad ad' : ClassAd} (heq : ∀ attr, ad.lookup attr = ad'.lookup attr) (attr : Text) :
    ad.evaluateAttrInt ev attr = ad'.evaluateAttrInt ev attr := by
  rw [ClassAd.evaluateAttrInt, ClassAd.evaluateAttrInt, ClassAd.evaluateAttr, ClassAd.evaluateAttr,
    heq attr]
  cases ad'.lookup attr with
  | none => rfl
  | some e => simp only [h ad ad' heq e]

def StampedAt (lib : Library) (now : Int) (ad : ClassAd) : Prop :=
  ad.evaluateAttrInt lib.eval attrLastHeardFrom = some now

def SharesIdentity (pvt pub : ClassAd) : Prop :=
  ∀ attr ∈ identityAttrs, pvt.lookup attr = pub.lookup attr

def StampCounts (lib : Library) (now : Int) (text : Text) : Prop :=
  lib.duplicates = .firstWins → ∀ own, parseOld lib text = some own →
    own.lookup attrLastHeardFrom = none ∨ StampedAt lib now own

def IdentityCounts (lib : Library) (publicText pvtText : Text) : Prop :=
  ∀ attr ∈ identityAttrs,
    match lib.duplicates with
    | .firstWins => sourceOf publicText attr = none → sourceOf pvtText attr = none
    | .lastWins =>
      (match sourceBy .lastWins pvtText attr with
        | some src => lib.parseExpr src
        | none => (sourceOf publicText attr).bind lib.parseExpr) =
          (sourceBy .lastWins publicText attr).bind lib.parseExpr

variable {lib : Library} {now : Int}

theorem stampedAt_iff (hext : lib.eval.Extensional) (hlit : lib.ReadsLiterals)
    (hnow : IsInt64 now) {text : Text} {ad : ClassAd}
    (hparse : parseOld lib (stampText text now) = some ad) :
    StampedAt lib now ad ↔ StampCounts lib now text := by
  obtain ⟨e, he, heval⟩ := hlit.integer now hnow
  have hstamp : ad.lookup attrLastHeardFrom = some e → StampedAt lib now ad := by
    intro h
    rw [StampedAt, ClassAd.evaluateAttrInt, ClassAd.evaluateAttr, h]
    simp only [heval ad]
  have hlookup := lookup_parseOld hparse attrLastHeardFrom
  rw [sourceBy_stampText, if_pos rfl] at hlookup
  cases hrule : lib.duplicates with
  | lastWins =>
    rw [hrule] at hlookup
    refine iff_of_true (hstamp ?_) fun hfirst => by simp [hrule] at hfirst
    rw [hlookup, bind_some, he]
  | firstWins =>
    rw [hrule] at hlookup
    obtain ⟨own, hown⟩ := isSome_iff_exists.mp (parseOld_isSome_of_lines
      (fun _ => mem_lines_stampText now) (isSome_iff_exists.mpr ⟨ad, hparse⟩))
    have hcounts : StampCounts lib now text ↔
        (own.lookup attrLastHeardFrom = none ∨ StampedAt lib now own) := by
      constructor
      · exact fun h => h hrule own hown
      · intro h _ own' hown'
        rw [hown, some.injEq] at hown'
        exact hown' ▸ h
    have habsent := lookup_eq_none_iff hown attrLastHeardFrom
    rw [hrule] at habsent
    rw [hcounts]
    cases hsrc : sourceBy .firstWins text attrLastHeardFrom with
    | none =>
      -- the stamp is the only line
      rw [hsrc, none_or, bind_some, he] at hlookup
      exact iff_of_true (hstamp hlookup) (Or.inl (habsent.mpr hsrc))
    | some src =>
      -- the sender's line hides the stamp, so the two ads have the same attributes
      have hsame : ∀ attr, ad.lookup attr = own.lookup attr := by
        intro attr
        rw [lookup_parseOld hparse attr, lookup_parseOld hown attr, hrule, sourceBy_stampText]
        split
        · rename_i hattr
          have hattrSrc : sourceBy .firstWins text attr = some src := by
            rw [← hsrc, sourceBy, sourceBy, sourceIn, sourceIn, hattr]
          simp [hattrSrc]
        · rfl
      have hpresent : own.lookup attrLastHeardFrom ≠ none := by
        rw [Ne, habsent, hsrc]
        simp
      rw [StampedAt, hext.evaluateAttrInt_congr hsame]
      exact ⟨Or.inr, fun h => h.resolve_left hpresent⟩

theorem sharesIdentity_iff {publicText pvtText : Text} {pvt pub : ClassAd}
    (hpvt : parseOld lib (pvtAdText publicText pvtText now) = some pvt)
    (hpub : parseOld lib publicText = some pub) :
    SharesIdentity pvt pub ↔ IdentityCounts lib publicText pvtText := by
  refine forall₂_congr fun attr hattr => ?_
  have hother : toLower attr ≠ toLower attrLastHeardFrom := by
    revert attr
    decide
  have hpubLookup := lookup_parseOld hpub attr
  have hpvtLookup := lookup_parseOld hpvt attr
  have habsent := lookup_eq_none_iff hpvt attr
  rw [pvtAdText, sourceBy_stampText, if_neg hother, sourceBy_pvtBody _ _ _ hattr]
    at hpvtLookup habsent
  cases hrule : lib.duplicates with
  | firstWins =>
    rw [hrule] at hpubLookup hpvtLookup habsent
    rw [sourceBy, sourceIn, ← sourceOf] at hpubLookup
    cases hsrc : sourceOf publicText attr with
    | some src => simp [hpubLookup, hpvtLookup, hsrc]
    | none =>
      -- the public ad lacks the attribute, so the private ad must
      rw [hpubLookup, hsrc, bind_none, habsent, hsrc, none_or]
      exact ⟨fun h _ => h, fun h => h rfl⟩
  | lastWins =>
    rw [hrule] at hpubLookup hpvtLookup
    rw [hpubLookup, hpvtLookup]
    cases sourceBy .lastWins pvtText attr <;> simp

namespace Store

variable {s s' : Store}

theorem updateOld_ok {t : AdType} {key text : Text}
    (h : (Table.updateOld lib (s.cols t) key text).map (s.setCol t) = .ok s') :
    ∃ ad, parseOld lib text = some ad ∧ (s'.cols t).lookup key = some ad := by
  cases hparse : parseOld lib text with
  | none => simp [Table.updateOld, hparse, Except.map] at h
  | some ad =>
    simp only [Table.updateOld, hparse, Except.map, Except.ok.injEq] at h
    exact ⟨ad, rfl, by simp [← h]⟩

theorem updateOldText_ok {t : AdType} {text : Text} (h : s.updateOldText lib now t text = .ok s') :
    ∃ key ad, hashKeyFromText t text = some key ∧ parseOld lib (stampText text now) = some ad ∧
      (s'.cols t).lookup key = some ad := by
  rw [updateOldText] at h
  split at h
  · cases h
  · cases hkey : hashKeyFromText t text with
    | none => simp [hkey] at h
    | some key =>
      rw [hkey] at h
      obtain ⟨ad, hparse, hlookup⟩ := updateOld_ok h
      exact ⟨key, ad, rfl, hparse, hlookup⟩

theorem updatePvt_ok {publicText pvtText : Text}
    (h : s.updatePvt lib now publicText pvtText = .ok s') :
    ∃ key ad, hashKeyFromText .startdAd publicText = some key ∧
      parseOld lib (pvtAdText publicText pvtText now) = some ad ∧
      (s'.cols .startdPvtAd).lookup key = some ad := by
  rw [updatePvt] at h
  cases hkey : hashKeyFromText .startdAd publicText with
  | none => simp [hkey] at h
  | some key =>
    rw [hkey] at h
    obtain ⟨ad, hparse, hlookup⟩ := updateOld_ok h
    exact ⟨key, ad, rfl, hparse, hlookup⟩

end Store

/-- **The stamp and the identity of a stored ad** are there exactly when the added lines count. -/
theorem stamp_and_identity_iff (lib : Library) (hext : lib.eval.Extensional)
    (hlit : lib.ReadsLiterals) (now : Int) (hnow : IsInt64 now) (s s' : Store) :
    (∀ t text, s.updateOldText lib now t text = .ok s' →
      ∃ key ad, hashKeyFromText t text = some key ∧ (s'.cols t).lookup key = some ad ∧
        (StampedAt lib now ad ↔ StampCounts lib now text)) ∧
    (∀ publicText pvtText, s.updatePvt lib now publicText pvtText = .ok s' →
      ∃ key ad, hashKeyFromText .startdAd publicText = some key ∧
        (s'.cols .startdPvtAd).lookup key = some ad ∧
        (StampedAt lib now ad ↔ StampCounts lib now (pvtBody publicText pvtText)) ∧
        ∀ pub, parseOld lib publicText = some pub →
          (SharesIdentity ad pub ↔ IdentityCounts lib publicText pvtText)) := by
  constructor
  · intro t text hok
    obtain ⟨key, ad, hkey, hparse, hlookup⟩ := Store.updateOldText_ok hok
    exact ⟨key, ad, hkey, hlookup, stampedAt_iff hext hlit hnow hparse⟩
  · intro publicText pvtText hok
    obtain ⟨key, ad, hkey, hparse, hlookup⟩ := Store.updatePvt_ok hok
    exact ⟨key, ad, hkey, hlookup, stampedAt_iff hext hlit hnow hparse,
      fun pub hpub => sharesIdentity_iff hparse hpub⟩

theorem literalEvaluator_extensional : literalEvaluator.Extensional := by
  intro ad ad' _ e
  cases e <;> rfl

def heardPublicText : Text := "Name = \"slot1@a\"\nLastHeardFrom = 3\n"

def renamedPvtText : Text := "Name = \"slot2@b\"\nCapability = \"secret\"\n"

def namePublicAd : ClassAd := ⟨[(attrName, .lit (.str "slot1@a"))]⟩

theorem stamp_and_identity_capabilityText :
    ∃ s' key ad, Store.new.updatePvt (literalLibrary .firstWins) 7 namePublicText capabilityText =
        .ok s' ∧
      hashKeyFromText .startdAd namePublicText = some key ∧
      (s'.cols .startdPvtAd).lookup key = some ad ∧
      StampedAt (literalLibrary .firstWins) 7 ad ∧ SharesIdentity ad namePublicAd := by
  obtain ⟨key, ad, hkey, hlookup, hstamp, hid⟩ :=
    (stamp_and_identity_iff (literalLibrary .firstWins) literalEvaluator_extensional
      (literalLibrary_readsLiterals _) 7 (by decide) Store.new _).2 namePublicText capabilityText rfl
  refine ⟨_, key, ad, rfl, hkey, hlookup, hstamp.mpr ?_, (hid namePublicAd (by decide)).mpr ?_⟩
  · rintro - own hown
    have hbody : parseOld (literalLibrary .firstWins) (pvtBody namePublicText capabilityText) =
        some ⟨[(attrName, .lit (.str "slot1@a")),
          ("Capability", .lit (.str "secret"))]⟩ := by decide
    rw [hbody, some.injEq] at hown
    subst hown
    exact Or.inl (by decide)
  · have hnone : ∀ attr ∈ identityAttrs, sourceOf capabilityText attr = none := by decide
    exact fun attr hattr _ => hnone attr hattr

theorem neither_rule_keeps_stamp_and_identity :
    (((Store.new.updateOldText (literalLibrary .firstWins) 7 .startdAd
        heardPublicText).toOption.bind fun s' =>
          (s'.cols .startdAd).lookup "slot1@a\x00".toList).bind fun ad =>
          ad.evaluateAttrInt literalEvaluator attrLastHeardFrom) = some 3 ∧
    parseOld (literalLibrary .lastWins) namePublicText = some namePublicAd ∧
    namePublicAd.lookup attrName = some (.lit (.str "slot1@a")) ∧
    (((Store.new.updatePvt (literalLibrary .lastWins) 7 namePublicText renamedPvtText).toOption.bind
        fun s' => (s'.cols .startdPvtAd).lookup "slot1@a\x00".toList).bind fun ad =>
          ad.lookup attrName) = some (.lit (.str "slot2@b".toList)) := by
  refine ⟨?_, ?_, ?_, ?_⟩ <;> decide

end GolangCollector
