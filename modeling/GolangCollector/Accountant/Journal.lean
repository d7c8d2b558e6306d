import GolangCollector.Accountant.LogFile

/-! # The journal of the C++ accountant

`ImportAccountantLog` reads the journal of a C++ negotiator (`accountant/import.go`): lines with an
opcode and fields, some of them between the marks of a transaction. The journal may have been cut
off anywhere. -/

namespace GolangCollector.Accountant

open RecordLog LineLog GoString List Option

variable {F : Type}

/-! ## Lines -/

def isLineSpace (b : UInt8) : Bool := b = 32 || b = 9 || b = 11 || b = 12

def readWord (s : GoString) : Option (GoString × GoString) :=
  let s := s.dropWhile isLineSpace
  let w := s.takeWhile fun b => !isLineSpace b
  if w = [] then none else some (w, (s.dropWhile fun b => !isLineSpace b).drop 1)

def unescape (b : UInt8) : UInt8 :=
  if b = 110 then 10 else if b = 116 then 9 else if b = 114 then 13 else b

def unquoteBody : GoString → Option GoString
  | [] => none
  | [c] => if c = 34 then some [] else none
  | c :: n :: rest =>
    if c = 92 then (unquoteBody rest).map (unescape n :: ·)
    else if c = 34 then some []
    else (unquoteBody (n :: rest)).map (c :: ·)

def unquote : GoString → Option GoString
  | 34 :: body => unquoteBody body
  | _ => none

def foldBytes : GoString → GoString
  | 0xc5 :: 0xbf :: rest => 115 :: foldBytes rest
  | 0xe2 :: 0x84 :: 0xaa :: rest => 107 :: foldBytes rest
  | b :: rest => (if 65 ≤ b ∧ b ≤ 90 then b + 32 else b) :: foldBytes rest
  | [] => []

def equalFoldASCII (s t : GoString) : Bool := foldBytes s = foldBytes t

section

variable (parseFloat : GoString → Option F)

def parseValue (raw : GoString) : Option (RawValue F) :=
  let v := trimSpace raw
  if v = [] then none
  else
    match unquote v with
    | some s => some (.str s)
    | none =>
      if equalFoldASCII v (ascii "UNDEFINED") || equalFoldASCII v (ascii "ERROR") then none
      else
        match parseInt v, parseFloat v with
        | some i, _ => some (.int i)
        | none, some f => some (.float f)
        | none, none =>
          if equalFoldASCII v (ascii "true") then some (.int 1)
          else if equalFoldASCII v (ascii "false") then some (.int 0)
          else some (.str v)

end

inductive Mutation (F : Type) where
  | newClassAd (key : GoString)
  | destroyClassAd (key : GoString)
  | setAttribute (key attr : GoString) (value : Option (RawValue F))
  | deleteAttribute (key attr : GoString)

inductive JournalLine (F : Type) where
  | mutation (m : Mutation F)
  | beginTransaction
  | endTransaction
  | historicalSeqNum

section

variable (parseFloat : GoString → Option F)

def parseFields (op : ℤ) (rest : GoString) : Option (JournalLine F) :=
  if op = 105 then some .beginTransaction
  else if op = 106 then some .endTransaction
  else if op = 107 then some .historicalSeqNum
  else if op = 101 then do
    let (key, _) ← readWord rest
    some (.mutation (.newClassAd key))
  else if op = 102 then do
    let (key, _) ← readWord rest
    some (.mutation (.destroyClassAd key))
  else if op = 104 then do
    let (key, rest) ← readWord rest
    let (attr, _) ← readWord rest
    some (.mutation (.deleteAttribute key attr))
  else if op = 103 then do
    let (key, rest) ← readWord rest
    let (attr, rest) ← readWord rest
    some (.mutation (.setAttribute key attr (parseValue parseFloat rest)))
  else none

def parseLogLine (line : GoString) : Option (JournalLine F) := do
  let (opTok, rest) ← readWord line
  let op ← parseInt opTok
  parseFields parseFloat op rest

end

/-! ## The import -/

abbrev ImportedAds (F : Type) := Records GoString GoString (RawValue F)

def Mutation.apply (ads : ImportedAds F) : Mutation F → ImportedAds F
  | .newClassAd key => Op.effect ads (.ensure key)
  | .destroyClassAd key => Change.apply ads (.del key)
  | .setAttribute key _ none => Op.effect ads (.ensure key)
  | .setAttribute key attr (some v) => Change.apply ads (.set key attr v)
  | .deleteAttribute key attr =>
    match ads.lookup key with
    | none => ads
    | some r => ads.insert key (r.erase attr)

structure ImportState (F : Type) where
  ads : ImportedAds F
  inTxn : Bool
  pending : List (Mutation F)

def ImportState.step (st : ImportState F) : JournalLine F → ImportState F
  | .beginTransaction => { st with inTxn := true }
  | .endTransaction =>
    { ads := if st.inTxn then st.pending.foldl Mutation.apply st.ads else st.ads
      inTxn := false, pending := [] }
  | .historicalSeqNum => st
  | .mutation m =>
    if st.inTxn then { st with pending := st.pending ++ [m] } else { st with ads := m.apply st.ads }

section

variable (parseFloat : GoString → Option F)

def importLines : List GoString → ImportState F → Option (ImportState F)
  | [], st => some st
  | raw :: lines, st =>
    if maxLine ≤ raw.length then none
    else if trimSpace (dropCR raw) = [] then importLines lines st
    else
      match parseLogLine parseFloat (dropCR raw) with
      | none => some st
      | some l => importLines lines (st.step l)

def importAccountantLog (file : GoString) : Option (ImportedAds F) :=
  (importLines parseFloat (lines newline file) ⟨∅, false, []⟩).map (·.ads)

end

/-! ## What is written -/

inductive JournalValue where
  | int (i : ℤ)
  /-- The text that `%f` prints. -/
  | real (text : GoString)
  | str (s : GoString)

def escape (b : UInt8) : GoString :=
  if b = 34 ∨ b = 92 then [92, b] else if b = 10 then [92, 110] else [b]

def quote (s : GoString) : GoString := 34 :: (s.flatMap escape ++ [34])

def IsFixed (text : GoString) : Prop :=
  ∃ sign whole frac, text = sign ++ whole ++ 46 :: frac ∧ (sign = [] ∨ sign = [45]) ∧
    whole ≠ [] ∧ frac.length = 6 ∧ (∀ b ∈ whole, IsDigit b) ∧ ∀ b ∈ frac, IsDigit b

def IsWord (w : GoString) : Prop :=
  w ≠ [] ∧ ∀ b ∈ w, isLineSpace b = false ∧ b ≠ newline ∧ b ≠ carriageReturn

instance (w : GoString) : Decidable (IsWord w) := inferInstanceAs (Decidable (_ ∧ _))

/-- **A record of the journal.** -/
inductive JournalRecord where
  | newClassAd (key mytype targettype : GoString)
  | destroyClassAd (key : GoString)
  | setAttribute (key attr : GoString) (value : JournalValue)
  | deleteAttribute (key attr : GoString)
  | beginTransaction
  | endTransaction
  | historicalSequenceNumber (seq timestamp : GoString)

namespace JournalValue

def text : JournalValue → GoString
  | int i => decimal i
  | real text => text
  | str s => quote s

variable (parseFloat : GoString → Option F)

def value : JournalValue → Option (RawValue F)
  | int i => some (.int i)
  | real text => (parseFloat text).map .float
  | str s => some (.str s)

def WellFormed : JournalValue → Prop
  | int i => -2 ^ 63 ≤ i ∧ i < 2 ^ 63
  | real text => IsFixed text ∧ (parseFloat text).isSome
  | str _ => True

end JournalValue

namespace JournalRecord

def text : JournalRecord → GoString
  | newClassAd key mytype targettype =>
    ascii "101 " ++ (key ++ 32 :: (mytype ++ 32 :: targettype))
  | destroyClassAd key => ascii "102 " ++ key
  | setAttribute key attr v => ascii "103 " ++ (key ++ 32 :: (attr ++ 32 :: v.text))
  | deleteAttribute key attr => ascii "104 " ++ (key ++ 32 :: attr)
  | beginTransaction => ascii "105"
  | endTransaction => ascii "106"
  | historicalSequenceNumber seq timestamp =>
    ascii "107 " ++ (seq ++ ascii " CreationTimestamp " ++ timestamp)

variable (parseFloat : GoString → Option F)

def line : JournalRecord → JournalLine F
  | newClassAd key _ _ => .mutation (.newClassAd key)
  | destroyClassAd key => .mutation (.destroyClassAd key)
  | setAttribute key attr v => .mutation (.setAttribute key attr (v.value parseFloat))
  | deleteAttribute key attr => .mutation (.deleteAttribute key attr)
  | beginTransaction => .beginTransaction
  | endTransaction => .endTransaction
  | historicalSequenceNumber _ _ => .historicalSeqNum

def WellFormed : JournalRecord → Prop
  | newClassAd key mytype targettype => IsWord key ∧ IsWord mytype ∧ IsWord targettype
  | destroyClassAd key => IsWord key
  | setAttribute key attr v => IsWord key ∧ IsWord attr ∧ v.WellFormed parseFloat
  | deleteAttribute key attr => IsWord key ∧ IsWord attr
  | beginTransaction => True
  | endTransaction => True
  | historicalSequenceNumber seq timestamp => IsWord seq ∧ IsWord timestamp

end JournalRecord

def journal (rs : List JournalRecord) : GoString := rs.flatMap fun r => r.text ++ [newline]

def wholeRecords (rs : List JournalRecord) (cut : GoString) : List JournalRecord :=
  rs.take (cut.count newline)

def lastLine (cut : GoString) : GoString := cut.rtakeWhile (· ≠ newline)

/-! ## What is meant -/

section

variable (parseFloat : GoString → Option F)

def transact : Option (List (Mutation F)) → List JournalRecord →
    List (Mutation F) × Option (List (Mutation F))
  | o, [] => ([], o)
  | o, r :: rs =>
    match r.line parseFloat with
    | .beginTransaction => transact (some (o.getD [])) rs
    | .endTransaction => (o.getD [] ++ (transact none rs).1, (transact none rs).2)
    | .historicalSeqNum => transact o rs
    | .mutation m =>
      match o with
      | none => (m :: (transact none rs).1, (transact none rs).2)
      | some ms => transact (some (ms ++ [m])) rs

def committed (rs : List JournalRecord) : ImportedAds F :=
  (transact parseFloat none rs).1.foldl Mutation.apply ∅

def openTransaction (rs : List JournalRecord) : Option (List (Mutation F)) :=
  (transact parseFloat none rs).2

def Harmless (rs : List JournalRecord) (part : GoString) : Prop :=
  part = [] ∨
    match parseLogLine parseFloat (dropCR part) with
    | none => True
    | some .beginTransaction => True
    | some .historicalSeqNum => True
    | some .endTransaction => ∀ ms ∈ openTransaction parseFloat rs,
      Same (ms.foldl Mutation.apply (committed parseFloat rs)) (committed parseFloat rs)
    | some (.mutation m) => (openTransaction parseFloat rs).isSome ∨
      Same (m.apply (committed parseFloat rs)) (committed parseFloat rs)

end

/-! ## Records are read back -/

theorem readWord_append {w t : GoString} (hw : IsWord w) (ht : ∀ b ∈ t.head?, isLineSpace b) :
    readWord (w ++ t) = some (w, t.drop 1) := by
  obtain ⟨hne, hword⟩ := hw
  have hsolid : ∀ b ∈ w, (!isLineSpace b) = true := fun b hb => by rw [(hword b hb).1]; rfl
  have hdrop : (w ++ t).dropWhile isLineSpace = w ++ t := by
    cases w with
    | nil => exact absurd rfl hne
    | cons b w =>
      rw [cons_append,
        dropWhile_cons_of_neg (by simp [(hword b mem_cons_self).1])]
  have htake : t.takeWhile (fun b => !isLineSpace b) = [] ∧
      t.dropWhile (fun b => !isLineSpace b) = t := by
    cases t with
    | nil => exact ⟨rfl, rfl⟩
    | cons b t => simp [ht b rfl]
  rw [readWord, hdrop, takeWhile_append_of_pos hsolid, htake.1, append_nil,
    dropWhile_append_of_pos hsolid, htake.2]
  exact if_neg hne

variable {w : GoString}

theorem readWord_cons (hw : IsWord w) (rest : GoString) :
    readWord (w ++ 32 :: rest) = some (w, rest) :=
  readWord_append hw (by simp [isLineSpace])

theorem readWord_word (hw : IsWord w) : readWord w = some (w, []) := by
  simpa using readWord_append (t := []) hw (by simp)

theorem unquoteBody_quote (s : GoString) : unquoteBody (s.flatMap escape ++ [34]) = some s := by
  induction s with
  | nil => rfl
  | cons b s ih =>
    obtain ⟨n, rest, hrest⟩ : ∃ n rest, s.flatMap escape ++ [34] = n :: rest :=
      exists_cons_of_ne_nil (by simp)
    rw [flatMap_cons, append_assoc, escape]
    split_ifs with hescaped hnewline
    · rw [cons_append, singleton_append, unquoteBody, if_pos rfl, ih]
      obtain rfl | rfl := hescaped <;> rfl
    · rw [cons_append, singleton_append, unquoteBody, if_pos rfl, ih, hnewline]
      rfl
    · rw [not_or] at hescaped
      rw [singleton_append, hrest, unquoteBody, if_neg hescaped.2, if_neg hescaped.1,
        ← hrest, ih]
      rfl

theorem foldBytes_cons {b : UInt8} (hb : b < 65) (s : GoString) :
    foldBytes (b :: s) = b :: foldBytes s := by
  have hne : b ≠ 0xc5 ∧ b ≠ 0xe2 := by
    constructor <;> rintro rfl <;> exact absurd hb (by decide)
  rw [foldBytes, if_neg fun h => UInt8.not_le.mpr hb h.1]
  · exact fun _ h => absurd h hne.1
  · exact fun _ h => absurd h hne.2

theorem equalFoldASCII_cons {b : UInt8} (hb : b < 65) (s : GoString) {t : GoString}
    (ht : ∃ c ∈ (foldBytes t).head?, 65 ≤ c) : equalFoldASCII (b :: s) t = false := by
  obtain ⟨c, hc, hletter⟩ := ht
  rw [equalFoldASCII, foldBytes_cons hb, decide_eq_false_iff_not]
  intro h
  rw [← h] at hc
  obtain rfl : b = c := by simpa using hc
  exact UInt8.not_le.mpr hb hletter

def IsNumeral (v : GoString) : Prop :=
  (∃ b ∈ v.head?, IsDigit b ∨ b = 45) ∧ ∀ b ∈ v, Solid b

theorem solid_of_isDigit {b : UInt8} (h : IsDigit b) : Solid b :=
  ⟨UInt8.lt_of_lt_of_le (by decide) h.1, UInt8.lt_of_le_of_lt h.2 (by decide)⟩

theorem isNumeral_decimalNat (n : ℕ) : IsNumeral (decimalNat n) := by
  obtain ⟨b, s, hs⟩ := exists_cons_of_ne_nil (decimalNat_ne_nil n)
  refine ⟨⟨b, by rw [hs]; rfl, .inl (@isDigit_of_mem_decimalNat n b (by rw [hs]; simp))⟩,
    fun c hc => solid_of_isDigit (isDigit_of_mem_decimalNat hc)⟩

theorem isNumeral_decimal (i : ℤ) : IsNumeral (decimal i) := by
  cases i with
  | ofNat n => exact isNumeral_decimalNat n
  | negSucc n =>
    refine ⟨⟨45, rfl, .inr rfl⟩, fun b hb => ?_⟩
    obtain rfl | hb := mem_cons.mp hb
    · decide
    · exact solid_of_isDigit (isDigit_of_mem_decimalNat hb)

theorem IsFixed.isNumeral {text : GoString} (h : IsFixed text) : IsNumeral text := by
  obtain ⟨sign, whole, frac, rfl, hsign, hne, -, hwhole, hfrac⟩ := h
  obtain ⟨b, s, rfl⟩ := exists_cons_of_ne_nil hne
  constructor
  · obtain rfl | rfl := hsign
    · exact ⟨b, rfl, .inl (hwhole b mem_cons_self)⟩
    · exact ⟨45, rfl, .inr rfl⟩
  · intro c hc
    simp only [mem_append, mem_cons (a := c) (b := 46)] at hc
    obtain (hc | hc) | rfl | hc := hc
    · obtain rfl | rfl := hsign
      · cases hc
      · obtain rfl := mem_singleton.mp hc
        decide
    · exact solid_of_isDigit (hwhole c hc)
    · decide
    · exact solid_of_isDigit (hfrac c hc)

section

variable {parseFloat : GoString → Option F}

theorem parseValue_of_isNumeral {v : GoString} (hv : IsNumeral v)
    (hnumber : (parseInt v).isSome ∨ (parseFloat v).isSome) :
    parseValue parseFloat v =
      ((parseInt v).map RawValue.int).or ((parseFloat v).map RawValue.float) := by
  obtain ⟨⟨b, hhead, hb⟩, hsolid⟩ := hv
  obtain ⟨s, rfl⟩ : ∃ s, v = b :: s := by
    cases v with
    | nil => cases hhead
    | cons c s => exact ⟨s, by rw [some.inj hhead]⟩
  have hsmall : b < 65 ∧ b ≠ 34 := by
    obtain hb | rfl := hb
    · refine ⟨UInt8.lt_of_le_of_lt hb.2 (by decide), ?_⟩
      rintro rfl
      exact absurd hb (by decide)
    · decide
  have hquote : unquote (b :: s) = none := by
    rw [unquote]
    rintro body h
    exact hsmall.2 (cons.inj h).1
  have hundefined : (equalFoldASCII (b :: s) (ascii "UNDEFINED") ||
      equalFoldASCII (b :: s) (ascii "ERROR")) = false := by
    rw [equalFoldASCII_cons hsmall.1 s ⟨117, by decide, by decide⟩,
      equalFoldASCII_cons hsmall.1 s ⟨101, by decide, by decide⟩]
    rfl
  have htrim : trimSpace (b :: s) = b :: s :=
    trimSpace_of_solid (cons_ne_nil b s) (fun c hc => hsolid c (mem_of_head? hc))
      fun c hc => hsolid c (mem_of_getLast? hc)
  rw [parseValue, htrim, if_neg (cons_ne_nil b s), hquote]
  dsimp only
  rw [hundefined]
  cases hint : parseInt (b :: s) <;> cases hfloat : parseFloat (b :: s)
  · simp [hint, hfloat] at hnumber
  all_goals rfl

theorem parseValue_text {v : JournalValue} (hv : v.WellFormed parseFloat) :
    parseValue parseFloat v.text = v.value parseFloat := by
  cases v with
  | int i =>
    have hparse := parseInt_decimal hv.1 hv.2
    rw [JournalValue.text, parseValue_of_isNumeral (isNumeral_decimal i) (by simp [hparse]),
      hparse]
    rfl
  | real text =>
    obtain ⟨hfixed, hfloat⟩ := hv
    have hparse : parseInt text = none := by
      obtain ⟨sign, whole, frac, rfl, -⟩ := hfixed
      exact parseInt_eq_none (b := 46) (by simp) (by decide) (by decide) (by decide)
    rw [JournalValue.text, parseValue_of_isNumeral hfixed.isNumeral (.inr hfloat), hparse]
    rfl
  | str s =>
    have htrim : trimSpace (quote s) = quote s := by
      refine trimSpace_of_solid (cons_ne_nil _ _) ?_ ?_
      · rintro b ⟨rfl⟩
        decide
      · intro b hb
        rw [quote, ← cons_append, getLast?_concat] at hb
        obtain rfl := some.inj hb
        decide
    rw [JournalValue.text, parseValue, htrim,
      if_neg (show quote s ≠ [] from cons_ne_nil _ _),
      show unquote (quote s) = some s from unquoteBody_quote s]
    rfl

theorem parseLogLine_word (opTok : GoString) (op : ℤ) (hword : IsWord opTok)
    (hop : parseInt opTok = some op) :
    parseLogLine parseFloat opTok = parseFields parseFloat op [] := by
  rw [parseLogLine, readWord_word hword]
  simp only [bind_eq_bind, bind_some, hop]

theorem parseLogLine_append (opTok : GoString) (op : ℤ) (hword : IsWord opTok)
    (hop : parseInt opTok = some op) (rest : GoString) :
    parseLogLine parseFloat (opTok ++ [32] ++ rest) = parseFields parseFloat op rest := by
  rw [parseLogLine, append_assoc, singleton_append, readWord_cons hword]
  simp only [bind_eq_bind, bind_some, hop]

variable {r : JournalRecord}

theorem parseLogLine_text (hr : r.WellFormed parseFloat) :
    parseLogLine parseFloat r.text = some (r.line parseFloat) := by
  cases r with
  | newClassAd key mytype targettype =>
    refine (parseLogLine_append (ascii "101") 101 (by decide +kernel)
      (by decide +kernel) _).trans ?_
    simp [parseFields, readWord_cons hr.1, JournalRecord.line]
  | destroyClassAd key =>
    refine (parseLogLine_append (ascii "102") 102 (by decide +kernel)
      (by decide +kernel) _).trans ?_
    simp [parseFields, readWord_word hr, JournalRecord.line]
  | setAttribute key attr v =>
    refine (parseLogLine_append (ascii "103") 103 (by decide +kernel)
      (by decide +kernel) _).trans ?_
    simp [parseFields, readWord_cons hr.1, readWord_cons hr.2.1, parseValue_text hr.2.2,
      JournalRecord.line]
  | deleteAttribute key attr =>
    refine (parseLogLine_append (ascii "104") 104 (by decide +kernel)
      (by decide +kernel) _).trans ?_
    simp [parseFields, readWord_cons hr.1, readWord_word hr.2, JournalRecord.line]
  | beginTransaction => exact parseLogLine_word _ 105 (by decide +kernel) (by decide +kernel)
  | endTransaction => exact parseLogLine_word _ 106 (by decide +kernel) (by decide +kernel)
  | historicalSequenceNumber seq timestamp =>
    exact parseLogLine_append (ascii "107") 107 (by decide +kernel) (by decide +kernel) _

/-! ## Lines of the journal -/

def OneLine (s : GoString) : Prop := newline ∉ s ∧ ∃ b ∈ s.getLast?, b ≠ carriageReturn

theorem OneLine.append {s t : GoString} (hs : newline ∉ s) (ht : OneLine t) : OneLine (s ++ t) := by
  obtain ⟨hnotMem, b, hb, hne⟩ := ht
  refine ⟨fun h => (mem_append.mp h).elim hs hnotMem, b, ?_, hne⟩
  rw [getLast?_append, hb]
  rfl

theorem OneLine.dropCR {s : GoString} (h : OneLine s) : GoString.dropCR s = s := by
  obtain ⟨-, b, hb, hne⟩ := h
  refine dropCR_of_getLast? fun hlast => hne ?_
  rw [hb] at hlast
  exact some.inj hlast

theorem IsWord.oneLine (hw : IsWord w) : OneLine w :=
  ⟨fun h => (hw.2 _ h).2.1 rfl, w.getLast hw.1, getLast?_eq_getLast_of_ne_nil hw.1,
    (hw.2 _ (getLast_mem hw.1)).2.2⟩

theorem OneLine.word {w t : GoString} (ht : OneLine t) (hw : IsWord w) : OneLine (w ++ 32 :: t) :=
  .append hw.oneLine.1 (.append (s := [32]) (by decide) ht)

theorem IsNumeral.isWord {v : GoString} (hv : IsNumeral v) : IsWord v := by
  obtain ⟨⟨b, hb, -⟩, hsolid⟩ := hv
  constructor
  · rintro rfl
    cases hb
  · intro c hc
    have hne : ∀ d : UInt8, ¬ Solid d → c ≠ d := by
      rintro d hd rfl
      exact hd (hsolid c hc)
    refine ⟨?_, hne _ (by decide), hne _ (by decide)⟩
    simp [isLineSpace, hne 32 (by decide), hne 9 (by decide), hne 11 (by decide),
      hne 12 (by decide)]

theorem newline_notMem_quote (s : GoString) : newline ∉ quote s := by
  intro h
  simp only [quote, mem_cons, mem_append, mem_flatMap, not_mem_nil,
    or_false] at h
  obtain h | ⟨b, -, hb⟩ | h := h
  · exact absurd h (by decide)
  · rw [escape] at hb
    split_ifs at hb with hescaped hnewline
    · obtain hb | hb := mem_pair.mp hb
      · exact absurd hb (by decide)
      · rw [← hb] at hescaped
        exact absurd hescaped (by decide)
    · exact absurd hb (by decide)
    · exact hnewline (mem_singleton.mp hb).symm
  · exact absurd h (by decide)

theorem JournalValue.oneLine {v : JournalValue} (hv : v.WellFormed parseFloat) :
    OneLine v.text := by
  cases v with
  | int i => exact (isNumeral_decimal i).isWord.oneLine
  | real text => exact hv.1.isNumeral.isWord.oneLine
  | str s =>
    refine ⟨newline_notMem_quote s, 34, ?_, by decide⟩
    rw [text, quote, ← cons_append, getLast?_concat]
    rfl

theorem JournalRecord.oneLine (hr : r.WellFormed parseFloat) : OneLine r.text := by
  cases r with
  | newClassAd key mytype targettype =>
    exact .append (by decide) ((hr.2.2.oneLine.word hr.2.1).word hr.1)
  | destroyClassAd key => exact .append (by decide) (IsWord.oneLine hr)
  | setAttribute key attr v =>
    exact .append (by decide) (((JournalValue.oneLine hr.2.2).word hr.2.1).word hr.1)
  | deleteAttribute key attr => exact .append (by decide) (hr.2.oneLine.word hr.1)
  | beginTransaction => exact ⟨by decide, 53, rfl, by decide⟩
  | endTransaction => exact ⟨by decide, 54, rfl, by decide⟩
  | historicalSequenceNumber seq timestamp =>
    rw [text, append_assoc]
    exact .append (by decide) (.append hr.1.oneLine.1 (.append (by decide) hr.2.oneLine))

theorem JournalRecord.head?_text (r : JournalRecord) : r.text.head? = some 49 := by
  cases r <;> rfl

variable {part : GoString}

theorem trimSpace_part (hpart : part <+: r.text) (hne : part ≠ []) :
    trimSpace (dropCR part) ≠ [] := by
  obtain ⟨b, s, rfl⟩ := exists_cons_of_ne_nil hne
  obtain rfl : b = 49 := by
    obtain ⟨t, ht⟩ := hpart
    have hhead := r.head?_text
    rw [← ht] at hhead
    exact some.inj hhead
  -- the carriage return that may be taken off is not the opcode
  obtain ⟨s', hs'⟩ : ∃ s', dropCR (49 :: s) = 49 :: s' := by
    rw [dropCR]
    split_ifs with hlast
    · cases s with
      | nil => exact absurd hlast (by decide)
      | cons c s => exact ⟨_, dropLast_cons_cons⟩
    · exact ⟨s, rfl⟩
  rw [hs']
  exact trimSpace_ne_nil (by decide) s'

theorem exists_of_isPrefix_journal {rs : List JournalRecord} {cut : GoString}
    (hcut : cut <+: journal rs) :
    ∃ whole part, cut = journal whole ++ part ∧ whole <+: rs ∧
      (part = [] ∨ ∃ r ∈ rs, part <+: r.text) := by
  induction rs generalizing cut with
  | nil => exact ⟨[], [], prefix_nil.mp hcut, prefix_rfl, .inl rfl⟩
  | cons r rs ih =>
    rw [journal, flatMap_cons] at hcut
    obtain hcut' | ⟨cut', rfl⟩ :=
      List.prefix_or_prefix_of_prefix hcut (prefix_append (r.text ++ [newline]) _)
    · obtain rfl | hpart := prefix_concat_iff.mp hcut'
      · exact ⟨[r], [], by simp [journal], by simp, .inl rfl⟩
      · exact ⟨[], cut, rfl, List.nil_prefix, .inr ⟨r, mem_cons_self, hpart⟩⟩
    · obtain ⟨whole, part, rfl, hwhole, hpart⟩ :=
        ih ((prefix_append_right_inj _).mp hcut)
      refine ⟨r :: whole, part, by simp [journal], (prefix_cons_inj r).mpr hwhole, ?_⟩
      exact hpart.imp_right fun ⟨r', hr', hpart⟩ => ⟨r', mem_cons_of_mem r hr', hpart⟩

variable {whole : List JournalRecord}

section

variable (hwhole : ∀ r ∈ whole, r.WellFormed parseFloat)
include hwhole

theorem lines_journal (hpart : newline ∉ part) :
    lines newline (journal whole ++ part) =
      whole.map JournalRecord.text ++ if part = [] then [] else [part] := by
  induction whole with
  | nil =>
    rw [journal, flatMap_nil, nil_append, map_nil, nil_append]
    split_ifs with hne
    · rw [hne]
      rfl
    · exact lines_of_notMem hpart hne
  | cons r whole ih =>
    have hr := JournalRecord.oneLine (hwhole r mem_cons_self)
    rw [journal, flatMap_cons, append_assoc, append_assoc, singleton_append,
      lines_append_cons hr.1, map_cons, cons_append, ← journal,
      ih fun r' hr' => hwhole r' (mem_cons_of_mem r hr')]

theorem count_journal (hpart : newline ∉ part) :
    (journal whole ++ part).count newline = whole.length ∧
      lastLine (journal whole ++ part) = part := by
  constructor
  · rw [count_append, count_eq_zero.mpr hpart, Nat.add_zero]
    induction whole with
    | nil => rfl
    | cons r whole ih =>
      have hr := JournalRecord.oneLine (hwhole r mem_cons_self)
      rw [journal, flatMap_cons, ← journal, count_append, count_append,
        count_eq_zero.mpr hr.1, ih fun r' hr' => hwhole r' (mem_cons_of_mem r hr'),
        length_cons, count_singleton_self, Nat.zero_add, Nat.add_comm]
  · have hall : ∀ b ∈ part.reverse, decide (b ≠ newline) = true := by
      intro b hb
      rw [decide_eq_true_iff]
      rintro rfl
      exact hpart (mem_reverse.mp hb)
    -- the journal itself ends with a newline
    have hend : (journal whole).reverse.takeWhile (fun b => decide (b ≠ newline)) = [] := by
      cases whole using reverseRecOn with
      | nil => rfl
      | append_singleton whole r => simp [journal]
    rw [lastLine, rtakeWhile, reverse_append, takeWhile_append_of_pos hall, hend,
      append_nil, reverse_reverse]

/-! ## The import of a journal -/

theorem importLines_records (ls : List GoString) (st : ImportState F) :
    importLines parseFloat (whole.map JournalRecord.text ++ ls) st =
      if ∀ r ∈ whole, r.text.length < maxLine then
        importLines parseFloat ls (whole.foldl (fun st r => st.step (r.line parseFloat)) st)
      else none := by
  induction whole generalizing st with
  | nil => simp
  | cons r whole ih =>
    have hr := hwhole r mem_cons_self
    have hline := JournalRecord.oneLine hr
    have hblank := trimSpace_part (r := r) prefix_rfl fun h => by
      have := r.head?_text
      rw [h] at this
      cases this
    rw [hline.dropCR] at hblank
    rw [map_cons, cons_append, importLines, hline.dropCR, if_neg hblank,
      parseLogLine_text hr]
    dsimp only
    rw [ih fun r' hr' => hwhole r' (mem_cons_of_mem r hr'), foldl_cons]
    by_cases hshort : maxLine ≤ r.text.length
    · rw [if_pos hshort, if_neg fun h => absurd (h r mem_cons_self) (by omega)]
    · rw [if_neg hshort]
      congr 1
      rw [forall_mem_cons, eq_iff_iff, and_iff_right (by omega)]

end

def ImportState.of (ads : ImportedAds F) (o : Option (List (Mutation F))) : ImportState F :=
  ⟨ads, o.isSome, o.getD []⟩

theorem foldl_step (rs : List JournalRecord) (ads : ImportedAds F)
    (o : Option (List (Mutation F))) :
    rs.foldl (fun st r => st.step (r.line parseFloat)) (ImportState.of ads o) =
      .of ((transact parseFloat o rs).1.foldl Mutation.apply ads) (transact parseFloat o rs).2 := by
  induction rs generalizing ads o with
  | nil => rfl
  | cons r rs ih =>
    rw [foldl_cons, transact.eq_def]
    dsimp only
    cases r.line parseFloat with
    | beginTransaction =>
      rw [← ih]
      cases o <;> rfl
    | endTransaction =>
      dsimp only
      rw [foldl_append, ← ih]
      cases o <;> rfl
    | historicalSeqNum =>
      rw [← ih]
      rfl
    | mutation m =>
      cases o with
      | none =>
        dsimp only
        rw [foldl_cons, ← ih]
        rfl
      | some ms =>
        rw [← ih]
        rfl

theorem importLines_part_iff (whole : List JournalRecord)
    (hpart : part = [] ∨ ∃ r : JournalRecord, part <+: r.text) :
    (∃ st, importLines parseFloat (if part = [] then [] else [part])
        (.of (committed parseFloat whole) (openTransaction parseFloat whole)) = some st ∧
        Same st.ads (committed parseFloat whole)) ↔
      (∀ l ∈ if part = [] then [] else [part], l.length < maxLine) ∧
        Harmless parseFloat whole part := by
  by_cases hnil : part = []
  · rw [if_pos hnil, importLines]
    exact iff_of_true ⟨_, rfl, .refl _⟩ ⟨by simp, .inl hnil⟩
  · obtain ⟨r, hpre⟩ := hpart.resolve_left hnil
    rw [if_neg hnil, importLines, if_neg (trimSpace_part hpre hnil), forall_mem_singleton,
      Harmless, or_iff_right hnil]
    by_cases hlong : maxLine ≤ part.length
    · rw [if_pos hlong]
      exact iff_of_false (fun ⟨_, h, _⟩ => nomatch h) fun h => absurd h.1 (by omega)
    · rw [if_neg hlong, and_iff_right (by omega : part.length < maxLine)]
      cases parseLogLine parseFloat (dropCR part) with
      | none => exact iff_of_true ⟨_, rfl, .refl _⟩ trivial
      | some l =>
        simp only [importLines, some.injEq, exists_eq_left']
        cases l with
        | beginTransaction | historicalSeqNum => exact iff_of_true (.refl _) trivial
        | endTransaction =>
          cases openTransaction parseFloat whole with
          | none => exact iff_of_true (.refl _) (by simp)
          | some ms => simp [ImportState.step, ImportState.of]
        | mutation m =>
          cases openTransaction parseFloat whole with
          | none => simp [ImportState.step, ImportState.of]
          | some ms => exact iff_of_true (.refl _) (.inl rfl)

/-- **A journal that was cut off is imported as it was meant** exactly if every line fits the
scanner's buffer and what is left of the last record does no harm. -/
theorem journal_import_iff {rs : List JournalRecord} (hrs : ∀ r ∈ rs, r.WellFormed parseFloat)
    {cut : GoString} (hcut : cut <+: journal rs) :
    (∃ ads, importAccountantLog parseFloat cut = some ads ∧
        Same ads (committed parseFloat (wholeRecords rs cut))) ↔
      (∀ l ∈ lines newline cut, l.length < maxLine) ∧
        Harmless parseFloat (wholeRecords rs cut) (lastLine cut) := by
  obtain ⟨whole, part, rfl, hwhole, hpart⟩ := exists_of_isPrefix_journal hcut
  have hwf : ∀ r ∈ whole, r.WellFormed parseFloat := fun r hr => hrs r (hwhole.subset hr)
  have hline : newline ∉ part := by
    obtain rfl | ⟨r, hr, hpart⟩ := hpart
    · exact not_mem_nil
    · exact fun h => (JournalRecord.oneLine (hrs r hr)).1 (hpart.subset h)
  obtain ⟨hcount, hlast⟩ := count_journal hwf hline
  have hrecords : wholeRecords rs (journal whole ++ part) = whole := by
    rw [wholeRecords, hcount, ← prefix_iff_eq_take.mp hwhole]
  rw [hrecords, hlast, importAccountantLog, lines_journal hwf hline, importLines_records hwf,
    show (⟨∅, false, []⟩ : ImportState F) = .of ∅ none from rfl, foldl_step]
  by_cases hshort : ∀ r ∈ whole, r.text.length < maxLine
  · rw [if_pos hshort, forall_mem_append, and_assoc,
      and_iff_right (List.forall_mem_map.mpr hshort),
      ← importLines_part_iff whole (hpart.imp_right fun ⟨r, _, hr⟩ => ⟨r, hr⟩)]
    simp only [map_eq_some_iff, exists_exists_and_eq_and]
    rfl
  · rw [if_neg hshort, forall_mem_append]
    exact iff_of_false (fun ⟨_, h, _⟩ => nomatch h) fun h => hshort (forall_mem_map.mp h.1.1)

end

/-! ## Two journals -/

def readFixed (s : GoString) : Option ℚ :=
  match s.splitOn 46 with
  | [whole, frac] => (parseNat (whole ++ frac)).map fun n => n / 10 ^ frac.length
  | _ => none

def customerJournal : List JournalRecord :=
  [.newClassAd (ascii "Customer.u@d") (ascii "*") (ascii "(empty)"), .beginTransaction,
    .setAttribute (ascii "Customer.u@d") (ascii "Priority") (.real (ascii "0.500000")),
    .endTransaction]

theorem wellFormed_customerJournal :
    ∀ r ∈ customerJournal, JournalRecord.WellFormed readFixed r := by
  simp only [customerJournal, forall_mem_cons]
  refine ⟨⟨by decide +kernel, by decide +kernel, by decide +kernel⟩, trivial,
    ⟨by decide +kernel, by decide +kernel, ?_, ?_⟩, trivial, forall_mem_nil _⟩
  · exact ⟨[], ascii "0", ascii "500000", by decide +kernel, .inl rfl, by decide +kernel,
      by decide +kernel, by decide +kernel, by decide +kernel⟩
  · decide +kernel

theorem journal_import_cut_opcode :
    let cut := (journal customerJournal).dropLast.dropLast
    ∃ ads, importAccountantLog readFixed cut = some ads ∧
      Same ads (committed readFixed (wholeRecords customerJournal cut)) := by
  intro cut
  refine (journal_import_iff wellFormed_customerJournal
    (((journal customerJournal).dropLast.dropLast_prefix).trans (List.dropLast_prefix _))).mpr
    ⟨by decide +kernel, .inr ?_⟩
  rw [show parseLogLine readFixed (dropCR (lastLine cut)) = none by decide +kernel]
  trivial

def ceilingJournal : List JournalRecord :=
  [.newClassAd (ascii "Customer.u@d") (ascii "*") (ascii "(empty)"),
    .setAttribute (ascii "Customer.u@d") (ascii "Ceiling") (.int 50)]

def importedValue (ads : ImportedAds ℚ) (key attr : String) : Option (RawValue ℚ) :=
  (ads.lookup (ascii key)).bind (·.lookup (ascii attr))

theorem journal_import_cut_value :
    let cut := (journal ceilingJournal).dropLast.dropLast
    (∀ r ∈ ceilingJournal, JournalRecord.WellFormed readFixed r) ∧ cut <+: journal ceilingJournal ∧
      (importAccountantLog readFixed cut).map (importedValue · "Customer.u@d" "Ceiling") =
        some (some (.int 5)) ∧
      importedValue (committed readFixed (wholeRecords ceilingJournal cut))
        "Customer.u@d" "Ceiling" = none ∧
      ∀ ads, importAccountantLog readFixed cut = some ads →
        ¬ Same ads (committed readFixed (wholeRecords ceilingJournal cut)) := by
  intro cut
  have himport : (importAccountantLog readFixed cut).map
      (importedValue · "Customer.u@d" "Ceiling") = some (some (.int 5)) := by
    decide +kernel
  have hcommitted : importedValue (committed readFixed (wholeRecords ceilingJournal cut))
      "Customer.u@d" "Ceiling" = none := by
    decide +kernel
  refine ⟨?_, (List.dropLast_prefix _).trans (List.dropLast_prefix _), himport, hcommitted, ?_⟩
  · simp only [ceilingJournal, forall_mem_cons]
    exact ⟨⟨by decide +kernel, by decide +kernel, by decide +kernel⟩,
      ⟨by decide +kernel, by decide +kernel, by decide +kernel, by decide +kernel⟩,
      forall_mem_nil _⟩
  · intro ads hads hsame
    rw [hads, map_some, some.injEq] at himport
    have hvalue : ∀ ads : ImportedAds ℚ, importedValue ads "Customer.u@d" "Ceiling" =
        (reading ads (ascii "Customer.u@d")).bind (· (ascii "Ceiling")) := by
      intro ads
      rw [importedValue, reading]
      cases ads.lookup (ascii "Customer.u@d") <;> rfl
    rw [hvalue, hsame, ← hvalue, hcommitted] at himport
    cases himport

end GolangCollector.Accountant
