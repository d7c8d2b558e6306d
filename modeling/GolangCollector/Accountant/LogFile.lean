import Mathlib.Data.Nat.Digits.Lemmas
import Mathlib.Logic.Equiv.List
import GolangCollector.Lib.GoBytes
import GolangCollector.Lib.GoFloat
import GolangCollector.Lib.RecordLog
import GolangCollector.Accountant.Store

/-! # The log file of the store

`Store` (`accountant/store.go`) with the bytes of its log: each mutation is appended to the file as
one line of JSON, and `OpenStore` replays the lines. `encoding/json` is a parameter. -/

namespace GolangCollector.Accountant

open RecordLog LineLog GoString List Option
open GoStrings (Text)

/-! ## Entries -/

inductive RawValue (F : Type) where
  | int (i : ℤ)
  | float (f : F)
  | str (s : GoString)
  deriving DecidableEq

abbrev RawTables (F : Type) := Records (Table × GoString) GoString (RawValue F)

abbrev RawChange (F : Type) := Change (Table × GoString) GoString (RawValue F)

abbrev StoreOp (F : Type) := Op (Table × GoString) GoString (RawValue F)

structure JsonEntry (F : Type) where
  op : GoString
  tbl : ℤ
  key : GoString
  attr : GoString
  kind : GoString
  i : ℤ
  f : F
  s : GoString

def JsonEntry.mapStrings {F : Type} (g : GoString → GoString) (e : JsonEntry F) : JsonEntry F where
  op := g e.op
  tbl := e.tbl
  key := g e.key
  attr := g e.attr
  kind := g e.kind
  i := e.i
  f := e.f
  s := g e.s

def Table.index : Table → ℤ
  | .acct => 0
  | .customer => 1
  | .resource => 2

def Table.ofIndex (i : ℤ) : Option Table := [Table.acct, .customer, .resource].find? (·.index = i)

@[simp] theorem Table.ofIndex_index (tbl : Table) : ofIndex tbl.index = some tbl := by
  cases tbl <;> rfl

variable {F : Type}

def entryOf [Zero F] : RawChange F → JsonEntry F
  | .set (tbl, key) attr (.int v) => ⟨ascii "set", tbl.index, key, attr, ascii "i", v, 0, []⟩
  | .set (tbl, key) attr (.float v) => ⟨ascii "set", tbl.index, key, attr, ascii "f", 0, v, []⟩
  | .set (tbl, key) attr (.str v) => ⟨ascii "set", tbl.index, key, attr, ascii "s", 0, 0, v⟩
  | .del (tbl, key) => ⟨ascii "del", tbl.index, key, [], [], 0, 0, []⟩

inductive ReplayError where
  | corrupt (line : ℕ)
  | badTable (tbl : ℤ) (line : ℕ)
  | badKind (kind : GoString) (line : ℕ)
  | badOp (op : GoString) (line : ℕ)
  /-- `bufio.ErrTooLong` -/
  | tooLong
  deriving DecidableEq

def JsonEntry.value? (e : JsonEntry F) : Option (RawValue F) :=
  if e.kind = ascii "i" then some (.int e.i)
  else if e.kind = ascii "f" then some (.float e.f)
  else if e.kind = ascii "s" then some (.str e.s)
  else none

def JsonEntry.change (e : JsonEntry F) (line : ℕ) : Except ReplayError (RawChange F) :=
  match Table.ofIndex e.tbl with
  | none => .error (.badTable e.tbl line)
  | some tbl =>
    if e.op = ascii "del" then .ok (.del (tbl, e.key))
    else if e.op = ascii "set" then
      match e.value? with
      | some v => .ok (.set (tbl, e.key) e.attr v)
      | none => .error (.badKind e.kind line)
    else .error (.badOp e.op line)

variable {c : RawChange F}

theorem JsonEntry.change_eq_ok {e : JsonEntry F} {line : ℕ} (h : e.change line = .ok c) :
    ∃ tbl, c = .del (tbl, e.key) ∨
      ∃ v, e.value? = some v ∧ c = .set (tbl, e.key) e.attr v := by
  rw [JsonEntry.change] at h
  cases htbl : Table.ofIndex e.tbl with
  | none => rw [htbl] at h; cases h
  | some tbl =>
    rw [htbl] at h
    dsimp only at h
    split_ifs at h
    · cases h
      exact ⟨tbl, .inl rfl⟩
    · cases hv : e.value? with
      | none => rw [hv] at h; cases h
      | some v =>
        rw [hv] at h
        cases h
        exact ⟨tbl, .inr ⟨v, rfl, rfl⟩⟩

theorem JsonEntry.value?_eq_some {e : JsonEntry F} {v : RawValue F} (h : e.value? = some v) :
    v = .int e.i ∨ v = .float e.f ∨ v = .str e.s := by
  rw [JsonEntry.value?] at h
  split_ifs at h <;> cases h <;> simp

/-! ## Encoding -/

/-- What is asked of `encoding/json`. -/
structure Json (F : Type) where
  /-- `json.Marshal`; none for an error. -/
  marshal : JsonEntry F → Option (List UInt8)
  /-- `json.Unmarshal`; none for an error. -/
  unmarshal : List UInt8 → Option (JsonEntry F)
  /-- The string with U+FFFD in place of what is not UTF-8. -/
  toValidUTF8 : GoString → GoString
  /-- Neither a NaN nor an infinity. -/
  finite : F → Prop

namespace Json

variable (json : Json F)

def ValidUTF8 (s : GoString) : Prop := json.toValidUTF8 s = s

def validEntry (e : JsonEntry F) : JsonEntry F := e.mapStrings json.toValidUTF8

structure Lawful [Zero F] : Prop where
  finite_zero : json.finite 0
  marshal_isSome : ∀ e, (json.marshal e).isSome ↔ json.finite e.f
  unmarshal_marshal : ∀ {e b}, json.marshal e = some b → json.unmarshal b = some (json.validEntry e)
  marshal_line : ∀ {e b}, json.marshal e = some b → b ≠ [] ∧ newline ∉ b ∧ carriageReturn ∉ b
  unmarshal_part : ∀ {e b part}, json.marshal e = some b → part <+: b → part ≠ b →
    json.unmarshal part = none
  unmarshal_two : ∀ {e e' b b'}, json.marshal e = some b → json.marshal e' = some b' →
    json.unmarshal (b ++ b') = none
  unmarshal_valid : ∀ {b e}, json.unmarshal b = some e → json.validEntry e = e ∧ json.finite e.f
  toValidUTF8_ascii : ∀ {s : GoString}, s.IsASCII → json.ValidUTF8 s
  toValidUTF8_idem : ∀ s, json.ValidUTF8 (json.toValidUTF8 s)

end Json

/-! ## The store and its file -/

/-- **`Store`**: the tables and the file, if there is one. -/
structure FileStore (F : Type) where
  tables : RawTables F
  file : Option (List UInt8)

section

variable (json : Json F)

def decodeLine (line : ℕ) (b : List UInt8) : Except ReplayError (Option (RawChange F)) :=
  if b = [] then .ok none
  else
    match json.unmarshal b with
    | none => .error (.corrupt line)
    | some e => (e.change line).map some

def maxLine : ℕ := 8 * 1024 * 1024

def replayLines : ℕ → List (List UInt8) → RawTables F → Except ReplayError (RawTables F)
  | _, [], t => .ok t
  | n, b :: bs, t =>
    if maxLine ≤ b.length then .error .tooLong
    else
      match decodeLine json (n + 1) (dropCR b) with
      | .error e => .error e
      | .ok c => replayLines (n + 1) bs (c.elim t (Change.apply t))

def replayFile (file : List UInt8) : Except ReplayError (RawTables F) :=
  replayLines json 0 (lines newline file) ∅

def openStore : Option (List UInt8) → Except ReplayError (FileStore F)
  | none => .ok ⟨∅, none⟩
  | some file => (replayFile json file).map fun t => ⟨t, some file⟩

variable [Zero F]

def written (e : JsonEntry F) : List UInt8 :=
  match json.marshal e with
  | none => []
  | some b => b ++ [newline]

namespace FileStore

variable (s : FileStore F)

def append (e : JsonEntry F) : FileStore F := { s with file := s.file.map (· ++ written json e) }

def change (c : RawChange F) : FileStore F :=
  append json { s with tables := c.apply s.tables } (entryOf c)

def setFloat (tbl : Table) (key attr : GoString) (v : F) : FileStore F :=
  s.change json (.set (tbl, key) attr (.float v))

def setInt (tbl : Table) (key attr : GoString) (v : ℤ) : FileStore F :=
  s.change json (.set (tbl, key) attr (.int v))

def setString (tbl : Table) (key attr v : GoString) : FileStore F :=
  s.change json (.set (tbl, key) attr (.str v))

def deleteRecord (tbl : Table) (key : GoString) : FileStore F :=
  if (s.tables.lookup (tbl, key)).isSome then s.change json (.del (tbl, key)) else s

def ensure (tbl : Table) (key : GoString) : FileStore F :=
  if (s.tables.lookup (tbl, key)).isSome then s
  else { s with tables := s.tables.insert (tbl, key) ∅ }

def perform : StoreOp F → FileStore F
  | .set (tbl, key) attr (.int v) => s.setInt json tbl key attr v
  | .set (tbl, key) attr (.float v) => s.setFloat json tbl key attr v
  | .set (tbl, key) attr (.str v) => s.setString json tbl key attr v
  | .delete (tbl, key) => s.deleteRecord json tbl key
  | .ensure (tbl, key) => s.ensure tbl key

def run (ops : List (StoreOp F)) : FileStore F := ops.foldl (perform json) s

def Faithful : Prop := ∃ s', openStore json s.file = .ok s' ∧ Same s'.tables s.tables

variable {op : StoreOp F}

theorem perform_eq_change (h : op.change? s.tables = some c) :
    s.perform json op = s.change json c := by
  match op with
  | .set (tbl, key) attr (.int v) | .set (tbl, key) attr (.float v)
  | .set (tbl, key) attr (.str v) => cases h; rfl
  | .delete (tbl, key) =>
    rw [Op.change?] at h
    split_ifs at h with hthere
    cases h
    exact if_pos hthere
  | .ensure key => cases h

theorem file_perform_of_none (h : op.change? s.tables = none) :
    (s.perform json op).file = s.file := by
  match op with
  | .set key attr v => cases h
  | .delete (tbl, key) =>
    rw [Op.change?] at h
    split_ifs at h with hthere
    rw [perform, deleteRecord, if_neg hthere]
  | .ensure (tbl, key) =>
    rw [perform, ensure]
    split_ifs <;> rfl

theorem tables_perform (op : StoreOp F) : (s.perform json op).tables = op.effect s.tables := by
  match op with
  | .set (tbl, key) attr (.int v) | .set (tbl, key) attr (.float v)
  | .set (tbl, key) attr (.str v) => rfl
  | .delete (tbl, key) =>
    rw [perform, deleteRecord, Op.effect]
    split_ifs <;> rfl
  | .ensure (tbl, key) =>
    rw [perform, ensure, Op.effect]
    split_ifs <;> rfl

end FileStore

end

/-! ## What is kept of a mutation -/

section

variable (json : Json F)

def Json.validValue : RawValue F → RawValue F
  | .str s => .str (json.toValidUTF8 s)
  | v => v

def Json.validChange : RawChange F → RawChange F
  | .set (tbl, key) attr v =>
    .set (tbl, json.toValidUTF8 key) (json.toValidUTF8 attr) (json.validValue v)
  | .del (tbl, key) => .del (tbl, json.toValidUTF8 key)

def Json.Encodable : RawValue F → Prop
  | .int _ => True
  | .float f => json.finite f
  | .str s => json.ValidUTF8 s

def Json.EncodableChange : RawChange F → Prop
  | .set (_, key) attr v => json.ValidUTF8 key ∧ json.ValidUTF8 attr ∧ json.Encodable v
  | .del (_, key) => json.ValidUTF8 key

variable [Zero F]

def Json.kept (c : RawChange F) : Option (RawChange F) :=
  (json.marshal (entryOf c)).map fun _ => json.validChange c

variable {json} (hjson : json.Lawful)
include hjson

theorem Json.Lawful.kept_eq_some {c c' : RawChange F} :
    json.kept c = some c' ↔ json.finite (entryOf c).f ∧ json.validChange c = c' := by
  rw [Json.kept, map_eq_some_iff, ← hjson.marshal_isSome, isSome_iff_exists]
  simp

theorem Json.Lawful.kept_eq_some_iff : json.kept c = some c ↔ json.EncodableChange c := by
  have hzero := hjson.finite_zero
  rw [hjson.kept_eq_some]
  match c with
  | .set (tbl, key) attr (.int v) =>
    simp [entryOf, hzero, Json.validChange, Json.validValue, Json.EncodableChange,
      Json.Encodable, Json.ValidUTF8]
  | .set (tbl, key) attr (.float v) =>
    simp [entryOf, Json.validChange, Json.validValue, Json.EncodableChange,
      Json.Encodable, Json.ValidUTF8]
    tauto
  | .set (tbl, key) attr (.str v) =>
    simp [entryOf, hzero, Json.validChange, Json.validValue, Json.EncodableChange,
      Json.Encodable, Json.ValidUTF8]
  | .del (tbl, key) =>
    simp [entryOf, hzero, Json.validChange, Json.EncodableChange, Json.ValidUTF8]

theorem Json.Lawful.encodable_of_kept {c c' : RawChange F} (h : json.kept c = some c') :
    json.EncodableChange c' := by
  obtain ⟨hfinite, rfl⟩ := hjson.kept_eq_some.mp h
  have hvalid := hjson.toValidUTF8_idem
  match c with
  | .set (tbl, key) attr (.int v) => exact ⟨hvalid key, hvalid attr, trivial⟩
  | .set (tbl, key) attr (.float v) => exact ⟨hvalid key, hvalid attr, hfinite⟩
  | .set (tbl, key) attr (.str v) => exact ⟨hvalid key, hvalid attr, hvalid v⟩
  | .del (tbl, key) => exact hvalid key

theorem Json.Lawful.keeps : RecordLog.Keeps json.kept where
  stable h := hjson.kept_eq_some_iff.mpr (hjson.encodable_of_kept h)
  del h := hjson.kept_eq_some_iff.mpr (hjson.kept_eq_some_iff.mp h).1

variable {b : List UInt8}

theorem Json.Lawful.decodeLine_marshal (h : json.marshal (entryOf c) = some b) (n : ℕ) :
    decodeLine json n b = .ok (some (json.validChange c)) := by
  have hdel : json.toValidUTF8 (ascii "del") = ascii "del" := hjson.toValidUTF8_ascii (by decide)
  have hset : json.toValidUTF8 (ascii "set") = ascii "set" := hjson.toValidUTF8_ascii (by decide)
  have hi : json.toValidUTF8 (ascii "i") = ascii "i" := hjson.toValidUTF8_ascii (by decide)
  have hf : json.toValidUTF8 (ascii "f") = ascii "f" := hjson.toValidUTF8_ascii (by decide)
  have hs : json.toValidUTF8 (ascii "s") = ascii "s" := hjson.toValidUTF8_ascii (by decide)
  have hne : ascii "set" ≠ ascii "del" := by decide
  have hfi : ascii "f" ≠ ascii "i" := by decide
  have hsi : ascii "s" ≠ ascii "i" := by decide
  have hsf : ascii "s" ≠ ascii "f" := by decide
  rw [decodeLine, if_neg (hjson.marshal_line h).1, hjson.unmarshal_marshal h]
  match c with
  | .set (tbl, key) attr (.int v) =>
    simp [entryOf, Json.validEntry, JsonEntry.mapStrings, JsonEntry.change, JsonEntry.value?,
      Json.validChange, Json.validValue, hset, hi, hne, Except.map]
  | .set (tbl, key) attr (.float v) =>
    simp [entryOf, Json.validEntry, JsonEntry.mapStrings, JsonEntry.change, JsonEntry.value?,
      Json.validChange, Json.validValue, hset, hf, hne, hfi, Except.map]
  | .set (tbl, key) attr (.str v) =>
    simp [entryOf, Json.validEntry, JsonEntry.mapStrings, JsonEntry.change, JsonEntry.value?,
      Json.validChange, Json.validValue, hset, hs, hne, hsi, hsf, Except.map]
  | .del (tbl, key) =>
    simp [entryOf, Json.validEntry, JsonEntry.mapStrings, JsonEntry.change, Json.validChange,
      hdel, Except.map]

variable {n : ℕ}

theorem Json.Lawful.encodable_of_decodeLine (h : decodeLine json n b = .ok (some c)) :
    json.EncodableChange c := by
  rw [decodeLine] at h
  split_ifs at h
  · cases h
  · cases he : json.unmarshal b with
    | none => rw [he] at h; cases h
    | some e =>
      obtain ⟨hvalid, hfinite⟩ := hjson.unmarshal_valid he
      have hkey : json.ValidUTF8 e.key := congrArg JsonEntry.key hvalid
      have hattr : json.ValidUTF8 e.attr := congrArg JsonEntry.attr hvalid
      have hstr : json.ValidUTF8 e.s := congrArg JsonEntry.s hvalid
      rw [he] at h
      cases hchange : e.change n with
      | error err => simp [hchange, Except.map] at h
      | ok c' =>
        obtain rfl : c' = c := by simpa [hchange, Except.map] using h
        obtain ⟨tbl, rfl | ⟨v, hv, rfl⟩⟩ := JsonEntry.change_eq_ok hchange
        · exact hkey
        · obtain rfl | rfl | rfl := JsonEntry.value?_eq_some hv
          · exact ⟨hkey, hattr, trivial⟩
          · exact ⟨hkey, hattr, hfinite⟩
          · exact ⟨hkey, hattr, hstr⟩

/-! ## What is read from the file -/

omit hjson [Zero F] in
theorem replayLines_append (n : ℕ) (bs bs' : List (List UInt8)) (t : RawTables F) :
    replayLines json n (bs ++ bs') t =
      (replayLines json n bs t).bind (replayLines json (n + bs.length) bs') := by
  induction bs generalizing n t with
  | nil => rfl
  | cons b bs ih =>
    rw [cons_append, replayLines, replayLines, length_cons]
    split_ifs
    · rfl
    · cases decodeLine json (n + 1) (dropCR b) with
      | error e => rfl
      | ok c =>
        dsimp only
        rw [ih, Nat.add_right_comm, Nat.add_assoc]

variable {t : RawTables F}

theorem Json.Lawful.exists_log {bs : List (List UInt8)} (log : List (RawChange F))
    (hlog : Stable json.kept log) (h : replayLines json n bs (RecordLog.replay log) = .ok t) :
    ∃ log', Stable json.kept log' ∧ t = RecordLog.replay log' := by
  induction bs generalizing n log with
  | nil =>
    cases h
    exact ⟨log, hlog, rfl⟩
  | cons b bs ih =>
    rw [replayLines] at h
    split_ifs at h
    cases hb : decodeLine json (n + 1) (dropCR b) with
    | error e => rw [hb] at h; cases h
    | ok c =>
      rw [hb] at h
      cases c with
      | none => exact ih log hlog h
      | some c =>
        refine ih (log ++ [c]) (fun c' hc' => ?_) (by rw [replay_concat]; exact h)
        obtain hc' | hc' := mem_append.mp hc'
        · exact hlog c' hc'
        · rw [mem_singleton.mp hc']
          exact hjson.kept_eq_some_iff.mpr (hjson.encodable_of_decodeLine hb)

/-- **What a file says**: its lines replay a log of mutations. -/
structure Reads (json : Json F) (file : List UInt8) (log : List (RawChange F)) : Prop where
  ends : EndsLine newline file
  replays : replayFile json file = .ok (RecordLog.replay log)
  stable : Stable json.kept log

variable {file : List UInt8}

section

variable (hends : EndsLine newline file)
include hends

theorem Json.Lawful.exists_reads (h : replayFile json file = .ok t) :
    ∃ log, Reads json file log ∧ t = RecordLog.replay log := by
  obtain ⟨log, hstable, rfl⟩ := hjson.exists_log [] (by simp [Stable]) h
  exact ⟨log, ⟨hends, h, hstable⟩, rfl⟩

omit hjson [Zero F] in
theorem replayFile_append (h : replayFile json file = .ok t) (part : List UInt8) :
    ∃ n, replayFile json (file ++ part) = replayLines json n (lines newline part) t := by
  rw [replayFile] at h
  refine ⟨0 + (lines newline file).length, ?_⟩
  rw [replayFile, lines_append hends, replayLines_append, h]
  rfl

omit hjson [Zero F] in
theorem replayFile_append_long {part : List UInt8} (h : replayFile json file = .ok t)
    (hlines : lines newline part = [b]) (hlong : maxLine ≤ b.length) :
    replayFile json (file ++ part) = .error .tooLong := by
  obtain ⟨n, hn⟩ := replayFile_append hends h part
  rw [hn, hlines, replayLines, if_pos hlong]

omit hjson [Zero F] in
theorem replayFile_append_corrupt {part : List UInt8} (h : replayFile json file = .ok t)
    (hlines : lines newline part = [b]) (hne : b ≠ []) (hcr : carriageReturn ∉ b)
    (hb : json.unmarshal b = none) : ∃ err, replayFile json (file ++ part) = .error err := by
  by_cases hlong : maxLine ≤ b.length
  · exact ⟨_, replayFile_append_long hends h hlines hlong⟩
  · obtain ⟨n, hn⟩ := replayFile_append hends h part
    refine ⟨.corrupt (n + 1), ?_⟩
    rw [hn, hlines, replayLines, if_neg hlong, dropCR_of_notMem hcr, decodeLine, if_neg hne, hb]

end

theorem Reads.concat {log : List (RawChange F)} (h : Reads json file log) {b part : List UInt8}
    (hb : json.marshal (entryOf c) = some b) (hshort : b.length < maxLine)
    (hlines : lines newline part = [b]) :
    replayFile json (file ++ part) = .ok (RecordLog.replay (log ++ (json.kept c).toList)) := by
  obtain ⟨n, hn⟩ := replayFile_append h.ends h.replays part
  rw [hn, hlines, replayLines, if_neg (not_le.mpr hshort),
    dropCR_of_notMem (hjson.marshal_line hb).2.2, hjson.decodeLine_marshal hb, Json.kept, hb,
    map_some, toList_some, replay_concat]
  rfl

/-! ## The store and the log -/

structure Simulates (json : Json F) (s : FileStore F)
    (l : Logged (Table × GoString) GoString (RawValue F)) : Prop where
  tables : s.tables = l.records
  reads : ∃ file, s.file = some file ∧ Reads json file l.log

def FileStore.ShortLine (json : Json F) (s : FileStore F) (op : StoreOp F) : Prop :=
  ∀ c b, op.change? s.tables = some c → json.marshal (entryOf c) = some b → b.length < maxLine

variable {s : FileStore F} {l : Logged (Table × GoString) GoString (RawValue F)}

section

variable (h : Simulates json s l)
include h

theorem Simulates.change (hshort : ∀ b, json.marshal (entryOf c) = some b → b.length < maxLine) :
    Simulates json (s.change json c) ⟨c.apply l.records, l.log ++ (json.kept c).toList⟩ := by
  obtain ⟨file, hfile, hreads⟩ := h.reads
  refine ⟨by rw [← h.tables]; rfl, ?_⟩
  refine ⟨file ++ written json (entryOf c), by simp [FileStore.change, FileStore.append, hfile], ?_⟩
  rw [written]
  cases hb : json.marshal (entryOf c) with
  | none =>
    rw [Json.kept, hb, map_none, toList_none, append_nil, append_nil]
    exact hreads
  | some b =>
    have hline := (hjson.marshal_line hb).2.1
    refine ⟨?_, Reads.concat hjson hreads hb (hshort b hb) (lines_line hline), ?_⟩
    · dsimp only
      rw [← append_assoc]
      exact endsLine_concat _
    · intro c' hc'
      obtain hc' | hc' := mem_append.mp hc'
      · exact hreads.stable c' hc'
      · exact hjson.keeps.stable (mem_toList.mp hc')

theorem Simulates.perform (hshort : s.ShortLine json op) :
    Simulates json (s.perform json op) (l.perform json.kept op) := by
  refine ⟨by rw [s.tables_perform json op, h.tables]; rfl, ?_⟩
  cases hc : op.change? s.tables with
  | none =>
    rw [s.file_perform_of_none json hc, perform_log_of_none (h.tables ▸ hc)]
    exact h.reads
  | some c =>
    rw [s.perform_eq_change json hc, Logged.perform, ← h.tables, hc]
    exact (Simulates.change hjson h (hshort c · hc)).reads

omit hjson in
theorem Simulates.faithful_iff : s.Faithful json ↔ l.Faithful := by
  obtain ⟨file, hfile, hreads⟩ := h.reads
  rw [FileStore.Faithful, hfile, openStore, hreads.replays, h.tables, Logged.Faithful]
  constructor
  · rintro ⟨s', hs', hsame⟩
    cases hs'
    exact hsame
  · intro hsame
    exact ⟨_, rfl, hsame⟩

/-! ## Faithful logs -/

def FileStore.Encodable (json : Json F) (s : FileStore F) : StoreOp F → Prop
  | .set (tbl, key) attr v => json.EncodableChange (.set (tbl, key) attr v)
  | .delete _ => True
  | .ensure key => (s.tables.lookup key).isSome

/-- **An operation that the log can tell**: the strings are UTF-8 and the number is finite, a record
is not created without an attribute, and the line is not too long for the scanner. -/
def FileStore.Loggable (json : Json F) (s : FileStore F) (op : StoreOp F) : Prop :=
  s.ShortLine json op ∧ s.Encodable json op

@[inherit_doc FileStore.Loggable]
def FileStore.LoggableRun (json : Json F) : FileStore F → List (StoreOp F) → Prop
  | _, [] => True
  | s, op :: ops => s.Loggable json op ∧ FileStore.LoggableRun json (s.perform json op) ops

theorem Simulates.encodable_iff (op : StoreOp F) :
    s.Encodable json op ↔ RecordLog.Loggable json.kept l.records op := by
  match op with
  | .set (tbl, key) attr v =>
    exact (hjson.kept_eq_some_iff (c := .set (tbl, key) attr v)).symm
  | .delete key => exact Iff.rfl
  | .ensure key => rw [FileStore.Encodable, h.tables, RecordLog.Loggable]

theorem Simulates.not_faithful_of_long (hc : op.change? s.tables = some c)
    (hb : json.marshal (entryOf c) = some b) (hlong : maxLine ≤ b.length) :
    ¬ (s.perform json op).Faithful json := by
  obtain ⟨file, hfile, hreads⟩ := h.reads
  rintro ⟨s', hs', -⟩
  rw [s.perform_eq_change json hc, FileStore.change, FileStore.append, hfile, map_some, openStore,
    written, hb, replayFile_append_long hreads.ends hreads.replays
      (lines_line (hjson.marshal_line hb).2.1) hlong] at hs'
  cases hs'

end

def Sound (json : Json F) (s : FileStore F) : Prop := ∃ l, Simulates json s l ∧ l.Faithful

section

variable (h : Sound json s)
include h

omit hjson in
theorem Sound.faithful : s.Faithful json := by
  obtain ⟨l, hsim, hl⟩ := h
  exact hsim.faithful_iff.mpr hl

theorem Sound.faithful_perform_iff (op : StoreOp F) :
    (s.perform json op).Faithful json ↔ s.Loggable json op := by
  obtain ⟨l, hsim, hl⟩ := h
  obtain ⟨file, hfile, hreads⟩ := hsim.reads
  by_cases hshort : s.ShortLine json op
  · rw [(Simulates.perform hjson hsim hshort).faithful_iff,
      RecordLog.faithful_perform_iff hjson.keeps hreads.stable hl, FileStore.Loggable,
      and_iff_right hshort, Simulates.encodable_iff hjson hsim]
  · refine iff_of_false (fun hfaithful => hshort fun c b hc hb => ?_) fun h => hshort h.1
    by_contra hlong
    exact Simulates.not_faithful_of_long hjson hsim hc hb (not_lt.mp hlong) hfaithful

theorem Sound.perform (hop : s.Loggable json op) : Sound json (s.perform json op) := by
  have hfaithful := (Sound.faithful_perform_iff hjson h op).mpr hop
  obtain ⟨l, hsim, -⟩ := h
  have hsim' := Simulates.perform hjson hsim hop.1
  exact ⟨_, hsim', hsim'.faithful_iff.mp hfaithful⟩

theorem Sound.run {ops before : List (StoreOp F)} (hops : s.LoggableRun json ops)
    (hbefore : before <+: ops) : Sound json (s.run json before) := by
  induction ops generalizing s before with
  | nil => rwa [prefix_nil.mp hbefore]
  | cons op ops ih =>
    cases before with
    | nil => exact h
    | cons op' before =>
      obtain ⟨rfl, hrest⟩ := cons_prefix_cons.mp hbefore
      exact ih (Sound.perform hjson h hops.1) hops.2 hrest

variable {ops : List (StoreOp F)}

theorem Sound.loggableRun
    (hfaithful : ∀ before, before <+: ops → (s.run json before).Faithful json) :
    s.LoggableRun json ops := by
  induction ops generalizing s with
  | nil => trivial
  | cons op ops ih =>
    have hop : s.Loggable json op := (Sound.faithful_perform_iff hjson h op).mp
      (hfaithful [op] ((prefix_cons_inj op).mpr List.nil_prefix))
    exact ⟨hop, ih (Sound.perform hjson h hop) fun before hbefore =>
      hfaithful (op :: before) ((prefix_cons_inj op).mpr hbefore)⟩

end

theorem Json.Lawful.sound_openStore (hends : EndsLine newline file)
    (hopen : openStore json (some file) = .ok s) : Sound json s := by
  rw [openStore] at hopen
  cases hreplay : replayFile json file with
  | error e => rw [hreplay] at hopen; cases hopen
  | ok t =>
    rw [hreplay] at hopen
    cases hopen
    obtain ⟨log, hreads, rfl⟩ := hjson.exists_reads hends hreplay
    exact ⟨⟨RecordLog.replay log, log⟩, ⟨rfl, file, rfl, hreads⟩, Same.refl _⟩

/-- **The log is faithful all the time exactly if it can tell every operation.** -/
theorem log_is_faithful_iff {file : List UInt8} {s : FileStore F} (hends : EndsLine newline file)
    (hopen : openStore json (some file) = .ok s) (ops : List (StoreOp F)) :
    (∀ before, before <+: ops → (s.run json before).Faithful json) ↔ s.LoggableRun json ops := by
  have hsound := hjson.sound_openStore hends hopen
  exact ⟨Sound.loggableRun hjson hsound,
    fun hops before hbefore => (Sound.run hjson hsound hops hbefore).faithful⟩

def FileStore.fresh : FileStore F := ⟨∅, some []⟩

omit hjson [Zero F] in
theorem openStore_nil : openStore json (some []) = .ok (FileStore.fresh : FileStore F) := rfl

omit hjson in
theorem sound_fresh : Sound json (FileStore.fresh : FileStore F) :=
  ⟨⟨∅, []⟩, ⟨rfl, [], rfl, .inl rfl, rfl, by simp [Stable]⟩, Same.refl _⟩

/-! ## The accountant's store

`Store` has the log as a list of entries. Under any names for its keys and attributes, a file that
its entries were written to is opened with its records. -/

section

variable (key : Text → GoString) (name : Attr → GoString)

def rawValue : AttrValue F → RawValue F
  | .int i => .int i
  | .float f => .float f
  | .str s => .str (key s)

def LogEntry.op : LogEntry F → StoreOp F
  | .set tbl k attr v => .set (tbl, key k) (name attr) (rawValue key v)
  | .del tbl k => .delete (tbl, key k)

def Mirrors (t : Tables F) (raw : RawTables F) : Prop :=
  ∀ tbl k, (reading raw (tbl, key k)).isSome = (reading t (tbl, k)).isSome ∧
    ∀ attr, (reading raw (tbl, key k)).bind (· (name attr)) =
      ((reading t (tbl, k)).bind (· attr)).map (rawValue key)

variable {key name} (hkey : Function.Injective key) (hname : Function.Injective name)
include hkey

omit hjson [Zero F] in
theorem pair_eq_iff {tbl tbl' : Table} {k k' : Text} :
    (tbl', key k') = (tbl, key k) ↔ (tbl', k') = (tbl, k) := by
  rw [Prod.mk.injEq, Prod.mk.injEq, hkey.eq_iff]

include hname

variable {t : Tables F}

omit hjson [Zero F] in
theorem Mirrors.set {raw : RawTables F} (h : Mirrors key name t raw) (tbl : Table) (k : Text)
    (attr : Attr) (v : AttrValue F) :
    Mirrors key name (LogEntry.apply t (.set tbl k attr v))
      (Change.apply raw (.set (tbl, key k) (name attr) (rawValue key v))) := by
  intro tbl' k'
  rw [show LogEntry.apply t (.set tbl k attr v) = Change.apply t (.set (tbl, k) attr v) from rfl,
    reading_set, reading_set]
  by_cases hk : (tbl', k') = (tbl, k)
  · rw [if_pos hk, if_pos ((pair_eq_iff hkey).mpr hk)]
    refine ⟨rfl, fun attr' => ?_⟩
    simp only [bind_some, hname.eq_iff]
    split_ifs
    · rfl
    · exact (h tbl k).2 attr'
  · rw [if_neg hk, if_neg (mt (pair_eq_iff hkey).mp hk)]
    exact h tbl' k'

omit hjson [Zero F] hname in
theorem Mirrors.del {raw : RawTables F} (h : Mirrors key name t raw) (tbl : Table) (k : Text) :
    Mirrors key name (LogEntry.apply t (.del tbl k)) (Change.apply raw (.del (tbl, key k))) := by
  intro tbl' k'
  rw [show LogEntry.apply t (.del tbl k) = Change.apply t (.del (tbl, k)) from rfl,
    reading_del, reading_del]
  by_cases hk : (tbl', k') = (tbl, k)
  · rw [if_pos hk, if_pos ((pair_eq_iff hkey).mpr hk)]
    exact ⟨rfl, fun _ => rfl⟩
  · rw [if_neg hk, if_neg (mt (pair_eq_iff hkey).mp hk)]
    exact h tbl' k'

omit hjson in
theorem Mirrors.perform (h : Mirrors key name t s.tables) (e : LogEntry F) :
    Mirrors key name (e.apply t) (s.perform json (e.op key name)).tables := by
  rw [FileStore.tables_perform]
  cases e with
  | set tbl k attr v => exact h.set hkey hname tbl k attr v
  | del tbl k =>
    rw [LogEntry.op, Op.effect]
    split_ifs with hthere
    · exact h.del hkey tbl k
    · -- a record that is not there can be deleted as well
      have hsame : ∀ p, reading (Change.apply s.tables (.del (tbl, key k))) p =
          reading s.tables p := by
        intro p
        rw [reading_del]
        split_ifs with hp
        · rw [← reading_isSome, not_isSome_iff_eq_none] at hthere
          rw [hp, hthere]
        · rfl
      intro tbl' k'
      rw [← hsame]
      exact h.del hkey tbl k tbl' k'

omit hkey hname hjson in
theorem loggableRun_entries {log : List (LogEntry F)} (s : FileStore F)
    (hlog : ∀ e ∈ log, ∀ s : FileStore F, s.Loggable json (e.op key name)) :
    s.LoggableRun json (log.map (LogEntry.op key name)) := by
  induction log generalizing s with
  | nil => trivial
  | cons e log ih =>
    exact ⟨hlog e mem_cons_self s, ih _ fun e' he' => hlog e' (mem_cons_of_mem e he')⟩

omit hjson in
theorem Mirrors.run (h : Mirrors key name t s.tables) (log : List (LogEntry F)) :
    Mirrors key name (log.foldl LogEntry.apply t)
      (s.run json (log.map (LogEntry.op key name))).tables := by
  induction log generalizing t s with
  | nil => exact h
  | cons e log ih => exact ih (h.perform hkey hname e)

theorem Json.Lawful.openStore_entries (log : List (LogEntry F))
    (hlog : ∀ e ∈ log, ∀ s : FileStore F, s.Loggable json (e.op key name)) :
    ∃ s, openStore json (FileStore.fresh.run json (log.map (LogEntry.op key name))).file = .ok s ∧
      Mirrors key name (Store.openLog log).tables s.tables := by
  obtain ⟨s, hopen, hsame⟩ := (Sound.run hjson sound_fresh
    (loggableRun_entries FileStore.fresh hlog) prefix_rfl).faithful
  refine ⟨s, hopen, fun tbl k => ?_⟩
  have hempty : Mirrors key name (∅ : Tables F) (FileStore.fresh : FileStore F).tables :=
    fun _ _ => ⟨rfl, fun _ => rfl⟩
  rw [hsame (tbl, key k)]
  exact hempty.run hkey hname log tbl k

end

/-! ## Files that were cut off -/

def Recovers (json : Json F) (ops : List (StoreOp F)) (cut : List UInt8) : Prop :=
  ∃ s, openStore json (some cut) = .ok s ∧
    (∃ before, before <+: ops ∧ Same s.tables ((FileStore.fresh.run json before).tables)) ∧
    ∀ more, s.LoggableRun json more → (s.run json more).Faithful json

def CutAt (json : Json F) (ops : List (StoreOp F)) (cut : List UInt8) : Prop :=
  (∃ before, before <+: ops ∧ (FileStore.fresh.run json before).file = some cut) ∨
    ∃ before c b part whole, before <+: ops ∧
      (FileStore.fresh.run json before).file = some whole ∧
      json.marshal (entryOf c) = some b ∧ part ≠ [] ∧ part <+: b ∧ cut = whole ++ part

omit hjson in
theorem CutAt.concat {cut : List UInt8} (h : CutAt json ops cut) (op : StoreOp F) :
    CutAt json (ops ++ [op]) cut := by
  have hops := prefix_append ops [op]
  obtain ⟨before, hbefore, hfile⟩ | ⟨before, c, b, part, whole, hbefore, hrest⟩ := h
  · exact .inl ⟨before, hbefore.trans hops, hfile⟩
  · exact .inr ⟨before, c, b, part, whole, hbefore.trans hops, hrest⟩

omit hjson in
theorem cutAt_of_isPrefix {file cut : List UInt8}
    (hfile : (FileStore.fresh.run json ops).file = some file) (hcut : cut <+: file) :
    CutAt json ops cut := by
  -- on the last operation: the cut is in the file before it, or in what it wrote
  induction ops using reverseRecOn generalizing file with
  | nil =>
    cases hfile
    exact .inl ⟨[], prefix_rfl, by rw [prefix_nil.mp hcut]; rfl⟩
  | append_singleton ops op ih =>
    have hrun : FileStore.fresh.run json (ops ++ [op]) =
        (FileStore.fresh.run json ops).perform json op := by
      rw [FileStore.run, foldl_append]
      rfl
    rw [hrun] at hfile
    cases hc : op.change? (FileStore.fresh.run json ops).tables with
    | none =>
      rw [FileStore.file_perform_of_none json _ hc] at hfile
      exact (ih hfile hcut).concat op
    | some c =>
      obtain ⟨whole, hwhole, hfile'⟩ := map_eq_some_iff.mp
        ((congrArg FileStore.file (FileStore.perform_eq_change json _ hc)).symm.trans hfile)
      rw [written] at hfile'
      cases hb : json.marshal (entryOf c) with
      | none =>
        rw [hb] at hfile'
        dsimp only at hfile'
        rw [append_nil] at hfile'
        exact (ih hwhole (hfile' ▸ hcut)).concat op
      | some b =>
        rw [hb] at hfile'
        subst hfile'
        obtain hcut | ⟨part, hne, hpart, rfl⟩ | rfl := isPrefix_append_line hcut
        · exact (ih hwhole hcut).concat op
        · exact .inr ⟨ops, c, b, part, whole, prefix_append ops [op], hwhole, hb, hne,
            hpart, rfl⟩
        · exact .inl ⟨ops ++ [op], prefix_rfl, hrun ▸ hfile⟩

omit hjson [Zero F] in
theorem file_of_openStore (h : openStore json (some file) = .ok s) : s.file = some file := by
  rw [openStore] at h
  cases hreplay : replayFile json file with
  | error e => rw [hreplay] at h; cases h
  | ok t => rw [hreplay] at h; cases h; rfl

omit hjson in
theorem Sound.reads (h : Sound json s) (hfile : s.file = some file) :
    ∃ log, Reads json file log := by
  obtain ⟨l, hsim, -⟩ := h
  obtain ⟨file', hfile', hreads⟩ := hsim.reads
  cases hfile.symm.trans hfile'
  exact ⟨_, hreads⟩

theorem Json.Lawful.recovers {ops before : List (StoreOp F)} {cut : List UInt8}
    (hops : FileStore.fresh.LoggableRun json ops) (hbefore : before <+: ops)
    (hfile : (FileStore.fresh.run json before).file = some cut) : Recovers json ops cut := by
  have hsound := Sound.run hjson sound_fresh hops hbefore
  obtain ⟨log, hreads⟩ := hsound.reads hfile
  obtain ⟨s, hopen, hsame⟩ := hsound.faithful
  rw [hfile] at hopen
  refine ⟨s, hopen, ⟨before, hbefore, hsame⟩, fun more hmore => ?_⟩
  exact (Sound.run hjson (hjson.sound_openStore hreads.ends hopen) hmore prefix_rfl).faithful

def Json.WritesShort (json : Json F) : Prop :=
  ∃ key attr v b, json.EncodableChange (.set key attr v) ∧
    json.marshal (entryOf (.set key attr v)) = some b ∧ b.length < maxLine

theorem Json.Lawful.not_recovers (hwrites : json.WritesShort) {ops before : List (StoreOp F)}
    (hsound : Sound json (FileStore.fresh.run json before)) {b part whole : List UInt8}
    (hfile : (FileStore.fresh.run json before).file = some whole)
    (hb : json.marshal (entryOf c) = some b) (hne : part ≠ []) (hpart : part <+: b) :
    ¬ Recovers json ops (whole ++ part) := by
  rintro ⟨s, hopen, -, hmore⟩
  obtain ⟨log, hreads⟩ := hsound.reads hfile
  obtain ⟨-, hnl, hcr⟩ := hjson.marshal_line hb
  have hnl' : newline ∉ part := fun h => hnl (hpart.subset h)
  by_cases hwhole : part = b
  · -- the next mutation is written on the same line
    subst hwhole
    obtain ⟨key, attr, v, b, hvalid, hnext, hshort⟩ := hwrites
    have hloggable : s.Loggable json (.set key attr v) := by
      refine ⟨fun c b' hc hb' => ?_, hvalid⟩
      cases hc
      cases hnext.symm.trans hb'
      exact hshort
    obtain ⟨s', hs', -⟩ := hmore [.set key attr v] ⟨hloggable, trivial⟩
    have hwritten : (s.run json [.set key attr v]).file =
        some (whole ++ (part ++ b ++ [newline])) := by
      change (s.perform json (.set key attr v)).file = _
      rw [s.perform_eq_change json rfl, FileStore.change, FileStore.append,
        file_of_openStore hopen, written, hnext, map_some]
      simp
    obtain ⟨-, hnl₂, hcr₂⟩ := hjson.marshal_line hnext
    have hlines : lines newline (part ++ b ++ [newline]) = [part ++ b] :=
      lines_line (by simp [hnl, hnl₂])
    obtain ⟨err, herr⟩ := replayFile_append_corrupt hreads.ends hreads.replays hlines
      (by simp [hne]) (by simp [hcr, hcr₂]) (hjson.unmarshal_two hb hnext)
    rw [hwritten, openStore, herr] at hs'
    cases hs'
  · obtain ⟨err, herr⟩ := replayFile_append_corrupt hreads.ends hreads.replays
      (lines_of_notMem hnl' hne) hne (fun h => hcr (hpart.subset h))
      (hjson.unmarshal_part hb hpart hwhole)
    rw [openStore, herr] at hopen
    cases hopen

/-- **A cut-off file is recovered exactly if it was cut at the end of a line.** -/
theorem crash_recovery_iff (hwrites : json.WritesShort) {ops : List (StoreOp F)}
    (hops : FileStore.fresh.LoggableRun json ops) {file cut : List UInt8}
    (hfile : (FileStore.fresh.run json ops).file = some file) (hcut : cut <+: file) :
    Recovers json ops cut ↔ EndsLine newline cut := by
  obtain ⟨before, hbefore, hcut⟩ |
    ⟨before, c, b, part, whole, hbefore, hwhole, hb, hne, hpart, rfl⟩ :=
    cutAt_of_isPrefix hfile hcut
  · obtain ⟨log, hreads⟩ := (Sound.run hjson sound_fresh hops hbefore).reads hcut
    exact iff_of_true (hjson.recovers hops hbefore hcut) hreads.ends
  · have hsound := Sound.run hjson sound_fresh hops hbefore
    refine iff_of_false (hjson.not_recovers hwrites hsound hwhole hb hne hpart) ?_
    exact not_endsLine_append (fun h => (hjson.marshal_line hb).2.1 (hpart.subset h)) hne

end

/-! ## A simple encoding

An encoding that satisfies what is assumed: an entry is written as its number in a numbering of all
entries, with its digits between braces, and a byte that is not ASCII is replaced. -/

namespace DigitJson

def digits (n : ℕ) : List UInt8 := (Nat.digits 10 n).map fun d => UInt8.ofNat (48 + d)

def code (n : ℕ) : List UInt8 := 123 :: (digits n ++ [125])

def number (b : List UInt8) : ℕ := Nat.ofDigits 10 (b.tail.dropLast.map fun c => c.toNat - 48)

theorem toNat_digit {d : ℕ} (h : d < 10) : (UInt8.ofNat (48 + d)).toNat = 48 + d := by
  rw [UInt8.toNat_ofNat', Nat.mod_eq_of_lt (by omega)]

theorem toNat_of_mem_digits {c : UInt8} (h : c ∈ digits n) : 48 ≤ c.toNat ∧ c.toNat < 58 := by
  obtain ⟨d, hd, rfl⟩ := mem_map.mp h
  have hlt : d < 10 := Nat.digits_lt_base (by decide) hd
  rw [toNat_digit hlt]
  omega

theorem number_code (n : ℕ) : number (code n) = n := by
  have hdigits : (digits n).map (fun c => c.toNat - 48) = Nat.digits 10 n := by
    rw [digits, List.map_map]
    refine (map_congr_left fun d hd => ?_).trans (map_id _)
    rw [Function.comp_apply, toNat_digit (Nat.digits_lt_base (by decide) hd), id,
      Nat.add_sub_cancel_left]
  rw [number, code, tail_cons, dropLast_concat, hdigits, Nat.ofDigits_digits]

theorem eq_of_code_isPrefix {m n : ℕ} (h : code m <+: code n) : code m = code n := by
  rw [show code n = (123 :: digits n) ++ [125] from rfl, prefix_concat_iff] at h
  obtain h | h := h
  · exact h
  · have hmem : (125 : UInt8) ∈ 123 :: digits n := h.subset (by simp [code])
    obtain hmem | hmem := mem_cons.mp hmem
    · cases hmem
    · exact absurd (toNat_of_mem_digits hmem).2 (by decide)

def toASCII (s : GoString) : GoString := s.map fun b => if b < 128 then b else 63

theorem toASCII_idem (s : GoString) : toASCII (toASCII s) = toASCII s := by
  rw [toASCII, toASCII, List.map_map]
  refine map_congr_left fun b _ => ?_
  rw [Function.comp_apply]
  by_cases h : b < 128
  · rw [if_pos h, if_pos h]
  · rw [if_neg h]
    decide

instance encodableUInt8 : Encodable UInt8 :=
  .ofLeftInverse UInt8.toNat UInt8.ofNat fun _ => UInt8.ofNat_toNat

instance encodableGoFloat : Encodable (GoFloat ℤ) :=
  .ofLeftInverse (fun | .nan => none | .num r => some r) (fun | none => .nan | some r => .num r)
    (by rintro (_ | r) <;> rfl)

instance encodableJsonEntry : Encodable (JsonEntry (GoFloat ℤ)) :=
  .ofLeftInverse (fun e => (e.op, e.tbl, e.key, e.attr, e.kind, e.i, e.f, e.s))
    (fun p => ⟨p.1, p.2.1, p.2.2.1, p.2.2.2.1, p.2.2.2.2.1, p.2.2.2.2.2.1, p.2.2.2.2.2.2.1,
      p.2.2.2.2.2.2.2⟩) fun _ => rfl

def marshal (e : JsonEntry (GoFloat ℤ)) : Option (List UInt8) :=
  if e.f.IsNum then some (code (Encodable.encode (e.mapStrings toASCII))) else none

def unmarshal (b : List UInt8) : Option (JsonEntry (GoFloat ℤ)) :=
  (Encodable.decode (number b)).filter fun e =>
    marshal e = some b ∧ Encodable.encode (e.mapStrings toASCII) = Encodable.encode e

end DigitJson

open DigitJson in
def digitJson : Json (GoFloat ℤ) where
  marshal := marshal
  unmarshal := unmarshal
  toValidUTF8 := toASCII
  finite := GoFloat.IsNum

namespace DigitJson

theorem mapStrings_idem (e : JsonEntry (GoFloat ℤ)) :
    (e.mapStrings toASCII).mapStrings toASCII = e.mapStrings toASCII := by
  simp only [JsonEntry.mapStrings, toASCII_idem]

variable {e : JsonEntry (GoFloat ℤ)}

theorem marshal_eq_some :
    marshal e = some b ↔ e.f.IsNum ∧ b = code (Encodable.encode (e.mapStrings toASCII)) := by
  rw [marshal]
  split_ifs with h
  · simp [h, eq_comm]
  · simp [h]

theorem unmarshal_eq_some (h : unmarshal b = some e) :
    marshal e = some b ∧ e.mapStrings toASCII = e := by
  rw [unmarshal, filter_eq_some_iff] at h
  obtain ⟨-, h⟩ := h
  simp only [decide_eq_true_eq] at h
  exact ⟨h.1, Encodable.encode_injective h.2⟩

theorem code_ne_nil (n : ℕ) : code n ≠ [] := List.cons_ne_nil _ _

theorem length_code_le {n k : ℕ} (h : n < 10 ^ k) : (code n).length ≤ k + 2 := by
  have hdigits : (digits n).length ≤ k := by
    rw [digits, length_map]
    exact (Nat.digits_length_le_iff (by decide) n).mpr h
  simpa [code] using hdigits

theorem notMem_code {c : UInt8} (h : c.toNat < 48) : c ∉ code n := by
  rw [code, mem_cons, mem_append, mem_singleton]
  rintro (rfl | hmem | rfl)
  · exact absurd h (by decide)
  · exact absurd (toNat_of_mem_digits hmem).1 (not_le.mpr h)
  · exact absurd h (by decide)

theorem unmarshal_marshal (h : marshal e = some b) : unmarshal b = some (e.mapStrings toASCII) := by
  obtain ⟨hnum, rfl⟩ := marshal_eq_some.mp h
  rw [unmarshal, number_code, Encodable.encodek, filter_some, if_pos]
  refine decide_eq_true ⟨marshal_eq_some.mpr ⟨hnum, ?_⟩, ?_⟩ <;> rw [mapStrings_idem]

theorem unmarshal_part {b part : List UInt8} (h : marshal e = some b) (hpart : part <+: b)
    (hne : part ≠ b) : unmarshal part = none := by
  refine eq_none_iff_forall_ne_some.mpr fun e' he' => hne ?_
  obtain ⟨-, hb⟩ := marshal_eq_some.mp h
  obtain ⟨-, hpart'⟩ := marshal_eq_some.mp (unmarshal_eq_some he').1
  rw [hb, hpart'] at hpart ⊢
  exact eq_of_code_isPrefix hpart

theorem unmarshal_two {e e' : JsonEntry (GoFloat ℤ)} {b b' : List UInt8} (h : marshal e = some b)
    (h' : marshal e' = some b') : unmarshal (b ++ b') = none := by
  refine eq_none_iff_forall_ne_some.mpr fun e'' he'' => ?_
  obtain ⟨-, hb⟩ := marshal_eq_some.mp h
  obtain ⟨-, hb'⟩ := marshal_eq_some.mp h'
  obtain ⟨-, hboth⟩ := marshal_eq_some.mp (unmarshal_eq_some he'').1
  have hcode : b = b ++ b' := by
    have hpart : b <+: b ++ b' := prefix_append b b'
    rw [hboth] at hpart ⊢
    rw [hb] at hpart ⊢
    exact eq_of_code_isPrefix hpart
  exact code_ne_nil _ (hb' ▸ self_eq_append_right.mp hcode)

theorem lawful : digitJson.Lawful where
  finite_zero := trivial
  marshal_isSome e := by
    change (marshal e).isSome ↔ e.f.IsNum
    rw [marshal]
    split_ifs with h <;> simp [h]
  unmarshal_marshal := unmarshal_marshal
  marshal_line := by
    intro e b h
    obtain ⟨-, rfl⟩ := marshal_eq_some.mp h
    exact ⟨code_ne_nil _, notMem_code (by decide), notMem_code (by decide)⟩
  unmarshal_part := unmarshal_part
  unmarshal_two := unmarshal_two
  unmarshal_valid := by
    intro b e h
    obtain ⟨hmarshal, hvalid⟩ := unmarshal_eq_some h
    exact ⟨hvalid, (marshal_eq_some.mp hmarshal).1⟩
  toValidUTF8_ascii := by
    intro s hs
    exact (map_congr_left fun b hb => if_pos (hs b hb)).trans (map_id s)
  toValidUTF8_idem := toASCII_idem

theorem marshal_short (h : digitJson.marshal e = some b)
    (he : Encodable.encode (e.mapStrings toASCII) < 10 ^ 10000) : b.length < maxLine := by
  obtain ⟨-, rfl⟩ := marshal_eq_some.mp h
  exact (length_code_le he).trans_lt (by decide)

theorem validUTF8_of_isASCII {s : GoString} (h : s.IsASCII) : digitJson.ValidUTF8 s :=
  lawful.toValidUTF8_ascii h

end DigitJson

def ceilingOp : StoreOp (GoFloat ℤ) := .set (.customer, ascii "u@d") (ascii "Ceiling") (.int 5)

theorem loggable_ceilingOp (s : FileStore (GoFloat ℤ)) : s.Loggable digitJson ceilingOp := by
  refine ⟨fun c b hc hb => ?_, ?_, ?_, trivial⟩
  · cases hc
    exact DigitJson.marshal_short hb (by decide +kernel)
  all_goals exact DigitJson.validUTF8_of_isASCII (by decide)

theorem exists_file_ceilingOp : ∃ b,
    digitJson.marshal (entryOf (.set (.customer, ascii "u@d") (ascii "Ceiling") (.int 5))) =
      some b ∧
    (FileStore.fresh.run digitJson [ceilingOp]).file = some (b ++ [newline]) := by
  obtain ⟨b, hb⟩ := isSome_iff_exists.mp
    ((DigitJson.lawful.marshal_isSome (entryOf (.set (.customer, ascii "u@d") (ascii "Ceiling")
      (.int 5)))).mpr DigitJson.lawful.finite_zero)
  refine ⟨b, hb, ?_⟩
  change some ([] ++ written digitJson _) = _
  rw [written, hb]
  rfl

theorem writesShort_digitJson : digitJson.WritesShort := by
  obtain ⟨b, hb, -⟩ := exists_file_ceilingOp
  obtain ⟨hshort, hvalid⟩ := loggable_ceilingOp FileStore.fresh
  exact ⟨(.customer, ascii "u@d"), ascii "Ceiling", .int 5, b, hvalid, hb, hshort _ b rfl hb⟩

theorem log_is_faithful_two_sets :
    let ops : List (StoreOp (GoFloat ℤ)) := [ceilingOp,
      .set (.customer, ascii "u@d") (ascii "Priority") (.float (.num 1)),
      .delete (.customer, ascii "u@d")]
    FileStore.fresh.LoggableRun digitJson ops ∧
      (FileStore.fresh.run digitJson ops).Faithful digitJson := by
  intro ops
  have hops : FileStore.fresh.LoggableRun digitJson ops := by
    refine ⟨loggable_ceilingOp _, ⟨fun c b hc hb => ?_, ?_, ?_, trivial⟩,
      ⟨fun c b hc hb => ?_, trivial⟩, trivial⟩
    · cases hc
      exact DigitJson.marshal_short hb (by decide +kernel)
    · exact DigitJson.validUTF8_of_isASCII (by decide)
    · exact DigitJson.validUTF8_of_isASCII (by decide)
    · cases hc
      exact DigitJson.marshal_short hb (by decide +kernel)
  exact ⟨hops, (log_is_faithful_iff DigitJson.lawful (.inl rfl) openStore_nil ops).mpr hops ops
    prefix_rfl⟩

theorem log_is_not_faithful_nan :
    ¬ (FileStore.fresh.run digitJson
        [.set (.customer, ascii "u@d") (ascii "Priority") (.float .nan)]).Faithful digitJson ∧
      ¬ (FileStore.fresh.run digitJson [.ensure (.customer, ascii "u@d")]).Faithful
        digitJson := by
  constructor
  all_goals
    rintro ⟨s', hs', hsame⟩
    cases hs'
    exact absurd (congrArg isSome (hsame (.customer, ascii "u@d"))) (by decide)

theorem crash_recovery_whole_file : ∃ file,
    (FileStore.fresh.run digitJson [ceilingOp]).file = some file ∧ file ≠ [] ∧
      EndsLine newline file ∧ Recovers digitJson [ceilingOp] file := by
  obtain ⟨b, -, hfile⟩ := exists_file_ceilingOp
  have hops : FileStore.fresh.LoggableRun digitJson [ceilingOp] :=
    ⟨loggable_ceilingOp _, trivial⟩
  have hends : EndsLine newline (b ++ [newline]) := endsLine_concat b
  exact ⟨_, hfile, by simp, hends,
    (crash_recovery_iff DigitJson.lawful writesShort_digitJson hops hfile prefix_rfl).mpr hends⟩

theorem crash_recovery_cut_line : ∃ b,
    (FileStore.fresh.run digitJson [ceilingOp]).file = some (b ++ [newline]) ∧
      ¬ Recovers digitJson [ceilingOp] (b.take 1) ∧ ¬ Recovers digitJson [ceilingOp] b := by
  obtain ⟨b, hb, hfile⟩ := exists_file_ceilingOp
  have hne : b ≠ [] := (DigitJson.lawful.marshal_line hb).1
  have hempty : (FileStore.fresh.run digitJson []).file = some [] := rfl
  refine ⟨b, hfile, ?_, ?_⟩
  · exact DigitJson.lawful.not_recovers writesShort_digitJson sound_fresh hempty hb
      (by simp [hne]) (List.take_prefix 1 b)
  · exact DigitJson.lawful.not_recovers writesShort_digitJson sound_fresh hempty hb hne prefix_rfl

end GolangCollector.Accountant
