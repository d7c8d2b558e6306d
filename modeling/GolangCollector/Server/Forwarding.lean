import GolangCollector.Lib.Replay
import GolangCollector.Lib.Runs
import GolangCollector.Server.Commands
import GolangCollector.Server.Query
import GolangCollector.Store.Stamp

/-! # Forwarding to a view host

An update or invalidation handler changes the store and then puts what it received into the queue of
each view host; a worker sends the queue's items, one after the other, to the view host
(`server/server.go`, `server/forward.go`), which is a collector of the same kind. Changing the store
and queueing are two steps, and handlers of several connections interleave between them.

The two stores are compared by the versions of their public ads (`Store.versions`): an ad without
the receive time, which each collector stamps itself. On versions a forwarded item is an operation
(`relayedOp`), and the view host replays the operations of the primary. -/

namespace GolangCollector

open GoStrings GoInt List Option

/-! ## Versions -/

abbrev AdContent := Text → Option Expr

def ClassAd.version (ad : ClassAd) : AdContent := fun attr =>
  if toLower attr = toLower attrLastHeardFrom then none else ad.lookup attr

abbrev Versions := AdType → Text → Option AdContent

def Store.versions (s : Store) : Versions := fun t k =>
  if t = .startdPvtAd then none else ((s.cols t).lookup k).map ClassAd.version

inductive TableOp where
  | keep
  /-- Store a version under a key, or remove the key. -/
  | set (k : Text) (v : Option AdContent)
  /-- Remove the keys that some version of the table stands for. -/
  | dropWhere (doomed : AdContent → Text → Prop)

open Classical in
noncomputable def TableOp.apply (tab : Text → Option AdContent) : TableOp → Text → Option AdContent
  | keep => tab
  | set k v => Function.update tab k v
  | dropWhere doomed => fun k => if ∃ k' v, tab k' = some v ∧ doomed v k then none else tab k

abbrev VersionOp := AdType × TableOp

noncomputable def VersionOp.act (op : VersionOp) (m : Versions) : Versions :=
  Function.update m op.1 (op.2.apply (m op.1))

def VersionOp.Apart (a b : VersionOp) : Prop :=
  a.1 ≠ b.1 ∨ a.2 = .keep ∨ b.2 = .keep ∨
    ∃ k v k' v', a.2 = .set k v ∧ b.2 = .set k' v' ∧ k ≠ k'

theorem VersionOp.Apart.commute {a b : VersionOp} (h : a.Apart b) :
    Function.Commute a.act b.act := by
  obtain ⟨t, op⟩ := a
  obtain ⟨t', op'⟩ := b
  intro m
  by_cases htable : t = t'
  · subst htable
    have hsame : op.apply (op'.apply (m t)) = op'.apply (op.apply (m t)) := by
      rcases h with h | rfl | rfl | ⟨k, v, k', v', rfl, rfl, hne⟩
      · exact absurd rfl h
      · rfl
      · rfl
      · exact Function.update_comm hne.symm ..
    simp only [act, Function.update_self, Function.update_idem, hsame]
  · simp only [act, Function.update_of_ne htable, Function.update_of_ne (Ne.symm htable)]
    exact Function.update_comm (Ne.symm htable) ..

/-! ## The handlers -/

inductive HandlerRequest where
  /-- An `UPDATE_*_AD`, with a startd's private ad where one follows. -/
  | update (cmd : Command) (text : Text) (pvt : Option Text)
  /-- `UPDATE_STARTD_AD_WITH_ACK`; a private ad that follows is read and dropped. -/
  | ackUpdate (text : Text)
  /-- An `INVALIDATE_*_ADS`. -/
  | invalidate (cmd : Command) (ad : ClassAd)
  deriving DecidableEq

abbrev ForwardItem := Command × ClassAd

section

variable (lib : QueryLibrary) (now : Int)

def Store.invalidateBy (s : Store) (t : AdType) (ad : ClassAd) : Except StoreError Store :=
  let constraint := (parseQuery lib ad).constraint
  if constraint = [] then (s.invalidate lib.toLibrary t [] (some ad)).map Prod.fst
  else (s.invalidate lib.toLibrary t constraint none).map Prod.fst

def Store.receive (s : Store) : HandlerRequest → Option Store
  | .update cmd text _ =>
    (updateCommands cmd).bind fun t => (s.updateOldText lib.toLibrary now t text).toOption
  | .ackUpdate text => (s.updateOldText lib.toLibrary now .startdAd text).toOption
  | .invalidate cmd ad =>
    (invalidateCommands cmd).bind fun t => (s.invalidateBy lib t ad).toOption

def HandlerRequest.forwarded : HandlerRequest → Option ForwardItem
  | update cmd text _ => (parseOld lib.toLibrary text).map (cmd, ·)
  | ackUpdate text => (parseOld lib.toLibrary text).map (.updateStartdAd, ·)
  | invalidate cmd ad => some (cmd, ad)

def HandlerRequest.private? : HandlerRequest → Option (Text × Text)
  | update cmd text (some pvt) => if cmd = .updateStartdAd then some (text, pvt) else none
  | _ => none

def Store.relay (wire : ClassAd → Text) (s : Store) (item : ForwardItem) : Store :=
  match updateCommands item.1 with
  | some t => (s.updateOldText lib.toLibrary now t (wire item.2)).toOption.getD s
  | none =>
    match invalidateCommands item.1 with
    | some t => (s.invalidateBy lib t item.2).toOption.getD s
    | none => s

end

/-! ## What a command does to the versions -/

def StampBlind (lib : Library) (t : AdType) (q : Expr) : Prop :=
  ∀ ad ad' : ClassAd, ad.version = ad'.version → lib.selects q ad →
    lib.selects q ad' ∧ hashKey lib.eval t ad = hashKey lib.eval t ad'

def invalidateOp (lib : QueryLibrary) (t : AdType) (ad : ClassAd) : TableOp :=
  match parseConstraint lib.toLibrary (parseQuery lib ad).constraint with
  | .error _ => .keep
  | .ok none =>
    if (parseQuery lib ad).constraint = [] then
      match hashKey lib.eval t ad with
      | some k => .set k none
      | none => .keep
    else .keep
  | .ok (some q) =>
    .dropWhere fun v k => ∃ ad : ClassAd,
      ad.version = v ∧ lib.selects q ad ∧ hashKey lib.eval t ad = some k

def updateOp (lib : Library) (t : AdType) (text : Text) : TableOp :=
  match hashKeyFromText t text, parseOld lib text with
  | some k, some ad => .set k (some ad.version)
  | _, _ => .keep

def relayedOp (lib : QueryLibrary) (wire : ClassAd → Text) (item : ForwardItem) : VersionOp :=
  match updateCommands item.1 with
  | some t => (t, updateOp lib.toLibrary t (wire item.2))
  | none =>
    match invalidateCommands item.1 with
    | some t => (t, invalidateOp lib t item.2)
    | none => (.anyAd, .keep)

section

variable {lib : Library} {now : Int} {s s' : Store} {text : Text}

theorem version_of_parseOld_stampText {ad ad' : ClassAd} (h : parseOld lib text = some ad)
    (h' : parseOld lib (stampText text now) = some ad') : ad'.version = ad.version := by
  funext attr
  rw [ClassAd.version, ClassAd.version]
  split_ifs with hstamp
  · rfl
  · rw [lookup_parseOld h, lookup_parseOld h', sourceBy_stampText, if_neg hstamp]

theorem mem_lines_of_stampText {text l : Text} (h : l ∈ lines (stampText text now)) :
    l ∈ lines text ∨ trimSpace l = [] ∨ '=' ∈ l := by
  rw [stampText, append_assoc, append_assoc, append_assoc,
    lines_append_of_endLine (Or.inr (getLast?_endLine text)), mem_append] at h
  rcases h with h | h
  · rw [endLine] at h
    split at h
    · exact .inl h
    · rename_i hlast
      by_cases hnil : text = []
      · rw [hnil, nil_append, show lines ['\n'] = [[]] from rfl, mem_singleton] at h
        rw [h]
        exact .inr (.inl (by decide))
      · rw [lines_append_newline hnil hlast] at h
        exact .inl h
  · have hline : '\n' ∉ attrLastHeardFrom ++ (" = " ++ formatInt now) := by
      intro hmem
      rcases mem_append.mp hmem with hmem | hmem
      · exact absurd hmem (by decide)
      · rcases mem_append.mp hmem with hmem | hmem
        · exact absurd hmem (by decide)
        · rcases mem_formatInt hmem with hd | hd <;> exact absurd hd (by decide)
    rw [← append_assoc " = ".toList, ← append_assoc attrLastHeardFrom,
      lines_line_append hline, lines, mem_singleton] at h
    rw [h]
    exact .inr (.inr (mem_append_right _ (mem_append_left _ (by decide))))

theorem parseOld_stampText_isSome (hlit : lib.ReadsLiterals) (hnow : IsInt64 now) (text : Text) :
    (parseOld lib (stampText text now)).isSome = (parseOld lib text).isSome := by
  rw [Bool.eq_iff_iff, parseOld_isSome_iff, parseOld_isSome_iff, attrLines_stampText]
  obtain ⟨e, he, -⟩ := hlit.integer now hnow
  constructor
  · rintro ⟨hlines, hexprs⟩
    exact ⟨fun l hl => hlines l (mem_lines_stampText now hl),
      fun q hq => hexprs q (mem_append_left _ hq)⟩
  · rintro ⟨hlines, hexprs⟩
    refine ⟨fun l hl => (mem_lines_of_stampText hl).elim (hlines l) id, fun q hq => ?_⟩
    rcases mem_append.mp hq with hq | hq
    · exact hexprs q hq
    · rw [mem_singleton.mp hq, he]
      rfl

variable {t : AdType}

theorem versions_setCol (hpvt : t ≠ .startdPvtAd) (tab : Table) :
    (s.setCol t tab).versions =
      Function.update s.versions t fun k => (tab.lookup k).map ClassAd.version := by
  funext t' k
  by_cases ht : t' = t
  · subst ht
    simp [Store.versions, hpvt]
  · simp [Store.versions, ht]

theorem versions_updateOldText (hlit : lib.ReadsLiterals) (hnow : IsInt64 now) (hany : t ≠ .anyAd)
    (hpvt : t ≠ .startdPvtAd) (text : Text) :
    ((s.updateOldText lib now t text).toOption.getD s).versions =
        VersionOp.act (t, updateOp lib t text) s.versions ∧
      ((s.updateOldText lib now t text).toOption.isSome → (parseOld lib text).isSome) := by
  have hkeep : s.versions = VersionOp.act (t, .keep) s.versions :=
    (Function.update_eq_self ..).symm
  rw [Store.updateOldText, if_neg hany, updateOp]
  cases hkey : hashKeyFromText t text with
  | none => exact ⟨hkeep, by rintro ⟨⟩⟩
  | some key =>
    have hsome := parseOld_stampText_isSome hlit hnow text
    cases hparse : parseOld lib text with
    | none =>
      rw [hparse, isSome_none, isSome_eq_false_iff, isNone_iff_eq_none] at hsome
      simp only [Table.updateOld, hsome]
      exact ⟨hkeep, by rintro ⟨⟩⟩
    | some ad =>
      rw [hparse, isSome_some, isSome_iff_exists] at hsome
      obtain ⟨ad', had'⟩ := hsome
      simp only [Table.updateOld, had']
      refine ⟨?_, fun _ => rfl⟩
      change (s.setCol t ((s.cols t).insert key ad')).versions = _
      rw [versions_setCol hpvt, VersionOp.act]
      congr 1
      funext k
      by_cases hk : k = key
      · subst hk
        simp [TableOp.apply, version_of_parseOld_stampText hparse had']
      · simp [TableOp.apply, hk, AList.lookup_insert_ne hk, Store.versions, hpvt]

theorem versions_removeKeys (hpvt : t ≠ .startdPvtAd) (keys : List Text) :
    Store.versions { s with cols := (removeKeys s.cols t keys).1 } =
      Function.update s.versions t fun k => if k ∈ keys then none else s.versions t k := by
  funext t' k
  by_cases ht : t' = t
  · subst ht
    by_cases hk : k ∈ keys
    · simp [Store.versions, lookup_removeKeys, hk, shadows]
    · simp [Store.versions, lookup_removeKeys, hk]
  · rw [Function.update_of_ne ht]
    by_cases ht' : t' = .startdPvtAd
    · simp [Store.versions, ht']
    · simp [Store.versions, lookup_removeKeys, ht', shadows, ht]

theorem versions_invalidateBy {lib : QueryLibrary} (hany : t ≠ .anyAd)
    (hpvt : t ≠ .startdPvtAd) {ad : ClassAd}
    (hblind : ∀ q, parseConstraint lib.toLibrary (parseQuery lib ad).constraint = .ok (some q) →
      StampBlind lib.toLibrary t q) : ((s.invalidateBy lib t ad).toOption.getD s).versions =
      VersionOp.act (t, invalidateOp lib t ad) s.versions := by
  have hkeep : s.versions = VersionOp.act (t, .keep) s.versions :=
    (Function.update_eq_self ..).symm
  rw [Store.invalidateBy, invalidateOp]
  generalize hc : (parseQuery lib ad).constraint = constraint at hblind
  have hnil : parseConstraint lib.toLibrary [] = .ok none := rfl
  by_cases hempty : constraint = []
  · -- the one ad that is identified
    subst hempty
    rw [if_pos rfl, Store.invalidate, hnil]
    simp only [Except.map, Except.toOption, getD_some, if_neg hany, if_true,
      Store.invalidatedKeys, bind_some]
    rw [versions_removeKeys hpvt]
    cases hkey : hashKey lib.eval t ad with
    | none =>
      simp [VersionOp.act, TableOp.apply]
    | some key =>
      rw [VersionOp.act]
      congr 1
      funext k
      by_cases hk : k = key <;> simp [TableOp.apply, hk]
  · rw [if_neg hempty, Store.invalidate]
    cases hq : parseConstraint lib.toLibrary constraint with
    | error e => exact hkeep
    | ok q =>
      simp only [Except.map, Except.toOption, getD_some, if_neg hany, Store.invalidatedKeys]
      rw [versions_removeKeys hpvt]
      cases q with
      | none => simp [VersionOp.act, TableOp.apply, hempty]
      | some q =>
        rw [VersionOp.act]
        congr 1
        funext k
        rw [TableOp.apply]
        -- the versions of the table stand for the keys of the ads that are selected
        have hiff : k ∈ (s.queryOne lib.toLibrary t (some q)).filterMap (hashKey lib.eval t) ↔
            ∃ k' v, s.versions t k' = some v ∧ ∃ ad : ClassAd, ad.version = v ∧
              lib.selects q ad ∧ hashKey lib.eval t ad = some k := by
          rw [mem_filterMap]
          simp only [Store.queryOne, if_neg hany, mem_filter, Table.mem_scan_iff,
            Library.satisfies, Store.versions, if_neg hpvt, map_eq_some_iff]
          constructor
          · rintro ⟨ad, ⟨⟨k', hk'⟩, hsel⟩, hkey⟩
            exact ⟨k', ad.version, ⟨ad, hk', rfl⟩, ad, rfl, hsel, hkey⟩
          · rintro ⟨k', _, ⟨ad, hk', rfl⟩, ad', hver, hsel, hkey⟩
            obtain ⟨hsel', hkeys⟩ := hblind q hq ad' ad hver hsel
            exact ⟨ad, ⟨⟨k', hk'⟩, hsel'⟩, hkeys ▸ hkey⟩
        by_cases hmem :
            k ∈ (s.queryOne lib.toLibrary t (some q)).filterMap (hashKey lib.eval t)
        · rw [if_pos hmem]
          exact (if_pos (hiff.mp hmem)).symm
        · rw [if_neg hmem]
          exact (if_neg (mt hiff.mpr hmem)).symm

end

/-! ## The system -/

inductive HandlerPhase where
  | idle
  /-- The store was changed; the item, if the text parsed, is not yet queued. -/
  | stored (item : Option ForwardItem) (pvt : Option (Text × Text))
  /-- The item was queued; a private ad is left to store. -/
  | queued (pvt : Text × Text)
  deriving DecidableEq

def HandlerPhase.pending : HandlerPhase → Option ForwardItem
  | stored item _ => item
  | _ => none

def HandlerPhase.afterQueue : Option (Text × Text) → HandlerPhase
  | some pvt => .queued pvt
  | none => .idle

/-- **The primary and its view host.** -/
structure Forwarding (C : Type) where
  primary : Store
  view : Store
  queue : List ForwardItem
  conns : C → HandlerPhase

inductive ForwardMove (C : Type) where
  /-- A handler receives a request and changes the store. -/
  | store (c : C) (now : Int) (req : HandlerRequest)
  /-- A handler queues what it received. -/
  | enqueue (c : C)
  /-- A handler stores a startd's private ad. -/
  | storePvt (c : C) (now : Int)
  /-- The view host handles the first item of the queue. -/
  | deliver (now : Int)

namespace Forwarding

def init (C : Type) : Forwarding C := ⟨.new, .new, [], fun _ => .idle⟩

variable {C : Type} [DecidableEq C] (lib : QueryLibrary) (wire : ClassAd → Text)

def step (s : Forwarding C) : ForwardMove C → Option (Forwarding C)
  | .store c now req =>
    if s.conns c = .idle then
      match s.primary.receive lib now req with
      | none => some s
      | some primary =>
        some { s with
          primary
          conns := Function.update s.conns c (.stored (req.forwarded lib) req.private?) }
    else none
  | .enqueue c =>
    match s.conns c with
    | .stored item pvt =>
      some { s with
        queue := s.queue ++ item.toList
        conns := Function.update s.conns c (.afterQueue pvt) }
    | _ => none
  | .storePvt c now =>
    match s.conns c with
    | .queued pvt =>
      some { s with
        primary := (s.primary.updatePvt lib.toLibrary now pvt.1 pvt.2).toOption.getD s.primary
        conns := Function.update s.conns c .idle }
    | _ => none
  | .deliver now =>
    match s.queue with
    | [] => none
    | item :: queue => some { s with view := s.view.relay lib now wire item, queue }

def Drained (s : Forwarding C) : Prop := s.queue = [] ∧ ∀ c, (s.conns c).pending = none

def Carried : HandlerRequest → Prop
  | .update cmd text _ => ∀ t ad, updateCommands cmd = some t → parseOld lib.toLibrary text = some ad →
      updateOp lib.toLibrary t (wire ad) = updateOp lib.toLibrary t text
  | .ackUpdate text => ∀ ad, parseOld lib.toLibrary text = some ad →
      updateOp lib.toLibrary .startdAd (wire ad) = updateOp lib.toLibrary .startdAd text
  | .invalidate cmd ad => ∀ t q, invalidateCommands cmd = some t →
      parseConstraint lib.toLibrary (parseQuery lib ad).constraint = .ok (some q) →
      StampBlind lib.toLibrary t q

def Orderly (s : Forwarding C) : ForwardMove C → Prop
  | .store _ now req => IsInt64 now ∧ Carried lib wire req ∧
      ∀ item, req.forwarded lib = some item → ∀ c other, (s.conns c).pending = some other →
        (relayedOp lib wire other).Apart (relayedOp lib wire item)
  | .deliver now => IsInt64 now
  | _ => True

def Blind (item : ForwardItem) : Prop :=
  ∀ t q, invalidateCommands item.1 = some t →
    parseConstraint lib.toLibrary (parseQuery lib item.2).constraint = .ok (some q) →
    StampBlind lib.toLibrary t q

section

variable {lib wire} {now : Int} {cmd : Command}

theorem blind_of_update (h : updateCommands cmd = some t) (ad : ClassAd) : Blind lib (cmd, ad) := by
  intro t' q ht'
  rw [invalidateCommands_of_update h] at ht'
  cases ht'

theorem versions_receive_text (hlit : lib.ReadsLiterals) (hnow : IsInt64 now) {p p' : Store}
    (ht : updateCommands cmd = some t)
    (h : (p.updateOldText lib.toLibrary now t text).toOption = some p')
    (hcarried : ∀ ad, parseOld lib.toLibrary text = some ad →
      updateOp lib.toLibrary t (wire ad) = updateOp lib.toLibrary t text) :
    ∃ ad, parseOld lib.toLibrary text = some ad ∧
      p'.versions = (relayedOp lib wire (cmd, ad)).act p.versions := by
  obtain ⟨hany, hpvt⟩ := updateCommands_public ht
  obtain ⟨hversions, hparse⟩ :
      ((p.updateOldText lib.toLibrary now t text).toOption.getD p).versions = _ ∧ _ :=
    versions_updateOldText hlit hnow hany hpvt text
  rw [h] at hversions hparse
  obtain ⟨ad, had⟩ := isSome_iff_exists.mp (hparse rfl)
  refine ⟨ad, had, hversions.trans ?_⟩
  simp only [relayedOp, ht, hcarried ad had]

theorem versions_receive (hlit : lib.ReadsLiterals) (hnow : IsInt64 now) {p p' : Store}
    {req : HandlerRequest} (h : p.receive lib now req = some p') (hcarried : Carried lib wire req) :
    ∃ item, req.forwarded lib = some item ∧ Blind lib item ∧
      p'.versions = (relayedOp lib wire item).act p.versions := by
  cases req with
  | update cmd text pvt =>
    obtain ⟨t, ht, h⟩ := bind_eq_some_iff.mp h
    obtain ⟨ad, had, hversions⟩ := versions_receive_text hlit hnow ht h fun ad => hcarried t ad ht
    exact ⟨(cmd, ad), by simp [HandlerRequest.forwarded, had], blind_of_update ht ad, hversions⟩
  | ackUpdate text =>
    have ht : updateCommands .updateStartdAd = some .startdAd := rfl
    obtain ⟨ad, had, hversions⟩ := versions_receive_text hlit hnow ht h hcarried
    exact ⟨(.updateStartdAd, ad), by simp [HandlerRequest.forwarded, had], blind_of_update ht ad,
      hversions⟩
  | invalidate cmd ad =>
    obtain ⟨t, ht, h⟩ := bind_eq_some_iff.mp h
    obtain ⟨hany, hpvt⟩ := invalidateCommands_public ht
    have hnot : updateCommands cmd = none := by
      cases hup : updateCommands cmd with
      | none => rfl
      | some t' => simp [invalidateCommands_of_update hup] at ht
    refine ⟨(cmd, ad), rfl, hcarried, ?_⟩
    have hversions := versions_invalidateBy (s := p) hany hpvt fun q => hcarried t q ht
    rw [h] at hversions
    simp only [relayedOp, hnot, ht]
    exact hversions

variable {item : ForwardItem}

theorem versions_relay (hlit : lib.ReadsLiterals) (hnow : IsInt64 now) {v : Store}
    (hblind : Blind lib item) :
    (v.relay lib now wire item).versions = (relayedOp lib wire item).act v.versions := by
  rw [Store.relay, relayedOp]
  cases hup : updateCommands item.1 with
  | some t =>
    obtain ⟨hany, hpvt⟩ := updateCommands_public hup
    exact (versions_updateOldText hlit hnow hany hpvt _).1
  | none =>
    cases hinv : invalidateCommands item.1 with
    | some t =>
      obtain ⟨hany, hpvt⟩ := invalidateCommands_public hinv
      exact versions_invalidateBy hany hpvt fun q => hblind t q hinv
    | none => exact (Function.update_eq_self ..).symm

theorem versions_updatePvt (p : Store) (publicText pvtText : Text) :
    ((p.updatePvt lib.toLibrary now publicText pvtText).toOption.getD p).versions = p.versions := by
  rw [Store.updatePvt]
  cases hashKeyFromText .startdAd publicText with
  | none => rfl
  | some key =>
    simp only [Table.updateOld]
    cases parseOld lib.toLibrary (pvtAdText publicText pvtText now) with
    | none => rfl
    | some ad =>
      funext t k
      by_cases ht : t = .startdPvtAd
      · simp [Store.versions, ht]
      · simp [Store.versions, ht, Except.map, Except.toOption]

end

structure Tracks (conns : C → HandlerPhase) (pend : List (C × ForwardItem)) : Prop where
  nodup : (pend.map Prod.fst).Nodup
  mem_iff : ∀ c item, (c, item) ∈ pend ↔ (conns c).pending = some item

section

variable {conns : C → HandlerPhase} {pend : List (C × ForwardItem)} {c : C} {item : ForwardItem}
  {phase : HandlerPhase}

theorem Tracks.add (h : Tracks conns pend) (hnone : (conns c).pending = none)
    (hphase : phase.pending = some item) :
    Tracks (Function.update conns c phase) (pend ++ [(c, item)]) := by
  have hfresh : ∀ other, (c, other) ∉ pend := by
    intro other hother
    rw [h.mem_iff, hnone] at hother
    cases hother
  constructor
  · rw [map_append, map_singleton, ← concat_eq_append, nodup_concat]
    refine ⟨fun hc => ?_, h.nodup⟩
    obtain ⟨⟨c', other⟩, hother, rfl⟩ := mem_map.mp hc
    exact hfresh other hother
  · intro c' other
    by_cases hc : c' = c
    · subst hc
      simp [hfresh, hphase, eq_comm]
    · simp [h.mem_iff, hc]

theorem Tracks.keep (h : Tracks conns pend) (hphase : phase.pending = (conns c).pending) :
    Tracks (Function.update conns c phase) pend := by
  refine ⟨h.nodup, fun c' other => ?_⟩
  by_cases hc : c' = c
  · subst hc
    rw [Function.update_self, hphase, h.mem_iff]
  · rw [Function.update_of_ne hc, h.mem_iff]

theorem Tracks.remove (h : Tracks conns pend) (hitem : (conns c).pending = some item)
    (hphase : phase.pending = none) :
    ∃ rest, pend.Perm ((c, item) :: rest) ∧ Tracks (Function.update conns c phase) rest := by
  obtain ⟨l₁, l₂, rfl⟩ := append_of_mem ((h.mem_iff c item).mpr hitem)
  have hperm : (l₁ ++ (c, item) :: l₂).Perm ((c, item) :: (l₁ ++ l₂)) := perm_middle
  have hnodup := (hperm.map Prod.fst).nodup_iff.mp h.nodup
  rw [map_cons, nodup_cons] at hnodup
  refine ⟨l₁ ++ l₂, hperm, hnodup.2, fun c' other => ?_⟩
  by_cases hc : c' = c
  · subst hc
    rw [Function.update_self, hphase]
    simp only [reduceCtorEq, iff_false]
    exact fun hother => hnodup.1 (mem_map.mpr ⟨_, hother, rfl⟩)
  · rw [Function.update_of_ne hc, ← h.mem_iff, hperm.mem_iff]
    simp [hc]

end

def InStep (s : Forwarding C) : Prop :=
  (∀ item ∈ s.queue, Blind lib item) ∧
  ∃ pend : List (C × ForwardItem), Tracks s.conns pend ∧ (∀ p ∈ pend, Blind lib p.2) ∧
    Replay.Consistent VersionOp.act s.primary.versions s.view.versions
      (s.queue.map (relayedOp lib wire)) (pend.map fun p => relayedOp lib wire p.2)

section

variable {lib wire} {s s' : Forwarding C} {l : ForwardMove C}

theorem InStep.step (hlit : lib.ReadsLiterals) (h : InStep lib wire s)
    (hstep : s.step lib wire l = some s') (hcond : Orderly lib wire s l) : InStep lib wire s' := by
  obtain ⟨hqueue, pend, htracks, hblind, hcons⟩ := h
  cases l with
  | store c now req =>
    rw [Forwarding.step] at hstep
    split at hstep
    · rename_i hidle
      cases hrec : s.primary.receive lib now req with
      | none =>
        rw [hrec] at hstep
        cases hstep
        exact ⟨hqueue, pend, htracks, hblind, hcons⟩
      | some p =>
        rw [hrec] at hstep
        cases hstep
        obtain ⟨item, hitem, hb, hversions⟩ := versions_receive hlit hcond.1 hrec hcond.2.1
        refine ⟨hqueue, pend ++ [(c, item)], htracks.add (by rw [hidle]; rfl) hitem, ?_, ?_⟩
        · simp only [forall_mem_append, forall_mem_singleton]
          exact ⟨hblind, hb⟩
        · rw [hversions, map_append]
          refine hcons.perform ?_
          rintro _ hop
          obtain ⟨⟨c', other⟩, hother, rfl⟩ := mem_map.mp hop
          exact (hcond.2.2 item hitem c' other ((htracks.mem_iff c' other).mp hother)).commute
    · cases hstep
  | enqueue c =>
    rw [Forwarding.step] at hstep
    split at hstep
    · rename_i item pvt hphase
      cases hstep
      have hafter : (HandlerPhase.afterQueue pvt).pending = none := by cases pvt <;> rfl
      cases item with
      | none =>
        refine ⟨by simpa using hqueue, pend, htracks.keep ?_, hblind, by simpa using hcons⟩
        rw [hafter, hphase]
        rfl
      | some item =>
        obtain ⟨rest, hperm, hrest⟩ :=
          htracks.remove (by rw [hphase]; rfl : (s.conns c).pending = some item) hafter
        have hb : ∀ p ∈ (c, item) :: rest, Blind lib p.2 := fun p hp =>
          hblind p (hperm.mem_iff.mpr hp)
        rw [forall_mem_cons] at hb
        refine ⟨?_, rest, hrest, hb.2, ?_⟩
        · simp only [toList_some, forall_mem_append, forall_mem_singleton]
          exact ⟨hqueue, hb.1⟩
        · rw [toList_some, map_append, map_singleton]
          exact hcons.enqueue (hperm.map _)
    · cases hstep
  | storePvt c now =>
    rw [Forwarding.step] at hstep
    split at hstep
    · rename_i pvt hphase
      cases hstep
      refine ⟨hqueue, pend, htracks.keep (by rw [hphase]; rfl), hblind, ?_⟩
      rw [versions_updatePvt]
      exact hcons
    · cases hstep
  | deliver now =>
    rw [Forwarding.step] at hstep
    split at hstep
    · cases hstep
    · rename_i item queue hq
      cases hstep
      rw [hq] at hqueue hcons
      rw [forall_mem_cons] at hqueue
      refine ⟨hqueue.2, pend, htracks, hblind, ?_⟩
      rw [versions_relay hlit hcond hqueue.1]
      exact hcons.deliver

omit [DecidableEq C] in
theorem inStep_init : InStep lib wire (init C) :=
  ⟨by simp [init], [], ⟨.nil, by simp [init, HandlerPhase.pending]⟩, by simp, .refl _⟩

/-- **The view host converges**: after an orderly run it holds the versions of the primary. -/
theorem view_converges (lib : QueryLibrary) (hlit : lib.ReadsLiterals) (wire : ClassAd → Text)
    {ls : List (ForwardMove C)} {s : Forwarding C}
    (hrun : Runs.Run (step lib wire) (Orderly lib wire) (init C) ls s) (hdrained : s.Drained) :
    s.primary.versions = s.view.versions := by
  obtain ⟨-, pend, htracks, -, hcons⟩ := hrun.invariant
    (I := InStep lib wire) (fun _ _ _ hstep hcond h => h.step hlit hstep hcond) inStep_init
  have hnone : pend = [] := by
    rw [eq_nil_iff_forall_not_mem]
    rintro ⟨c, item⟩ hin
    rw [htracks.mem_iff, hdrained.2 c] at hin
    cases hin
  rw [hdrained.1, hnone] at hcons
  exact hcons.eq_of_drained

end

/-! ## Two handlers -/

def literalWire (ad : ClassAd) : Text :=
  ad.attrs.flatMap fun p => p.1 ++ " = " ++ printingLibrary.unparse p.2 ++ ['\n']

def daemonText (load : Nat) : Text :=
  "Name = \"a\"\nLoad = " ++ formatInt load ++ ['\n']

theorem updateOp_congr {lib : Library} {a b : Text}
    (hkey : hashKeyFromText t a = hashKeyFromText t b) (hparse : parseOld lib a = parseOld lib b) :
    updateOp lib t a = updateOp lib t b := by
  rw [updateOp, hkey, hparse, updateOp]

def daemonAd (load : Int) : ClassAd :=
  ⟨[("Name", .lit (.str "a")), ("Load", .lit (.int load))]⟩

theorem carried_daemonText {load : ℕ} (ht : updateCommands cmd = some t)
    (hparse : parseOld printingLibrary.toLibrary (daemonText load) = some (daemonAd load))
    (hkey : hashKeyFromText t (literalWire (daemonAd load)) = hashKeyFromText t (daemonText load))
    (hprint : parseOld printingLibrary.toLibrary (literalWire (daemonAd load)) =
      some (daemonAd load)) :
    Carried printingLibrary literalWire (.update cmd (daemonText load) none) := by
  intro t' ad ht' had
  obtain rfl := some.inj (ht.symm.trans ht')
  obtain rfl := some.inj (hparse.symm.trans had)
  exact updateOp_congr hkey (hprint.trans hparse.symm)

def crossedMoves : List (ForwardMove Bool) :=
  [.store false 10 (.update .updateScheddAd (daemonText 1) none),
    .store true 11 (.update .updateMasterAd (daemonText 2) none), .enqueue true, .enqueue false,
    .deliver 20, .deliver 21]

theorem forwarded_table {pvt : Option Text}
    (h : (HandlerRequest.update cmd text pvt).forwarded printingLibrary = some item) :
    updateCommands item.1 = updateCommands cmd := by
  obtain ⟨ad, -, rfl⟩ := Option.map_eq_some_iff.mp (h : Option.map _ _ = _)
  rfl

theorem relayedOp_fst (h : updateCommands item.1 = some t) :
    (relayedOp printingLibrary literalWire item).1 = t := by
  rw [relayedOp, h]

theorem view_converges_crossed : ∃ s : Forwarding Bool,
    Runs.exec (step printingLibrary literalWire) (init Bool) crossedMoves = some s ∧
      s.primary.versions = s.view.versions ∧ s.primary.len .scheddAd = 1 := by
  have hexec : (Runs.exec (step printingLibrary literalWire) (init Bool) crossedMoves).map
      (fun s => (s.queue, s.conns false, s.conns true, s.primary.len .scheddAd)) =
        some ([], .idle, .idle, 1) := by
    decide +kernel
  obtain ⟨s, hs, hend⟩ := map_eq_some_iff.mp hexec
  simp only [Prod.mk.injEq] at hend
  have hrun : Runs.Run (step printingLibrary literalWire) (Orderly printingLibrary literalWire)
      (init Bool) crossedMoves s := by
    obtain ⟨s₁, h₁, hs⟩ := bind_eq_some_iff.mp hs
    obtain ⟨s₂, h₂, hs⟩ := bind_eq_some_iff.mp hs
    refine .cons h₁ ⟨by decide, carried_daemonText rfl (by decide +kernel) (by decide +kernel)
      (by decide +kernel), by simp [init, HandlerPhase.pending]⟩ (.cons h₂
        ⟨by decide, carried_daemonText rfl (by decide +kernel) (by decide +kernel)
          (by decide +kernel), ?_⟩
        (Runs.Run.of_exec hs (by simp [Orderly, IsInt64])))
    -- the schedd's handler is between its two steps, and of another table
    intro item hitem c other hother
    have hidle : (init Bool).conns false = .idle := rfl
    rw [step, if_pos hidle] at h₁
    cases hrec : Store.receive printingLibrary 10 (init Bool).primary
        (.update .updateScheddAd (daemonText 1) none) with
    | none =>
      rw [hrec] at h₁
      cases h₁
      cases hother
    | some p =>
      rw [hrec] at h₁
      cases h₁
      cases c with
      | true => cases hother
      | false =>
        have hfirst : (HandlerRequest.update .updateScheddAd (daemonText 1) none).forwarded
            printingLibrary = some other := hother
        refine .inl ?_
        rw [relayedOp_fst (forwarded_table hitem), relayedOp_fst (forwarded_table hfirst)]
        decide
  refine ⟨s, hs, view_converges printingLibrary (literalLibrary_readsLiterals _) literalWire hrun
    ⟨hend.1, ?_⟩, hend.2.2.2⟩
  rintro (_ | _)
  · rw [hend.2.1]
    rfl
  · rw [hend.2.2.1]
    rfl

theorem view_diverges :
    Carried printingLibrary literalWire (.update .updateScheddAd (daemonText 1) none) ∧
    Carried printingLibrary literalWire (.update .updateScheddAd (daemonText 2) none) ∧
    (Runs.exec (step printingLibrary literalWire) (init Bool)
      [.store false 10 (.update .updateScheddAd (daemonText 1) none),
        .store true 11 (.update .updateScheddAd (daemonText 2) none), .enqueue true, .enqueue false,
        .deliver 20, .deliver 21]).map
      (fun s => (s.queue, s.conns false, s.conns true,
        [s.primary, s.view].map fun st =>
          ((st.get printingLibrary.toLibrary .scheddAd (daemonAd 0)).bind
            (·.lookup "Load")))) =
      some ([], .idle, .idle, [some (.lit (.int 2)), some (.lit (.int 1))]) := by
  refine ⟨carried_daemonText rfl ?_ ?_ ?_, carried_daemonText rfl ?_ ?_ ?_, ?_⟩ <;> decide +kernel

end Forwarding

end GolangCollector
