import Mathlib.Data.Prod.Lex
import GolangCollector.Lib.Runs
import GolangCollector.Store.Remote

/-! # Conflict resolution by update sequence

When a commit of the remote backend names keys in conflict, `resolveConflicts`
(`store/seqversion.go`) looks up what is stored under each of them and writes the batch's own ad
again where it is newer. Ads are ordered by `DaemonStartTime` and `UpdateSequenceNumber` (`adRank`);
an ad without both ranks below every ad with them.

The lookups and the second transaction run one after the other, each in a retry envelope, while
other writers change the same table: `ResolveState.step`. A transaction commits the keys that nobody
changed since it began and leaves the others. A failed lookup looks like an absent ad, and a change
between the lookup and the begin of the transaction is not seen. -/

namespace GolangCollector

open GoStrings GoInt List Option

/-! ## Versions -/

def attrUpdateSequenceNumber : Text := "UpdateSequenceNumber"

def attrDaemonStartTime : Text := "DaemonStartTime"

def parseSigned : Text → Option Int
  | '-' :: ds => (parseDigits ds).map fun n => -(n : Int)
  | '+' :: ds => (parseDigits ds).map fun n => (n : Int)
  | ds => (parseDigits ds).map fun n => (n : Int)

def parseInt (s : Text) : Option Int := (parseSigned s).filter fun i => IsInt64 i

def intAttrFromText (text name : Text) : Option Int := (sourceOf text name).bind parseInt

structure AdVersion where
  /-- `DaemonStartTime`. -/
  startTime : Int
  /-- `UpdateSequenceNumber`. -/
  seqNo : Int
  deriving DecidableEq, Repr

def versionFromText (text : Text) : Option AdVersion :=
  match intAttrFromText text attrDaemonStartTime, intAttrFromText text attrUpdateSequenceNumber with
  | some startTime, some seqNo => some ⟨startTime, seqNo⟩
  | _, _ => none

def newerThan : Option AdVersion → Option AdVersion → Bool
  | none, _ => false
  | some _, none => true
  | some a, some b =>
    if a.startTime ≠ b.startTime then b.startTime < a.startTime else b.seqNo < a.seqNo

/-- The order of the integers that ranks are compared by. -/
local instance intPreorder : Preorder ℤ := Int.instLinearOrder.toPartialOrder.toPreorder

def versionRank : Option AdVersion → WithBot (ℤ ×ₗ ℤ)
  | none => ⊥
  | some v => ((toLex (v.startTime, v.seqNo) : ℤ ×ₗ ℤ) : WithBot (ℤ ×ₗ ℤ))

def adRank (text : Text) : WithBot (ℤ ×ₗ ℤ) := versionRank (versionFromText text)

theorem newerThan_iff_lt (a b : Option AdVersion) :
    newerThan a b ↔ versionRank b < versionRank a := by
  cases a with
  | none => simp [newerThan, versionRank]
  | some a =>
    cases b with
    | none => simp [newerThan, versionRank]
    | some b =>
      rw [newerThan, versionRank, versionRank, WithBot.coe_lt_coe, Prod.Lex.toLex_lt_toLex]
      split
      · rename_i hne
        simp [hne.symm]
      · rename_i heq
        simp [not_not.mp heq]

/-! ## The resolution as a machine -/

inductive ResolvePc where
  /-- Looking up the next key, with so many conflicts so far. -/
  | looking (conflicts : ℕ)
  /-- Waiting between two rounds of a lookup. -/
  | lookupWaits (conflicts : ℕ)
  /-- About to begin the second transaction. -/
  | writing (conflicts : ℕ)
  /-- Waiting between two rounds of the second transaction. -/
  | writeWaits (conflicts : ℕ)
  /-- In the second transaction; others have changed these keys since it began. -/
  | inTx (conflicts : ℕ) (changed : List Text)
  /-- Returned. -/
  | returned
  deriving DecidableEq, Repr

def ResolvePc.isLookup : ResolvePc → Bool
  | looking _ => true
  | lookupWaits _ => true
  | _ => false

def ResolvePc.changed : ResolvePc → List Text
  | inTx _ changed => changed
  | _ => []

structure Replacement where
  /-- The key. -/
  key : Text
  /-- What was stored. -/
  old : Text
  /-- What is stored instead. -/
  new : Text
  deriving DecidableEq, Repr

/-- A table and the resolution of a conflict on it. -/
structure ResolveState where
  /-- What the table stores. -/
  stored : Text → Option Text
  /-- The batch's own texts of the conflicted keys. -/
  ours : GoMap Text Text
  /-- The keys still to be looked up. -/
  todo : List Text
  /-- The ads to write again. -/
  rewrite : List KeyedText
  /-- Where the resolution is. -/
  pc : ResolvePc
  /-- The keys whose lookup failed, for the record. -/
  failed : List Text
  /-- The ads replaced by other ones, for the record. -/
  replaced : List Replacement

def oursOf (keys : List Text) (items : List KeyedText) : GoMap Text Text :=
  items.foldl (fun m it => if it.key ∈ keys then m.insert it.key it.text else m) ∅

inductive ResolveLabel where
  /-- Another writer stores a text under a key, or removes the key. -/
  | otherWrites (key : Text) (text : Option Text)
  /-- A round of a lookup: the time since its envelope was opened, whether the context has ended,
  and what the connection and the lookup return. -/
  | lookup (elapsed : ℕ) (ctxDone : Bool) (r : Except RpcError (Except RpcError Unit))
  /-- The begin of the second transaction, or its failure. -/
  | begins (elapsed : ℕ) (ctxDone : Bool) (r : Except RpcError (Except RpcError Unit))
  /-- The second transaction fails; `applied` are the rejected places where the server has committed
  it all the same and only the answer was lost. -/
  | txFails (elapsed : ℕ) (ctxDone : Bool) (err : RpcError) (applied : Option (List ℕ))
  /-- The second transaction commits, with these places rejected. -/
  | commits (rejects : List ℕ)
  /-- A wait between two rounds is over. -/
  | wake
  /-- A wait between two rounds is cut short by the end of the context. -/
  | cutShort

namespace ResolveState

def next (s : ResolveState) : ResolveState :=
  match s.todo.dropWhile fun key => ((s.ours.lookup key).bind versionFromText).isNone with
  | [] => { s with todo := [], pc := if s.rewrite = [] then .returned else .writing 0 }
  | key :: rest => { s with todo := key :: rest, pc := .looking 0 }

def start (stored : Text → Option Text) (keys : List Text) (items : List KeyedText) :
    ResolveState :=
  next { stored := stored, ours := oursOf keys items, todo := keys, rewrite := []
         pc := .looking 0, failed := [], replaced := [] }

def afterLookup (s : ResolveState) (present : Option Text) : ResolveState :=
  match s.todo with
  | [] => s
  | key :: rest =>
    match s.ours.lookup key with
    | none => next { s with todo := rest }
    | some text =>
      if present.all fun old => newerThan (versionFromText text) (versionFromText old) then
        next { s with todo := rest, rewrite := s.rewrite ++ [⟨key, text⟩] }
      else next { s with todo := rest }

def lookupFails (s : ResolveState) : ResolveState :=
  afterLookup { s with failed := s.todo.head?.toList ++ s.failed } none

def putItem (s : ResolveState) (item : KeyedText) : ResolveState :=
  { s with
    stored := Function.update s.stored item.key (some item.text)
    replaced :=
      match s.stored item.key with
      | some old => if old = item.text then s.replaced else ⟨item.key, old, item.text⟩ :: s.replaced
      | none => s.replaced }

def txItems (s : ResolveState) (changed : List Text) (rejects : List ℕ) : List KeyedText :=
  (s.rewrite.zipIdx.filter fun x => x.1.key ∉ changed ∧ x.2 ∉ rejects).map Prod.fst

def commitTx (s : ResolveState) (changed : List Text) (rejects : List ℕ) : ResolveState :=
  (s.txItems changed rejects).foldl putItem s

def afterRound (s : ResolveState) (conflicts : ℕ) : Retry Unit → ResolveState
  | .returns _ => { s with pc := .returned }
  | .again conflicts => { s with pc := .writing conflicts }
  | .waits => { s with pc := .writeWaits conflicts }

def noteChange (key : Text) : ResolvePc → ResolvePc
  | .inTx conflicts changed => .inTx conflicts (key :: changed)
  | pc => pc

def step (policy : RetryPolicy) (s : ResolveState) : ResolveLabel → Option ResolveState
  | .otherWrites key text =>
    some { s with stored := Function.update s.stored key text, pc := noteChange key s.pc }
  | .lookup elapsed ctxDone r =>
    match s.pc, s.todo with
    | .looking conflicts, key :: _ =>
      match policy.round elapsed ctxDone conflicts r with
      | .returns (.ok _) => some (s.afterLookup (s.stored key))
      | .returns (.error _) => some s.lookupFails
      | .again conflicts => some { s with pc := .looking conflicts }
      | .waits => some { s with pc := .lookupWaits conflicts }
    | _, _ => none
  | .begins elapsed ctxDone r =>
    match s.pc with
    | .writing conflicts =>
      match r with
      | .ok (.ok _) => some { s with pc := .inTx conflicts [] }
      | r => some (s.afterRound conflicts (policy.round elapsed ctxDone conflicts r))
    | _ => none
  | .txFails elapsed ctxDone err applied =>
    match s.pc with
    | .inTx conflicts changed =>
      let after := policy.round elapsed ctxDone conflicts (.ok (.error err))
      match applied with
      | none => some (s.afterRound conflicts after)
      | some rejects =>
        -- a commit that reports a conflict has gone through
        if err.isConflict then none
        else some ((s.commitTx changed rejects).afterRound conflicts after)
    | _ => none
  | .commits rejects =>
    match s.pc with
    | .inTx _ changed => some { s.commitTx changed rejects with pc := .returned }
    | _ => none
  | .wake =>
    match s.pc with
    | .lookupWaits conflicts => some { s with pc := .looking conflicts }
    | .writeWaits conflicts => some { s with pc := .writing conflicts }
    | _ => none
  | .cutShort =>
    match s.pc with
    | .lookupWaits _ => some s.lookupFails
    | .writeWaits _ => some { s with pc := .returned }
    | _ => none

/-! ## Keeping the fresher ad -/

structure KeepsFresher (s : ResolveState) : Prop where
  /-- Replaced by a strictly newer one. -/
  newer : ∀ r ∈ s.replaced, adRank r.old < adRank r.new
  /-- Not after a failed lookup. -/
  looked : ∀ r ∈ s.replaced, r.key ∉ s.failed

def Safe (s : ResolveState) (item : KeyedText) : Prop :=
  ∀ old, s.stored item.key = some old → old ≠ item.text →
    adRank old < adRank item.text ∧ item.key ∉ s.failed

def Undisturbed (policy : RetryPolicy) (s : ResolveState) : ResolveLabel → Prop
  | .lookup elapsed ctxDone r => ∀ conflicts key rest err, s.pc = .looking conflicts →
      s.todo = key :: rest → policy.round elapsed ctxDone conflicts r = .returns (.error err) →
        s.stored key = none
  | .cutShort => ∀ conflicts key rest, s.pc = .lookupWaits conflicts → s.todo = key :: rest →
      s.stored key = none
  | .otherWrites key text => s.pc ≠ .returned →
      (∀ conflicts changed, s.pc ≠ .inTx conflicts changed) →
      ∀ item ∈ s.rewrite, item.key = key → ∀ old, text = some old → old ≠ item.text →
        adRank old < adRank item.text ∧ key ∉ s.failed
  | .txFails elapsed ctxDone err _ => ∀ conflicts changed, s.pc = .inTx conflicts changed →
      (∀ r, policy.round (α := Unit) elapsed ctxDone conflicts (.ok (.error err)) ≠ .returns r) →
        ∀ item ∈ s.rewrite, s.Safe item
  | _ => True

structure Inv (s : ResolveState) : Prop where
  /-- The fresher ad is kept so far. -/
  fresher : s.KeepsFresher
  /-- Nothing is replaced during the lookups. -/
  lookups : s.pc.isLookup → s.replaced = []
  /-- What is to be written again is ours. -/
  ours : ∀ item ∈ s.rewrite, s.ours.lookup item.key = some item.text
  /-- A key whose lookup failed is to be written again. -/
  failed : ∀ key ∈ s.failed, ∀ text, s.ours.lookup key = some text → ⟨key, text⟩ ∈ s.rewrite
  /-- What is to be written again may be, unless the open transaction will find it changed. -/
  safe : s.pc ≠ .returned → ∀ item ∈ s.rewrite, item.key ∈ s.pc.changed ∨ s.Safe item

variable {policy : RetryPolicy} {s s' : ResolveState} {l : ResolveLabel}

theorem Inv.safe_of_closed (h : s.Inv) (hrun : s.pc ≠ .returned) (hclosed : s.pc.changed = []) :
    ∀ item ∈ s.rewrite, s.Safe item := by
  intro item hitem
  refine (h.safe hrun item hitem).resolve_left ?_
  rw [hclosed]
  exact not_mem_nil

theorem Inv.move (h : s.Inv) (hsafe : ∀ item ∈ s.rewrite, s.Safe item) {pc : ResolvePc}
    {todo : List Text} (hpc : pc.isLookup → s.replaced = []) :
    Inv { s with pc := pc, todo := todo } where
  fresher := ⟨h.fresher.newer, h.fresher.looked⟩
  lookups := hpc
  ours := h.ours
  failed := h.failed
  safe := fun _ item hitem => Or.inr (hsafe item hitem)

theorem Inv.next (h : s.Inv) (hsafe : ∀ item ∈ s.rewrite, s.Safe item) (hnone : s.replaced = []) :
    s.next.Inv := by
  rw [ResolveState.next]
  split
  · exact h.move hsafe fun _ => hnone
  · exact h.move hsafe fun _ => hnone

theorem Inv.safe_of_isLookup (h : s.Inv) (hpc : s.pc.isLookup) :
    ∀ item ∈ s.rewrite, s.Safe item := by
  refine h.safe_of_closed ?_ ?_
  · rintro hret
    simp [hret, ResolvePc.isLookup] at hpc
  · cases hs : s.pc <;> simp_all [ResolvePc.isLookup, ResolvePc.changed]

theorem Inv.afterLookup {present : Option Text} (h : s.Inv) (hpc : s.pc.isLookup)
    (hpresent : ∀ key rest, s.todo = key :: rest → s.stored key = present) :
    (s.afterLookup present).Inv := by
  have hnone := h.lookups hpc
  have hsafe := h.safe_of_isLookup hpc
  rw [ResolveState.afterLookup]
  split
  · exact h
  · rename_i key rest htodo
    have hskip : (ResolveState.next { s with todo := rest }).Inv :=
      Inv.next (s := { s with todo := rest }) (h.move hsafe fun _ => hnone) hsafe hnone
    split
    · exact hskip
    · rename_i text hours
      split
      · rename_i hdecide
        -- the new item may be written
        have hnew : s.Safe ⟨key, text⟩ := by
          intro old hold hne
          have hrank : adRank old < adRank text := by
            rw [hpresent key rest htodo] at hold
            rw [hold] at hdecide
            exact (newerThan_iff_lt _ _).mp hdecide
          -- a failed key is already to be written again, and would not be safe
          exact ⟨hrank, fun hfail => (hsafe _ (h.failed key hfail text hours) old hold hne).2 hfail⟩
        have hall : ∀ item ∈ s.rewrite ++ [⟨key, text⟩], s.Safe item := by
          intro item hitem
          rcases mem_append.mp hitem with hitem | hitem
          · exact hsafe item hitem
          · rw [mem_singleton.mp hitem]
            exact hnew
        refine Inv.next (s := { s with todo := rest, rewrite := s.rewrite ++ [⟨key, text⟩] })
          ⟨⟨h.fresher.newer, h.fresher.looked⟩, fun _ => hnone, ?_, ?_,
            fun _ item hitem => Or.inr (hall item hitem)⟩ hall hnone
        · intro item hitem
          rcases mem_append.mp hitem with hitem | hitem
          · exact h.ours item hitem
          · rw [mem_singleton.mp hitem]
            exact hours
        · exact fun key' hfail text' h' => mem_append_left _ (h.failed key' hfail text' h')
      · exact hskip

theorem Safe.of_failed {item : KeyedText} {key : Text} (h : s.Safe item)
    (hnone : s.stored key = none) {todo : List Text} {rewrite : List KeyedText} :
    Safe { s with failed := key :: s.failed, todo := todo, rewrite := rewrite } item := by
  intro old hold hne
  refine ⟨(h old hold hne).1, fun hmem => ?_⟩
  rcases mem_cons.mp hmem with hkey | hmem
  · have hold' : s.stored item.key = some old := hold
    rw [hkey, hnone] at hold'
    cases hold'
  · exact (h old hold hne).2 hmem

theorem lookupFails_of_nil (htodo : s.todo = []) : s.lookupFails = s := by
  cases s
  cases htodo
  rfl

theorem lookupFails_of_cons {key : Text} {rest : List Text} (htodo : s.todo = key :: rest) :
    s.lookupFails =
      match s.ours.lookup key with
      | none => ResolveState.next { s with failed := key :: s.failed, todo := rest }
      | some text =>
        ResolveState.next { s with
          failed := key :: s.failed, todo := rest, rewrite := s.rewrite ++ [⟨key, text⟩] } := by
  simp [ResolveState.lookupFails, ResolveState.afterLookup, htodo]

theorem Inv.lookupFails (h : s.Inv) (hpc : s.pc.isLookup)
    (hstored : ∀ key rest, s.todo = key :: rest → s.stored key = none) : s.lookupFails.Inv := by
  have hnone := h.lookups hpc
  have hsafe := h.safe_of_isLookup hpc
  have hempty : ∀ r ∈ s.replaced, False := by simp [hnone]
  cases htodo : s.todo with
  | nil =>
    rw [lookupFails_of_nil htodo]
    exact h
  | cons key rest =>
    rw [lookupFails_of_cons htodo]
    have habsent := hstored key rest htodo
    cases hours : s.ours.lookup key with
    | none =>
      have hall : ∀ item ∈ s.rewrite,
          Safe { s with failed := key :: s.failed, todo := rest } item := fun item hitem =>
        (hsafe item hitem).of_failed habsent
      refine Inv.next (s := { s with failed := key :: s.failed, todo := rest })
        ⟨⟨fun r hr => (hempty r hr).elim, fun r hr => (hempty r hr).elim⟩, fun _ => hnone,
          h.ours, ?_, fun _ item hitem => Or.inr (hall item hitem)⟩ hall hnone
      intro key' hfail text' h'
      rcases mem_cons.mp hfail with rfl | hfail
      · rw [hours] at h'
        cases h'
      · exact h.failed key' hfail text' h'
    | some text =>
      have hall : ∀ item ∈ s.rewrite ++ [⟨key, text⟩], Safe { s with
          failed := key :: s.failed, todo := rest, rewrite := s.rewrite ++ [⟨key, text⟩] }
            item := by
        intro item hitem
        rcases mem_append.mp hitem with hitem | hitem
        · exact (hsafe item hitem).of_failed habsent
        · -- nothing is stored under the new key
          intro old hold _
          rw [mem_singleton.mp hitem] at hold
          exact absurd (habsent.symm.trans hold) (by simp)
      refine Inv.next (s := { s with
        failed := key :: s.failed, todo := rest, rewrite := s.rewrite ++ [⟨key, text⟩] })
        ⟨⟨fun r hr => (hempty r hr).elim, fun r hr => (hempty r hr).elim⟩, fun _ => hnone,
          ?_, ?_, fun _ item hitem => Or.inr (hall item hitem)⟩ hall hnone
      · intro item hitem
        rcases mem_append.mp hitem with hitem | hitem
        · exact h.ours item hitem
        · rw [mem_singleton.mp hitem]
          exact hours
      · intro key' hfail text' h'
        rcases mem_cons.mp hfail with rfl | hfail
        · rw [hours, some.injEq] at h'
          exact mem_append_right _ (by simp [h'])
        · exact mem_append_left _ (h.failed key' hfail text' h')

theorem Safe.putItem {item other : KeyedText} (h : s.Safe other)
    (hsame : other.key = item.key → other.text = item.text) : (s.putItem item).Safe other := by
  intro old hold hne
  have hold' : Function.update s.stored item.key (some item.text) other.key = some old := hold
  by_cases hkey : other.key = item.key
  · rw [hkey, Function.update_self, some.injEq] at hold'
    exact absurd (hold'.symm.trans (hsame hkey).symm) hne
  · rw [Function.update_of_ne hkey] at hold'
    exact h old hold' hne

section

variable (h : s.Inv)
include h

theorem Inv.putItem {item : KeyedText} (hpc : s.pc.isLookup = false)
    (hours : s.ours.lookup item.key = some item.text) (hsafe : s.Safe item) :
    (s.putItem item).Inv where
  fresher := by
    -- the one new entry replaces an older ad that was looked up
    have hcases : ∀ r ∈ (s.putItem item).replaced, r ∈ s.replaced ∨
        (s.stored item.key = some r.old ∧ r.old ≠ item.text ∧ r.key = item.key ∧
          r.new = item.text) := by
      intro r hr
      rw [ResolveState.putItem] at hr
      cases hstored : s.stored item.key with
      | none => exact Or.inl (by simpa [hstored] using hr)
      | some old =>
        by_cases heq : old = item.text
        · exact Or.inl (by simpa [hstored, heq] using hr)
        · simp only [hstored, if_neg heq] at hr
          rcases mem_cons.mp hr with rfl | hr
          · exact Or.inr ⟨rfl, heq, rfl, rfl⟩
          · exact Or.inl hr
    constructor
    · intro r hr
      rcases hcases r hr with hr | ⟨hold, hne, -, hnew⟩
      · exact h.fresher.newer r hr
      · rw [hnew]
        exact (hsafe r.old hold hne).1
    · intro r hr
      rcases hcases r hr with hr | ⟨hold, hne, hkey, -⟩
      · exact h.fresher.looked r hr
      · rw [hkey]
        exact (hsafe r.old hold hne).2
  lookups := fun hlook => absurd (hpc.symm.trans hlook) (by simp)
  ours := h.ours
  failed := h.failed
  safe := by
    intro hrun other hother
    refine (h.safe hrun other hother).imp_right fun hs => hs.putItem fun hkey => ?_
    have h' := h.ours other hother
    rw [hkey, hours, some.injEq] at h'
    exact h'.symm

theorem Inv.of_mem_txItems {changed : List Text} {rejects : List ℕ} {item : KeyedText}
    (hitem : item ∈ s.txItems changed rejects) :
    s.ours.lookup item.key = some item.text ∧ item ∈ s.rewrite ∧ item.key ∉ changed := by
  obtain ⟨x, hx, rfl⟩ := mem_map.mp hitem
  obtain ⟨hmem, hcond⟩ := mem_filter.mp hx
  have hrewrite : x.1 ∈ s.rewrite := fst_mem_of_mem_zipIdx hmem
  exact ⟨h.ours _ hrewrite, hrewrite, (by simpa using hcond : _ ∧ _).1⟩

theorem Inv.commitTx (hpc : s.pc.isLookup = false) (hrun : s.pc ≠ .returned) (rejects : List ℕ) :
    (s.commitTx s.pc.changed rejects).Inv ∧
      ((∀ item ∈ s.rewrite, s.Safe item) →
        ∀ item ∈ (s.commitTx s.pc.changed rejects).rewrite,
          (s.commitTx s.pc.changed rejects).Safe item) := by
  have hitems : ∀ item ∈ s.txItems s.pc.changed rejects,
      s.ours.lookup item.key = some item.text ∧ item ∈ s.rewrite ∧ item.key ∉ s.pc.changed :=
    fun _ => h.of_mem_txItems
  rw [ResolveState.commitTx]
  -- along the items: the rest of them is still ours and unchanged
  generalize s.txItems s.pc.changed rejects = items at hitems
  induction items generalizing s with
  | nil => exact ⟨h, id⟩
  | cons item items ih =>
    obtain ⟨hours, hmem, hunchanged⟩ := hitems item mem_cons_self
    have hsafe : s.Safe item := (h.safe hrun item hmem).resolve_left hunchanged
    rw [foldl_cons]
    obtain ⟨hinv, hkeep⟩ := ih (h.putItem hpc hours hsafe) hpc hrun
      fun item' hitem' => hitems item' (mem_cons_of_mem _ hitem')
    refine ⟨hinv, fun hall => hkeep fun other hother =>
      (hall other hother).putItem fun hkey => ?_⟩
    have h' := h.ours other hother
    rw [hkey, hours, some.injEq] at h'
    exact h'.symm

theorem Inv.returned : Inv { s with pc := .returned } :=
  ⟨⟨h.fresher.newer, h.fresher.looked⟩, by simp [ResolvePc.isLookup], h.ours, h.failed,
    fun hrun => absurd rfl hrun⟩

theorem Inv.afterRound {r : Retry Unit}
    (hsafe : (∀ x, r ≠ .returns x) → ∀ item ∈ s.rewrite, s.Safe item) (conflicts : ℕ) :
    (s.afterRound conflicts r).Inv := by
  cases r with
  | returns r => exact h.returned
  | again conflicts' | waits => exact h.move (hsafe (by simp)) (by simp [ResolvePc.isLookup])

theorem Inv.otherWrites {key : Text} {text : Option Text}
    (hcond : s.Undisturbed policy (.otherWrites key text)) :
    Inv { s with stored := Function.update s.stored key text, pc := noteChange key s.pc } := by
  refine ⟨⟨h.fresher.newer, h.fresher.looked⟩, fun hlook => h.lookups ?_, h.ours, h.failed,
    fun hrun item hitem => ?_⟩
  · revert hlook
    cases s.pc <;> exact id
  · have hrun' : s.pc ≠ .returned := by
      rintro hret
      simp [hret, noteChange] at hrun
    by_cases hkey : item.key = key
    · cases hpc : s.pc with
      | inTx conflicts changed => exact Or.inl (by simp [noteChange, ResolvePc.changed, hkey])
      | _ =>
        right
        intro old hold hne
        have hnew := hcond hrun' (by simp [hpc]) item hitem hkey old
        simp only [hkey, Function.update_self] at hold
        exact hkey.symm ▸ hnew hold hne
    · have hkeep : s.Safe item → ResolveState.Safe { s with
          stored := Function.update s.stored key text, pc := noteChange key s.pc } item := by
        intro hs old hold hne
        simp only [Function.update_of_ne hkey] at hold
        exact hs old hold hne
      refine (h.safe hrun' item hitem).imp (fun hmem => ?_) hkeep
      cases hpc : s.pc with
      | inTx conflicts changed =>
        rw [hpc] at hmem
        exact mem_cons_of_mem _ hmem
      | _ =>
        rw [hpc] at hmem
        cases hmem

theorem Inv.step (hmove : s.step policy l = some s') (hcond : s.Undisturbed policy l) : s'.Inv := by
  cases l with
  | otherWrites key text =>
    cases hmove
    exact h.otherWrites hcond
  | lookup elapsed ctxDone r =>
    rw [ResolveState.step] at hmove
    split at hmove
    · rename_i conflicts key rest hpc htodo
      have hlook : s.pc.isLookup := by simp [hpc, ResolvePc.isLookup]
      split at hmove
      · cases hmove
        refine h.afterLookup hlook fun key' rest' htodo' => ?_
        rw [htodo] at htodo'
        cases htodo'
        rfl
      · rename_i err hround
        cases hmove
        refine h.lookupFails hlook fun key' rest' htodo' => ?_
        exact hcond conflicts key' rest' err hpc htodo' hround
      · cases hmove
        exact h.move (h.safe_of_isLookup hlook) fun _ => h.lookups hlook
      · cases hmove
        exact h.move (h.safe_of_isLookup hlook) fun _ => h.lookups hlook
    · cases hmove
  | begins elapsed ctxDone r =>
    rw [ResolveState.step] at hmove
    split at hmove
    · rename_i conflicts hpc
      have hsafe := h.safe_of_closed (by simp [hpc]) (by simp [hpc, ResolvePc.changed])
      split at hmove
      · cases hmove
        exact h.move hsafe (by simp [ResolvePc.isLookup])
      · cases hmove
        exact h.afterRound (fun _ => hsafe) _
    · cases hmove
  | txFails elapsed ctxDone err applied =>
    rw [ResolveState.step] at hmove
    split at hmove
    · rename_i conflicts changed hpc
      have hagain := hcond conflicts changed hpc
      dsimp only at hmove
      split at hmove
      · cases hmove
        exact h.afterRound hagain _
      · rename_i rejects
        split at hmove
        · cases hmove
        · cases hmove
          obtain ⟨hinv, hkeep⟩ :=
            h.commitTx (by simp [hpc, ResolvePc.isLookup]) (by simp [hpc]) rejects
          rw [show s.pc.changed = changed by simp [hpc, ResolvePc.changed]] at hinv hkeep
          exact hinv.afterRound (fun hretry => hkeep (hagain hretry)) _
    · cases hmove
  | commits rejects =>
    rw [ResolveState.step] at hmove
    split at hmove
    · rename_i conflicts changed hpc
      cases hmove
      obtain ⟨hinv, -⟩ := h.commitTx (by simp [hpc, ResolvePc.isLookup]) (by simp [hpc]) rejects
      rw [show s.pc.changed = changed by simp [hpc, ResolvePc.changed]] at hinv
      exact hinv.returned
    · cases hmove
  | wake =>
    rw [ResolveState.step] at hmove
    split at hmove
    · rename_i conflicts hpc
      have hlook : s.pc.isLookup := by simp [hpc, ResolvePc.isLookup]
      cases hmove
      exact h.move (h.safe_of_isLookup hlook) fun _ => h.lookups hlook
    · rename_i conflicts hpc
      cases hmove
      exact h.move (h.safe_of_closed (by simp [hpc]) (by simp [hpc, ResolvePc.changed]))
        (by simp [ResolvePc.isLookup])
    · cases hmove
  | cutShort =>
    rw [ResolveState.step] at hmove
    split at hmove
    · rename_i conflicts hpc
      cases hmove
      refine h.lookupFails (by simp [hpc, ResolvePc.isLookup]) fun key rest htodo => ?_
      exact hcond conflicts key rest hpc htodo
    · cases hmove
      exact h.returned
    · cases hmove

end

theorem inv_start (stored : Text → Option Text) (keys : List Text) (items : List KeyedText) :
    (start stored keys items).Inv := by
  refine Inv.next ⟨⟨?_, ?_⟩, fun _ => rfl, ?_, ?_, ?_⟩ ?_ rfl <;> simp

end ResolveState

/-- **Conflict resolution keeps the fresher ad** in a run in which nothing unseen happens. -/
theorem resolveConflicts_keeps_fresher (policy : RetryPolicy) (stored : Text → Option Text)
    (keys : List Text) (items : List KeyedText) (ls : List ResolveLabel) (s : ResolveState)
    (hrun : Runs.Run (fun s l => s.step policy l) (fun s l => s.Undisturbed policy l)
      (ResolveState.start stored keys items) ls s) : s.KeepsFresher :=
  (hrun.invariant (I := ResolveState.Inv) (fun _ _ _ hmove hcond h => h.step hmove hcond)
    (ResolveState.inv_start stored keys items)).fresher

def updateText (seqNo : Text) : Text :=
  "DaemonStartTime = 1\nUpdateSequenceNumber = " ++ seqNo ++ ['\n']

def resolveUpdate5 (storedSeqNo : Text) : ResolveState :=
  ResolveState.start (fun _ => some (updateText storedSeqNo)) ["k"]
    [⟨"k", updateText ['5']⟩]

def allGoThrough : List ResolveLabel :=
  [.lookup 0 false (.ok (.ok ())), .begins 0 false (.ok (.ok ())), .commits []]

theorem resolveConflicts_replaces_older :
    ∃ s, Runs.exec (fun s l => ResolveState.step ⟨0⟩ s l) (resolveUpdate5 ['3']) allGoThrough =
        some s ∧
      s.replaced = [⟨"k", updateText ['3'], updateText ['5']⟩] ∧ s.KeepsFresher := by
  obtain ⟨s, hexec, hreplaced⟩ := map_eq_some_iff.mp
    (by decide : (Runs.exec (fun s l => ResolveState.step ⟨0⟩ s l) (resolveUpdate5 ['3'])
      allGoThrough).map ResolveState.replaced =
        some [⟨"k", updateText ['3'], updateText ['5']⟩])
  refine ⟨s, hexec, hreplaced, resolveConflicts_keeps_fresher ⟨0⟩ _ _ _ allGoThrough s
    (Runs.Run.of_exec hexec ?_)⟩
  simp [allGoThrough, ResolveState.Undisturbed, RetryPolicy.round]

theorem resolveConflicts_replaces_newer :
    (Runs.exec (fun s l => ResolveState.step ⟨0⟩ s l) (resolveUpdate5 ['9'])
        [.lookup 0 false (.ok (.error (.server "no such table"))),
          .begins 0 false (.ok (.ok ())), .commits []]).map
      (fun s => (s.replaced, s.failed)) =
        some ([⟨"k".toList, updateText ['9'], updateText ['5']⟩], ["k".toList]) ∧
    (Runs.exec (fun s l => ResolveState.step ⟨0⟩ s l) (resolveUpdate5 ['3'])
        [.lookup 0 false (.ok (.ok ())), .otherWrites "k" (some (updateText ['9'])),
          .begins 0 false (.ok (.ok ())), .commits []]).map
      (fun s => (s.replaced, s.failed)) =
        some ([⟨"k", updateText ['9'], updateText ['5']⟩], []) ∧
    adRank (updateText ['5']) < adRank (updateText ['9']) := by
  refine ⟨by decide, by decide, ?_⟩
  rw [adRank, adRank, ← newerThan_iff_lt]
  decide

end GolangCollector
