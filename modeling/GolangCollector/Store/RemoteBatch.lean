import GolangCollector.Lib.Runs
import GolangCollector.Store.Remote

/-! # The concurrent commit of a batch

`UpdateBatch` of the remote backend commits a single unit inline and several units concurrently
(`commitUnitsConcurrent`): each in a goroutine of its own, which waits for one of the write lanes or
for the end of the context, and then runs its transaction in a retry envelope. The first error ends
the context of the others. A goroutine that gives up waiting records no error.

The goroutines are the machine `BatchState.step`. Its labels choose who moves, how a transaction
goes and when the caller's context ends; the receipts of the transactions that went through are kept
in a log. -/

namespace GolangCollector

open GoStrings List Option

/-! ## The machine -/

inductive UnitPc where
  /-- Waiting for a write lane. -/
  | queued
  /-- On a lane, in its transaction, with so many conflicts so far. -/
  | writing (conflicts : ℕ)
  /-- On a lane, waiting between two rounds. -/
  | backingOff (conflicts : ℕ)
  /-- Returned. -/
  | finished
  deriving DecidableEq, Repr

def UnitPc.onLane : UnitPc → Bool
  | writing _ => true
  | backingOff _ => true
  | _ => false

/-- A batch being committed. -/
structure BatchState where
  /-- The units. -/
  units : List CommitUnit
  /-- Where their goroutines are. -/
  pcs : List UnitPc
  /-- Whether the caller's context has ended. -/
  callerDone : Bool
  /-- The first error, whose goroutine ended the context of the units. -/
  firstErr : Option RpcError
  /-- The receipts of the transactions that went through, each with its unit. -/
  log : List (ℕ × Receipt)
  deriving DecidableEq, Repr

inductive BatchLabel where
  /-- The caller's context ends. -/
  | callerEnds
  /-- A goroutine gets a lane. -/
  | acquire (u : ℕ)
  /-- A goroutine that waits for a lane sees that the context has ended. -/
  | giveUp (u : ℕ)
  /-- A round of the retry envelope: the time since it was opened, and what the connection and the
  transaction return. -/
  | attempt (u : ℕ) (elapsed : ℕ) (r : Except RpcError TxOutcome)
  /-- The wait between two rounds is over. -/
  | wake (u : ℕ)
  /-- The wait between two rounds is cut short by the end of the context. -/
  | cutShort (u : ℕ)

namespace BatchState

def start (units : List CommitUnit) : BatchState where
  units := units
  pcs := if units.length ≤ 1 then units.map fun _ => .writing 0 else units.map fun _ => .queued
  callerDone := false
  firstErr := none
  log := []

def ctxDone (s : BatchState) : Bool := s.callerDone || s.firstErr.isSome

def setPc (s : BatchState) (u : ℕ) (pc : UnitPc) : BatchState := { s with pcs := s.pcs.set u pc }

def fail (s : BatchState) (u : ℕ) (err : RpcError) : BatchState :=
  { s.setPc u .finished with firstErr := s.firstErr.or (some err) }

def step (policy : RetryPolicy) (lanes : ℕ) (s : BatchState) : BatchLabel → Option BatchState
  | .callerEnds => some { s with callerDone := true }
  | .acquire u =>
    if s.pcs[u]? = some .queued ∧ s.pcs.countP UnitPc.onLane < lanes then
      some (s.setPc u (.writing 0))
    else none
  | .giveUp u =>
    if s.pcs[u]? = some .queued ∧ s.ctxDone then some (s.setPc u .finished) else none
  | .attempt u elapsed r =>
    match s.units[u]?, s.pcs[u]? with
    | some unit, some (.writing conflicts) =>
      match policy.round elapsed s.ctxDone conflicts (r.map (putBatchTx unit.items)) with
      | .returns (.ok receipt) =>
        some { s.setPc u .finished with log := (u, receipt) :: s.log }
      | .returns (.error err) => some (s.fail u err)
      | .again conflicts => some (s.setPc u (.writing conflicts))
      | .waits => some (s.setPc u (.backingOff conflicts))
    | _, _ => none
  | .wake u =>
    match s.pcs[u]? with
    | some (.backingOff conflicts) => some (s.setPc u (.writing conflicts))
    | _ => none
  | .cutShort u =>
    match s.pcs[u]? with
    | some (.backingOff _) => if s.ctxDone then some (s.fail u .context) else none
    | _ => none

def Returned (s : BatchState) : Prop := ∀ pc ∈ s.pcs, pc = .finished

instance (s : BatchState) : Decidable s.Returned := inferInstanceAs (Decidable (∀ pc ∈ s.pcs, _))

/-! ## What a receipt says -/

def Committed (s : BatchState) (u i : ℕ) (item : KeyedText) : Prop :=
  ∃ receipt, (u, receipt) ∈ s.log ∧ i ∉ receipt.rejects ∧ item.key ∉ receipt.conflicted

def Rejected (s : BatchState) (u i : ℕ) : Prop :=
  ∃ receipt, (u, receipt) ∈ s.log ∧ i ∈ receipt.rejects

def Conflicted (s : BatchState) (u : ℕ) (item : KeyedText) : Prop :=
  ∃ receipt, (u, receipt) ∈ s.log ∧ item.key ∈ receipt.conflicted

def Accounts (s : BatchState) : Prop :=
  ∀ u unit, s.units[u]? = some unit → ∀ i item, unit.items[i]? = some item →
    s.Committed u i item ∨ s.Rejected u i ∨ s.Conflicted u item

/-! ## What a move does -/

variable {policy : RetryPolicy} {lanes : ℕ} {s s' : BatchState} {l : BatchLabel}

inductive Move (s : BatchState) : BatchLabel → BatchState → Prop where
  | callerEnds : Move s .callerEnds { s with callerDone := true }
  /-- A goroutine goes on. -/
  | goesOn {l : BatchLabel} {u : ℕ} {pc pc' : UnitPc} (hl : ∀ u, l ≠ .giveUp u)
      (hpc : s.pcs[u]? = some pc) (hrun : pc ≠ .finished) (hrun' : pc' ≠ .finished) :
      Move s l (s.setPc u pc')
  /-- A goroutine returns without a word. -/
  | givesUp {u : ℕ} (hpc : s.pcs[u]? = some .queued) : Move s (.giveUp u) (s.setPc u .finished)
  /-- A goroutine returns with its transaction gone through. -/
  | succeeds {l : BatchLabel} {u : ℕ} {pc : UnitPc} {receipt : Receipt} (hl : ∀ u, l ≠ .giveUp u)
      (hpc : s.pcs[u]? = some pc) (hrun : pc ≠ .finished) :
      Move s l { s.setPc u .finished with log := (u, receipt) :: s.log }
  /-- A goroutine returns with an error. -/
  | fails {l : BatchLabel} {u : ℕ} {pc : UnitPc} {err : RpcError} (hl : ∀ u, l ≠ .giveUp u)
      (hpc : s.pcs[u]? = some pc) (hrun : pc ≠ .finished) : Move s l (s.fail u err)

theorem move_of_step (h : step policy lanes s l = some s') : Move s l s' := by
  cases l with
  | callerEnds =>
    cases h
    exact .callerEnds
  | acquire u =>
    rw [step] at h
    split at h
    · rename_i hpc
      cases h
      exact .goesOn (by simp) hpc.1 (by simp) (by simp)
    · cases h
  | giveUp u =>
    rw [step] at h
    split at h
    · rename_i hpc
      cases h
      exact .givesUp hpc.1
    · cases h
  | attempt u elapsed r =>
    rw [step] at h
    split at h
    · rename_i unit conflicts _ hpc
      split at h
      · cases h
        exact .succeeds (by simp) hpc (by simp)
      · cases h
        exact .fails (by simp) hpc (by simp)
      · cases h
        exact .goesOn (by simp) hpc (by simp) (by simp)
      · cases h
        exact .goesOn (by simp) hpc (by simp) (by simp)
    · cases h
  | wake u =>
    rw [step] at h
    split at h
    · rename_i conflicts hpc
      cases h
      exact .goesOn (by simp) hpc (by simp) (by simp)
    · cases h
  | cutShort u =>
    rw [step] at h
    split at h
    · rename_i conflicts hpc
      split at h
      · cases h
        exact .fails (by simp) hpc (by simp)
      · cases h
    · cases h

theorem Move.units_eq (h : Move s l s') : s'.units = s.units := by
  cases h <;> rfl

theorem getElem?_setPc (s : BatchState) {u : ℕ} {pc : UnitPc} (hpc : s.pcs[u]? = some pc)
    (pc' : UnitPc) (v : ℕ) : (s.setPc u pc').pcs[v]? = if u = v then some pc' else s.pcs[v]? := by
  obtain ⟨hlt, -⟩ := List.getElem?_eq_some_iff.mp hpc
  rw [setPc, getElem?_set]
  simp [hlt]

def Lost (s : BatchState) (u : ℕ) : Prop := s.pcs[u]? = some .finished ∧ ∀ r, (u, r) ∉ s.log

def Tidy (s : BatchState) : Prop := ∀ u r, (u, r) ∈ s.log → s.pcs[u]? = some .finished

section

variable (h : Move s l s')
include h

theorem Move.finished {v : ℕ} (hv : s.pcs[v]? = some .finished) : s'.pcs[v]? = some .finished := by
  -- the goroutine that moves is not finished, so it is another
  have hother : ∀ {u : ℕ} {pc : UnitPc} (pc' : UnitPc), s.pcs[u]? = some pc → pc ≠ .finished →
      (s.setPc u pc').pcs[v]? = some .finished := by
    intro u pc pc' hpc hrun
    rw [getElem?_setPc s hpc, if_neg]
    · exact hv
    · rintro rfl
      rw [hpc, some.injEq] at hv
      exact hrun hv
  cases h with
  | callerEnds => exact hv
  | goesOn hl hpc hrun hrun' => exact hother _ hpc hrun
  | givesUp hpc => exact hother _ hpc (by simp)
  | succeeds hl hpc hrun | fails hl hpc hrun => exact hother .finished hpc hrun

theorem Move.tidy (hs : s.Tidy) : s'.Tidy := by
  intro v r hr
  have hold : (v, r) ∈ s.log → s'.pcs[v]? = some .finished := fun hr => h.finished (hs v r hr)
  cases h with
  | callerEnds => exact hold hr
  | goesOn hl hpc hrun hrun' => exact hold hr
  | givesUp hpc => exact hold hr
  | fails hl hpc hrun => exact hold hr
  | succeeds hl hpc hrun =>
    rcases mem_cons.mp hr with heq | hr
    · cases heq
      exact (getElem?_setPc s hpc _ _).trans (if_pos rfl)
    · exact hold hr

theorem Move.lost {v : ℕ} (hv : s.Lost v) : s'.Lost v := by
  refine ⟨h.finished hv.1, ?_⟩
  cases h with
  | callerEnds => exact hv.2
  | goesOn hl hpc hrun hrun' => exact hv.2
  | givesUp hpc => exact hv.2
  | fails hl hpc hrun => exact hv.2
  | succeeds hl hpc hrun =>
    intro r hr
    rcases mem_cons.mp hr with heq | hr
    · cases heq
      rw [hv.1, some.injEq] at hpc
      exact hrun hpc.symm
    · exact hv.2 r hr

/-! ## Success -/

def GivesUpOnError (s : BatchState) (l : BatchLabel) : Prop :=
  ∀ u, l = .giveUp u → s.firstErr.isSome

def Reported (s : BatchState) : Prop :=
  ∀ u, s.pcs[u]? = some .finished → s.firstErr.isSome ∨ ∃ r, (u, r) ∈ s.log

theorem Move.reported (hcond : GivesUpOnError s l) (hs : s.Reported) : s'.Reported := by
  intro v hv
  -- a goroutine that was already finished, or moved to somewhere else
  have hold : ∀ {u : ℕ} {pc pc' : UnitPc}, s.pcs[u]? = some pc →
      (s.setPc u pc').pcs[v]? = some .finished → (u = v → pc' ≠ .finished) →
        s.firstErr.isSome ∨ ∃ r, (v, r) ∈ s.log := by
    intro u pc pc' hpc hv' hne
    rw [getElem?_setPc s hpc] at hv'
    split at hv'
    · rename_i huv
      exact absurd (some.inj hv') (hne huv)
    · exact hs v hv'
  cases h with
  | callerEnds => exact hs v hv
  | goesOn hl hpc hrun hrun' => exact hold hpc hv fun _ => hrun'
  | givesUp hpc => exact Or.inl (hcond _ rfl)
  | @succeeds _ u pc receipt hl hpc hrun =>
    by_cases huv : u = v
    · exact Or.inr ⟨receipt, huv ▸ mem_cons_self⟩
    · rcases hold hpc hv fun h => absurd h huv with herr | ⟨r, hr⟩
      · exact Or.inl herr
      · exact Or.inr ⟨r, mem_cons_of_mem _ hr⟩
  | fails hl hpc hrun => exact Or.inl (by simp [fail])

theorem Move.length_pcs (hs : s.pcs.length = s.units.length) : s'.pcs.length = s'.units.length := by
  cases h <;> simpa [fail, setPc] using hs

end

theorem start_pcs (units : List CommitUnit) {u : ℕ} {pc : UnitPc}
    (h : (start units).pcs[u]? = some pc) : pc ≠ .finished := by
  have hmem := mem_of_getElem? h
  rw [start] at hmem
  dsimp only at hmem
  split at hmem
  · obtain ⟨_, -, rfl⟩ := mem_map.mp hmem
    simp
  · obtain ⟨_, -, rfl⟩ := mem_map.mp hmem
    simp

theorem start_length_pcs (units : List CommitUnit) :
    (start units).pcs.length = (start units).units.length := by
  rw [start]
  dsimp only
  split <;> simp

theorem accounts_of_receipts (h : ∀ u unit, s.units[u]? = some unit → ∃ r, (u, r) ∈ s.log) :
    s.Accounts := by
  intro u unit hu i item _
  obtain ⟨r, hr⟩ := h u unit hu
  by_cases hrej : i ∈ r.rejects
  · exact Or.inr (Or.inl ⟨r, hr, hrej⟩)
  · by_cases hconf : item.key ∈ r.conflicted
    · exact Or.inr (Or.inr ⟨r, hr, hconf⟩)
    · exact Or.inl ⟨r, hr, hrej, hconf⟩

theorem Lost.not_accounts {u : ℕ} {unit : CommitUnit} (h : s.Lost u) (hu : s.units[u]? = some unit)
    (hne : unit.items ≠ []) : ¬ s.Accounts := by
  intro hacc
  obtain ⟨item, rest, hitems⟩ := exists_cons_of_ne_nil hne
  rcases hacc u unit hu 0 item (by simp [hitems]) with ⟨r, hr, -⟩ | ⟨r, hr, -⟩ | ⟨r, hr, -⟩
  all_goals exact h.2 r hr

theorem accounts_iff_of_run {units : List CommitUnit} (hunits : ∀ u ∈ units, u.items ≠ [])
    {ls : List BatchLabel}
    (hrun : Runs.Run (step policy lanes) (fun _ _ => True) (start units) ls s) (hret : s.Returned)
    (hnil : s.firstErr = none) :
    s.Accounts ↔ Runs.Run (step policy lanes) GivesUpOnError (start units) ls s := by
  have hsame : s.units = units :=
    hrun.invariant (I := fun s => s.units = units)
      (fun _ _ _ hmove _ h => (move_of_step hmove).units_eq.trans h) rfl
  have hlen : s.pcs.length = s.units.length :=
    hrun.invariant (I := fun s => s.pcs.length = s.units.length)
      (fun _ _ _ hmove _ h => (move_of_step hmove).length_pcs h) (start_length_pcs units)
  constructor
  · intro hacc
    rcases hrun.run_or_break with hgood | ⟨ls₁, l, ls₂, s₁, s₂, -, hbefore, hmove, hbreak, hafter⟩
    · exact hgood
    · -- the goroutine that broke the condition is lost for good
      exfalso
      have htidy : s₁.Tidy := hbefore.invariant
        (fun _ _ _ hmove _ h => (move_of_step hmove).tidy h) (fun u r hr => by simp [start] at hr)
      obtain ⟨u, rfl⟩ : ∃ u, l = .giveUp u := by
        by_contra hl
        exact hbreak fun u hu => absurd ⟨u, hu⟩ hl
      have hlost : s₂.Lost u := by
        have hm := move_of_step hmove
        cases hm with
        | goesOn hl | succeeds hl | fails hl => exact absurd rfl (hl u)
        | givesUp hpc =>
          refine ⟨(getElem?_setPc s₁ hpc _ _).trans (if_pos rfl), fun r hr => ?_⟩
          have hdone := htidy u r hr
          rw [hpc] at hdone
          cases hdone
      have hend : s.Lost u := hafter.invariant (I := fun s => s.Lost u)
        (fun _ _ _ hmove _ h => (move_of_step hmove).lost h) hlost
      obtain ⟨hlt, -⟩ := List.getElem?_eq_some_iff.mp hend.1
      obtain ⟨unit, hu⟩ : ∃ unit, s.units[u]? = some unit :=
        ⟨_, getElem?_eq_getElem (hlen ▸ hlt)⟩
      exact hend.not_accounts hu (hunits unit (hsame ▸ mem_of_getElem? hu)) hacc
  · intro hgood
    have hrep : s.Reported := hgood.invariant
      (fun _ _ _ hmove hcond h => (move_of_step hmove).reported hcond h)
      (fun u hu => absurd rfl (start_pcs units hu))
    refine accounts_of_receipts fun u unit hu => ?_
    obtain ⟨hlt, -⟩ := List.getElem?_eq_some_iff.mp hu
    obtain ⟨pc, hpc⟩ : ∃ pc, s.pcs[u]? = some pc :=
      ⟨_, getElem?_eq_getElem (hlen.symm ▸ hlt)⟩
    rw [hret pc (mem_of_getElem? hpc)] at hpc
    rcases hrep u hpc with herr | hr
    · simp [hnil] at herr
    · exact hr

end BatchState

def twoTableBatch : List (Int × PendingUpdate) :=
  [(7, ⟨.startdAd, "Name = \"a\"\n", [], false⟩),
    (7, ⟨.masterAd, "Name = \"a\"\n", [], false⟩)]

def twoTableUnits : List CommitUnit :=
  buildCommitUnits 8 (GoMap.pairs (groupByTable twoTableBatch))

def bothCommit : List BatchLabel :=
  [.acquire 0, .acquire 1, .attempt 1 0 (.ok (.commits [] none)),
    .attempt 0 0 (.ok (.commits [] none))]

end GolangCollector
