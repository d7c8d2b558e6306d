import GolangCollector.Lib.Runs
import GolangCollector.Lib.WriteBehind
import GolangCollector.Store.Batch

/-! # The buffered backend as a concurrent system

The goroutines of a `BufferedBackend` (`store/batch.go`) share its buffer and the backend it wraps.
Each is a small program: `UpdateOldText` and `UpdatePvt` put an update into the buffer and may flush
it inline; every other operation flushes and then passes through to the wrapped backend; the
background writer flushes now and then. A flush is two steps, because the buffer is swapped out
under the lock and applied without it: `swap`, and then `commit`, or `cut` where the context ended
first.

Updates are accepted in the order of their tickets (a buffered one when it is enqueued, a direct one
when it is applied); `latest` and `direct` record acceptance, and no step reads them. What a step
does to one key is an action of a write-behind cell (`Sys.cell_step`). -/

namespace GolangCollector

open GoStrings WriteBehind Option AList

/-! ## Programs -/

inductive Gid where
  | writer
  | client (n : ℕ)
  deriving DecidableEq, Repr

inductive Version where
  | text (update : PendingUpdate)
  | ad (ad : ClassAd)
  deriving DecidableEq, Repr

abbrev Contents := DedupKey → Option Version

abbrev Batch := GoMap DedupKey (Stamped Version)

inductive Op where
  /-- `UpdateOldTextDurable`. -/
  | durable (e : Entry)
  /-- `Update`, with the ad's key. -/
  | update (k : DedupKey) (ad : ClassAd)
  /-- `Query`, `QueryRaw` and its variants, `Get`, `Len`, `Watch`. -/
  | read
  /-- `Invalidate` and `Expire`: which keys the wrapped backend drops, given what it holds. -/
  | remove (drops : Contents → DedupKey → Bool)

def Op.Updates (k : DedupKey) : Op → Prop
  | .durable e => e.key = k
  | .update k' _ => k' = k
  | _ => False

inductive Pc where
  /-- Between operations. -/
  | idle
  /-- In `enqueue`, before the lock. -/
  | enqueue (e : Entry)
  /-- In `flush`, before the swap; then it returns, or goes on with an operation. -/
  | flush (next : Option Op)
  /-- In `flush`, with a batch swapped out and not yet applied. -/
  | apply (batch : Batch) (next : Option Op)
  /-- After a successful flush, before the call of the wrapped backend. -/
  | body (op : Op)

def Pc.after : Option Op → Pc
  | none => .idle
  | some op => .body op

def Pc.batch : Pc → Batch
  | .apply batch _ => batch
  | _ => ∅

@[simp] theorem Pc.batch_apply (batch : Batch) (next : Option Op) :
    (Pc.apply batch next).batch = batch := rfl

@[simp] theorem Pc.batch_idle : Pc.idle.batch = ∅ := rfl

@[simp] theorem Pc.batch_after (next : Option Op) : (Pc.after next).batch = ∅ := by
  cases next <;> rfl

structure Config where
  /-- `window > 0`: there is a background writer. -/
  background : Bool
  /-- The high-water mark. -/
  maxBuf : ℕ
  /-- The cap at which producers block. -/
  hardCap : ℕ

def Config.flushesInline (cfg : Config) (n : ℕ) : Bool :=
  if cfg.background then cfg.hardCap ≤ n else cfg.maxBuf ≤ n

/-! ## Steps -/

/-- The state of the system. -/
structure Sys where
  /-- The buffer. -/
  buf : Batch
  /-- Where every goroutine stands. -/
  pc : Gid → Pc
  /-- The wrapped backend. -/
  stored : DedupKey → Option (Stamped Version)
  /-- The next ticket. -/
  clock : ℕ
  /-- The version of each ad accepted last, unless it was dropped. -/
  latest : DedupKey → Option (Stamped Version)
  /-- The ticket of each ad's last direct write, unless it was dropped. -/
  direct : DedupKey → Option ℕ

inductive Label where
  /-- A client calls `UpdateOldText` or `UpdatePvt` with an update that has a key. -/
  | callUpdate (n : ℕ) (e : Entry)
  /-- A client calls an operation that flushes first. -/
  | callOp (n : ℕ) (op : Op)
  /-- The background writer wakes up, on its ticker or a signal. -/
  | tick
  | enqueue (g : Gid)
  | swap (g : Gid)
  | commit (g : Gid)
  | cut (g : Gid)
  | body (g : Gid)

namespace Sys

def contents (s : Sys) : Contents := fun k => (s.stored k).map Stamped.version

def init (contents : Contents) : Sys where
  buf := ∅
  pc := fun _ => .idle
  stored := fun k => (contents k).map (Stamped.mk 0)
  clock := 1
  latest := fun k => (contents k).map (Stamped.mk 0)
  direct := fun _ => none

def setPc (s : Sys) (g : Gid) (pc : Pc) : Sys := { s with pc := Function.update s.pc g pc }

def putUpdate (cfg : Config) (s : Sys) (g : Gid) (e : Entry) : Sys :=
  let buf := s.buf.insert e.key ⟨s.clock, .text e.update⟩
  { s with
    buf := buf
    pc := Function.update s.pc g (if cfg.flushesInline (GoMap.len buf) then .flush none else .idle)
    clock := s.clock + 1
    latest := Function.update s.latest e.key (some ⟨s.clock, .text e.update⟩) }

def swapBuffer (s : Sys) (g : Gid) (next : Option Op) : Sys :=
  -- nothing waits for the batches that other goroutines have in flight
  if s.buf.len = 0 then s.setPc g (.after next)
  else { s with buf := ∅, pc := Function.update s.pc g (.apply s.buf next) }

def commitBatch (s : Sys) (g : Gid) (batch : Batch) (next : Option Op) : Sys :=
  { s with
    stored := fun k => (batch.lookup k).or (s.stored k)
    pc := Function.update s.pc g (.after next) }

def cutBatch (s : Sys) (g : Gid) (batch : Batch) : Sys :=
  { s with buf := s.buf.putBack batch.pairs, pc := Function.update s.pc g .idle }

def writeAd (s : Sys) (g : Gid) (k : DedupKey) (v : Version) : Sys :=
  { s with
    stored := Function.update s.stored k (some ⟨s.clock, v⟩)
    pc := Function.update s.pc g .idle
    clock := s.clock + 1
    latest := Function.update s.latest k (some ⟨s.clock, v⟩)
    direct := Function.update s.direct k (some s.clock) }

def dropAds (s : Sys) (g : Gid) (drops : Contents → DedupKey → Bool) : Sys :=
  { s with
    stored := fun k => if drops s.contents k then none else s.stored k
    pc := Function.update s.pc g .idle
    latest := fun k => if drops s.contents k then none else s.latest k
    direct := fun k => if drops s.contents k then none else s.direct k }

def perform (s : Sys) (g : Gid) : Op → Sys
  | .durable e => s.writeAd g e.key (.text e.update)
  | .update k ad => s.writeAd g k (.ad ad)
  | .read => s.setPc g .idle
  | .remove drops => s.dropAds g drops

def step (cfg : Config) (s : Sys) : Label → Option Sys
  | .callUpdate n e =>
    match s.pc (.client n) with
    | .idle => some (s.setPc (.client n) (.enqueue e))
    | _ => none
  | .callOp n op =>
    match s.pc (.client n) with
    | .idle => some (s.setPc (.client n) (.flush (some op)))
    | _ => none
  | .tick =>
    match cfg.background, s.pc .writer with
    | true, .idle => some (s.setPc .writer (.flush none))
    | _, _ => none
  | .enqueue g =>
    match s.pc g with
    | .enqueue e => some (s.putUpdate cfg g e)
    | _ => none
  | .swap g =>
    match s.pc g with
    | .flush next => some (s.swapBuffer g next)
    | _ => none
  | .commit g =>
    match s.pc g with
    | .apply batch next => some (s.commitBatch g batch next)
    | _ => none
  | .cut g =>
    -- the pending operation is dropped with the error
    match g, s.pc g with
    | .client _, .apply batch _ => some (s.cutBatch g batch)
    | _, _ => none
  | .body g =>
    match s.pc g with
    | .body op => some (s.perform g op)
    | _ => none

/-! ## One key of the system -/

def cell (s : Sys) (k : DedupKey) : Cell Gid Version where
  buf := s.buf.lookup k
  flight g := (s.pc g).batch.lookup k
  stored := s.stored k
  latest := s.latest k
  direct := s.direct k
  clock := s.clock

def performAct (s : Sys) (k : DedupKey) : Op → Act Gid Version
  | .durable e => if k = e.key then .write (.text e.update) else .pass
  | .update k' ad => if k = k' then .write (.ad ad) else .pass
  | .read => .skip
  | .remove drops => if drops s.contents k then .remove else .skip

def act (s : Sys) (k : DedupKey) : Label → Act Gid Version
  | .callUpdate .. => .skip
  | .callOp .. => .skip
  | .tick => .skip
  | .enqueue g =>
    match s.pc g with
    | .enqueue e => if k = e.key then .accept (.text e.update) else .pass
    | _ => .skip
  -- a swap that finds the buffer empty takes nothing of any key
  | .swap g => .take g
  | .commit g => .commit g
  | .cut g => .putBack g
  | .body g =>
    match s.pc g with
    | .body op => s.performAct k op
    | _ => .skip

/-- **What a step can do to a key.** -/
inductive Acts (s : Sys) (k : DedupKey) : Label → Act Gid Version → Prop where
  | skip (l : Label) : Acts s k l .skip
  | pass (l : Label) : Acts s k l .pass
  | accept (g : Gid) (e : Entry) (hpc : s.pc g = .enqueue e) (hk : e.key = k) :
      Acts s k (.enqueue g) (.accept (.text e.update))
  | take (g : Gid) : Acts s k (.swap g) (.take g)
  | commit (g : Gid) : Acts s k (.commit g) (.commit g)
  | putBack (g : Gid) : Acts s k (.cut g) (.putBack g)
  | write (g : Gid) (op : Op) (v : Version) (hpc : s.pc g = .body op) (hk : op.Updates k) :
      Acts s k (.body g) (.write v)
  | remove (g : Gid) : Acts s k (.body g) .remove

variable {g : Gid}

theorem acts_perform {s : Sys} {op : Op} (hpc : s.pc g = .body op) (k : DedupKey) :
    Acts s k (.body g) (s.performAct k op) := by
  cases op with
  | durable e =>
    by_cases hk : k = e.key
    · rw [performAct, if_pos hk]
      exact .write g _ _ hpc hk.symm
    · rw [performAct, if_neg hk]
      exact .pass _
  | update k' ad =>
    by_cases hk : k = k'
    · rw [performAct, if_pos hk]
      exact .write g _ _ hpc hk.symm
    · rw [performAct, if_neg hk]
      exact .pass _
  | read => exact .skip _
  | remove drops =>
    rw [performAct]
    split
    · exact .remove g
    · exact .skip _

theorem acts (s : Sys) (k : DedupKey) (l : Label) : Acts s k l (s.act k l) := by
  cases l with
  | callUpdate n e => exact .skip _
  | callOp n op => exact .skip _
  | tick => exact .skip _
  | enqueue g =>
    rw [act]
    split
    · rename_i e hpc
      by_cases hk : k = e.key
      · rw [if_pos hk]
        exact .accept g e hpc hk.symm
      · rw [if_neg hk]
        exact .pass _
    · exact .skip _
  | swap g => exact .take g
  | commit g => exact .commit g
  | cut g => exact .putBack g
  | body g =>
    rw [act]
    split
    · rename_i op hpc
      exact acts_perform hpc k
    · exact .skip _

theorem flight_update (s : Sys) (k : DedupKey) (g : Gid) (pc : Pc) :
    (fun h => (Function.update s.pc g pc h).batch.lookup k) =
      Function.update (fun h => (s.pc h).batch.lookup k) g (pc.batch.lookup k) := by
  funext h
  by_cases hg : h = g
  · subst hg
    rw [Function.update_self, Function.update_self]
  · rw [Function.update_of_ne hg, Function.update_of_ne hg]

theorem flight_update_of_empty (s : Sys) (k : DedupKey) {pc : Pc} (hold : (s.pc g).batch = ∅)
    (hnew : pc.batch = ∅) :
    (fun h => (Function.update s.pc g pc h).batch.lookup k) = fun h => (s.pc h).batch.lookup k := by
  rw [flight_update, hnew, ← hold]
  exact Function.update_eq_self g _

theorem cell_setPc (s : Sys) (k : DedupKey) {pc : Pc} (hold : (s.pc g).batch = ∅)
    (hnew : pc.batch = ∅) : (s.setPc g pc).cell k = s.cell k := by
  simp only [cell, setPc, flight_update_of_empty s k hold hnew]

theorem cell_putUpdate (cfg : Config) (s : Sys) (k : DedupKey) (e : Entry)
    (hold : (s.pc g).batch = ∅) :
    (s.putUpdate cfg g e).cell k =
      (s.cell k).next (if k = e.key then .accept (.text e.update) else .pass) := by
  have hnew : (if cfg.flushesInline (GoMap.len (s.buf.insert e.key ⟨s.clock, .text e.update⟩))
      then Pc.flush none else .idle).batch = ∅ := by split <;> rfl
  simp only [cell, putUpdate, flight_update_of_empty s k hold hnew]
  by_cases hk : k = e.key
  · subst hk
    simp [Cell.next]
  · simp [Cell.next, hk, lookup_insert_ne hk]

theorem cell_swapBuffer (s : Sys) (k : DedupKey) (next : Option Op) (hold : (s.pc g).batch = ∅) :
    (s.swapBuffer g next).cell k = (s.cell k).next (.take g) := by
  rw [swapBuffer]
  split
  · -- an empty buffer: taking nothing leaves the goroutine's empty hands as they are
    rename_i hempty
    have hbuf : s.buf.lookup k = none := GoMap.lookup_of_len_eq_zero hempty k
    rw [cell_setPc s k hold (Pc.batch_after next)]
    have hflight : Function.update (s.cell k).flight g none = (s.cell k).flight := by
      rw [Function.update_eq_self_iff]
      show none = (s.pc g).batch.lookup k
      rw [hold, lookup_empty]
    simp only [Cell.next, show (s.cell k).buf = none from hbuf, hflight]
    rw [← show (s.cell k).buf = none from hbuf]
  · simp only [cell, flight_update, Cell.next, Pc.batch_apply, lookup_empty]

variable {batch : Batch}

theorem cell_commitBatch (s : Sys) (k : DedupKey) (next : Option Op)
    (hold : (s.pc g).batch = batch) :
    (s.commitBatch g batch next).cell k = (s.cell k).next (.commit g) := by
  simp only [cell, commitBatch, flight_update, Cell.next, hold, Pc.batch_after, lookup_empty]

theorem cell_cutBatch (s : Sys) (k : DedupKey) (hold : (s.pc g).batch = batch) :
    (s.cutBatch g batch).cell k = (s.cell k).next (.putBack g) := by
  simp only [cell, cutBatch, flight_update, Cell.next, hold, GoMap.lookup_putBack,
    GoMap.find?_pairs, Pc.batch_idle, lookup_empty]

theorem cell_writeAd (s : Sys) (k : DedupKey) (k' : DedupKey) (v : Version)
    (hold : (s.pc g).batch = ∅) :
    (s.writeAd g k' v).cell k = (s.cell k).next (if k = k' then .write v else .pass) := by
  simp only [cell, writeAd, flight_update_of_empty s k hold Pc.batch_idle]
  by_cases hk : k = k'
  · subst hk
    simp [Cell.next]
  · simp [Cell.next, hk]

theorem cell_dropAds (s : Sys) (k : DedupKey) (drops : Contents → DedupKey → Bool)
    (hold : (s.pc g).batch = ∅) :
    (s.dropAds g drops).cell k =
      (s.cell k).next (if drops s.contents k then .remove else .skip) := by
  simp only [cell, dropAds, flight_update_of_empty s k hold Pc.batch_idle]
  cases drops s.contents k <;> simp [Cell.next]

theorem cell_perform (s : Sys) (k : DedupKey) (op : Op) (hold : (s.pc g).batch = ∅) :
    (s.perform g op).cell k = (s.cell k).next (s.performAct k op) := by
  cases op with
  | durable e => exact s.cell_writeAd k e.key _ hold
  | update k' ad => exact s.cell_writeAd k k' _ hold
  | read => exact s.cell_setPc k hold rfl
  | remove drops => exact s.cell_dropAds k drops hold

variable {cfg : Config} {s s' : Sys} {l : Label}

section

variable (h : s.step cfg l = some s')
include h

theorem step_cases :
    (∃ n e, l = .callUpdate n e ∧ s.pc (.client n) = .idle ∧
        s' = s.setPc (.client n) (.enqueue e)) ∨
    (∃ n op, l = .callOp n op ∧ s.pc (.client n) = .idle ∧
        s' = s.setPc (.client n) (.flush (some op))) ∨
    (l = .tick ∧ s.pc .writer = .idle ∧ s' = s.setPc .writer (.flush none)) ∨
    (∃ g e, l = .enqueue g ∧ s.pc g = .enqueue e ∧ s' = s.putUpdate cfg g e) ∨
    (∃ g next, l = .swap g ∧ s.pc g = .flush next ∧ s' = s.swapBuffer g next) ∨
    (∃ g batch next, l = .commit g ∧ s.pc g = .apply batch next ∧
        s' = s.commitBatch g batch next) ∨
    (∃ g batch next, l = .cut g ∧ s.pc g = .apply batch next ∧ s' = s.cutBatch g batch) ∨
    (∃ g op, l = .body g ∧ s.pc g = .body op ∧ s' = s.perform g op) := by
  cases l with
  | callUpdate n e =>
    cases hpc : s.pc (.client n) <;> simp only [step, hpc, reduceCtorEq] at h
    exact Or.inl ⟨n, e, rfl, hpc, (some.inj h).symm⟩
  | callOp n op =>
    cases hpc : s.pc (.client n) <;> simp only [step, hpc, reduceCtorEq] at h
    exact Or.inr (Or.inl ⟨n, op, rfl, hpc, (some.inj h).symm⟩)
  | tick =>
    cases hbg : cfg.background <;> cases hpc : s.pc .writer <;>
      simp only [step, hbg, hpc, reduceCtorEq] at h
    exact Or.inr (Or.inr (Or.inl ⟨rfl, rfl, (some.inj h).symm⟩))
  | enqueue g =>
    cases hpc : s.pc g <;> simp only [step, hpc, reduceCtorEq] at h
    exact Or.inr (Or.inr (Or.inr (Or.inl ⟨g, _, rfl, hpc, (some.inj h).symm⟩)))
  | swap g =>
    cases hpc : s.pc g <;> simp only [step, hpc, reduceCtorEq] at h
    exact Or.inr (Or.inr (Or.inr (Or.inr (Or.inl ⟨g, _, rfl, hpc, (some.inj h).symm⟩))))
  | commit g =>
    cases hpc : s.pc g <;> simp only [step, hpc, reduceCtorEq] at h
    exact Or.inr (Or.inr (Or.inr (Or.inr (Or.inr (Or.inl
      ⟨g, _, _, rfl, hpc, (some.inj h).symm⟩)))))
  | cut g =>
    cases g with
    | writer => simp only [step, reduceCtorEq] at h
    | client n =>
      cases hpc : s.pc (.client n) <;> simp only [step, hpc, reduceCtorEq] at h
      exact Or.inr (Or.inr (Or.inr (Or.inr (Or.inr (Or.inr (Or.inl
        ⟨.client n, _, _, rfl, hpc, (some.inj h).symm⟩))))))
  | body g =>
    cases hpc : s.pc g <;> simp only [step, hpc, reduceCtorEq] at h
    exact Or.inr (Or.inr (Or.inr (Or.inr (Or.inr (Or.inr (Or.inr
      ⟨g, _, rfl, hpc, (some.inj h).symm⟩))))))

theorem cell_step (k : DedupKey) : s'.cell k = (s.cell k).next (s.act k l) := by
  -- one spec lemma per kind of step; only a goroutine that applies has a batch in flight
  obtain ⟨n, e, rfl, hpc, rfl⟩ | ⟨n, op, rfl, hpc, rfl⟩ | ⟨rfl, hpc, rfl⟩ | ⟨g, e, rfl, hpc, rfl⟩ |
    ⟨g, next, rfl, hpc, rfl⟩ | ⟨g, batch, next, rfl, hpc, rfl⟩ | ⟨g, batch, next, rfl, hpc, rfl⟩ |
    ⟨g, op, rfl, hpc, rfl⟩ := step_cases h
  · exact s.cell_setPc k (by rw [hpc]; rfl) rfl
  · exact s.cell_setPc k (by rw [hpc]; rfl) rfl
  · exact s.cell_setPc k (by rw [hpc]; rfl) rfl
  · rw [s.cell_putUpdate cfg k e (by rw [hpc]; rfl), act, hpc]
  · exact s.cell_swapBuffer k next (by rw [hpc]; rfl)
  · exact s.cell_commitBatch k next (by rw [hpc]; rfl)
  · exact s.cell_cutBatch k (by rw [hpc]; rfl)
  · rw [s.cell_perform k op (by rw [hpc]; rfl), act, hpc]

theorem enabled_act (k : DedupKey) : (s.act k l).Enabled (s.cell k) := by
  have hacts := s.acts k l
  generalize s.act k l = a at hacts
  cases hacts with
  | take g =>
    cases hpc : s.pc g <;> simp only [step, hpc, reduceCtorEq] at h
    show (s.pc g).batch.lookup k = none
    rw [hpc]
    rfl
  | _ => trivial

/-! ## Where a goroutine comes from -/

inductive Moves (s : Sys) : Label → Gid → Pc → Prop where
  | callUpdate (n : ℕ) (e : Entry) : Moves s (.callUpdate n e) (.client n) (.enqueue e)
  | callOp (n : ℕ) (op : Op) : Moves s (.callOp n op) (.client n) (.flush (some op))
  | tick : Moves s .tick .writer (.flush none)
  | inline (g : Gid) : Moves s (.enqueue g) g (.flush none)
  | nothing (g : Gid) (next : Option Op) (hpc : s.pc g = .flush next) (hbuf : s.buf.len = 0) :
      Moves s (.swap g) g (.after next)
  | swap (g : Gid) (next : Option Op) (hpc : s.pc g = .flush next) :
      Moves s (.swap g) g (.apply s.buf next)
  | commit (g : Gid) (batch : Batch) (next : Option Op) (hpc : s.pc g = .apply batch next) :
      Moves s (.commit g) g (.after next)
  | done (l : Label) (g : Gid) : Moves s l g .idle

theorem exists_moves : ∃ g pc, s'.pc = Function.update s.pc g pc ∧ Moves s l g pc := by
  obtain ⟨n, e, rfl, hpc, rfl⟩ | ⟨n, op, rfl, hpc, rfl⟩ | ⟨rfl, hpc, rfl⟩ | ⟨g, e, rfl, hpc, rfl⟩ |
    ⟨g, next, rfl, hpc, rfl⟩ | ⟨g, batch, next, rfl, hpc, rfl⟩ | ⟨g, batch, next, rfl, hpc, rfl⟩ |
    ⟨g, op, rfl, hpc, rfl⟩ := step_cases h
  · exact ⟨_, _, rfl, .callUpdate n e⟩
  · exact ⟨_, _, rfl, .callOp n op⟩
  · exact ⟨_, _, rfl, .tick⟩
  · refine ⟨g, _, rfl, ?_⟩
    split
    · exact .inline g
    · exact .done _ g
  · rw [swapBuffer]
    split
    · exact ⟨g, _, rfl, .nothing g next hpc ‹_›⟩
    · exact ⟨g, _, rfl, .swap g next hpc⟩
  · exact ⟨g, _, rfl, .commit g batch next hpc⟩
  · exact ⟨g, _, rfl, .done _ g⟩
  · cases op <;> exact ⟨g, _, rfl, .done _ g⟩

theorem pc_step (g : Gid) : s'.pc g = s.pc g ∨ Moves s l g (s'.pc g) := by
  obtain ⟨g', pc, hpc, hmoves⟩ := exists_moves h
  by_cases hg : g = g'
  · subst hg
    rw [hpc, Function.update_self]
    exact Or.inr hmoves
  · rw [hpc, Function.update_of_ne hg]
    exact Or.inl rfl

theorem pc_flush {n : ℕ} {op : Op} (hpc : s'.pc (.client n) = .flush (some op)) :
    s.pc (.client n) = .flush (some op) ∨ l = .callOp n op := by
  rcases pc_step h (.client n) with hsame | hmoves
  · exact Or.inl (hsame ▸ hpc)
  · rw [hpc] at hmoves
    -- the indices of the move become variables, and each kind of move is compared with them
    generalize hg : Gid.client n = g at hmoves
    generalize hp : Pc.flush (some op) = pc at hmoves
    cases hmoves with
    | callOp m op' =>
      cases hg
      cases hp
      exact Or.inr rfl
    | nothing g next | commit g batch next =>
      cases next <;> cases hp
    | _ => cases hp

theorem pc_apply {next : Option Op} (hpc : s'.pc g = .apply batch next) :
    s.pc g = .apply batch next ∨ (l = .swap g ∧ s.pc g = .flush next ∧ batch = s.buf) := by
  rcases pc_step h g with hsame | hmoves
  · exact Or.inl (hsame ▸ hpc)
  · rw [hpc] at hmoves
    generalize hp : Pc.apply batch next = pc at hmoves
    cases hmoves with
    | swap g next' hold =>
      cases hp
      exact Or.inr ⟨rfl, hold, rfl⟩
    | nothing g next' | commit g batch next' =>
      cases next' <;> cases hp
    | _ => cases hp

theorem pc_body {op : Op} (hpc : s'.pc g = .body op) :
    s.pc g = .body op ∨ (l = .swap g ∧ s.pc g = .flush (some op) ∧ s.buf.len = 0) ∨
      (∃ batch, l = .commit g ∧ s.pc g = .apply batch (some op)) := by
  rcases pc_step h g with hsame | hmoves
  · exact Or.inl (hsame ▸ hpc)
  · rw [hpc] at hmoves
    generalize hp : Pc.body op = pc at hmoves
    cases hmoves with
    | nothing g next hold hbuf =>
      cases next <;> cases hp
      exact Or.inr (Or.inl ⟨rfl, hold, hbuf⟩)
    | commit g batch next hold =>
      cases next <;> cases hp
      exact Or.inr (Or.inr ⟨batch, rfl, hold⟩)
    | _ => cases hp

end

end Sys

end GolangCollector
