import GolangCollector.Store.Buffered

/-! # Order of writes, reads and invalidations through the buffer

Because a flush swaps the buffer out before it applies it, two batches can be in flight together,
and a batch can be in flight while another goroutine finds the buffer empty and goes on to the
wrapped backend. Three rules, on the state before a step, keep the order key by key:

* `Calm`: a buffered update is swapped out only while no batch in flight holds its key, and a
  durable write or a removal acts on a key only while the key is neither buffered nor in flight;
* `FlushCalm`: the flush that precedes an operation swaps only while no batch in flight holds the
  key;
* `RemoveCalm`: a removal is called only while no update of the key is running. -/

namespace GolangCollector

open GoStrings WriteBehind Runs Option

namespace Sys

/-! ## The rules -/

def Calm (k : DedupKey) (s : Sys) (l : Label) : Prop := (s.act k l).Calm (s.cell k)

def FlushCalm (k : DedupKey) (s : Sys) : Label → Prop
  | .swap g => ∀ op, s.pc g = .flush (some op) → ∀ h, (s.pc h).batch.lookup k = none
  | _ => True

def Drops (k : DedupKey) (s : Sys) (l : Label) : Prop := s.act k l = .remove

def Quiescent (s : Sys) : Prop := s.buf.len = 0 ∧ ∀ g batch next, s.pc g ≠ .apply batch next

variable {cfg : Config} {contents : Contents} {k : DedupKey} {s s' : Sys} {l : Label}
  {ls : List Label}

theorem not_drops_swap (g : Gid) : ¬ Drops k s (.swap g) := nofun

theorem not_drops_commit (g : Gid) : ¬ Drops k s (.commit g) := nofun

theorem calm_enqueue (g : Gid) : Calm k s (.enqueue g) := by
  rw [Calm]
  have hacts := s.acts k (.enqueue g)
  generalize s.act k (.enqueue g) = a at hacts
  cases hacts <;> trivial

theorem Quiescent.settled (h : s.Quiescent) (k : DedupKey) : (s.cell k).Settled := by
  refine ⟨GoMap.lookup_of_len_eq_zero h.1 k, fun g => ?_⟩
  show (s.pc g).batch.lookup k = none
  cases hpc : s.pc g with
  | apply batch next => exact absurd hpc (h.2 g batch next)
  | _ => rfl

theorem ordered_init (contents : Contents) (k : DedupKey) : ((init contents).cell k).Ordered where
  single := fun _ _ _ _ h => by cases h
  stored_lt_flight := fun _ _ _ _ h => by cases h
  flight_lt_buf := fun _ _ _ h => by cases h
  stored_lt_buf := fun _ _ _ h => by cases h
  stored_lt := fun v h => by
    obtain ⟨_, -, rfl⟩ := Option.map_eq_some_iff.mp h
    exact Nat.one_pos
  flight_lt := fun _ _ h => by cases h
  latest_lt := fun v h => by
    obtain ⟨_, -, rfl⟩ := Option.map_eq_some_iff.mp h
    exact Nat.one_pos
  latest_buf := fun _ h => by cases h
  latest_flight := fun _ _ _ h => by cases h
  latest_stored := fun _ => rfl
  direct_le := fun _ h => by cases h

theorem ordered_step (h : s.step cfg l = some s') (hcalm : Calm k s l) (hs : (s.cell k).Ordered) :
    (s'.cell k).Ordered := by
  rw [cell_step h]
  exact hs.next (enabled_act h k) hcalm

theorem ordered_run (h : Run (step cfg) (Calm k) (init contents) ls s) : (s.cell k).Ordered :=
  h.invariant (I := fun s => (s.cell k).Ordered)
    (fun _ _ _ hstep hcalm hs => ordered_step hstep hcalm hs) (ordered_init contents k)

end Sys

/-! ## A scene for the runs below

Two updates of one master ad, with a background writer and an empty backend. -/

def olderUpdate : PendingUpdate := ⟨.masterAd, "Name = \"m\"\nJobs = 1\n", [], false⟩

def newerUpdate : PendingUpdate := ⟨.masterAd, "Name = \"m\"\nJobs = 2\n", [], false⟩

def masterKey : DedupKey := ⟨.masterAd, "m\x00"⟩

def older : Entry := ⟨masterKey, olderUpdate, by decide⟩

def newer : Entry := ⟨masterKey, newerUpdate, by decide⟩

def windowed : Config := ⟨true, 2048, 8192⟩

def scene : Sys := Sys.init fun _ => none

namespace Sys

def buffered : Sys :=
  (scene.setPc (.client 0) (.enqueue older)).putUpdate windowed (.client 0) older

def called (op : Op) : Sys := buffered.setPc (.client 1) (.flush (some op))

def taken (op : Op) : Sys := (called op).swapBuffer (.client 1) (some op)

def committed (op : Op) : Sys := (taken op).commitBatch (.client 1) buffered.buf (some op)

theorem run_buffered {P : Sys → Label → Prop} (hcall : ∀ s, P s (.callUpdate 0 older))
    (hput : ∀ s, P s (.enqueue (.client 0))) :
    Run (step windowed) P scene [.callUpdate 0 older, .enqueue (.client 0)] buffered :=
  .cons rfl (hcall _) (.cons rfl (hput _) (.nil _))

variable {op : Op}

theorem run_committed {P : Sys → Label → Prop} (hswap : P (called op) (.swap (.client 1)))
    (hcommit : ∀ s, P s (.commit (.client 1))) :
    Run (step windowed) P (called op) [.swap (.client 1), .commit (.client 1)] (committed op) :=
  .cons rfl hswap (.cons rfl (hcommit _) (.nil _))

theorem batch_called (op : Op) (g : Gid) : ((called op).pc g).batch = ∅ :=
  match g with
  | .writer => rfl
  | .client 0 => rfl
  | .client 1 => rfl
  | .client (_ + 2) => rfl

theorem calm_called (op : Op) :
    Calm masterKey (called op) (.swap (.client 1)) ∧
      FlushCalm masterKey (called op) (.swap (.client 1)) := by
  have hnone : ∀ g, ((called op).pc g).batch.lookup masterKey = none := by
    intro g
    rw [batch_called]
    rfl
  exact ⟨fun _ => hnone, fun _ _ => hnone⟩

end Sys

/-! ## The last writer wins -/

/-- **The last writer wins at a key.** -/
structure LastWriterWins (k : DedupKey) (s : Sys) : Prop where
  quiescent : s.Quiescent → s.stored k = s.latest k
  direct : ∀ d, s.direct k = some d → Cell.AtLeast d (s.stored k)

/-- **In every calm run the last writer wins.** -/
theorem lastWriterWins_of_calm (cfg : Config) (contents : Contents) (k : DedupKey) (ls : List Label)
    (s : Sys) (h : Run (Sys.step cfg) (Sys.Calm k) (Sys.init contents) ls s) :
    LastWriterWins k s where
  quiescent := fun hq => ((Sys.ordered_run h).latest_stored (hq.settled k)).symm
  direct := (Sys.ordered_run h).direct_le

theorem lastWriterWins_of_calm_flushed :
    ∃ s, Run (Sys.step windowed) (Sys.Calm masterKey) scene
        [.callUpdate 0 older, .enqueue (.client 0), .tick, .swap .writer, .commit .writer] s ∧
      s.stored masterKey = some ⟨1, .text olderUpdate⟩ ∧ LastWriterWins masterKey s := by
  obtain ⟨s, hrun, hstored⟩ : ∃ s, Run (Sys.step windowed) (Sys.Calm masterKey) scene
      [.callUpdate 0 older, .enqueue (.client 0), .tick, .swap .writer, .commit .writer] s ∧
        s.stored masterKey = some ⟨1, .text olderUpdate⟩ := by
    refine ⟨_, .cons rfl trivial (.cons rfl trivial (.cons rfl trivial (.cons rfl ?_
      (.cons rfl trivial (.nil _))))), rfl⟩
    intro _ g
    match g with
    | .writer => rfl
    | .client 0 => rfl
    | .client (n + 1) => rfl
  exact ⟨s, hrun, hstored, lastWriterWins_of_calm _ _ _ _ _ hrun⟩

def overtakenByBatch : List Label :=
  [.callUpdate 0 older, .enqueue (.client 0), .tick, .swap .writer, .callUpdate 0 newer,
    .enqueue (.client 0), .callOp 1 .read, .swap (.client 1), .commit (.client 1),
    .body (.client 1), .commit .writer]

def overtakenByDurable : List Label :=
  [.callUpdate 0 older, .enqueue (.client 0), .tick, .swap .writer, .callOp 1 (.durable newer),
    .swap (.client 1), .body (.client 1), .commit .writer]

theorem stale_batch_overwrites :
    (∃ s, exec (Sys.step windowed) scene overtakenByBatch = some s ∧ s.Quiescent ∧
      s.stored masterKey = some ⟨1, .text olderUpdate⟩ ∧
      s.latest masterKey = some ⟨2, .text newerUpdate⟩ ∧ ¬ LastWriterWins masterKey s) ∧
    ∃ s, exec (Sys.step windowed) scene overtakenByDurable = some s ∧
      s.stored masterKey = some ⟨1, .text olderUpdate⟩ ∧ s.direct masterKey = some 2 ∧
      ¬ LastWriterWins masterKey s := by
  constructor
  · obtain ⟨s, hrun, hquiescent, hstored, hlatest⟩ : ∃ s,
        exec (Sys.step windowed) scene overtakenByBatch = some s ∧ s.Quiescent ∧
          s.stored masterKey = some ⟨1, .text olderUpdate⟩ ∧
          s.latest masterKey = some ⟨2, .text newerUpdate⟩ := by
      refine ⟨_, rfl, ⟨rfl, fun g batch next => ?_⟩, rfl, rfl⟩
      -- nobody is applying a batch at the end of the run
      match g with
      | .writer => exact nofun
      | .client 0 => exact nofun
      | .client 1 => exact nofun
      | .client (n + 2) => exact nofun
    refine ⟨s, hrun, hquiescent, hstored, hlatest, fun h => ?_⟩
    have heq := h.quiescent hquiescent
    rw [hstored, hlatest] at heq
    exact absurd heq (by decide)
  · refine ⟨_, rfl, rfl, rfl, fun h => ?_⟩
    obtain ⟨v, hv, hle⟩ := h.direct 2 rfl
    cases hv
    exact absurd hle (by decide)

/-! ## Reads see what was accepted before them -/

def Label.IsCallBy (n : ℕ) : Label → Prop
  | .callUpdate m _ => m = n
  | .callOp m _ => m = n
  | _ => False

def ReadAfter (cfg : Config) (contents : Contents) (P : Sys → Label → Prop) (k : DedupKey)
    (v : Stamped Version) (n : ℕ) (s₁ s : Sys) : Prop :=
  ∃ ls₁ s₂ ls₂, Run (Sys.step cfg) P (Sys.init contents) ls₁ s₁ ∧ s₁.latest k = some v ∧
    s₁.step cfg (.callOp n .read) = some s₂ ∧
    Run (Sys.step cfg) (fun s l => P s l ∧ ¬ Sys.Drops k s l ∧ ¬ l.IsCallBy n) s₂ ls₂ s ∧
    s.pc (.client n) = .body .read

namespace Sys

structure ReadPhase (k : DedupKey) (i : ℕ) (n : ℕ) (s : Sys) : Prop where
  flush : s.pc (.client n) = .flush (some .read) → Cell.AtLeast i (s.latest k)
  apply : ∀ batch, s.pc (.client n) = .apply batch (some .read) →
    Cell.AtLeast i (batch.lookup k) ∨ Cell.AtLeast i (s.stored k)
  body : s.pc (.client n) = .body .read → Cell.AtLeast i (s.stored k)

variable {cfg : Config} {contents : Contents} {k : DedupKey} {s s' : Sys} {l : Label}
  {ls : List Label} {n : ℕ}

theorem step_callOp (h : s.step cfg (.callOp n op) = some s') :
    s' = s.setPc (.client n) (.flush (some op)) := by
  cases hpc : s.pc (.client n) <;> simp only [step, hpc, reduceCtorEq] at h
  exact (some.inj h).symm

theorem pc_callOp (h : s.step cfg (.callOp n op) = some s') :
    s'.pc (.client n) = .flush (some op) := by
  rw [step_callOp h]
  exact Function.update_self _ _ _

theorem atLeast_stored_step (h : s.step cfg l = some s') (hs : (s.cell k).Ordered)
    (hdrops : ¬ Drops k s l) {i : ℕ} (hi : Cell.AtLeast i (s.stored k)) :
    Cell.AtLeast i (s'.stored k) := by
  have hnext := hs.atLeast_stored (a := s.act k l) hdrops hi
  rw [← cell_step h] at hnext
  exact hnext

theorem atLeast_latest_step (h : s.step cfg l = some s') (hs : (s.cell k).Ordered)
    (hdrops : ¬ Drops k s l) {i : ℕ} (hi : Cell.AtLeast i (s.latest k)) :
    Cell.AtLeast i (s'.latest k) := by
  have hnext := hs.atLeast_latest (a := s.act k l) hdrops hi
  rw [← cell_step h] at hnext
  exact hnext

theorem atLeast_of_flushCalm {g : Gid} (hs : (s.cell k).Ordered) (hcalm : FlushCalm k s (.swap g))
    (hpc : s.pc g = .flush (some op)) {i : ℕ} (hi : Cell.AtLeast i (s.latest k)) :
    Cell.AtLeast i (s.buf.lookup k) ∨ Cell.AtLeast i (s.stored k) := by
  have hlatest : s.latest k = (s.buf.lookup k).or (s.stored k) := hs.latest_eq (hcalm op hpc)
  rw [hlatest] at hi
  obtain ⟨v, hv, hle⟩ := hi
  rcases or_eq_some_iff.mp hv with hb | ⟨-, hst⟩
  · exact Or.inl ⟨v, hb, hle⟩
  · exact Or.inr ⟨v, hst, hle⟩

theorem ReadPhase.step {i n : ℕ} (hphase : ReadPhase k i n s) (h : s.step cfg l = some s')
    (hs : (s.cell k).Ordered) (hflush : FlushCalm k s l) (hdrops : ¬ Drops k s l)
    (hcall : ¬ l.IsCallBy n) : ReadPhase k i n s' where
  flush := by
    intro hpc
    rcases pc_flush h hpc with hold | rfl
    · exact atLeast_latest_step h hs hdrops (hphase.flush hold)
    · exact absurd rfl hcall
  apply := by
    intro batch hpc
    rcases pc_apply h hpc with hold | ⟨rfl, hold, rfl⟩
    · exact (hphase.apply batch hold).imp_right (atLeast_stored_step h hs hdrops)
    · -- its swap: the batch is the buffer
      exact (atLeast_of_flushCalm hs hflush hold (hphase.flush hold)).imp_right
        (atLeast_stored_step h hs hdrops)
  body := by
    intro hpc
    rcases pc_body h hpc with hold | ⟨rfl, hold, hempty⟩ | ⟨batch, rfl, hold⟩
    · exact atLeast_stored_step h hs hdrops (hphase.body hold)
    · -- the buffer was empty, so the store had it already
      rcases atLeast_of_flushCalm hs hflush hold (hphase.flush hold) with ⟨v, hv, -⟩ | hst
      · rw [GoMap.lookup_of_len_eq_zero hempty] at hv
        cases hv
      · exact atLeast_stored_step h hs hdrops hst
    · rcases hphase.apply batch hold with ⟨v, hv, hle⟩ | hst
      · -- its own commit stores what its batch has
        have hnext := congrArg Cell.stored (cell_step h k)
        have hflight : (s.cell k).flight (.client n) = some v := by
          show (s.pc (.client n)).batch.lookup k = some v
          rw [hold]
          exact hv
        refine ⟨v, ?_, hle⟩
        show (s'.cell k).stored = some v
        rw [hnext]
        simp only [act, Cell.next, hflight, some_or]
      · exact atLeast_stored_step h hs hdrops hst

end Sys

/-- **A read sees every update accepted before it**, under the first two rules. -/
theorem readAfter_sees (cfg : Config) (contents : Contents) (k : DedupKey) (v : Stamped Version)
    (n : ℕ) (s₁ s : Sys)
    (h : ReadAfter cfg contents (fun s l => Sys.Calm k s l ∧ Sys.FlushCalm k s l) k v n s₁ s) :
    Cell.AtLeast v.ticket (s.stored k) := by
  obtain ⟨ls₁, s₂, ls₂, hrun₁, hlatest, hcall, hrun₂, hbody⟩ := h
  have hordered₁ : (s₁.cell k).Ordered :=
    Sys.ordered_run (hrun₁.mono fun _ _ hP => hP.1)
  have hpc₂ := Sys.pc_callOp hcall
  -- from the call on, the phases are an invariant together with the order of the places
  have hinv : (s.cell k).Ordered ∧ Sys.ReadPhase k v.ticket n s := by
    refine hrun₂.invariant (I := fun s => (s.cell k).Ordered ∧ Sys.ReadPhase k v.ticket n s)
      ?_ ⟨Sys.ordered_step hcall trivial hordered₁, ?_⟩
    · rintro s l s' hstep ⟨⟨hcalm, hflush⟩, hdrops, hnot⟩ ⟨hs, hphase⟩
      exact ⟨Sys.ordered_step hstep hcalm hs, hphase.step hstep hs hflush hdrops hnot⟩
    · refine ⟨fun _ => ?_, fun batch hpc => ?_, fun hpc => ?_⟩
      · rw [Sys.step_callOp hcall]
        exact ⟨v, hlatest, Nat.le_refl _⟩
      · rw [hpc₂] at hpc
        cases hpc
      · rw [hpc₂] at hpc
        cases hpc
  exact hinv.2.body hbody

theorem readAfter_sees_own_flush :
    ∃ s₁ s, ReadAfter windowed (fun _ => none)
        (fun s l => Sys.Calm masterKey s l ∧ Sys.FlushCalm masterKey s l) masterKey
        ⟨1, .text olderUpdate⟩ 1 s₁ s ∧ Cell.AtLeast 1 (s.stored masterKey) := by
  have hcalm := Sys.calm_called .read
  have h : ReadAfter windowed (fun _ => none)
      (fun s l => Sys.Calm masterKey s l ∧ Sys.FlushCalm masterKey s l) masterKey
      ⟨1, .text olderUpdate⟩ 1 Sys.buffered (Sys.committed .read) := by
    refine ⟨_, Sys.called .read, _, Sys.run_buffered ?_ ?_, rfl, rfl, Sys.run_committed ?_ ?_, rfl⟩
    · exact fun _ => ⟨trivial, trivial⟩
    · exact fun _ => ⟨Sys.calm_enqueue _, trivial⟩
    · exact ⟨hcalm, Sys.not_drops_swap _, not_false⟩
    · exact fun _ => ⟨⟨trivial, trivial⟩, Sys.not_drops_commit _, not_false⟩
  exact ⟨_, _, h, readAfter_sees _ _ _ _ _ _ _ h⟩

theorem read_misses_returned_update :
    ∃ s₁ s, ReadAfter windowed (fun _ => none) (fun _ _ => True) masterKey ⟨1, .text olderUpdate⟩ 1
        s₁ s ∧ s₁.pc (.client 0) = .idle ∧ s.stored masterKey = none := by
  refine ⟨_, _, ⟨[.callUpdate 0 older, .enqueue (.client 0), .tick, .swap .writer], _,
    [.swap (.client 1)], .cons rfl trivial (.cons rfl trivial (.cons rfl trivial (.cons rfl trivial
      (.nil _)))), rfl, rfl, .cons rfl ⟨trivial, Sys.not_drops_swap _, not_false⟩ (.nil _), rfl⟩,
    rfl, rfl⟩

/-! ## Removals are final -/

def Pc.Updates (k : DedupKey) : Pc → Prop
  | .enqueue e => e.key = k
  | .flush (some op) => op.Updates k
  | .apply _ (some op) => op.Updates k
  | .body op => op.Updates k
  | _ => False

def Label.Starts (k : DedupKey) : Label → Prop
  | .callUpdate _ e => e.key = k
  | .callOp _ op => op.Updates k
  | _ => False

def Selects (drops : Contents → DedupKey → Bool) (k : DedupKey) (v : Version) : Prop :=
  ∀ σ : Contents, σ k = some v → drops σ k = true

def RemoveAfter (cfg : Config) (contents : Contents) (P : Sys → Label → Prop) (k : DedupKey)
    (v : Stamped Version) (n : ℕ) (drops : Contents → DedupKey → Bool) (s : Sys) : Prop :=
  ∃ ls₁ s₁ s₁' ls₂ s₂ s₃ ls₃, Run (Sys.step cfg) P (Sys.init contents) ls₁ s₁ ∧
    s₁.latest k = some v ∧ Selects drops k v.version ∧
    s₁.step cfg (.callOp n (.remove drops)) = some s₁' ∧ P s₁ (.callOp n (.remove drops)) ∧
    Run (Sys.step cfg) (fun s l => P s l ∧ ¬ l.Starts k ∧ ¬ l.IsCallBy n) s₁' ls₂ s₂ ∧
    s₂.pc (.client n) = .body (.remove drops) ∧
    s₂.step cfg (.body (.client n)) = some s₃ ∧
    Run (Sys.step cfg) (fun s l => P s l ∧ ¬ l.Starts k) s₃ ls₃ s

namespace Sys

def NoUpdates (k : DedupKey) (s : Sys) : Prop := ∀ g, ¬ (s.pc g).Updates k

def RemoveCalm (k : DedupKey) (s : Sys) : Label → Prop
  | .callOp _ (.remove _) => s.NoUpdates k
  | _ => True

variable {cfg : Config} {contents : Contents} {k : DedupKey} {s s' : Sys} {l : Label}
  {ls : List Label}

theorem updates_apply (batch : Batch) (next : Option Op) :
    (Pc.apply batch next).Updates k ↔ (Pc.flush next).Updates k := by
  cases next <;> rfl

theorem updates_after (next : Option Op) :
    (Pc.after next).Updates k ↔ (Pc.flush next).Updates k := by
  cases next <;> rfl

theorem NoUpdates.step (hs : s.NoUpdates k) (h : s.step cfg l = some s') (hstart : ¬ l.Starts k) :
    s'.NoUpdates k := by
  intro g
  rcases pc_step h g with hsame | hmoves
  · rw [hsame]
    exact hs g
  · generalize s'.pc g = pc at hmoves
    cases hmoves with
    | callUpdate n e => exact hstart
    | callOp n op => exact hstart
    | nothing g next hpc =>
      rw [updates_after, ← hpc]
      exact hs g
    | swap g next hpc =>
      rw [updates_apply, ← hpc]
      exact hs g
    | commit g batch next hpc =>
      rw [updates_after, ← updates_apply batch, ← hpc]
      exact hs g
    | tick | inline _ | done _ _ => exact not_false

theorem NoUpdates.act_ne_accept (hs : s.NoUpdates k) (l : Label) (v : Version) :
    s.act k l ≠ .accept v := by
  intro heq
  have hacts := s.acts k l
  rw [heq] at hacts
  cases hacts with
  | accept g e hpc hk =>
    have hg := hs g
    rw [hpc] at hg
    exact hg hk

theorem NoUpdates.act_ne_write (hs : s.NoUpdates k) (l : Label) (v : Version) :
    s.act k l ≠ .write v := by
  intro heq
  have hacts := s.acts k l
  rw [heq] at hacts
  cases hacts with
  | write g op _ hpc hk =>
    have hg := hs g
    rw [hpc] at hg
    exact hg hk

theorem pc_cut {g : Gid} (h : s.step cfg (.cut g) = some s') : s'.pc g = .idle := by
  cases g with
  | writer => simp only [Sys.step, reduceCtorEq] at h
  | client n =>
    cases hpc : s.pc (.client n) <;> simp only [Sys.step, hpc, reduceCtorEq] at h
    rw [← some.inj h]
    exact Function.update_self _ _ _

structure RemovePhase (k : DedupKey) (v : Stamped Version) (n : ℕ)
    (drops : Contents → DedupKey → Bool) (s : Sys) : Prop where
  noUpdates : s.NoUpdates k
  latest : s.latest k = some v ∨ s.latest k = none
  apply : ∀ batch, s.pc (.client n) = .apply batch (some (.remove drops)) →
    (s.cell k).OnlyIn (.client n)
  body : s.pc (.client n) = .body (.remove drops) → (s.cell k).Settled

theorem RemovePhase.step {v : Stamped Version} {drops : Contents → DedupKey → Bool}
    (hphase : RemovePhase k v n drops s) (h : s.step cfg l = some s') (hflush : FlushCalm k s l)
    (hstart : ¬ l.Starts k) : RemovePhase k v n drops s' where
  noUpdates := hphase.noUpdates.step h hstart
  latest := by
    have hnext : (s'.cell k).latest = s.latest k ∨ (s'.cell k).latest = none := by
      rw [cell_step h]
      exact Cell.latest_next (hphase.noUpdates.act_ne_accept l) (hphase.noUpdates.act_ne_write l)
    rcases hnext with hsame | hnone
    · rw [show s'.latest k = s.latest k from hsame]
      exact hphase.latest
    · exact Or.inr hnone
  apply := by
    intro batch hpc
    rw [cell_step h]
    rcases pc_apply h hpc with hold | ⟨rfl, hold, -⟩
    · refine (hphase.apply batch hold).next (hphase.noUpdates.act_ne_accept l) ?_
      intro hback
      -- only its own cut puts its batch back, and then it no longer applies it
      have hacts := s.acts k l
      rw [hback] at hacts
      cases hacts with
      | putBack =>
        rw [pc_cut h] at hpc
        cases hpc
    · exact Cell.onlyIn_take (hflush _ hold)
  body := by
    intro hpc
    rw [cell_step h]
    rcases pc_body h hpc with hold | ⟨rfl, hold, hempty⟩ | ⟨batch, rfl, hold⟩
    · exact (hphase.body hold).next (hphase.noUpdates.act_ne_accept l)
    · -- an empty buffer with nothing in flight: the key was settled already
      have hsettled : (s.cell k).Settled :=
        ⟨GoMap.lookup_of_len_eq_zero hempty k, hflush _ hold⟩
      exact hsettled.next (hphase.noUpdates.act_ne_accept _)
    · exact (hphase.apply batch hold).commit

theorem RemovePhase.perform {v : Stamped Version} {drops : Contents → DedupKey → Bool}
    (hphase : RemovePhase k v n drops s) (hs : (s.cell k).Ordered)
    (hselects : Selects drops k v.version) (hpc : s.pc (.client n) = .body (.remove drops))
    (h : s.step cfg (.body (.client n)) = some s') : (s'.cell k).Empty := by
  have hsettled := hphase.body hpc
  have hstored : s.stored k = s.latest k := (hs.latest_stored hsettled).symm
  have hact : s.act k (.body (.client n)) =
      if drops s.contents k then .remove else .skip := by
    rw [act, hpc]
    rfl
  refine ⟨?_, ?_⟩
  · rw [cell_step h]
    exact hsettled.next (hphase.noUpdates.act_ne_accept _)
  · rw [cell_step h, hact]
    -- a settled key is stored as it was accepted last: `v`, or nothing
    rcases hphase.latest with hv | hnone
    · have hdrops : drops s.contents k = true := by
        refine hselects _ ?_
        rw [contents, hstored, hv]
        rfl
      rw [if_pos hdrops]
      rfl
    · split
      · rfl
      · exact hstored.trans hnone

end Sys

/-- **A removal is final**, under the three rules. -/
theorem removeAfter_absent (cfg : Config) (contents : Contents) (k : DedupKey) (v : Stamped Version)
    (n : ℕ) (drops : Contents → DedupKey → Bool) (s : Sys)
    (h : RemoveAfter cfg contents
      (fun s l => Sys.Calm k s l ∧ Sys.FlushCalm k s l ∧ Sys.RemoveCalm k s l) k v n drops s) :
    s.stored k = none := by
  obtain ⟨ls₁, s₁, s₁', ls₂, s₂, s₃, ls₃, hrun₁, hlatest, hselects, hcall, hrule, hrun₂, hbody,
    hremove, hrun₃⟩ := h
  have hordered₁ : (s₁.cell k).Ordered := Sys.ordered_run (hrun₁.mono fun _ _ hP => hP.1)
  have hpc := Sys.pc_callOp hcall
  have hphase₁ : Sys.RemovePhase k v n drops s₁' := by
    refine ⟨Sys.NoUpdates.step hrule.2.2 hcall not_false, ?_, fun batch hpc' => ?_, fun hpc' => ?_⟩
    · rw [Sys.step_callOp hcall]
      exact Or.inl hlatest
    · rw [hpc] at hpc'
      cases hpc'
    · rw [hpc] at hpc'
      cases hpc'
  -- until the removal acts, its phases are an invariant
  have hinv : (s₂.cell k).Ordered ∧ Sys.RemovePhase k v n drops s₂ := by
    refine hrun₂.invariant (I := fun s => (s.cell k).Ordered ∧ Sys.RemovePhase k v n drops s)
      ?_ ⟨Sys.ordered_step hcall trivial hordered₁, hphase₁⟩
    rintro s l s' hstep ⟨⟨hcalm, hflush, -⟩, hstart, -⟩ ⟨hs, hphase⟩
    exact ⟨Sys.ordered_step hstep hcalm hs, hphase.step hstep hflush hstart⟩
  have hempty : (s₃.cell k).Empty ∧ s₃.NoUpdates k :=
    ⟨hinv.2.perform hinv.1 hselects hbody hremove, hinv.2.noUpdates.step hremove not_false⟩
  -- from then on the key is nowhere, and nothing brings it back
  have hend : (s.cell k).Empty ∧ s.NoUpdates k := by
    refine hrun₃.invariant (I := fun s => (s.cell k).Empty ∧ s.NoUpdates k) ?_ hempty
    rintro s l s' hstep ⟨-, hstart⟩ ⟨hs, hno⟩
    refine ⟨?_, hno.step hstep hstart⟩
    rw [Sys.cell_step hstep]
    exact hs.next (hno.act_ne_accept l) (hno.act_ne_write l)
  exact hend.1.2

def dropMaster : Contents → DedupKey → Bool := fun _ k => k = masterKey

theorem removeAfter_absent_own_flush :
    ∃ s, RemoveAfter windowed (fun _ => none)
        (fun s l => Sys.Calm masterKey s l ∧ Sys.FlushCalm masterKey s l ∧
          Sys.RemoveCalm masterKey s l)
        masterKey ⟨1, .text olderUpdate⟩ 1 dropMaster s ∧ s.stored masterKey = none := by
  have hcalm := Sys.calm_called (.remove dropMaster)
  have h : RemoveAfter windowed (fun _ => none)
      (fun s l => Sys.Calm masterKey s l ∧ Sys.FlushCalm masterKey s l ∧
        Sys.RemoveCalm masterKey s l)
      masterKey ⟨1, .text olderUpdate⟩ 1 dropMaster
      ((Sys.committed (.remove dropMaster)).dropAds (.client 1) dropMaster) := by
    refine ⟨_, Sys.buffered, Sys.called (.remove dropMaster), _, Sys.committed (.remove dropMaster),
      _, [], Sys.run_buffered ?_ ?_, rfl, fun _ _ => rfl, rfl, ?_, Sys.run_committed ?_ ?_, rfl,
      rfl, .nil _⟩
    · exact fun _ => ⟨trivial, trivial, trivial⟩
    · exact fun _ => ⟨Sys.calm_enqueue _, trivial, trivial⟩
    · refine ⟨trivial, trivial, fun g => ?_⟩
      match g with
      | .writer | .client 0 | .client (n + 1) => exact not_false
    · exact ⟨⟨hcalm.1, hcalm.2, trivial⟩, not_false, not_false⟩
    · exact fun _ => ⟨⟨trivial, trivial, trivial⟩, not_false, not_false⟩
  exact ⟨_, h, removeAfter_absent _ _ _ _ _ _ _ h⟩

theorem stale_batch_undoes_removal :
    ∃ s, RemoveAfter windowed (fun _ => none) (fun _ _ => True) masterKey ⟨1, .text olderUpdate⟩ 1
        dropMaster s ∧ s.Quiescent ∧ s.stored masterKey = some ⟨1, .text olderUpdate⟩ := by
  refine ⟨_, ⟨[.callUpdate 0 older, .enqueue (.client 0), .tick, .swap .writer], _, _,
    [.swap (.client 1)], _, _, [.commit .writer],
    .cons rfl trivial (.cons rfl trivial (.cons rfl trivial (.cons rfl trivial (.nil _)))), rfl,
    fun _ _ => rfl, rfl, trivial, .cons rfl ⟨trivial, not_false, not_false⟩ (.nil _), rfl, rfl,
    .cons rfl ⟨trivial, not_false⟩ (.nil _)⟩, ⟨rfl, fun g batch next => ?_⟩, rfl⟩
  match g with
  | .writer => exact nofun
  | .client 0 => exact nofun
  | .client 1 => exact nofun
  | .client (n + 2) => exact nofun

end GolangCollector
