import GolangCollector.Lib.Runs
import Mathlib.Data.Int.Notation

/-! # When cycles start

`cycleLoop` waits for a timer or for a wake from a RESCHEDULE command, checks that the last cycle is
long enough ago, runs a cycle, and arms the timer again (`negotiator/negotiator.go`). Between any two
steps of the loop time may pass, and commands may arrive. The loop is looked at while its context is
live. Times are in nanoseconds. -/

namespace GolangCollector.Negotiator

/-! ## The loop -/

structure PacingConfig where
  interval : ℤ
  cycleDelay : ℤ
  minInterval : ℤ

inductive LoopPhase where
  /-- In the `select`. -/
  | waiting
  /-- Past the `select`, before the guards. -/
  | checking
  /-- Past the guards, before queued wakes are consumed. -/
  | draining
  /-- Right before a cycle. -/
  | starting
  | running
  /-- The cycle has returned. -/
  | rearming
  deriving DecidableEq

/-- **The state of the loop**, and the clock. -/
structure CycleLoop where
  now : ℤ
  /-- Whether the channel of depth one holds a wake. -/
  wake : Bool
  /-- When the timer is due; none if it has been received from or stopped. A timer that is due can be
  received from until it is stopped or reset. -/
  timer : Option ℤ
  /-- When the last cycle started; none is the zero time. -/
  started : Option ℤ
  completed : Option ℤ
  phase : LoopPhase
  deriving DecidableEq

inductive PacingMove where
  /-- `handleReschedule`. -/
  | reschedule
  | tick (d : ℕ)
  | takeTimer
  | takeWake
  | check
  | drain
  | start
  | complete
  | rearm
  deriving DecidableEq

namespace PacingConfig

variable (cfg : PacingConfig)

def earliest (s : CycleLoop) : ℤ :=
  let earliest := s.completed.getD 0 + cfg.cycleDelay
  let e := s.started.getD 0 + cfg.minInterval
  if earliest < e then e else earliest

def next (s : CycleLoop) : ℤ :=
  let next := cfg.interval - (s.completed.getD 0 - s.started.getD 0)
  if next < cfg.cycleDelay then cfg.cycleDelay else next

def step (s : CycleLoop) : PacingMove → Option CycleLoop
  | .reschedule => some { s with wake := true }
  | .tick d => some { s with now := s.now + d }
  | .takeTimer =>
    match s.phase, s.timer with
    | .waiting, some due =>
      if due ≤ s.now then some { s with timer := none, phase := .checking } else none
    | _, _ => none
  | .takeWake =>
    if s.phase = .waiting ∧ s.wake then
      some { s with wake := false, timer := none, phase := .checking }
    else none
  | .check =>
    if s.phase = .checking then
      let wait := cfg.earliest s - s.now
      if s.started.isSome ∧ 0 < wait then
        some { s with timer := some (s.now + wait), phase := .waiting }
      else some { s with phase := .draining }
    else none
  | .drain =>
    if s.phase = .draining then some { s with wake := false, phase := .starting } else none
  | .start =>
    if s.phase = .starting then some { s with started := some s.now, phase := .running } else none
  | .complete =>
    if s.phase = .running then some { s with completed := some s.now, phase := .rearming } else none
  | .rearm =>
    if s.phase = .rearming then
      some { s with timer := some (s.now + cfg.next s), phase := .waiting }
    else none

def init (now : ℤ) (wake : Bool) : CycleLoop := ⟨now, wake, some now, none, none, .waiting⟩

def Moves (s : CycleLoop) : PacingMove → CycleLoop → Prop
  | .reschedule, s' => s' = { s with wake := true }
  | .tick d, s' => s' = { s with now := s.now + d }
  | .takeTimer, s' => s.phase = .waiting ∧ (∃ due, s.timer = some due ∧ due ≤ s.now) ∧
      s' = { s with timer := none, phase := .checking }
  | .takeWake, s' => s.phase = .waiting ∧ s.wake = true ∧
      s' = { s with wake := false, timer := none, phase := .checking }
  | .check, s' => s.phase = .checking ∧
      ((s.started.isSome = true ∧ s.now < cfg.earliest s ∧
          s' = { s with timer := some (cfg.earliest s), phase := .waiting }) ∨
        (s.started.isSome = true → cfg.earliest s ≤ s.now) ∧ s' = { s with phase := .draining })
  | .drain, s' => s.phase = .draining ∧ s' = { s with wake := false, phase := .starting }
  | .start, s' => s.phase = .starting ∧ s' = { s with started := some s.now, phase := .running }
  | .complete, s' => s.phase = .running ∧
      s' = { s with completed := some s.now, phase := .rearming }
  | .rearm, s' => s.phase = .rearming ∧
      s' = { s with timer := some (s.now + cfg.next s), phase := .waiting }

variable {s s' : CycleLoop} {l : PacingMove}

theorem moves_of_step {cfg : PacingConfig} (h : cfg.step s l = some s') : cfg.Moves s l s' := by
  cases l with
  | reschedule | tick d => exact (Option.some.inj h).symm
  | takeTimer =>
    rw [step] at h
    split at h
    · next due hphase htimer =>
      split_ifs at h with hdue
      exact ⟨hphase, ⟨due, htimer, hdue⟩, (Option.some.inj h).symm⟩
    · cases h
  | takeWake =>
    rw [step] at h
    split_ifs at h with hwake
    exact ⟨hwake.1, hwake.2, (Option.some.inj h).symm⟩
  | check =>
    rw [step] at h
    split_ifs at h with hphase
    dsimp only at h
    split_ifs at h with hwait
    · refine ⟨hphase, Or.inl ⟨hwait.1, Int.sub_pos.mp hwait.2, ?_⟩⟩
      have hdue : s.now + (cfg.earliest s - s.now) = cfg.earliest s := by omega
      rw [← Option.some.inj h, hdue]
    · refine ⟨hphase, Or.inr ⟨fun hstarted => ?_, (Option.some.inj h).symm⟩⟩
      exact Int.not_lt.mp fun hless => hwait ⟨hstarted, Int.sub_pos.mpr hless⟩
  | drain | start | complete | rearm =>
    rw [step] at h
    split_ifs at h with hphase
    exact ⟨hphase, (Option.some.inj h).symm⟩

/-! ## The guards -/

variable {cfg} {s : CycleLoop}

theorem earliest_le_iff {t : ℤ} :
    cfg.earliest s ≤ t ↔ s.completed.getD 0 + cfg.cycleDelay ≤ t ∧
      s.started.getD 0 + cfg.minInterval ≤ t := by
  rw [earliest]
  split_ifs <;> omega

/-- **Between the steps of the loop**: who runs, and when the timer is due. -/
structure Paced (cfg : PacingConfig) (s : CycleLoop) : Prop where
  started : s.phase = .running → s.started.isSome = true
  completed : s.started.isSome = true → s.phase ≠ .running → s.completed.isSome = true
  armed : s.phase = .waiting → s.timer.isSome = true
  allowed : s.phase = .draining ∨ s.phase = .starting → s.started.isSome = true →
    cfg.earliest s ≤ s.now

theorem paced_of_step (hstep : cfg.step s l = some s') (hs : Paced cfg s) : Paced cfg s' := by
  obtain ⟨hsince, hcompleted, harmed, hallowed⟩ := hs
  cases l with
  | reschedule =>
    obtain rfl := moves_of_step hstep
    exact ⟨hsince, hcompleted, harmed, hallowed⟩
  | tick d =>
    obtain rfl := moves_of_step hstep
    refine ⟨hsince, hcompleted, harmed, fun hphase hstarted => ?_⟩
    exact Int.le_trans (hallowed hphase hstarted) (Int.le_add_of_nonneg_right (Int.natCast_nonneg d))
  | takeTimer | takeWake =>
    obtain ⟨hphase, -, rfl⟩ := moves_of_step hstep
    exact ⟨by simp, fun h _ => hcompleted h (by simp [hphase]), by simp, by simp⟩
  | check =>
    obtain ⟨hphase, ⟨-, -, rfl⟩ | ⟨hguards, rfl⟩⟩ := moves_of_step hstep
    · exact ⟨by simp, fun h _ => hcompleted h (by simp [hphase]), by simp, by simp⟩
    · exact ⟨by simp, fun h _ => hcompleted h (by simp [hphase]), by simp, fun _ h => hguards h⟩
  | drain =>
    obtain ⟨hphase, rfl⟩ := moves_of_step hstep
    exact ⟨by simp, fun h _ => hcompleted h (by simp [hphase]), by simp,
      fun _ h => hallowed (Or.inl hphase) h⟩
  | start | complete =>
    obtain ⟨hphase, rfl⟩ := moves_of_step hstep
    exact ⟨by simp, by simp, by simp, by simp⟩
  | rearm =>
    obtain ⟨hphase, rfl⟩ := moves_of_step hstep
    exact ⟨by simp, fun h _ => hcompleted h (by simp [hphase]), by simp, by simp⟩

theorem paced_of_run {now : ℤ} {wake : Bool} {ls : List PacingMove}
    (hrun : Runs.Run cfg.step (fun _ _ => True) (init now wake) ls s) : Paced cfg s :=
  hrun.invariant (fun _ _ _ hstep _ hs => paced_of_step hstep hs)
    ⟨by simp [init], by simp [init], by simp [init], by simp [init]⟩

/-! ## No command is lost -/

def Prompt (s : CycleLoop) : PacingMove → Prop
  | .tick d => s.phase = .running ∨
      (s.phase = .waiting ∧ s.wake = false ∧ ∃ due, s.timer = some due ∧ s.now + d ≤ due)
  | _ => True

def due (cfg : PacingConfig) (t : ℤ) (s : CycleLoop) : ℤ :=
  match s.started, s.completed with
  | some started, some completed =>
    max (max t completed) (max (completed + cfg.cycleDelay) (started + cfg.minInterval))
  | _, _ => t

structure Owed (cfg : PacingConfig) (t : ℤ) (s : CycleLoop) : Prop where
  le : t ≤ s.now
  queued : s.phase = .running ∨ s.phase = .rearming → s.wake = true
  ontime : s.phase ≠ .running → s.now ≤ cfg.due t s
  waiting : s.phase = .waiting → s.wake = true ∨ ∃ d, s.timer = some d ∧ d ≤ cfg.due t s

theorem earliest_le_due (hs : Paced cfg s) (hstarted : s.started.isSome = true)
    (hphase : s.phase ≠ .running) (t : ℤ) : cfg.earliest s ≤ cfg.due t s := by
  obtain ⟨started, hsome⟩ := Option.isSome_iff_exists.mp hstarted
  obtain ⟨completed, hcompleted⟩ := Option.isSome_iff_exists.mp (hs.completed hstarted hphase)
  rw [earliest_le_iff, due, hsome, hcompleted]
  exact ⟨Int.le_trans (Int.le_max_left _ _) (Int.le_max_right _ _),
    Int.le_trans (Int.le_max_right _ _) (Int.le_max_right _ _)⟩

theorem le_due (t : ℤ) (s : CycleLoop) : t ≤ cfg.due t s := by
  rw [due]
  split
  · exact Int.le_trans (Int.le_max_left _ _) (Int.le_max_left _ _)
  · exact Int.le_refl t

theorem owed_reschedule (s : CycleLoop) : Owed cfg s.now { s with wake := true } :=
  ⟨Int.le_refl _, fun _ => rfl, fun _ => le_due _ _, fun _ => Or.inl rfl⟩

theorem owed_of_step {t : ℤ} (hstep : cfg.step s l = some s') (hprompt : Prompt s l)
    (hstart : l ≠ .start) (hpaced : Paced cfg s) (hs : Owed cfg t s) : Owed cfg t s' := by
  obtain ⟨hle, hqueued, hontime, hwaiting⟩ := hs
  cases l with
  | reschedule =>
    obtain rfl := moves_of_step hstep
    exact ⟨hle, fun _ => rfl, hontime, fun _ => Or.inl rfl⟩
  | tick d =>
    obtain rfl := moves_of_step hstep
    refine ⟨Int.le_trans hle (Int.le_add_of_nonneg_right (Int.natCast_nonneg d)), hqueued,
      fun hphase => ?_, hwaiting⟩
    -- without a wake the loop waits for a timer that is due in time
    obtain hrunning | ⟨hphase, hwake, due, htimer, hbefore⟩ := hprompt
    · exact absurd hrunning hphase
    · obtain hwake' | ⟨due', htimer', hdue⟩ := hwaiting hphase
      · rw [hwake] at hwake'
        cases hwake'
      · rw [htimer] at htimer'
        cases htimer'
        exact Int.le_trans hbefore hdue
  | takeTimer | takeWake =>
    obtain ⟨hphase, -, rfl⟩ := moves_of_step hstep
    exact ⟨hle, by simp, fun _ => hontime (by simp [hphase]), by simp⟩
  | check =>
    obtain ⟨hphase, ⟨hstarted, -, rfl⟩ | ⟨-, rfl⟩⟩ := moves_of_step hstep
    · exact ⟨hle, by simp, fun _ => hontime (by simp [hphase]), fun _ =>
        Or.inr ⟨_, rfl, earliest_le_due hpaced hstarted (by simp [hphase]) t⟩⟩
    · exact ⟨hle, by simp, fun _ => hontime (by simp [hphase]), by simp⟩
  | drain =>
    obtain ⟨hphase, rfl⟩ := moves_of_step hstep
    exact ⟨hle, by simp, fun _ => hontime (by simp [hphase]), by simp⟩
  | start => exact absurd rfl hstart
  | complete =>
    obtain ⟨hphase, rfl⟩ := moves_of_step hstep
    refine ⟨hle, fun _ => hqueued (Or.inl hphase), fun _ => ?_, by simp⟩
    obtain ⟨started, hstarted⟩ := Option.isSome_iff_exists.mp (hpaced.started hphase)
    rw [due]
    simp only [hstarted]
    exact Int.le_trans (Int.le_max_right _ _) (Int.le_max_left _ _)
  | rearm =>
    obtain ⟨hphase, rfl⟩ := moves_of_step hstep
    exact ⟨hle, by simp, fun _ => hontime (by simp [hphase]), fun _ =>
      Or.inl (hqueued (Or.inr hphase))⟩

/-! ## The loop goes on -/

def isQuiet : PacingMove → Bool
  | .takeTimer | .takeWake | .check | .drain | .complete | .rearm => true
  | .reschedule | .tick _ | .start => false

def quietLeft (s : CycleLoop) : ℕ :=
  match s.phase with
  | .starting => 0
  | .draining => 1
  | .checking => if s.wake then 4 else 2
  | .waiting =>
    if s.timer.any (· ≤ s.now) then if s.wake then 5 else 3
    else if s.wake then 3 else 0
  | .rearming => 6
  | .running => 7

theorem quietLeft_le (s : CycleLoop) : quietLeft s ≤ 7 := by
  rw [quietLeft]
  cases s.phase with
  | waiting | checking => dsimp only; split_ifs <;> omega
  | draining => exact Nat.le_of_ble_eq_true rfl
  | starting => exact Nat.zero_le 7
  | running => exact Nat.le_refl 7
  | rearming => exact Nat.le_succ 6

theorem quietLeft_of_step (hstep : cfg.step s l = some s') (hquiet : isQuiet l = true) :
    quietLeft s' < quietLeft s := by
  cases l with
  | reschedule => cases hquiet
  | tick d => cases hquiet
  | start => cases hquiet
  | takeTimer =>
    obtain ⟨hphase, ⟨due, htimer, hdue⟩, rfl⟩ := moves_of_step hstep
    simp only [quietLeft, hphase, htimer, Option.any_some, decide_eq_true hdue, if_true]
    split_ifs <;> omega
  | takeWake =>
    obtain ⟨hphase, hwake, rfl⟩ := moves_of_step hstep
    simp only [quietLeft, hphase, hwake, if_true, Bool.false_eq_true, if_false]
    split_ifs <;> omega
  | check =>
    obtain ⟨hphase, ⟨-, hwait, rfl⟩ | ⟨-, rfl⟩⟩ := moves_of_step hstep
    · simp only [quietLeft, hphase, Option.any_some, decide_eq_true_eq, Int.not_le.mpr hwait,
        if_false]
      split_ifs <;> omega
    · simp only [quietLeft, hphase]
      split_ifs <;> omega
  | drain | complete =>
    obtain ⟨hphase, rfl⟩ := moves_of_step hstep
    simp [quietLeft, hphase]
  | rearm =>
    obtain ⟨hphase, rfl⟩ := moves_of_step hstep
    simp only [quietLeft, hphase]
    split_ifs <;> omega

theorem exists_step_or_wait (hs : Paced cfg s) :
    (∃ l s', (isQuiet l = true ∨ l = .start) ∧ cfg.step s l = some s') ∨
      (s.phase = .waiting ∧ s.wake = false ∧ ∃ due, s.timer = some due ∧ s.now < due) := by
  cases hphase : s.phase with
  | waiting =>
    obtain ⟨due, htimer⟩ := Option.isSome_iff_exists.mp (hs.armed hphase)
    cases hwake : s.wake with
    | true => exact Or.inl ⟨.takeWake, _, Or.inl rfl, if_pos ⟨hphase, hwake⟩⟩
    | false =>
      by_cases hdue : due ≤ s.now
      · refine Or.inl ⟨.takeTimer, { s with timer := none, phase := .checking }, Or.inl rfl, ?_⟩
        rw [step, hphase, htimer]
        exact if_pos hdue
      · exact Or.inr ⟨rfl, rfl, due, htimer, Int.not_le.mp hdue⟩
  | checking =>
    refine Or.inl ⟨.check, ?_⟩
    rw [step, if_pos hphase]
    dsimp only
    split_ifs
    · exact ⟨_, Or.inl rfl, rfl⟩
    · exact ⟨_, Or.inl rfl, rfl⟩
  | draining => exact Or.inl ⟨.drain, _, Or.inl rfl, if_pos hphase⟩
  | starting => exact Or.inl ⟨.start, _, Or.inr rfl, if_pos hphase⟩
  | running => exact Or.inl ⟨.complete, _, Or.inl rfl, if_pos hphase⟩
  | rearming => exact Or.inl ⟨.rearm, _, Or.inl rfl, if_pos hphase⟩

end PacingConfig

open PacingConfig

/-- **Cycles are paced**: `CycleDelay` and `MinInterval` are kept, a wake is not lost, and the loop
never stops. -/
theorem cycles_are_paced (cfg : PacingConfig) {now : ℤ} {wake : Bool} {s : CycleLoop}
    {ls : List PacingMove}
    (hrun : Runs.Run cfg.step (fun _ _ => True) (init now wake) ls s) :
    (∀ s', cfg.step s .start = some s' → s'.started = some s.now ∧
      ∀ started, s.started = some started → ∃ completed, s.completed = some completed ∧
        completed + cfg.cycleDelay ≤ s.now ∧ started + cfg.minInterval ≤ s.now) ∧
      (s.phase = .waiting → s.wake = true ∨ s.timer.isSome = true) ∧
      (∀ s₁ ls' s', cfg.step s .reschedule = some s₁ →
        Runs.Run cfg.step (fun s l => Prompt s l ∧ l ≠ .start) s₁ ls' s' →
        s'.phase ≠ .running → s'.now ≤ cfg.due s.now s') ∧
      ((∃ l s', (isQuiet l = true ∨ l = .start) ∧ cfg.step s l = some s') ∨
        (s.phase = .waiting ∧ s.wake = false ∧ ∃ due, s.timer = some due ∧ s.now < due)) ∧
      ∀ ls' s', Runs.Run cfg.step (fun _ l => isQuiet l = true) s ls' s' → ls'.length ≤ 7 := by
  have hpaced := paced_of_run hrun
  refine ⟨fun s' hstart => ?_, fun hphase => Or.inr (hpaced.armed hphase),
    fun s₁ ls' s' hreschedule hprompt hphase => ?_, exists_step_or_wait hpaced,
    fun ls' s' hquiet => ?_⟩
  · obtain ⟨hphase, rfl⟩ := moves_of_step hstart
    refine ⟨rfl, fun started hstarted => ?_⟩
    have hsome : s.started.isSome = true := by rw [hstarted]; rfl
    obtain ⟨completed, hcompleted⟩ :=
      Option.isSome_iff_exists.mp (hpaced.completed hsome (by simp [hphase]))
    have hallowed := earliest_le_iff.mp (hpaced.allowed (Or.inr hphase) hsome)
    rw [hstarted, hcompleted] at hallowed
    exact ⟨completed, hcompleted, hallowed⟩
  · obtain rfl := moves_of_step hreschedule
    have howed : Paced cfg s' ∧ Owed cfg s.now s' := by
      refine hprompt.invariant (I := fun s' => Paced cfg s' ∧ Owed cfg s.now s') ?_
        ⟨paced_of_step hreschedule hpaced, owed_reschedule s⟩
      rintro s₁ l s₂ hstep ⟨hprompt, hstart⟩ ⟨hpaced, howed⟩
      exact ⟨paced_of_step hstep hpaced, owed_of_step hstep hprompt hstart hpaced howed⟩
    exact howed.2.ontime hphase
  · exact Nat.le_trans (hquiet.length_le fun _ _ _ hstep hcond => quietLeft_of_step hstep hcond)
      (quietLeft_le s)

theorem cycles_are_paced_rescheduled :
    ∃ s, Runs.exec (PacingConfig.step ⟨60, 20, 5⟩) (init 0 false)
        [.takeTimer, .check, .drain, .start, .tick 3, .reschedule, .complete, .rearm, .takeWake,
          .check, .tick 20, .takeTimer, .check, .drain] = some s ∧
      s.now = 23 ∧ ∃ completed, s.completed = some completed ∧ completed + 20 ≤ s.now := by
  have hexec : Runs.exec (PacingConfig.step ⟨60, 20, 5⟩) (init 0 false)
      [.takeTimer, .check, .drain, .start, .tick 3, .reschedule, .complete, .rearm, .takeWake,
        .check, .tick 20, .takeTimer, .check, .drain] =
      some ⟨23, false, none, some 0, some 3, .starting⟩ := rfl
  have hpaced := cycles_are_paced ⟨60, 20, 5⟩ (.of_exec hexec fun _ _ _ => trivial)
  obtain ⟨completed, hcompleted, hdelay, -⟩ := (hpaced.1 _ rfl).2 0 rfl
  exact ⟨_, hexec, rfl, completed, hcompleted, hdelay⟩

end GolangCollector.Negotiator
