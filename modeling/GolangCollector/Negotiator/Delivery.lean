import GolangCollector.Negotiator.Books
import GolangCollector.Negotiator.OpenRounds

/-! # Matches that are accounted, and matches that are delivered

In compat mode a match is accounted once its delivery has succeeded. In fast mode it is accounted
when it is handed to the worker, so a delivery that fails, or is skipped behind a failure, leaves it
accounted: its slot stays consumed, although the design has a failed delivery return the slot to the
view. -/

namespace GolangCollector.Negotiator

open GoStrings Runs List

variable {F A : Type}

/-! ## Accounted matches -/

section

variable {c : Cycle F A} {s : CycleState F A}

theorem mem_accounted_of_commit {p : Text × ℕ × F} (h : p ∈ s.commits) :
    ∃ k, p.2.1 ∈ (s.session k).accounted := by
  obtain ⟨e, he, hcommit⟩ := mem_filterMap.mp h
  cases e with
  | committed k name idx tier cost =>
    cases hcommit
    exact ⟨k, mem_filterMap.mpr ⟨_, he, by simp [Event.accountedIdx?]⟩⟩
  | _ => cases hcommit

theorem undelivered_of_compat (hq : Queued c s) (hcompat : c.cfg.compatMode = true) (k : ℕ) :
    (s.session k).undelivered = [] := by
  rw [Session.undelivered, filterMap_eq_nil_iff]
  intro op hop
  obtain ⟨p, hp, rfl⟩ := mem_map.mp hop
  exact hq.inline hcompat p (mem_of_mem_filter hp)

end

variable [Zero F] [One F] [Add F] [Sub F] [Mul F] [Div F] [IntCast F] [BEq F] [LT F] [LE F]
  [DecidableLT F] [DecidableLE F]

/-- **A match is accounted only if it is delivered**, where none is lost, and in compat mode. -/
theorem accounted_only_if_delivered (c : Cycle F A) (st : CycleSetup F) (a : A)
    (snap : Cycle.Snapshot) (ls : List (Label F)) (s : CycleState F A)
    (h : Run (c.step st) (fun s l => c.cfg.compatMode = false → Lossless c s l) (c.start st a snap)
      ls s) :
    (∀ k, (s.session k).accounted = (s.session k).delivered ++ (s.session k).undelivered) ∧
    (c.cfg.compatMode = true ∨ s.pending = [] →
      ∀ k, (s.session k).accounted = (s.session k).delivered) ∧
    s.stats.numMatches = s.commits.length ∧
    (∀ p ∈ s.commits, ∃ k, p.2.1 ∈ (s.session k).accounted) ∧
    ∀ i, (c.startView a snap).isLive i = true → s.view.isLive i = false →
      ∃ k, i ∈ (s.session k).accounted := by
  obtain ⟨horderly, hnone⟩ : Orderly c (c.start st a snap) ∧ _ := orderly_start a snap
  have hlossless : ∀ s l, (c.cfg.compatMode = false → Lossless c s l) → Queued c s →
      Lossless c s l := by
    intro s l hcond hq
    cases hcompat : c.cfg.compatMode with
    | false => exact hcond hcompat
    | true =>
      cases l with
      | offer => exact Or.inl hcompat
      | deliver i ok => exact Or.inr fun p _ => undelivered_of_compat hq hcompat p.1
      | _ => trivial
  obtain ⟨⟨hqueued, -⟩, hruns⟩ : Orderly c s ∧ ∀ k, SessionRun True k _ _ :=
    orderly_of_run (fun _ => hlossless) h horderly
  have hdelivered : ∀ k, AccountedDelivered (s.session k) := fun k =>
    .of_run (hruns k) (.of_idle (by rw [hnone]) (by rw [hnone]; rfl))
  refine ⟨fun k => (hdelivered k).accounted_eq, fun hidle k => ?_, numMatches_eq h,
    fun p hp => mem_accounted_of_commit hp, fun i hi hgone => ?_⟩
  · rw [(hdelivered k).accounted_eq]
    rcases hidle with hcompat | hpending
    · rw [undelivered_of_compat hqueued hcompat, append_nil]
    · simp [Session.undelivered, CycleState.session, hpending]
  · have hlive := (singleUse_of_run h).live_iff i
    rw [hi, hgone, Bool.true_and, eq_comm, Bool.or_eq_false_iff, decide_eq_false_iff_not] at hlive
    obtain ⟨p, hp, hpi⟩ := countP_pos_iff.mp (Nat.pos_of_ne_zero hlive.2)
    obtain rfl : p.2.1 = i := by simpa using hpi
    exact mem_accounted_of_commit hp

/-- Two matches are handed to the worker, and delivered. -/
def deliverTwo : List (Label ℚ) :=
  [.group flatRound [0], .spin false, .prefetch 0 (.requests [jobs 2]), .sub false 0, .top 0, .next,
    .offer false true 0, .top 0, .offer false true 0, .deliver 0 true, .deliver 0 true]

theorem accounted_only_if_delivered_deliverTwo :
    ∃ s, Run (fastCycle.step (fastCycle.setup 0 [] twoClaims))
        (fun s l => fastCycle.cfg.compatMode = false → Lossless fastCycle s l)
        (fastCycle.start (fastCycle.setup 0 [] twoClaims) [] twoClaims) deliverTwo s ∧
      (s.session 0).accounted = [0, 1] ∧ (s.session 0).delivered = [0, 1] := by
  obtain ⟨s, hs, hview⟩ := Option.map_eq_some_iff.mp (by decide +kernel :
    (execUnder (fastCycle.step (fastCycle.setup 0 [] twoClaims))
      (fun s l => fastCycle.cfg.compatMode = false → Lossless fastCycle s l)
      (fastCycle.start (fastCycle.setup 0 [] twoClaims) [] twoClaims) deliverTwo).map
      (fun s => ((s.session 0).accounted, s.pending.length)) = some ([0, 1], 0))
  have hrun := Run.of_execUnder hs
  have haccounted : (s.session 0).accounted = [0, 1] := congrArg Prod.fst hview
  have hdelivered := (accounted_only_if_delivered fastCycle _ _ _ _ s hrun).2.1
    (Or.inr (length_eq_zero_iff.mp (congrArg Prod.snd hview))) 0
  exact ⟨s, hrun, haccounted, hdelivered.symm.trans haccounted⟩

theorem lost_match_stays_accounted :
    (fastCycle.execFrom [] twoClaims loseMatch).map (fun s =>
      (s.returned, (s.session 0).accounted, (s.session 0).delivered)) = some (true, [0], []) ∧
    (fastCycle.execFrom [] twoClaims loseMatch).map (fun s =>
      (s.stats.numMatches, s.acct, s.view.isLive 0)) = some (1, [("u".toList, 1)], false) := by
  decide +kernel

end GolangCollector.Negotiator
