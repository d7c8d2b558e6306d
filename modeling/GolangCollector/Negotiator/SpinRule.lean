import GolangCollector.Negotiator.Moves

/-! # Invariants of spins and negotiations

A rule for the nested loops of a round. An assertion says what holds once the pie of a spin is
divided, between two submitters, and within the negotiation of one; it may speak of the accountant,
the round and the variables of the loops. If the assertion is inductive (one obligation for each
transition of the loops) then it holds in every state of a run. Within a negotiation the rule adds
what the head of the request loop has checked, so that no assertion has to carry it. -/

namespace GolangCollector.Negotiator

open GoStrings Runs

/-! ## Where a state stands -/

namespace CycleState

variable {F A : Type} (s : CycleState F A)

def frame? : Option (SpinFrame F) :=
  match s.pc with
  | .round r =>
    match r.stage with
    | .looping fr => some fr
    | .negotiating fr _ => some fr
    | _ => none
  | _ => none

def negotiation? : Option (NegState F) :=
  match s.pc with
  | .round r =>
    match r.stage with
    | .negotiating _ n => some n
    | _ => none
  | _ => none

def turn? : Option (Round F × SpinFrame F × ℕ × Text) :=
  match s.pc with
  | .round r =>
    match r.stage with
    | .looping fr => fr.todo.head?.bind fun k => (s.nameOf k).map fun name => (r, fr, k, name)
    | _ => none
  | _ => none

variable {s}

theorem turn?_eq_some {r : Round F} {fr : SpinFrame F} {k : ℕ} {name : Text}
    (hround : s.pc = .round r) (hstage : r.stage = .looping fr) (hk : fr.todo.head? = some k)
    (hname : s.nameOf k = some name) : s.turn? = some (r, fr, k, name) := by
  simp [turn?, hround, hstage, hk, hname]

theorem negotiation?_eq_some {r : Round F} {fr : SpinFrame F} {n : NegState F}
    (hround : s.pc = .round r) (hstage : r.stage = .negotiating fr n) :
    s.negotiation? = some n := by
  simp [negotiation?, hround, hstage]

theorem of_negotiation? {n : NegState F} (h : s.negotiation? = some n) :
    ∃ r fr, s.pc = .round r ∧ r.stage = .negotiating fr n := by
  rw [negotiation?] at h
  split at h
  · next r hpc =>
    split at h
    · next fr n' hstage =>
      cases h
      exact ⟨r, fr, hpc, hstage⟩
    · cases h
  · cases h

theorem of_frame? {fr : SpinFrame F} (h : s.frame? = some fr) :
    ∃ r, s.pc = .round r ∧ (r.stage = .looping fr ∨ ∃ n, r.stage = .negotiating fr n) := by
  rw [frame?] at h
  split at h
  · next r hpc =>
    refine ⟨r, hpc, ?_⟩
    split at h
    · next fr' hstage =>
      cases h
      exact Or.inl hstage
    · next fr' n hstage =>
      cases h
      exact Or.inr ⟨n, hstage⟩
    · cases h
  · cases h

end CycleState

/-! ## The rule -/

def NegReady {F : Type} [LE F] [DecidableLE F] (fr : SpinFrame F) (n : NegState F) : Prop :=
  n.phase.Working →
    ¬ n.headroom ≤ n.limitUsed ∧ n.onlyForStartdRank = decide (n.limit ≤ n.limitUsed) ∧
      (n.limit ≤ n.limitUsed → fr.env.ignoreSubmitterLimit = true)

structure SpinAssertion (F A : Type) where
  /-- The pie is divided, and the sessions are being fetched. -/
  divided : A → RoundInfo F → SpinEnv F → Prop
  /-- Between two submitters. -/
  between : A → RoundInfo F → SpinFrame F → Prop
  /-- In the request loop of a submitter. -/
  within : A → RoundInfo F → SpinFrame F → NegState F → Prop

namespace SpinAssertion

section

variable {F A : Type} [LE F] [DecidableLE F] (I : SpinAssertion F A)

def AtStage (a : A) (info : RoundInfo F) : Stage F → Prop
  | .top => True
  | .prefetching env _ => I.divided a info env
  | .looping fr => I.between a info fr
  | .negotiating fr n => NegReady fr n ∧ I.within a info fr n

def Holds (s : CycleState F A) : Prop := ∀ r, s.pc = .round r → I.AtStage s.acct r.info r.stage

variable {I} {s : CycleState F A} {r : Round F}

theorem holds_of_pc_eq (hpc : s.pc = .round r) (h : I.AtStage s.acct r.info r.stage) :
    I.Holds s := by
  intro r' hr'
  obtain rfl : r = r' := Pc.round.inj (hpc.symm.trans hr')
  exact h

theorem holds_start [Zero F] [IntCast F] {c : Cycle F A} {st : CycleSetup F} {a : A}
    {snap : Cycle.Snapshot} : I.Holds (c.start st a snap) := by
  intro r hr
  cases (start_eqs c st a snap).2.2.2.2.symm.trans hr

theorem Holds.at_stage (h : I.Holds s) (hpc : s.pc = .round r) {stage : Stage F}
    (hstage : r.stage = stage) : I.AtStage s.acct r.info stage := hstage ▸ h r hpc

end

variable {F A : Type}
variable [Zero F] [One F] [Add F] [Sub F] [Mul F] [Div F] [IntCast F] [LT F] [LE F] [DecidableLT F]
  [DecidableLE F]

/-- **An inductive assertion**, under a condition on the states. -/
structure IsInductive (c : Cycle F A) (Cond : CycleState F A → Prop) (I : SpinAssertion F A) :
    Prop where
  divide : ∀ {s r env}, Cond s → s.pc = .round r → Divided c s.acct r env →
    I.divided s.acct r.info env
  begin : ∀ {a info env fr}, I.divided a info env → fr.env = env →
    fr.pieLeftOrig = env.pieLeft → fr.matched = [] → I.between a info fr
  report : ∀ {a a' info fr}, I.between a info fr → Reported c a a' → I.between a' info fr
  pass : ∀ {a info fr fr' k}, I.between a info fr → Passes fr fr' k → I.between a info fr'
  start : ∀ {s a' r fr n}, Cond s → s.pc = .round r → r.stage = .looping fr →
    I.between s.acct r.info fr → Reported c s.acct a' → Started c s a' r fr n →
    I.within a' r.info fr n
  think : ∀ {a info fr n n'}, I.within a info fr n → Thinks fr n n' → I.within a info fr n'
  commit : ∀ {s s' r fr n idx slot tier}, Cond s → NegReady fr n → I.within s.acct r.info fr n →
    Commit c s s' r fr n idx slot tier → ∀ req, I.within s'.acct r.info
      (fr.charge (c.slotWeightOf slot))
      (n.charge req tier (c.lib.remoteUserOf slot = []) (c.slotWeightOf slot))
  leave : ∀ {a info fr fr' n}, I.within a info fr n → Passes fr fr' n.sub → I.between a info fr'

variable {c : Cycle F A} {Cond : CycleState F A → Prop} {I : SpinAssertion F A}
  {s s' : CycleState F A}

omit [Zero F] [One F] [Add F] [Sub F] [Mul F] [Div F] [IntCast F] [LT F] [DecidableLT F] in
theorem negReady_think {fr : SpinFrame F} {n n' : NegState F} (h : NegReady fr n)
    (hthinks : Thinks fr n n') : NegReady fr n' := by
  intro hworking
  rw [hthinks.headroom_eq, hthinks.used_eq, hthinks.limit_eq]
  rcases hthinks.working hworking with ⟨hwas, honly⟩ | hchecked
  · rw [honly]
    exact h hwas
  · exact hchecked

theorem IsInductive.holds_of_move (hI : IsInductive c Cond I) (hcond : Cond s)
    (hmove : Move c s s') (h : I.Holds s) : I.Holds s' := by
  cases hmove with
  | kept hkept hflow =>
    cases hflow with
    | still hacct hpc =>
      intro r hr
      rw [hacct]
      exact h r (hpc ▸ hr)
    | group r hacct hidle hpc htop => exact holds_of_pc_eq hpc (by rw [htop]; trivial)
    | finish r hacct hround hpc =>
      rcases hpc with hpc | hpc | ⟨info, subs, -, hpc⟩
      · intro r hr
        rw [hpc] at hr
        cases hr
      · intro r hr
        rw [hpc] at hr
        cases hr
      · exact holds_of_pc_eq hpc trivial
    | again r fr hacct hround hstage hpc => exact holds_of_pc_eq hpc trivial
    | divide r env ids hacct hround hstage hpc hids hdivided =>
      have hdiv := hI.divide hcond hround hdivided
      refine holds_of_pc_eq hpc ?_
      rw [hacct]
      exact hdiv
    | prefetch r env todo todo' hacct hround hstage hpc =>
      have hdiv := h.at_stage hround hstage
      refine holds_of_pc_eq hpc ?_
      rw [hacct]
      exact hdiv
    | «begin» r env todo fr hacct hround hstage hpc henv horig htodo hnext hmatched =>
      refine holds_of_pc_eq hpc (hI.begin ?_ henv horig hmatched)
      rw [hacct]
      exact h.at_stage hround hstage
    | pass r fr fr' k hacct hround hstage hpc hk hpasses =>
      exact holds_of_pc_eq hpc (hI.pass (hI.report (h.at_stage hround hstage) hacct) hpasses)
    | start r fr n hacct hround hstage hpc hstarted =>
      have hwithin := hI.start hcond hround hstage (h.at_stage hround hstage) hacct hstarted
      refine holds_of_pc_eq hpc ⟨fun hworking => ?_, hwithin⟩
      rcases hstarted.phase_eq with hphase | hphase <;> rw [hphase] at hworking <;>
        exact hworking.elim
    | think r fr n n' hacct hround hstage hpc hthinks =>
      obtain ⟨hready, hwithin⟩ := h.at_stage hround hstage
      refine holds_of_pc_eq hpc ⟨negReady_think hready hthinks, hI.think ?_ hthinks⟩
      rw [hacct]
      exact hwithin
    | leave r fr fr' n hacct hround hstage hpc hpasses =>
      refine holds_of_pc_eq hpc (hI.leave ?_ hpasses)
      rw [hacct]
      exact (h.at_stage hround hstage).2
  | commit r fr n idx slot tier hcommit =>
    obtain ⟨hready, hwithin⟩ := h.at_stage hcommit.round_eq hcommit.stage_eq
    obtain ⟨req, hpc⟩ := hcommit.pc_eq
    exact holds_of_pc_eq hpc ⟨False.elim, hI.commit hcond hready hwithin hcommit req⟩

theorem IsInductive.holds_of_run [BEq F] {st : CycleSetup F} {P : CycleState F A → Label F → Prop}
    {ls : List (Label F)} (hI : IsInductive c Cond I) (hP : ∀ s l, P s l → Cond s)
    (hrun : Run (c.step st) P s ls s') (h : I.Holds s) : I.Holds s' :=
  hrun.invariant (I := I.Holds) (fun _ _ _ hstep hcond => hI.holds_of_move (hP _ _ hcond)
    (move_of_step hstep)) h

end SpinAssertion

end GolangCollector.Negotiator
