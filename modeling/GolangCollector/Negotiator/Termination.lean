import GolangCollector.Negotiator.Ceiling
import GolangCollector.Negotiator.Spins

/-! # Termination of the pie spin

Without preemption a submitter is matched only while what it was given in the round is less than the
pie, since the accountant's usage grows with each match; so the matches of a round are bounded, and
by them its spins. -/

namespace GolangCollector.Negotiator

open GoStrings Runs Budget Accountant List Option CycleState

/-! ## What a spin divides -/

section

variable {K A : Type} [Field K]

def CycleSetup.slotWeightTotal [LinearOrder K] (st : CycleSetup K) (info : RoundInfo K) : K :=
  match info.quota with
  | some quota => if quota < st.untrimmedTotal then quota else st.untrimmedTotal
  | none => st.untrimmedTotal

def SpinEnv.share (env : SpinEnv K) (name : Text) : K :=
  env.maxPrio / (env.prios name * env.normalFactor)

def Stage.shares : Stage K → Option (K × (Text → K))
  | .top => none
  | .prefetching env _ => some (env.slotWeightTotal, env.share)
  | .looping fr => some (fr.env.slotWeightTotal, fr.env.share)
  | .negotiating fr _ => some (fr.env.slotWeightTotal, fr.env.share)

variable [LinearOrder K] {c : Cycle K A} {st : CycleSetup K} {s s' : CycleState K A}
  {r r' : Round K}

/-- **A round that has not ended since it began.** -/
structure FairRound (c : Cycle K A) (st : CycleSetup K) (info : RoundInfo K) (names : Finset Text)
    (s : CycleState K A) (r : Round K) : Prop where
  info_eq : r.info = info
  members : ∀ k ∈ r.subs ++ r.stage.ids, IsMember (fun name => name ∈ names ∧
    ∀ p ∈ r.stage.shares, p.1 = st.slotWeightTotal info ∧ p.2 name ≤ 1) s k
  room : ∀ fr n, r.stage = .negotiating fr n → n.name ∈ names ∧ (0 < n.limit →
    c.acct.getWeightedResourcesUsed s.acct n.name + n.limit ≤
      st.slotWeightTotal info + n.limitUsed)

variable {info : RoundInfo K} {names : Finset Text}

structure GrowsWithMatches (c : Cycle K A) : Prop where
  prios_pos : ∀ a name, 0 < c.acct.getPriority a name
  report_eq : ∀ a name share limit user,
    c.acct.getWeightedResourcesUsed (c.acct.setSubmitterShare a name share limit) user =
      c.acct.getWeightedResourcesUsed a user
  match_le : ∀ a name ad now user, c.acct.getWeightedResourcesUsed a user ≤
    c.acct.getWeightedResourcesUsed (c.acct.addMatch a name ad now) user

def RaisesByCost (c : Cycle K A) (s s' : CycleState K A) : Prop :=
  ∀ p ∈ s'.commits.drop s.commits.length, c.acct.getWeightedResourcesUsed s'.acct p.1 =
    c.acct.getWeightedResourcesUsed s.acct p.1 + p.2.2

instance (c : Cycle K A) (s s' : CycleState K A) : Decidable (RaisesByCost c s s') :=
  inferInstanceAs (Decidable (∀ p ∈ _, _ = _))

theorem GrowsWithMatches.reported (h : GrowsWithMatches c) {a a' : A} (hreported : Reported c a a')
    (user : Text) :
    c.acct.getWeightedResourcesUsed a' user = c.acct.getWeightedResourcesUsed a user :=
  hreported.reading (c.acct.getWeightedResourcesUsed · user) Eq.refl (h.report_eq · · · · user)

variable {fr : SpinFrame K} {n : NegState K}

theorem RaisesByCost.commit (h : RaisesByCost c s s') {r : Round K} {idx : ℕ} {slot : ClassAd}
    {tier : PreemptTier} (hcommit : Commit c s s' r fr n idx slot tier) :
    c.acct.getWeightedResourcesUsed s'.acct n.name =
      c.acct.getWeightedResourcesUsed s.acct n.name + c.slotWeightOf slot := by
  refine h (n.name, idx, c.slotWeightOf slot) ?_
  rw [hcommit.commits_eq, drop_left]
  exact mem_singleton_self _

variable {l : Label K}

theorem shares_of_step (hstep : c.step st s l = some s') (hround : s.pc = .round r)
    (hpc : s'.pc = .round r') : (∀ p ∈ r'.stage.shares, p ∈ r.stage.shares) ∨
      ∃ ctxErr, c.stepSpin st s r ctxErr = s' := by
  cases (move_of_step hstep).round hround hpc with
  | still => exact Or.inl fun _ hp => hp
  | main info subs hmain | again fr hstage => exact Or.inl fun _ hp => by cases hp
  | divide env ids hstage =>
    rcases step_of_top hstep hround hstage with hsame | ⟨ctxErr, -, hs'⟩
    · cases hstage.symm.trans (congrArg Round.stage (Pc.round.inj
        ((hsame.trans hround).symm.trans hpc)))
    · exact Or.inr ⟨ctxErr, hs'.symm⟩
  | prefetch env todo todo' hstage | «begin» todo fr hstage => exact Or.inl fun _ hp => hstage ▸ hp
  | pass fr fr' k hstage _ hpasses =>
    rw [hstage, Stage.shares, hpasses.env_eq]
    exact Or.inl fun _ hp => hp
  | start fr n hstage | think fr n n' hstage => exact Or.inl fun _ hp => hstage ▸ hp
  | leave fr fr' n hstage hpasses =>
    rw [hstage, Stage.shares, hpasses.env_eq]
    exact Or.inl fun _ hp => hp
  | commit fr n idx slot tier req hcommit => exact Or.inl fun _ hp => hcommit.stage_eq ▸ hp

variable [IsStrictOrderedRing K]

theorem share_spinEnv_le_one (hprios : ∀ name, 0 < c.acct.getPriority s.acct name)
    {subs : List (SubState K)} (hsubs : subs ≠ []) {name : Text} (hname : name ∈ namesOf subs) :
    (c.spinEnv st s r subs).share name ≤ 1 := by
  have hmax := maxPrioOf_pos _ subs hprios hsubs
  have hnames := namesOf_nonempty hsubs
  have hshare : (c.spinEnv st s r subs).share name =
      Proportion.share (maxPrioOf (c.acct.getPriority s.acct) subs) (c.acct.getPriority s.acct)
        (namesOf subs) name := share_spinEnv st s r subs s.acct name false
  rw [hshare, ← Proportion.sum_share (Proportion.norm_pos hmax hprios hnames).ne']
  exact Finset.single_le_sum (fun i _ => Proportion.share_nonneg hmax hprios hnames i) hname

section

variable (h : FairRound c st info names s r)
include h

theorem FairRound.divide (hprios : ∀ name, 0 < c.acct.getPriority s.acct name) {ctxErr : Bool}
    (hnames : ∀ k name, s.nameOf k = some name → s'.nameOf k = some name)
    (hs' : c.stepSpin st s r ctxErr = s') (hgoes : s'.pc.Continues r r') :
    FairRound c st info names s' r' := by
  subst hs'
  obtain ⟨rfl, hsubs, rfl⟩ := stepSpin_continues hgoes.2 hgoes.1
  refine ⟨h.info_eq, fun k hk => ?_, fun fr n hstage => by cases hstage⟩
  obtain ⟨sub, hsub, rfl⟩ : ∃ sub ∈ c.spinSubs s r, sub.origIdx = k := by
    obtain ⟨x, hx, rfl⟩ := mem_map.mp (show k ∈ map _ _ by simpa [Stage.ids] using hk)
    refine of_mem_spinOrder (P := fun x => ∃ sub ∈ c.spinSubs s r, sub.origIdx = x.origIdx)
      (fun _ _ _ h => h) (fun y hy => ?_) x hx
    obtain ⟨sub, hsub, rfl⟩ := mem_map.mp hy
    exact ⟨sub, hsub, rfl⟩
  obtain ⟨hidx, hname⟩ := of_mem_spinSubs hsub
  obtain ⟨name, hname', hmem, -⟩ := h.members _ (mem_append_left _ hidx)
  obtain rfl : sub.name = name := some.inj (hname.symm.trans hname')
  refine ⟨sub.name, hnames _ _ hname, hmem, fun p hp => ?_⟩
  cases hp
  refine ⟨?_, share_spinEnv_le_one hprios hsubs (mem_toFinset.mpr (mem_map_of_mem hsub))⟩
  rw [← h.info_eq]
  rfl

section

variable (hgrows : GrowsWithMatches c)
include hgrows

theorem FairRound.start (htotal : 0 ≤ st.slotWeightTotal info) (hstage : r.stage = .looping fr)
    (hreported : Reported c s.acct s'.acct) (hstarted : Started c s s'.acct r fr n) :
    n.name ∈ names ∧ (0 < n.limit → c.acct.getWeightedResourcesUsed s'.acct n.name + n.limit ≤
      st.slotWeightTotal info + n.limitUsed) := by
  have hsub : n.sub ∈ r.subs ++ r.stage.ids := by
    rw [hstage]
    exact mem_append_right _ (mem_append_left _ (mem_of_head? hstarted.head_eq))
  obtain ⟨name, hname, hmem, hfair⟩ := h.members n.sub hsub
  obtain rfl : n.name = name := some.inj (hstarted.name_eq.symm.trans hname)
  rw [hstage] at hfair
  obtain ⟨heq, hone⟩ := hfair _ rfl
  dsimp only at heq hone
  refine ⟨hmem, fun hpos => ?_⟩
  have hlimit : n.limit ≤ max (fr.env.share n.name * st.slotWeightTotal info -
      c.acct.getWeightedResourcesUsed s.acct n.name) 0 := by
    rw [hstarted.limit_eq, ← heq]
    exact (cappedLimit_le_limit _ _).trans (limit_le_share _ _ _ _ _)
  have hwhole := mul_le_of_le_one_left htotal hone
  rw [hgrows.reported hreported, hstarted.used_eq]
  rcases le_max_iff.mp hlimit with hle | hle <;> linarith

theorem FairRound.room_of_move (htotal : 0 ≤ st.slotWeightTotal info) (hmove : Move c s s')
    (hraises : RaisesByCost c s s') (hround : s.pc = .round r) (hpc : s'.pc = .round r')
    (hstage : r'.stage = .negotiating fr n) :
    n.name ∈ names ∧ (0 < n.limit → c.acct.getWeightedResourcesUsed s'.acct n.name + n.limit ≤
      st.slotWeightTotal info + n.limitUsed) := by
  cases hmove.round hround hpc with
  | still hacct =>
    rw [hacct]
    exact h.room fr n hstage
  | main | again | divide | prefetch | «begin» | pass | leave => cases hstage
  | start fr' n' hstage' hacct hstarted =>
    cases hstage
    exact h.start hgrows htotal hstage' hacct hstarted
  | think fr' n₁ n' hstage' hacct hthinks =>
    cases hstage
    rw [hthinks.name_eq, hthinks.limit_eq, hthinks.used_eq, hacct]
    exact h.room _ n₁ hstage'
  | commit fr' n' idx slot tier req hcommit =>
    cases hstage
    obtain ⟨hmem, hroom⟩ := h.room _ n' hcommit.stage_eq
    refine ⟨hmem, fun hpos => ?_⟩
    have hroom' := hroom hpos
    change c.acct.getWeightedResourcesUsed s'.acct n'.name + n'.limit ≤ _ + (n'.limitUsed + _)
    rw [hraises.commit hcommit]
    linarith

theorem FairRound.of_step (htotal : 0 ≤ st.slotWeightTotal info) (hstep : c.step st s l = some s')
    (hraises : RaisesByCost c s s') (hround : s.pc = .round r) (hgoes : s'.pc.Continues r r') :
    FairRound c st info names s' r' := by
  have hmove := move_of_step hstep
  rcases shares_of_step hstep hround hgoes.1 with hshares | ⟨ctxErr, hs'⟩
  · obtain ⟨hinfo, -, hids⟩ : r'.info = r.info ∧ r'.main = r.main ∧
        r'.subs ++ r'.stage.ids ⊆ r.subs ++ r.stage.ids := by
      rcases round_of_move hmove hround hgoes.1 with ⟨info', subs, hmain, rfl⟩ | hsame
      · simpa [hmain] using hgoes.2
      · exact hsame
    refine ⟨hinfo.trans h.info_eq, fun k hk => ?_, fun fr n hstage =>
      h.room_of_move hgrows htotal hmove hraises hround hgoes.1 hstage⟩
    obtain ⟨name, hname, hmem, hfair⟩ := h.members k (hids hk)
    exact ⟨name, hmove.names k name hname, hmem, fun p hp => hfair p (hshares p hp)⟩
  · exact h.divide (hgrows.prios_pos s.acct) hmove.names hs' hgoes

end

end

/-! ## The matches of a round -/

def given (user : Text) (commits : List (Text × ℕ × K)) : K :=
  ((commits.filter fun p => p.1 = user).map fun p => p.2.2).sum

omit [LinearOrder K] [IsStrictOrderedRing K] in
theorem given_concat (user : Text) (commits : List (Text × ℕ × K)) (p : Text × ℕ × K) :
    given user (commits ++ [p]) = given user commits + if p.1 = user then p.2.2 else 0 := by
  by_cases h : p.1 = user <;> simp [given, filter_append, h]

structure Given (c : Cycle K A) (names : Finset Text) (total wmin wmax : K) (a : A)
    (new : List (Text × ℕ × K)) : Prop where
  names : ∀ p ∈ new, p.1 ∈ names
  costs : ∀ p ∈ new, 0 ≤ p.2.2 ∧ (0 < p.2.2 → wmin ≤ p.2.2)
  used : ∀ user, given user new ≤ c.acct.getWeightedResourcesUsed a user
  bound : ∀ user, given user new ≤ total + wmax

variable {total wmin wmax : K} {new : List (Text × ℕ × K)} {a : A}

theorem Given.paid_le (h : Given c names total wmin wmax a new) (hwmin : 0 < wmin) :
    (paid new : K) ≤ names.card * (total + wmax) / wmin := by
  have hcount : paid new = (new.map fun p => p.2.2).countP fun x => 0 < x := by
    rw [paid, countP_map]
    rfl
  have hsum : (new.map fun p => p.2.2).countP (fun x => 0 < x) • wmin ≤
      (new.map fun p => p.2.2).sum := by
    refine countP_nsmul_le_sum (fun x hx => ?_) fun x hx => ?_
    · obtain ⟨p, hp, rfl⟩ := mem_map.mp hx
      exact (h.costs p hp).1
    · obtain ⟨p, hp, rfl⟩ := mem_map.mp hx
      exact (h.costs p hp).2
  rw [sum_map_eq_sum_keys Prod.fst _ h.names] at hsum
  have hall : ∑ user ∈ names, given user new ≤ names.card • (total + wmax) :=
    Finset.sum_le_card_nsmul names _ _ fun user _ => h.bound user
  rw [le_div_iff₀ hwmin, hcount, ← nsmul_eq_mul, ← nsmul_eq_mul]
  exact hsum.trans hall

omit [IsStrictOrderedRing K] in
theorem Given.of_reported (h : Given c names total wmin wmax a new) (hgrows : GrowsWithMatches c)
    {a' : A} (hreported : Reported c a a') : Given c names total wmin wmax a' new :=
  { h with used := fun user => by rw [hgrows.reported hreported]; exact h.used user }

theorem Given.commit (h : Given c names (st.slotWeightTotal info) wmin wmax s.acct new)
    (hgrows : GrowsWithMatches c) (hraises : RaisesByCost c s s')
    (hfair : (fairShare wmax).Holds s) (hround : FairRound c st info names s r)
    (hweights : ∀ slot ∈ s.view.slots, 0 < c.slotWeightOf slot →
      wmin ≤ c.slotWeightOf slot ∧ c.slotWeightOf slot ≤ wmax)
    (hwmax : 0 ≤ wmax) {idx : ℕ} {slot : ClassAd}
    {tier : PreemptTier} (hcommit : Commit c s s' r fr n idx slot tier) :
    Given c names (st.slotWeightTotal info) wmin wmax s'.acct
      (new ++ [(n.name, idx, c.slotWeightOf slot)]) := by
  obtain ⟨hready, hpie, hshare⟩ := hfair.at_stage hcommit.round_eq hcommit.stage_eq
  obtain ⟨hmem, hroom⟩ := hround.room fr n hcommit.stage_eq
  have hslot : slot ∈ s.view.slots := by
    obtain ⟨job, conc, heligible⟩ := hcommit.eligible
    exact mem_of_getElem? heligible.slot_eq
  have hcost := slotWeightOf_nonneg (c := c) slot
  have hle : c.slotWeightOf slot ≤ wmax := by
    rcases hcost.lt_or_eq with hpos | hzero
    · exact (hweights slot hslot hpos).2
    · rw [← hzero]
      exact hwmax
  have hleft := limitUsed_lt_of_commit hcommit hpie hready
  have hused : 0 ≤ n.limitUsed := by
    rw [hshare.spent.used_eq]
    exact sum_nonneg hshare.spent.nonneg
  have hroom' := hroom (hused.trans_lt hleft)
  have hraised := hraises.commit hcommit
  have hown := h.used n.name
  refine ⟨fun p hp => ?_, fun p hp => ?_, fun user => ?_, fun user => ?_⟩
  · rcases mem_append.mp hp with hp | hp
    · exact h.names p hp
    · rw [mem_singleton.mp hp]
      exact hmem
  · rcases mem_append.mp hp with hp | hp
    · exact h.costs p hp
    · rw [mem_singleton.mp hp]
      exact ⟨hcost, fun hpos => (hweights slot hslot hpos).1⟩
  · rw [given_concat]
    split
    · next huser =>
      subst huser
      dsimp only
      linarith
    · rw [add_zero]
      obtain ⟨req, now, hacct⟩ := hcommit.acct_eq
      rw [hacct]
      exact (h.used user).trans (hgrows.match_le _ _ _ _ _)
  · rw [given_concat]
    split
    · next huser =>
      subst huser
      dsimp only
      linarith
    · rw [add_zero]
      exact h.bound user

structure MatchesBounded (c : Cycle K A) (st : CycleSetup K) (info : RoundInfo K)
    (names : Finset Text) (floor : Bool) (wmin wmax : K) (s₀ s : CycleState K A) : Prop where
  fair : (fairShare wmax).Holds s
  slots : s.view.slots = s₀.view.slots
  round : ∀ r, s.pc = .round r → r.main.isSome = floor → FairRound c st info names s r
  given : ∃ new, s.commits = s₀.commits ++ new ∧
    Given c names (st.slotWeightTotal info) wmin wmax s.acct new

theorem MatchesBounded.of_step {floor : Bool} {s₀ : CycleState K A}
    (h : MatchesBounded c st info names floor wmin wmax s₀ s) (hgrows : GrowsWithMatches c)
    (hoff : c.cfg.considerPreemption = false) (htotal : 0 ≤ st.slotWeightTotal info)
    (hwmax : 0 ≤ wmax) (hweights : ∀ slot ∈ s₀.view.slots, 0 < c.slotWeightOf slot →
      wmin ≤ c.slotWeightOf slot ∧ c.slotWeightOf slot ≤ wmax)
    (hin : s.inRoundOf floor = true) (hstep : c.step st s l = some s')
    (hraises : RaisesByCost c s s') : MatchesBounded c st info names floor wmin wmax s₀ s' := by
  have hmove := move_of_step hstep
  obtain ⟨r, hpc, hfloor⟩ := of_inRoundOf hin
  have hround := h.round r hpc hfloor
  have hweighs : WeighsAtMost c wmax s := fun slot hslot => by
    rcases (slotWeightOf_nonneg (c := c) slot).lt_or_eq with hpos | hzero
    · exact (hweights slot (h.slots ▸ hslot) hpos).2
    · rw [← hzero]
      exact hwmax
  refine ⟨(fairShare_isInductive hoff hwmax).holds_of_move hweighs hmove h.fair,
    hmove.slots_eq.trans h.slots, fun r' hpc' hfloor' =>
      hround.of_step hgrows htotal hstep hraises hpc ⟨hpc', hfloor'.trans hfloor.symm⟩, ?_⟩
  obtain ⟨new, hcommits, hgiven⟩ := h.given
  cases hmove with
  | kept hkept hflow =>
    exact ⟨new, hkept.commits_eq.trans hcommits, hgiven.of_reported hgrows hflow.reported⟩
  | commit r₁ fr n idx slot tier hcommit =>
    obtain rfl := Pc.round.inj (hpc.symm.trans hcommit.round_eq)
    refine ⟨_, by rw [hcommit.commits_eq, hcommits, append_assoc],
      hgiven.commit hgrows hraises h.fair hround (h.slots ▸ hweights) hwmax hcommit⟩

end

theorem growsWithMatches_accounting {K : Type} [Field K] [LinearOrder K] [IsStrictOrderedRing K]
    {lib : Accountant.Library K} {c : Cycle K (Accountant K)} (hacct : c.acct = accounting lib) :
    GrowsWithMatches c where
  prios_pos a name := by
    rw [hacct]
    exact getPriority_pos a name
  report_eq a name share limit user := by
    rw [hacct]
    exact weightedUsed_setSubmitterShare name share limit user
  match_le a name ad now user := by
    rw [hacct]
    exact weightedUsed_le_addMatch name ad now user

/-- **The pie spin terminates**: its spins are bounded by submitters and matches, and these by
names, pie and weights. -/
theorem pie_spin_terminates {K : Type} [Field K] [LinearOrder K] [IsStrictOrderedRing K]
    (lib : Accountant.Library K) {c : Cycle K (Accountant K)} (hacct : c.acct = accounting lib)
    (cfg : Config K) (store : Store K) (calls : List (Call K)) (slots : List ClassAd) (T start : ℤ)
    (sigAttrs : Text) (snap : Cycle.Snapshot) {ls₀ : List (Label K)}
    {s₀ : CycleState K (Accountant K)}
    (hbefore : Run (c.step (c.setup start sigAttrs snap)) (fun _ _ => True)
      (c.start (c.setup start sigAttrs snap)
        ((calls.foldl (fun a call => a.perform lib call) (new lib cfg store)).checkMatches lib slots
          T) snap) ls₀ s₀)
    {info : RoundInfo K} {subs : List ℕ} {main : Option (RoundInfo K × List ℕ)}
    (hround : s₀.pc = .round ⟨info, subs, 0, .top, main⟩) {ls : List (Label K)}
    {s : CycleState K (Accountant K)}
    (hrun : Run (c.step (c.setup start sigAttrs snap)) (fun s _ => s.inRoundOf main.isSome = true)
      s₀ ls s) :
    ∃ new, s.commits = s₀.commits ++ new ∧
      s.stats.pieSpins ≤ s₀.stats.pieSpins + (subs.length + paid new + 1) ∧
      (c.cfg.considerPreemption = false → (∀ quota ∈ info.quota, 0 ≤ quota) →
        Run (c.step (c.setup start sigAttrs snap)) (fun s l =>
          ∀ s' ∈ c.step (c.setup start sigAttrs snap) s l, RaisesByCost c s s') s₀ ls s →
        ∀ wmin wmax : K, 0 < wmin → wmin ≤ wmax →
        (∀ slot ∈ s₀.view.slots, 0 < c.slotWeightOf slot →
          wmin ≤ c.slotWeightOf slot ∧ c.slotWeightOf slot ≤ wmax) →
        (paid new : K) ≤ (subs.filterMap s₀.nameOf).toFinset.card *
          ((c.setup start sigAttrs snap).slotWeightTotal info + wmax) / wmin) := by
  have hfirst : ∀ r, s₀.pc = .round r → r = ⟨info, subs, 0, .top, main⟩ := fun r hr =>
    Pc.round.inj (hr.symm.trans hround)
  obtain ⟨new, hcommits, hspins, -⟩ : SpinsBounded s₀ subs.length main.isSome s := by
    refine hrun.invariant (I := SpinsBounded s₀ subs.length main.isSome)
      (fun _ _ _ hstep hin h => h.of_step hin hstep) ⟨[], by simp, by omega, fun r hr _ => ?_⟩
    rw [hfirst r hr]
    exact ⟨rfl, by simp [Stage.Counted, paid]⟩
  refine ⟨new, hcommits, by omega, fun hoff hquota hraises wmin wmax hwmin hle hweights => ?_⟩
  have henrolled : Enrolled c (c.setup start sigAttrs snap) s₀ :=
    hbefore.invariant (fun _ _ _ hstep _ h => h.of_step hstep) enrolled_start
  have husage : UsageNonneg s₀.acct := by
    refine hbefore.invariant (I := fun s => UsageNonneg s.acct)
      (fun _ _ _ hstep _ h => h.of_move hacct (move_of_step hstep)) ?_
    rw [(start_eqs c _ _ snap).1]
    exact usageNonneg_checkMatches slots T
  have htotal : 0 ≤ (c.setup start sigAttrs snap).slotWeightTotal info :=
    slotWeightTotal_nonneg (c := c) (untrimmedTotal_nonneg start sigAttrs snap) s₀
      (r := ⟨info, subs, 0, .top, main⟩) hquota []
  have hmembers : ∀ k ∈ subs, ∃ name ∈ (subs.filterMap s₀.nameOf).toFinset,
      s₀.nameOf k = some name := fun k hk => by
    obtain ⟨sub, hsub⟩ := isSome_iff_exists.mp (henrolled.roster.sub?_isSome
      ((henrolled.round _ hround).1 k (mem_append_left _ hk)))
    have hname : s₀.nameOf k = some sub.name := by rw [nameOf, hsub, map_some]
    exact ⟨sub.name, mem_toFinset.mpr (mem_filterMap.mpr ⟨k, hk, hname⟩), hname⟩
  have hbegin : MatchesBounded c (c.setup start sigAttrs snap) info
      (subs.filterMap s₀.nameOf).toFinset main.isSome wmin wmax s₀ s₀ := by
    refine ⟨SpinAssertion.holds_of_pc_eq hround trivial, rfl, fun r hr _ => ?_, [], by simp, ?_⟩
    · rw [hfirst r hr]
      refine ⟨rfl, fun k hk => ?_, fun fr n hstage => by cases hstage⟩
      obtain ⟨name, hmem, hname⟩ := hmembers k (by simpa [Stage.ids] using hk)
      exact ⟨name, hname, hmem, fun p hp => by cases hp⟩
    · refine ⟨by simp, by simp, fun user => ?_, fun user => ?_⟩
      · rw [hacct]
        exact husage user
      · exact add_nonneg htotal (hwmin.le.trans hle)
  obtain ⟨new', hcommits', hgiven⟩ := ((hrun.and hraises).invariant
    (I := MatchesBounded c (c.setup start sigAttrs snap) info (subs.filterMap s₀.nameOf).toFinset
      main.isSome wmin wmax s₀) (fun _ _ _ hstep hcond h =>
        h.of_step (growsWithMatches_accounting hacct) hoff htotal (hwmin.le.trans hle) hweights
          hcond.1 hstep (hcond.2 _ hstep)) hbegin).given
  obtain rfl := append_cancel_left (hcommits.symm.trans hcommits')
  exact hgiven.paid_le hwmin

def twoNames : Cycle.Snapshot where
  slots := [slotAt "slot1" "addr", slotAt "slot2" "addr"]
  submitters := [submitterAd "u@d", submitterAd "v@d"]
  claimIDs := none

def twoNamesEntry : CycleState ℚ (Accountant ℚ) :=
  let st := accountedCycle.setup 0 [] twoNames
  accountedCycle.stepGroup st (accountedCycle.start st
    (fresh.checkMatches Accountant.literalLibrary twoNames.slots 0) twoNames) flatRound [0, 1]

def oneEach : List (Label ℚ) :=
  [.spin false, .prefetch 0 (.requests [jobs 2]), .prefetch 1 (.requests [jobs 2]), .sub false 0,
    .top 0, .next, .offer false true 0, .top 0, .deliver 0 true, .leave 0, .sub false 0, .top 0,
    .next, .offer false true 0, .top 0, .deliver 0 true, .leave 0, .spinEnd]

theorem twoNamesEntry_pc : twoNamesEntry.pc = .round ⟨flatRound, [0, 1], 0, .top, none⟩ := by
  have hids : (accountedCycle.wrapSubmitters (accountedCycle.setup 0 [] twoNames)
      (accountedCycle.start (accountedCycle.setup 0 [] twoNames)
        (fresh.checkMatches Accountant.literalLibrary twoNames.slots 0) twoNames)
      [0, 1]).2 = [0, 1] := by
    decide +kernel
  simp only [twoNamesEntry, Cycle.stepGroup]
  split
  · next hbelow =>
    refine absurd (List.isEmpty_iff.mp ?_) hbelow
    decide +kernel
  · rw [hids]
    rfl

theorem pie_spin_terminates_oneEach :
    ∃ s new, Run (accountedCycle.step (accountedCycle.setup 0 [] twoNames))
        (fun s _ => s.inRoundOf false = true) twoNamesEntry oneEach s ∧
      s.commits = twoNamesEntry.commits ++ new ∧ paid new = 2 ∧ s.stats.pieSpins = 1 ∧
      s.stats.pieSpins ≤ twoNamesEntry.stats.pieSpins + (2 + paid new + 1) ∧
      (paid new : ℚ) ≤ 2 * (2 + 1) / 1 := by
  obtain ⟨s, hs, hcounts⟩ := map_eq_some_iff.mp (by decide +kernel :
    (execUnder (accountedCycle.step (accountedCycle.setup 0 [] twoNames)) (fun s l =>
        s.inRoundOf false = true ∧
          ∀ s' ∈ accountedCycle.step (accountedCycle.setup 0 [] twoNames) s l,
            RaisesByCost accountedCycle s s') twoNamesEntry oneEach).map
      (fun s => (paid s.commits, s.stats.pieSpins)) = some (2, 1))
  have hrun := Run.of_execUnder hs
  have hnone : twoNamesEntry.commits = [] := by decide +kernel
  obtain ⟨new, hcommits, hspins, hpaid⟩ := pie_spin_terminates Accountant.literalLibrary
    (c := accountedCycle) rfl plainConfig .empty [] twoNames.slots 0 0 [] twoNames
    (.cons (l := .group flatRound [0, 1]) rfl trivial (.nil twoNamesEntry))
    twoNamesEntry_pc (hrun.mono fun _ _ h => h.1)
  have hbound := hpaid rfl (by simp [flatRound]) (hrun.mono fun _ _ h => h.2) 1 1 one_pos le_rfl
    fun _ _ _ => ⟨le_rfl, le_rfl⟩
  have hcard : ([0, 1].filterMap twoNamesEntry.nameOf).toFinset.card = 2 := by decide +kernel
  have htotal : (accountedCycle.setup 0 [] twoNames).slotWeightTotal flatRound = 2 := by
    decide +kernel
  obtain ⟨htwo, hone⟩ := Prod.mk.inj hcounts
  rw [hcommits, hnone, nil_append] at htwo
  rw [hcard, htotal] at hbound
  exact ⟨s, new, hrun.mono fun _ _ h => h.1, hcommits, htwo, hone, hspins, hbound⟩

end GolangCollector.Negotiator
