import GolangCollector.Negotiator.FairShare

/-! # Group quotas

How far the usage of a group can go in one round without preemption. The headroom under the quota is
sampled at the top of a spin, and the quota is checked between two submitters only; so a submitter
whose turn comes just below the quota may still take all of the headroom there was at the top. -/

namespace GolangCollector.Negotiator

open GoStrings Runs Budget Matchmaker List

/-! ## The submitters of a round -/

def Stage.ids {F : Type} : Stage F → List ℕ
  | .top => []
  | .prefetching _ _ => []
  | .looping fr => fr.todo ++ fr.next
  | .negotiating fr n => n.sub :: (fr.todo ++ fr.next)

def CycleState.inRound {F A : Type} (s : CycleState F A) : Bool :=
  match s.pc with
  | .round _ => true
  | _ => false

section

variable {F A : Type}

def IsMember (Member : Text → Prop) (s : CycleState F A) (k : ℕ) : Prop :=
  ∃ name, s.nameOf k = some name ∧ Member name

structure RoundOf (info : RoundInfo F) (Member : Text → Prop) (s : CycleState F A) : Prop where
  same : ∀ {r}, s.pc = .round r → r.info = info ∧ r.main = none
  members : ∀ {r}, s.pc = .round r → ∀ k ∈ r.subs ++ r.stage.ids, IsMember Member s k

variable {info : RoundInfo F} {Member : Text → Prop} {s s' : CycleState F A}

theorem Passes.ids_subset {fr fr' : SpinFrame F} {k : ℕ} (h : Passes fr fr' k) :
    fr'.todo ++ fr'.next ⊆ k :: (fr.todo ++ fr.next) := by
  intro j hj
  rcases mem_append.mp hj with hj | hj
  · exact mem_cons_of_mem _ (mem_append_left _ (h.todo_subset hj))
  · rcases mem_cons.mp (h.next_subset hj) with rfl | hj
    · exact mem_cons_self
    · exact mem_cons_of_mem _ (mem_append_right _ hj)

variable [Zero F] [One F] [Add F] [Sub F] [Mul F] [Div F] [IntCast F] [LT F] [LE F] [DecidableLT F]
  [DecidableLE F] {c : Cycle F A}

theorem round_of_move {r r' : Round F} (hmove : Move c s s') (hround : s.pc = .round r)
    (hpc : s'.pc = .round r') :
    (∃ info subs, r.main = some (info, subs) ∧ r' = ⟨info, subs, 0, .top, none⟩) ∨
      r'.info = r.info ∧ r'.main = r.main ∧ r'.subs ++ r'.stage.ids ⊆ r.subs ++ r.stage.ids := by
  cases hmove.round hround hpc with
  | still => exact Or.inr ⟨rfl, rfl, Subset.refl _⟩
  | main info subs hmain => exact Or.inl ⟨info, subs, hmain, rfl⟩
  | again fr hstage => exact Or.inr ⟨rfl, rfl, by simp [hstage, Stage.ids]⟩
  | divide env ids _ hids =>
    refine Or.inr ⟨rfl, rfl, ?_⟩
    simpa [Stage.ids] using subset_append_of_subset_left _ hids
  | prefetch env todo todo' => exact Or.inr ⟨rfl, rfl, by simp [Stage.ids]⟩
  | «begin» todo fr _ htodo hnext =>
    exact Or.inr ⟨rfl, rfl, by simp [Stage.ids, htodo, hnext]⟩
  | pass fr fr' k hstage hk hpasses =>
    refine Or.inr ⟨rfl, rfl, append_subset.mpr ⟨subset_append_left _ _, ?_⟩⟩
    rw [hstage]
    refine subset_append_of_subset_right _ (Subset.trans hpasses.ids_subset ?_)
    exact cons_subset.mpr ⟨mem_append_left _ hk, Subset.refl _⟩
  | start fr n hstage _ hstarted =>
    refine Or.inr ⟨rfl, rfl, append_subset.mpr ⟨subset_append_left _ _, ?_⟩⟩
    rw [hstage]
    refine subset_append_of_subset_right _ (cons_subset.mpr ⟨?_, ?_⟩)
    · exact mem_append_left _ (mem_of_head? hstarted.head_eq)
    · exact Subset.refl _
  | think fr n n' hstage _ hthinks =>
    exact Or.inr ⟨rfl, rfl, by simp [hstage, Stage.ids, hthinks.sub_eq]⟩
  | leave fr fr' n hstage hpasses =>
    refine Or.inr ⟨rfl, rfl, append_subset.mpr ⟨subset_append_left _ _, ?_⟩⟩
    rw [hstage]
    exact subset_append_of_subset_right _ hpasses.ids_subset
  | commit fr n idx slot tier req hcommit =>
    refine Or.inr ⟨rfl, rfl, ?_⟩
    rw [hcommit.stage_eq]
    exact Subset.refl _

theorem RoundOf.of_move (h : RoundOf info Member s) (hin : s.inRound = true) (hmove : Move c s s') :
    RoundOf info Member s' := by
  cases hround : s.pc with
  | idle | stopped => simp [CycleState.inRound, hround] at hin
  | round r =>
    obtain ⟨hinfo, hmain⟩ := h.same hround
    have hgoes : ∀ {r'}, s'.pc = .round r' → r'.info = r.info ∧ r'.main = r.main ∧
        r'.subs ++ r'.stage.ids ⊆ r.subs ++ r.stage.ids := fun hpc => by
      rcases round_of_move hmove hround hpc with ⟨info', subs, hsome, -⟩ | hsame
      · simp [hmain] at hsome
      · exact hsame
    refine ⟨fun hpc => ?_, fun hpc k hk => ?_⟩
    · obtain ⟨hinfo', hmain', -⟩ := hgoes hpc
      exact ⟨hinfo'.trans hinfo, hmain'.trans hmain⟩
    · obtain ⟨name, hname, hmember⟩ := h.members hround k ((hgoes hpc).2.2 hk)
      exact ⟨name, hmove.names k name hname, hmember⟩

end

/-! ## The usage of a group -/

section

variable {K A : Type} [Field K] [LinearOrder K]

structure ChargesGroup (c : Cycle K A) (group : Text) (Member : Text → Prop) : Prop where
  charge : ∀ a name slot req mc now, Member name →
    c.acct.getWeightedResourcesUsed
      (c.acct.addMatch a name (enrichMatchAd c.lib slot req mc) now) group =
      c.acct.getWeightedResourcesUsed a group + c.slotWeightOf slot
  report : ∀ a name share limit,
    c.acct.getWeightedResourcesUsed (c.acct.setSubmitterShare a name share limit) group =
      c.acct.getWeightedResourcesUsed a group

structure Sampled (entry : K) (env : SpinEnv K) : Prop where
  limits : env.ignoreSubmitterLimit = false
  entry_le : entry ≤ env.groupusage

structure QuotaKept (c : Cycle K A) (group : Text) (Member : Text → Prop) (entry quota W : K)
    (a : A) (n : NegState K) : Prop where
  member : Member n.name
  spent : Spent n
  room : c.acct.getWeightedResourcesUsed a group + n.limit ≤
    quota + max W (quota - entry) + n.limitUsed
  below : n.limitUsed ≤ 0 → c.acct.getWeightedResourcesUsed a group < quota

def groupQuota (c : Cycle K A) (group : Text) (Member : Text → Prop) (entry quota W : K) :
    SpinAssertion K A where
  divided _ _ env := Sampled entry env
  between _ _ fr := Sampled entry fr.env
  within a _ fr n := Sampled entry fr.env ∧ QuotaKept c group Member entry quota W a n

structure QuotaCond (c : Cycle K A) (info : RoundInfo K) (Member : Text → Prop) (entry W : K)
    (s : CycleState K A) : Prop where
  round : RoundOf info Member s
  entry_le : entry ≤ c.acct.getWeightedResourcesUsed s.acct info.name
  weighs : WeighsAtMost c W s

variable {c : Cycle K A} {group : Text} {Member : Text → Prop} {entry quota W : K}
  {info : RoundInfo K}

theorem capByQuota_le_headroom {ri : RoundInfo K} (hname : ri.name ≠ [])
    (hquota : ri.quota = some quota) (env : SpinEnv K) (limit : K) :
    capByQuota ri env limit ≤ clampZero (quota - env.groupusage) := by
  rw [capByQuota, if_pos hname, hquota]
  dsimp only
  split
  · exact le_rfl
  · next h => exact not_lt.mp h

omit [Field K] in
theorem capByFloor_le (isFloorRound : Bool) (floor limit : K) :
    capByFloor isFloorRound floor limit ≤ limit := by
  rw [capByFloor]
  split
  · next h =>
    rw [Bool.and_eq_true, decide_eq_true_eq] at h
    exact h.2.le
  · exact le_rfl

omit [Field K] in
theorem cappedLimit_le_limit (env : SpinEnv K) (l : SubmitterLimit K) :
    Cycle.cappedLimit env l ≤ l.limit := by
  rw [Cycle.cappedLimit]
  split
  · next h => exact h.le
  · exact le_rfl

theorem limit_le_headroom (hoff : c.cfg.considerPreemption = false) {ri : RoundInfo K}
    (hname : ri.name ≠ []) (hquota : ri.quota = some quota) (a : A) (name : Text) (env : SpinEnv K)
    (isFloorRound : Bool) :
    (c.calculateSubmitterLimit a name ri env isFloorRound).limit ≤
      max (quota - env.groupusage) 0 := by
  simp only [Cycle.calculateSubmitterLimit, hoff, Bool.not_false, if_true]
  rw [← clampZero_eq_max]
  exact (capByFloor_le _ _ _).trans (capByQuota_le_headroom hname hquota env _)

theorem ChargesGroup.reported (h : ChargesGroup c group Member) {a a' : A}
    (hreported : Reported c a a') :
    c.acct.getWeightedResourcesUsed a' group = c.acct.getWeightedResourcesUsed a group :=
  hreported.reading (c.acct.getWeightedResourcesUsed · group) Eq.refl h.report

variable {s s' : CycleState K A} {fr : SpinFrame K} {n : NegState K} {r : Round K}

theorem ChargesGroup.commit (h : ChargesGroup c group Member) {idx : ℕ} {slot : ClassAd}
    {tier : PreemptTier} (hmember : Member n.name) (hcommit : Commit c s s' r fr n idx slot tier) :
    c.acct.getWeightedResourcesUsed s'.acct group =
      c.acct.getWeightedResourcesUsed s.acct group + c.slotWeightOf slot := by
  obtain ⟨req, now, hacct⟩ := hcommit.acct_eq
  rw [hacct]
  exact h.charge _ _ _ _ _ _ hmember

theorem used_lt_of_started (hname : info.name ≠ []) (hquota : info.quota = some quota)
    {s : CycleState K A} {a' : A} (hinfo : r.info = info)
    (hlimits : fr.env.ignoreSubmitterLimit = false) (hstarted : Started c s a' r fr n) :
    c.acct.getWeightedResourcesUsed s.acct info.name < quota := by
  subst hinfo
  have hmet := hstarted.quota_not_met hlimits hname
  rw [RoundInfo.quotaMet, hquota] at hmet
  simpa using hmet

variable [IsStrictOrderedRing K]

section

variable (hoff : c.cfg.considerPreemption = false)
include hoff

theorem QuotaKept.used_le (hcharges : ChargesGroup c group Member) {idx : ℕ} {slot : ClassAd}
    {tier : PreemptTier} (h : QuotaKept c group Member entry quota W s.acct n)
    (hweighs : WeighsAtMost c W s) (hcommit : Commit c s s' r fr n idx slot tier) :
    c.acct.getWeightedResourcesUsed s'.acct group ≤ quota + max W (quota - entry) := by
  have hcost := le_of_commit hcommit hweighs
  have hmax := le_max_left W (quota - entry)
  have hroom := h.room
  rw [hcharges.commit h.member hcommit]
  -- either the slot fits under the limit, or it is rounded up and the first of the negotiation
  rcases fits_of_commit hcommit hoff with hfits | ⟨hnone, -⟩
  · linarith
  · have hbelow := h.below hnone
    linarith

theorem groupQuota_isInductive (hname : info.name ≠ []) (hquota : info.quota = some quota)
    (hW0 : 0 ≤ W) (hcharges : ChargesGroup c info.name Member) :
    (groupQuota c info.name Member entry quota W).IsInductive c
      (QuotaCond c info Member entry W) where
  divide {s r env} hcond hround h := by
    obtain ⟨rfl, -⟩ := hcond.round.same hround
    refine ⟨?_, ?_⟩
    · cases hignores : env.ignoreSubmitterLimit with
      | false => rfl
      | true => simpa [hoff] using (h.ignores_iff.mp hignores).2
    · rw [h.groupusage_eq hname]
      exact hcond.entry_le
  begin {_ _ _ fr} h henv _ _ := show Sampled entry fr.env from henv ▸ h
  report h _ := h
  pass {_ _ _ fr' _} h hpasses := show Sampled entry fr'.env from hpasses.env_eq ▸ h
  start {s a' r fr n} hcond hround hstage h hreported hstarted := by
    obtain ⟨hinfo, -⟩ := hcond.round.same hround
    have hbelow := used_lt_of_started hname hquota hinfo h.limits hstarted
    have hlimit : n.limit ≤ max (quota - fr.env.groupusage) 0 := by
      rw [hstarted.limit_eq]
      refine (cappedLimit_le_limit _ _).trans (limit_le_headroom hoff ?_ ?_ _ _ _ _)
      · rw [hinfo]
        exact hname
      · rw [hinfo]
        exact hquota
    have hentry := h.entry_le
    have hmember : Member n.name := by
      have hsub : n.sub ∈ fr.todo := mem_of_head? hstarted.head_eq
      obtain ⟨name, hn, hmember⟩ := hcond.round.members hround n.sub (by
        rw [hstage]
        exact mem_append_right _ (mem_append_left _ hsub))
      obtain rfl : n.name = name := Option.some.inj (hstarted.name_eq.symm.trans hn)
      exact hmember
    refine ⟨h, hmember, .of_started hstarted, ?_, fun _ => ?_⟩
    · rw [hcharges.reported hreported, hstarted.used_eq]
      have hW := le_max_left W (quota - entry)
      have hhead := le_max_right W (quota - entry)
      rcases le_max_iff.mp hlimit with hle | hle <;> linarith
    · rw [hcharges.reported hreported]
      exact hbelow
  think h hthinks := by
    obtain ⟨hsampled, hmember, hspent, hroom, hbelow⟩ := h
    refine ⟨hsampled, hthinks.name_eq ▸ hmember, hspent.think hthinks, ?_, ?_⟩
    · rw [hthinks.limit_eq, hthinks.used_eq]
      exact hroom
    · rw [hthinks.used_eq]
      exact hbelow
  commit {s s' r fr n idx slot tier} hcond hready h hcommit req := by
    obtain ⟨hsampled, hkept⟩ := h
    have hcost := slotWeightOf_nonneg (c := c) slot
    have hused : 0 ≤ n.limitUsed := by
      rw [hkept.spent.used_eq]
      exact sum_nonneg hkept.spent.nonneg
    have hroom := hkept.room
    refine ⟨⟨hsampled.limits, hsampled.entry_le⟩, hkept.member, hkept.spent.charge req tier _ hcost,
      ?_, fun hnone => ?_⟩
    · rw [hcharges.commit hkept.member hcommit]
      simp only [NegState.charge]
      linarith
    · simp only [NegState.charge] at hnone
      rw [hcharges.commit hkept.member hcommit]
      have hbelow := hkept.below (by linarith)
      linarith
  leave {_ _ _ fr' _} h hpasses := show Sampled entry fr'.env from hpasses.env_eq ▸ h.1

/-- **The invariant of one round**, against the usage at its entry. -/
structure QuotaInv (c : Cycle K A) (info : RoundInfo K) (Member : Text → Prop) (entry quota W : K)
    (s : CycleState K A) : Prop where
  cond : QuotaCond c info Member entry W s
  holds : (groupQuota c info.name Member entry quota W).Holds s
  used_le : c.acct.getWeightedResourcesUsed s.acct info.name ≤
    max entry quota + max W (quota - entry)

theorem QuotaInv.of_move (hname : info.name ≠ []) (hquota : info.quota = some quota) (hW0 : 0 ≤ W)
    (hcharges : ChargesGroup c info.name Member) (h : QuotaInv c info Member entry quota W s)
    (hin : s.inRound = true) (hmove : Move c s s') : QuotaInv c info Member entry quota W s' := by
  have hround := h.cond.round.of_move hin hmove
  have hweighs : WeighsAtMost c W s' := fun slot hslot =>
    h.cond.weighs slot (hmove.slots_eq ▸ hslot)
  have hholds := (groupQuota_isInductive hoff hname hquota hW0 hcharges).holds_of_move h.cond hmove
    h.holds
  cases hmove with
  | kept hkept hflow =>
    have hsame := hcharges.reported hflow.reported
    exact ⟨⟨hround, hsame ▸ h.cond.entry_le, hweighs⟩, hholds, hsame ▸ h.used_le⟩
  | commit r fr n idx slot tier hcommit =>
    have hkept := (h.holds.at_stage hcommit.round_eq hcommit.stage_eq).2.2
    have hcost := slotWeightOf_nonneg (c := c) slot
    have hentry := h.cond.entry_le
    refine ⟨⟨hround, ?_, hweighs⟩, hholds, ?_⟩
    · rw [hcharges.commit hkept.member hcommit]
      linarith
    · refine (hkept.used_le hoff hcharges h.cond.weighs hcommit).trans ?_
      have hmax := le_max_right entry quota
      linarith

end

end

/-- **Group quotas**: a round exceeds the quota by no more than one slot or the headroom at entry.
-/
theorem group_usage_near_quota {K A : Type} [Field K] [LinearOrder K] [IsStrictOrderedRing K]
    (c : Cycle K A) (hoff : c.cfg.considerPreemption = false) (st : CycleSetup K)
    (info : RoundInfo K) (hname : info.name ≠ []) (quota : K) (hquota : info.quota = some quota)
    (Member : Text → Prop) (hcharges : ChargesGroup c info.name Member) (s₀ : CycleState K A)
    (subs : List ℕ) (hentry : s₀.pc = .round ⟨info, subs, 0, .top, none⟩)
    (hmembers : ∀ k ∈ subs, IsMember Member s₀ k) (W : K) (hW0 : 0 ≤ W)
    (hW : ∀ slot ∈ s₀.view.slots, c.slotWeightOf slot ≤ W) (ls : List (Label K))
    (s : CycleState K A) (h : Run (c.step st) (fun s _ => s.inRound = true) s₀ ls s) :
    c.acct.getWeightedResourcesUsed s.acct info.name ≤
      max (c.acct.getWeightedResourcesUsed s₀.acct info.name) quota +
        max W (quota - c.acct.getWeightedResourcesUsed s₀.acct info.name) := by
  have hround : RoundOf info Member s₀ := by
    refine ⟨fun hr => ?_, fun hr k hk => ?_⟩ <;> obtain rfl := Pc.round.inj (hentry.symm.trans hr)
    · exact ⟨rfl, rfl⟩
    · exact hmembers k (by simpa [Stage.ids] using hk)
  have hstart : QuotaInv c info Member (c.acct.getWeightedResourcesUsed s₀.acct info.name) quota W
      s₀ := by
    refine ⟨⟨hround, le_rfl, hW⟩, SpinAssertion.holds_of_pc_eq hentry trivial, ?_⟩
    exact (le_max_left _ _).trans (le_add_of_nonneg_right (hW0.trans (le_max_left _ _)))
  exact (h.invariant (I := QuotaInv c info Member _ quota W) (fun _ _ _ hstep hin hinv =>
    hinv.of_move hoff hname hquota hW0 hcharges hin (move_of_step hstep)) hstart).used_le

theorem chargesGroup_plainCycle (group : Text) :
    ChargesGroup plainCycle group fun name => group ++ ['.'] <+: name where
  charge a name slot req mc now hmember := by
    have hcost : plainCycle.slotWeightOf slot = 1 := rfl
    have hname : name = group ∨ group ++ ['.'] <+: name := Or.inr hmember
    rw [hcost]
    change charged ((name, 1) :: a) group = charged a group + 1
    rw [charged, filter_cons_of_pos (by simpa using hname), foldr_cons, add_comm]
    rfl
  report _ _ _ _ := rfl

def groupRound : RoundInfo ℚ := ⟨"g", some 4, false, false, fun _ => none⟩

def fourSlots : Cycle.Snapshot where
  slots := [slotAt "a" "x", slotAt "b" "x", slotAt "c" "x", slotAt "d" "x"]
  submitters := [submitterAd "g.a", submitterAd "g.b"]
  claimIDs := none

def groupEntry : CycleState ℚ (List (Text × ℚ)) :=
  let st := plainCycle.setup 0 [] fourSlots
  plainCycle.stepGroup st (plainCycle.start st [("g.z", 3 / 2)] fourSlots) groupRound [0, 1]

def takeTwoEach : List (Label ℚ) :=
  [.spin false, .prefetch 0 (.requests [jobs 2]), .prefetch 1 (.requests [jobs 2]), .sub false 0,
    .top 0, .next, .offer false true 0, .top 0, .offer false true 0, .top 0, .deliver 0 true,
    .leave 0, .sub false 0, .top 0, .next, .offer false true 0, .top 0, .offer false true 0]

theorem group_usage_near_quota_twoMembers :
    ∃ s, Run (plainCycle.step (plainCycle.setup 0 [] fourSlots)) (fun s _ => s.inRound = true)
        groupEntry takeTwoEach s ∧
      charged s.acct "g" = 11 / 2 ∧
      charged s.acct "g" ≤ max (charged groupEntry.acct "g") 4 +
        max 1 (4 - charged groupEntry.acct "g") := by
  obtain ⟨s, hs, hused⟩ := Option.map_eq_some_iff.mp (by decide +kernel :
    (execUnder (plainCycle.step (plainCycle.setup 0 [] fourSlots)) (fun s _ => s.inRound = true)
      groupEntry takeTwoEach).map (fun s => charged s.acct "g") = some (11 / 2))
  have hmembers : ∀ k ∈ [0, 1],
      IsMember (fun name => "g".toList ++ ['.'] <+: name) groupEntry k := by
    simp only [mem_cons, not_mem_nil, or_false, forall_eq_or_imp, forall_eq]
    exact ⟨⟨"g.a", by decide +kernel, by decide⟩,
      ⟨"g.b", by decide +kernel, by decide⟩⟩
  have hrun := Run.of_execUnder hs
  exact ⟨s, hrun, hused, group_usage_near_quota plainCycle rfl _ groupRound (by decide) 4 rfl _
    (chargesGroup_plainCycle _) groupEntry [0, 1] rfl hmembers 1 zero_le_one (fun _ _ => le_rfl) _ s
    hrun⟩

theorem quota_exceeded_by_more_than_a_slot :
    charged groupEntry.acct "g" = 3 / 2 ∧
    (exec (plainCycle.step (plainCycle.setup 0 [] fourSlots)) groupEntry takeTwoEach).map
      (fun s => charged s.acct "g") = some (11 / 2) ∧
    ¬ (11 / 2 : ℚ) ≤ max (3 / 2) 4 + 1 := by
  decide +kernel

end GolangCollector.Negotiator
