import GolangCollector.Accountant.WholeSlots
import GolangCollector.Lib.Runs

/-! # The allocation driver

`PrepareForMatchmaking` gives the groups of a cycle their submitters, their demand and their quotas,
and `NegotiateAllGroups` then goes through rounds: it computes what each group is allocated, offers
the groups their limits in turn, and looks at the usage again (`accountant/groupquota.go`,
`accountant/groupalloc.go`). Usage is read many times and may be different each time: what is read is
part of the moves of the system. Arithmetic is exact. -/

namespace GolangCollector.Accountant

open GoStrings Negotiator RoseTree

variable {F : Type} [Field F] [LinearOrder F]

/-! ## The tree of a cycle -/

def submitterDemand (lib : MatchLibrary F) (ad : ClassAd) (weighted : Bool) : F :=
  let numIdle := (lib.evaluateAttrInt ad "IdleJobs").getD 0
  let numRunning := (lib.evaluateAttrInt ad "RunningJobs").getD 0
  if !weighted then (GoInt.wrap (numIdle + numRunning) : F)
  else
    (lib.evalNumber ad "WeightedIdleJobs").getD numIdle +
      (lib.evalNumber ad "WeightedRunningJobs").getD numRunning

def resetCycle (usage : Text → F) (g : GroupState F) : GroupState F :=
  { g with
    quota := 0, requested := 0, allocated := 0, subtreeQuota := 0, submitters := []
    usage := usage g.name }

def assignSubmitter (lib : MatchLibrary F) (weighted : Bool) (root : GroupTree F) (ad : ClassAd) :
    GroupTree F :=
  match lib.evaluateAttrString ad "Name" with
  | none => root
  | some name =>
    if name = [] ∨ '@' ∉ name then root
    else
      let nodes := root.map (·.toGroup)
      let group := (getAssignedGroup nodes (buildNameMap nodes) name).label
      root.map fun g =>
        if g.name = group.name then
          { g with
            submitters := g.submitters ++ [ad]
            requested := g.requested + submitterDemand lib ad weighted }
        else g

def regroupSubmitters (root : GroupTree F) : GroupTree F :=
  if root.label.autoregroup then
    let others := (root.breadthFirst.drop 1).filter (·.label.autoregroup)
    .node { root.label with
      submitters := root.label.submitters ++ others.flatMap (·.label.submitters) } root.children
  else root

def GroupSettings.assignSubmitters (cfg : GroupSettings F) (lib : MatchLibrary F)
    (submitterAds : List ClassAd) (usage : Text → F) (root : GroupTree F) : GroupTree F :=
  regroupSubmitters
    (submitterAds.foldl (assignSubmitter lib cfg.useWeightedDemand) (root.map (resetCycle usage)))

def GroupSettings.prepareForMatchmaking (cfg : GroupSettings F) (lib : MatchLibrary F)
    (submitterAds : List ClassAd) (totalQuota : F) (usage : Text → F) (root : GroupTree F) :
    GroupTree F :=
  cfg.assignQuotas (cfg.assignSubmitters lib submitterAds usage root) totalQuota

/-! ## What a group may have -/

mutual

def calculateSubtreeUsage (usage : Text → F) : GroupTree F → GroupTree F
  | .node n children =>
    let below := calculateChildrenUsage usage children
    .node { n with
      subtreeUsage := (below.map (·.label.subtreeUsage)).sum + usage n.name } below

def calculateChildrenUsage (usage : Text → F) : List (GroupTree F) → List (GroupTree F)
  | [] => []
  | c :: cs => calculateSubtreeUsage usage c :: calculateChildrenUsage usage cs

end

def GroupState.strictQuota (g : GroupState F) : F :=
  if g.staticQuota then g.configQuota else g.subtreeQuota

def enforce (myNewAllocation : F) (limiting : GroupState F) : F :=
  if limiting.acceptSurplus then myNewAllocation
  else
    let subtreeAvailable := limiting.strictQuota - limiting.subtreeUsage
    let subtreeAvailable := if subtreeAvailable < 0 then 0 else subtreeAvailable
    if subtreeAvailable < myNewAllocation then subtreeAvailable else myNewAllocation

def GroupSettings.strictEnforce (cfg : GroupSettings F) (usage : Text → F) (root : GroupTree F)
    (place : List ℕ) (n : GroupState F) (slots : F) : F :=
  if !cfg.strictEnforceQuota then slots
  else
    let branch := ((calculateSubtreeUsage usage root).branch place).map label
    branch.reverse.foldl enforce (slots - n.usage) + n.usage

def quotient? (x y : F) : Option F := if y = 0 then none else some (x / y)

def GroupSettings.proposedSlots [FloorRing F] (cfg : GroupSettings F) (n maxdelta : F)
    (g : GroupState F) : Option F :=
  let target := max g.allocated g.quota
  let delta := max 0 (target - g.usage)
  let slots := if 0 < delta then (quotient? n maxdelta).map fun q => g.usage + delta * q
    else some target
  let slots := slots.map fun x => min x target
  if cfg.usingWeightedSlots then slots else slots.map fun x => (⌊x⌋ : F)

/-! ## The order of the groups -/

structure SortAd (F : Type) where
  accountingGroup : Text
  groupQuota : F
  groupResourcesAllocated : F
  groupResourcesInUse : F

def fltMax : F := ((2 ^ 24 - 1) * 2 ^ 104 : ℕ)

abbrev PlacedGroup (F : Type) := List ℕ × GroupState F

def placedGroups (root : GroupTree F) : List (PlacedGroup F) :=
  (root.placed []).breadthFirst.map label

def negotiatesFirst (autoregroup : Bool) (x y : PlacedGroup F × ℕ) : Bool :=
  if autoregroup && x.1.1 = [] then false
  else if autoregroup && y.1.1 = [] then true
  else if x.1.2.sortKey ≠ y.1.2.sortKey then x.1.2.sortKey < y.1.2.sortKey
  else x.2 < y.2

def sortForNegotiation (autoregroup : Bool) (groups : List (PlacedGroup F)) :
    List (PlacedGroup F) :=
  (groups.zipIdx.insertionSort fun x y => !negotiatesFirst autoregroup y x).map Prod.fst

/-! ## Rounds -/

/-- What `NegotiateAllGroups` is given. -/
structure DriverInput (F : Type) where
  cfg : GroupSettings F
  totalQuota : F
  /-- Whether the library parses an expression. -/
  parseExpr : Text → Bool
  /-- The value of an expression on an ad, where it is a number. -/
  evalNumber : Text → SortAd F → Option F
  /-- The persistent times, if there are any. -/
  getGroupRRTime : Option (Text → Option F)

inductive DriverPhase (F : Type) where
  /-- At the head of a round. -/
  | round
  /-- In the loop over the round-robin rate, at `n` of `maxdelta`: the groups in their order, and
  those that are left of this pass. -/
  | offering (n maxdelta allocatedTotal : F) (order left : List (PlacedGroup F))
  /-- It has returned; a failed call is a call whose callback failed. -/
  | returned (failed : Bool)

/-- **The state of the driver.** -/
structure Driver (F : Type) where
  root : GroupTree F
  globalAcceptSurplus : Bool
  autoregroup : Bool
  iter : ℕ
  phase : DriverPhase F
  /-- The limits that have been handed to the callback: the group, the limit that was proposed, and
  what strict enforcement made of it. -/
  handed : List (PlacedGroup F × Option F × Option F)
  /-- The times that have been persisted. -/
  stamps : List (Text × F)

inductive DriverMove (F : Type) where
  /-- Allocate, and sort by keys that are computed from the usage. -/
  | allocate (usage : Text → F)
  /-- The next group: strict enforcement reads the usage, and the callback succeeds or fails. -/
  | offer (usage : Text → F) (succeeds : Bool)
  /-- The next pass over the groups. -/
  | pass
  /-- The end of a round: the usage is read again, and the clock if it was the last one. -/
  | reassess (usage : Text → F) (now : F)

namespace DriverInput

variable (inp : DriverInput F)

def sortExpr : Text :=
  if inp.cfg.groupSortExpr = [] then defaultGroupSortExpr else inp.cfg.groupSortExpr

def computeSortKey (usage : Text → F) (g : GroupState F) : F :=
  (inp.evalNumber inp.sortExpr ⟨g.name, g.quota, g.allocated, usage g.name⟩).getD fltMax

def maxrounds : ℤ := max 1 inp.cfg.maxAllocationRounds

def ninc : Option F := inp.cfg.roundRobinRate.filter fun r => 1 ≤ r

def nextN (n maxdelta : F) : F :=
  match inp.ninc with
  | none => maxdelta
  | some r => min (n + r) maxdelta

def start (root : GroupTree F) : Option (Driver F) :=
  if !inp.parseExpr inp.sortExpr then none
  else some
    { root := root.map fun g =>
        { g with toNodeState := ⟨0, 0, false,
            (inp.getGroupRRTime.bind fun get => get g.name).getD 0, 0⟩ }
      globalAcceptSurplus := inp.cfg.defaultAcceptSurplus ||
        (root.breadthFirst.drop 1).any (·.label.acceptSurplus)
      autoregroup := root.label.autoregroup
      iter := 0, phase := .round, handed := [], stamps := [] }

def resetRound (g : GroupState F) : GroupState F :=
  { g with allocated := 0, subtreeRequested := 0, rr := false }

variable [IsStrictOrderedRing F] [FloorRing F]

def allocateRound (root : GroupTree F) : GroupTree F :=
  let shared := (fairshare (root.map resetRound)).1
  if inp.cfg.usingWeightedSlots then shared else (recoverRemainders shared).1

def regroupRoot (autoregroup : Bool) (root : GroupTree F) : GroupTree F :=
  if autoregroup then
    .node { root.label with quota := inp.totalQuota, allocated := inp.totalQuota } root.children
  else root

def measured (globalAcceptSurplus : Bool) (g : GroupState F) : F :=
  if globalAcceptSurplus then g.allocated else g.quota

def maxdelta (globalAcceptSurplus : Bool) (groups : List (GroupState F)) : F :=
  groups.foldl (fun m g => max m (max 0 (measured globalAcceptSurplus g - g.usage))) 0

def negotiates (g : GroupState F) : Bool :=
  !(g.allocated ≤ 0) && !(g.allocated ≤ g.usage && !inp.cfg.considerPreemption) &&
    !g.submitters.isEmpty

def reassessGroup (usage : Text → F) (g : GroupState F) : GroupState F :=
  let now := usage g.name
  { g with
    usage := now
    requested := if now < g.allocated then now else g.requested + g.allocated }

def stamped (g : GroupState F) : Bool := g.rr || g.requested ≤ 0

def allocate (usage : Text → F) (s : Driver F) : Driver F :=
  let root := inp.regroupRoot s.autoregroup (inp.allocateRound s.root)
  let groups := root.breadthFirst.map label
  let maxdelta := maxdelta s.globalAcceptSurplus groups
  let allocatedTotal := (groups.map (·.allocated)).sum
  let root := root.map fun g => { g with sortKey := inp.computeSortKey usage g }
  let order := sortForNegotiation s.autoregroup (placedGroups root)
  { s with root, phase := .offering (inp.nextN 0 maxdelta) maxdelta allocatedTotal order order }

def finish (now : F) (s : Driver F) : Driver F :=
  { s with
    root := s.root.map fun g => if stamped g then { g with rrTime := now } else g
    stamps := if inp.getGroupRRTime.isNone then s.stamps
      else s.stamps ++ ((s.root.breadthFirst.map label).filter stamped).map fun g => (g.name, now)
    phase := .returned false }

def reassess (usage : Text → F) (now allocatedTotal : F) (s : Driver F) : Driver F :=
  let root := s.root.map (reassessGroup usage)
  let usageTotal := (root.breadthFirst.map fun g => min g.label.usage g.label.allocated).sum
  if allocatedTotal ≤ usageTotal ∨ inp.maxrounds ≤ s.iter + 1 then inp.finish now { s with root }
  else { s with root, iter := s.iter + 1, phase := .round }

def limitOf (usage : Text → F) (n maxdelta : F) (g : PlacedGroup F) (s : Driver F) :
    PlacedGroup F × Option F × Option F :=
  let proposed := inp.cfg.proposedSlots n maxdelta g.2
  (g, proposed, proposed.map (inp.cfg.strictEnforce usage s.root g.1 g.2))

def step (s : Driver F) : DriverMove F → Option (Driver F)
  | .allocate usage =>
    match s.phase with
    | .round => some (inp.allocate usage s)
    | _ => none
  | .offer usage succeeds =>
    match s.phase with
    | .offering n maxdelta total order (g :: left) =>
      if !inp.negotiates g.2 then
        some { s with phase := .offering n maxdelta total order left }
      else
        some { s with
          handed := s.handed ++ [inp.limitOf usage n maxdelta g s]
          phase := if succeeds then .offering n maxdelta total order left else .returned true }
    | _ => none
  | .pass =>
    match s.phase with
    | .offering n maxdelta total order [] =>
      if n < maxdelta then
        some { s with phase := .offering (inp.nextN n maxdelta) maxdelta total order order }
      else none
    | _ => none
  | .reassess usage now =>
    match s.phase with
    | .offering n maxdelta total _ [] =>
      if n < maxdelta then none else some (inp.reassess usage now total s)
    | _ => none

theorem step_cases {s s' : Driver F} {l : DriverMove F} (h : inp.step s l = some s') :
    (∃ usage, l = .allocate usage ∧ s.phase = .round ∧ s' = inp.allocate usage s) ∨
      (∃ usage succeeds n maxdelta total order g left, l = .offer usage succeeds ∧
        s.phase = .offering n maxdelta total order (g :: left) ∧
        ((inp.negotiates g.2 = false ∧
            s' = { s with phase := .offering n maxdelta total order left }) ∨
          inp.negotiates g.2 = true ∧
            s' = { s with
              handed := s.handed ++ [inp.limitOf usage n maxdelta g s]
              phase := if succeeds then .offering n maxdelta total order left
                else .returned true })) ∨
      (∃ n maxdelta total order, l = .pass ∧ s.phase = .offering n maxdelta total order [] ∧
        n < maxdelta ∧
        s' = { s with phase := .offering (inp.nextN n maxdelta) maxdelta total order order }) ∨
      ∃ usage now n maxdelta total order, l = .reassess usage now ∧
        s.phase = .offering n maxdelta total order [] ∧ maxdelta ≤ n ∧
        s' = inp.reassess usage now total s := by
  cases l with
  | allocate usage =>
    rw [step] at h
    split at h
    · next hphase => exact Or.inl ⟨usage, rfl, hphase, (Option.some.inj h).symm⟩
    · cases h
  | offer usage succeeds =>
    rw [step] at h
    split at h
    · next n maxdelta total order g left hphase =>
      refine Or.inr (Or.inl ⟨usage, succeeds, n, maxdelta, total, order, g, left, rfl, hphase, ?_⟩)
      cases hneg : inp.negotiates g.2 with
      | false =>
        rw [hneg, if_pos (by decide)] at h
        exact Or.inl ⟨rfl, (Option.some.inj h).symm⟩
      | true =>
        rw [hneg, if_neg (by decide)] at h
        exact Or.inr ⟨rfl, (Option.some.inj h).symm⟩
    · cases h
  | pass =>
    rw [step] at h
    split at h
    · next n maxdelta total order hphase =>
      split_ifs at h with hless
      exact Or.inr (Or.inr (Or.inl
        ⟨n, maxdelta, total, order, rfl, hphase, hless, (Option.some.inj h).symm⟩))
    · cases h
  | reassess usage now =>
    rw [step] at h
    split at h
    · next n maxdelta total order hphase =>
      split_ifs at h with hless
      exact Or.inr (Or.inr (Or.inr
        ⟨usage, now, n, maxdelta, total, order, rfl, hphase, not_lt.mp hless,
          (Option.some.inj h).symm⟩))
    · cases h

end DriverInput

/-! ## A tree that is prepared -/

omit [LinearOrder F] in
theorem map_toGroup_assignSubmitter (lib : MatchLibrary F) (weighted : Bool) (root : GroupTree F)
    (ad : ClassAd) :
    (assignSubmitter lib weighted root ad).map (·.toGroup) = root.map (·.toGroup) := by
  rw [assignSubmitter]
  cases lib.evaluateAttrString ad "Name" with
  | none => rfl
  | some name =>
    dsimp only
    split_ifs
    · rfl
    · rw [map_map]
      congr 1
      funext g
      rw [Function.comp_apply]
      split_ifs
      · rfl
      · rfl

omit [LinearOrder F] in
theorem map_toGroup_assignSubmitters (cfg : GroupSettings F) (lib : MatchLibrary F)
    (submitterAds : List ClassAd) (usage : Text → F) (root : GroupTree F) :
    (cfg.assignSubmitters lib submitterAds usage root).map (·.toGroup) = root.map (·.toGroup) := by
  have hreset : (root.map (resetCycle usage)).map (·.toGroup) = root.map (·.toGroup) := by
    rw [map_map]
    rfl
  have hfold : ∀ t : GroupTree F, (submitterAds.foldl (assignSubmitter lib cfg.useWeightedDemand)
      t).map (·.toGroup) = t.map (·.toGroup) := by
    induction submitterAds with
    | nil => exact fun t => rfl
    | cons ad ads ih => exact fun t => (ih _).trans (map_toGroup_assignSubmitter _ _ _ _)
  have hregroup : ∀ t : GroupTree F, (regroupSubmitters t).map (·.toGroup) = t.map (·.toGroup) := by
    rintro ⟨g, cs⟩
    rw [regroupSubmitters]
    split_ifs
    · rw [map_node, map_node]
      rfl
    · rfl
  rw [GroupSettings.assignSubmitters, hregroup, hfold, hreset]

/-! ## What a round allocates -/

def GroupState.quotas (g : GroupState F) : F × F := (g.quota, g.subtreeQuota)

def QuotasNonneg (t : GroupTree F) : Prop :=
  ∀ n, Has t n → 0 ≤ n.label.quota ∧ 0 ≤ n.label.subtreeQuota

omit [LinearOrder F] in
theorem total_quota_congr {t t' : GroupTree F}
    (h : t'.map GroupState.quotas = t.map GroupState.quotas) :
    t'.total (·.quota) = t.total (·.quota) := by
  have htotal := congrArg (total Prod.fst) h
  rwa [total_map, total_map] at htotal

theorem QuotasNonneg.congr {t t' : GroupTree F} (ht : QuotasNonneg t)
    (h : t'.map GroupState.quotas = t.map GroupState.quotas) : QuotasNonneg t' := by
  have hmap : ∀ n, Has (t.map GroupState.quotas) n → 0 ≤ n.label.1 ∧ 0 ≤ n.label.2 := by
    rw [forall_has_map]
    intro n hn
    rw [label_map]
    exact ht n hn
  rw [← h, forall_has_map] at hmap
  intro n hn
  have hquotas := hmap n hn
  rw [label_map] at hquotas
  exact hquotas

omit [LinearOrder F] in
theorem quotas_of_rest {g g' : GroupState F} (h : ledger.rest g' = ledger.rest g) :
    g'.quotas = g.quotas := by
  have hquotas := congrArg GroupState.quotas h
  exact hquotas

namespace DriverInput

variable [IsStrictOrderedRing F] [FloorRing F] {inp : DriverInput F}

theorem allocateRound_spec (inp : DriverInput F) {t : GroupTree F} (ht : QuotasNonneg t) :
    (inp.allocateRound t).map GroupState.quotas = t.map GroupState.quotas ∧
      (inp.allocateRound t).total (·.allocated) ≤ t.total (·.quota) := by
  have hreset : (t.map resetRound).map GroupState.quotas = t.map GroupState.quotas := by
    rw [map_map]
    rfl
  have hnonneg := ht.congr hreset
  have hfair := fairShared_fairshare (fun n hn => (hnonneg n hn).1)
    fun c hc n hn _ => (hnonneg n (.child hc hn)).2
  have hshared : (fairshare (t.map resetRound)).1.map GroupState.quotas =
      t.map GroupState.quotas := by
    rw [← hreset]
    exact (hfair.shares.map_eq fun _ _ h => (quotas_of_rest h.rest).symm).symm
  have hle : (fairshare (t.map resetRound)).1.total (·.allocated) ≤ t.total (·.quota) := by
    rw [← total_quota_congr hreset, ← hfair.total]
    exact le_add_of_nonneg_right hfair.nonneg
  rw [allocateRound]
  split_ifs
  · exact ⟨hshared, hle⟩
  · have hrecovered := recovered_recoverRemainders
      (hfair.shares.forall_has (P := fun _ => True) (Q := fun g => 0 ≤ g.requested)
        (fun _ _ h _ => h.requested_nonneg) fun _ _ => trivial)
    refine ⟨?_, ?_⟩
    · rw [← hshared]
      exact (hrecovered.shares.map_eq fun _ _ h => (quotas_of_rest h.rest).symm).symm
    · refine le_trans ?_ hle
      rw [← hrecovered.total]
      exact le_add_of_nonneg_right hrecovered.nonneg

/-! ## The quotas in a run -/

structure QuotasKept (inp : DriverInput F) (s : Driver F) : Prop where
  nonneg : QuotasNonneg s.root
  total : s.autoregroup = false ∨ (s.iter = 0 ∧ s.phase = .round) →
    s.root.total (·.quota) = inp.totalQuota

omit [IsStrictOrderedRing F] [FloorRing F] in
theorem quotasNonneg_regroupRoot (htotal : 0 ≤ inp.totalQuota) (autoregroup : Bool)
    {t : GroupTree F} (ht : QuotasNonneg t) : QuotasNonneg (inp.regroupRoot autoregroup t) := by
  obtain ⟨g, cs⟩ := t
  rw [DriverInput.regroupRoot]
  split_ifs
  · rw [QuotasNonneg, forall_has_node] at ht ⊢
    exact ⟨⟨htotal, ht.1.2⟩, ht.2⟩
  · exact ht

omit [IsStrictOrderedRing F] [FloorRing F] in
theorem map_quotas_finish (now : F) (s : Driver F) :
    (inp.finish now s).root.map GroupState.quotas = s.root.map GroupState.quotas := by
  rw [finish, map_map]
  congr 1
  funext g
  rw [Function.comp_apply]
  split_ifs
  · rfl
  · rfl

omit [IsStrictOrderedRing F] [FloorRing F] in
theorem map_quotas_reassess (inp : DriverInput F) (usage : Text → F) (now total : F) (s : Driver F) :
    (inp.reassess usage now total s).root.map GroupState.quotas = s.root.map GroupState.quotas := by
  have hgroups : (s.root.map (reassessGroup usage)).map GroupState.quotas =
      s.root.map GroupState.quotas := by
    rw [map_map]
    rfl
  rw [reassess]
  split_ifs
  · rw [map_quotas_finish]
    exact hgroups
  · exact hgroups

theorem quotasKept_of_step (htotal : 0 ≤ inp.totalQuota) {s s' : Driver F} {l : DriverMove F}
    (hstep : inp.step s l = some s') (hs : QuotasKept inp s) : QuotasKept inp s' := by
  rcases inp.step_cases hstep with ⟨usage, -, -, rfl⟩ |
    ⟨usage, succeeds, n, maxdelta, total, order, g, left, -, hphase, ⟨-, rfl⟩ | ⟨-, rfl⟩⟩ |
    ⟨n, maxdelta, total, order, -, -, -, rfl⟩ | ⟨usage, now, n, maxdelta, total, order, -, -, -, rfl⟩
  · -- a round keeps the quotas, but for the root of a tree that is regrouped
    obtain ⟨hquotas, -⟩ := allocateRound_spec inp hs.nonneg
    have hkeys : (inp.allocate usage s).root.map GroupState.quotas =
        (inp.regroupRoot s.autoregroup (inp.allocateRound s.root)).map GroupState.quotas := by
      rw [allocate]
      dsimp only
      rw [map_map]
      rfl
    refine ⟨(quotasNonneg_regroupRoot htotal _ (hs.nonneg.congr hquotas)).congr hkeys, ?_⟩
    rintro (hoff | ⟨-, hround⟩)
    · have hoff' : s.autoregroup = false := hoff
      rw [total_quota_congr hkeys, hoff', DriverInput.regroupRoot, if_neg Bool.false_ne_true,
        total_quota_congr hquotas]
      exact hs.total (Or.inl hoff')
    · cases hround
  · refine ⟨hs.nonneg, ?_⟩
    rintro (hoff | ⟨-, hround⟩)
    · exact hs.total (Or.inl hoff)
    · cases hround
  · refine ⟨hs.nonneg, ?_⟩
    rintro (hoff | ⟨-, hround⟩)
    · exact hs.total (Or.inl hoff)
    · cases succeeds <;> cases hround
  · refine ⟨hs.nonneg, ?_⟩
    rintro (hoff | ⟨-, hround⟩)
    · exact hs.total (Or.inl hoff)
    · cases hround
  · have hquotas := map_quotas_reassess inp usage now total s
    refine ⟨hs.nonneg.congr hquotas, ?_⟩
    intro hkept
    rw [total_quota_congr hquotas]
    refine hs.total (Or.inl ?_)
    rw [reassess] at hkept
    split_ifs at hkept
    · rcases hkept with hoff | ⟨-, hround⟩
      · exact hoff
      · cases hround
    · rcases hkept with hoff | ⟨hiter, -⟩
      · exact hoff
      · exact hiter.elim

end DriverInput

theorem quotasKept_start [IsStrictOrderedRing F] {inp : DriverInput F} {lib : MatchLibrary F}
    {submitterAds : List ClassAd} {usage : Text → F} {root : GroupNode F}
    {warnings : List (GroupWarning F)}
    (hbuild : buildGroupTree inp.parseExpr inp.cfg.toGroupConfig = some (root, warnings))
    (hoversub : inp.cfg.allowQuotaOversubscription = false) (htotal : 0 ≤ inp.totalQuota)
    {t : GroupTree F} (ht : t.map (·.toGroup) = root) {s : Driver F}
    (hstart : inp.start (inp.cfg.prepareForMatchmaking lib submitterAds inp.totalQuota usage t) =
      some s) : inp.QuotasKept s := by
  have hgroups := (map_toGroup_assignSubmitters inp.cfg lib submitterAds usage t).trans ht
  obtain ⟨hroot, hconserved⟩ :=
    quotasConserved_of_config hoversub (configQuota_nonneg hbuild hgroups) htotal
  rw [DriverInput.start] at hstart
  split_ifs at hstart
  cases hstart
  have hquotas : ∀ times : GroupState F → F, (RoseTree.map (fun g =>
      { g with toNodeState := ⟨0, 0, false, times g, 0⟩ }) (inp.cfg.prepareForMatchmaking lib
        submitterAds inp.totalQuota usage t)).map GroupState.quotas =
      (inp.cfg.prepareForMatchmaking lib submitterAds inp.totalQuota usage t).map
        GroupState.quotas := by
    intro times
    rw [map_map]
    rfl
  refine ⟨QuotasNonneg.congr (fun n hn => ?_) (hquotas _), fun _ => ?_⟩
  · exact ⟨(hconserved n hn).quota_nonneg, (hconserved n hn).subtreeQuota_nonneg⟩
  · rw [total_quota_congr (hquotas _)]
    exact (hconserved _ (.refl _)).total_quota.trans hroot

/-- **No round allocates more than the pool**: none, if the tree is not regrouped, and the first. -/
theorem rounds_allocate_within_pool {F : Type} [Field F] [LinearOrder F] [IsStrictOrderedRing F]
    [FloorRing F] {inp : DriverInput F} {lib : MatchLibrary F} {submitterAds : List ClassAd}
    {usage : Text → F} {root : GroupNode F} {warnings : List (GroupWarning F)}
    (hbuild : buildGroupTree inp.parseExpr inp.cfg.toGroupConfig = some (root, warnings))
    (hoversub : inp.cfg.allowQuotaOversubscription = false) (htotal : 0 ≤ inp.totalQuota)
    {t : GroupTree F} (ht : t.map (·.toGroup) = root) {s₀ s : Driver F} {ls : List (DriverMove F)}
    (hstart : inp.start (inp.cfg.prepareForMatchmaking lib submitterAds inp.totalQuota usage t) =
      some s₀)
    (hrun : Runs.Run inp.step (fun _ _ => True) s₀ ls s) (hround : s.phase = .round)
    (hregroup : s.autoregroup = false ∨ s.iter = 0) :
    (inp.allocateRound s.root).total (·.allocated) ≤ inp.totalQuota := by
  have hkept : inp.QuotasKept s := hrun.invariant
    (fun s l s' hstep _ hs => DriverInput.quotasKept_of_step htotal hstep hs)
    (quotasKept_start hbuild hoversub htotal ht hstart)
  rw [← hkept.total (hregroup.imp_right fun hiter => ⟨hiter, hround⟩)]
  exact (DriverInput.allocateRound_spec _ hkept.nonneg).2

def tenPool (acceptSurplus autoregroup : Bool) : DriverInput ℚ where
  cfg :=
    { fourGroups with
      groupNames := ["a"]
      groupQuota := AList.insert "a" 10 ∅
      groupQuotaDynamic := ∅
      defaultAcceptSurplus := acceptSurplus
      defaultAutoregroup := autoregroup
      usingWeightedSlots := true }
  totalQuota := 10
  parseExpr := fun _ => true
  evalNumber := fun _ _ => none
  getGroupRRTime := none

def idleSubmitter (name : String) (idle : ℤ) : ClassAd :=
  ⟨[("Name", .lit (.str name.toList)), ("IdleJobs", .lit (.int idle))]⟩

def usageOf (group none : ℚ) (name : Text) : ℚ := if name = rootGroupName then none else group

namespace DriverInput

def runFrom (inp : DriverInput ℚ) (ads : List ClassAd) (usage : Text → ℚ)
    (ls : List (DriverMove ℚ)) : Option (Driver ℚ) :=
  (buildGroupTree inp.parseExpr inp.cfg.toGroupConfig).bind fun p =>
    (inp.start (inp.cfg.prepareForMatchmaking literalLibrary.toMatchLibrary ads inp.totalQuota usage
      (startTree p.1))).bind fun s => Runs.exec inp.step s ls

theorem exists_runFrom {inp : DriverInput ℚ} {ads : List ClassAd} {usage : Text → ℚ}
    {ls : List (DriverMove ℚ)} {s : Driver ℚ} (h : inp.runFrom ads usage ls = some s) :
    ∃ root warnings s₀,
      buildGroupTree inp.parseExpr inp.cfg.toGroupConfig = some (root, warnings) ∧
      inp.start (inp.cfg.prepareForMatchmaking literalLibrary.toMatchLibrary ads inp.totalQuota usage
        (startTree root)) = some s₀ ∧
      Runs.Run inp.step (fun _ _ => True) s₀ ls s := by
  rw [runFrom] at h
  obtain ⟨⟨root, warnings⟩, hbuild, hrest⟩ := Option.bind_eq_some_iff.mp h
  obtain ⟨s₀, hstart, hexec⟩ := Option.bind_eq_some_iff.mp hrest
  exact ⟨root, warnings, s₀, hbuild, hstart, .of_exec hexec fun _ _ _ => trivial⟩

end DriverInput

def DriverPhase.isRound {F : Type} : DriverPhase F → Bool
  | .round => true
  | _ => false

theorem DriverPhase.eq_round {F : Type} {phase : DriverPhase F} (h : phase.isRound = true) :
    phase = .round := by
  cases phase with
  | round => rfl
  | offering => cases h
  | returned => cases h

theorem toGroup_startTree {F : Type} [Field F] (root : GroupNode F) :
    (startTree root).map (·.toGroup) = root := by
  rw [startTree, map_map]
  exact map_id root

def tenEach : List ClassAd := [idleSubmitter "a.u@d" 10, idleSubmitter "u@d" 10]

def firstRound (usage : Text → ℚ) : List (DriverMove ℚ) :=
  [.allocate fun _ => 0, .offer (fun _ => 0) true, .offer (fun _ => 0) true, .reassess usage 0]

theorem rounds_allocate_within_pool_tenPool :
    ∃ s, (tenPool false false).runFrom tenEach (fun _ => 0) (firstRound (usageOf 3 0)) = some s ∧
      s.iter = 1 ∧ ((tenPool false false).allocateRound s.root).total (·.allocated) ≤ 10 ∧
      ((tenPool false false).allocateRound s.root).breadthFirst.map (·.label.allocated) =
        [7, 3] := by
  have hsome : ((tenPool false false).runFrom tenEach (fun _ => 0) (firstRound (usageOf 3 0))).map
      (fun s => (s.phase.isRound, s.autoregroup, s.iter,
        ((tenPool false false).allocateRound s.root).breadthFirst.map (·.label.allocated))) =
      some (true, false, 1, [7, 3]) := by
    decide +kernel
  obtain ⟨s, hs, hvalues⟩ := Option.map_eq_some_iff.mp hsome
  simp only [Prod.mk.injEq] at hvalues
  obtain ⟨hphase, hoff, hiter, hallocated⟩ := hvalues
  obtain ⟨root, warnings, s₀, hbuild, hstart, hrun⟩ := DriverInput.exists_runFrom hs
  exact ⟨s, hs, hiter, rounds_allocate_within_pool hbuild rfl (by decide +kernel)
    (toGroup_startTree root) hstart hrun (DriverPhase.eq_round hphase) (Or.inl hoff), hallocated⟩

theorem regrouped_round_overallocates :
    ∃ root warnings s₀ s,
      buildGroupTree (tenPool false true).parseExpr (tenPool false true).cfg.toGroupConfig =
        some (root, warnings) ∧
      (tenPool false true).start ((tenPool false true).cfg.prepareForMatchmaking
        literalLibrary.toMatchLibrary tenEach 10 (fun _ => 0) (startTree root)) = some s₀ ∧
      Runs.Run (tenPool false true).step (fun _ _ => True) s₀ (firstRound (usageOf 10 5)) s ∧
      s.phase = .round ∧
      ((tenPool false true).allocateRound s.root).total (·.allocated) = 15 := by
  have hsome : ((tenPool false true).runFrom tenEach (fun _ => 0) (firstRound (usageOf 10 5))).map
      (fun s => (s.phase.isRound,
        ((tenPool false true).allocateRound s.root).total (·.allocated))) = some (true, 15) := by
    decide +kernel
  obtain ⟨s, hs, hvalues⟩ := Option.map_eq_some_iff.mp hsome
  obtain ⟨hphase, htotal⟩ := Prod.mk.inj hvalues
  obtain ⟨root, warnings, s₀, hbuild, hstart, hrun⟩ := DriverInput.exists_runFrom hs
  exact ⟨root, warnings, s₀, s, hbuild, hstart, hrun, DriverPhase.eq_round hphase, htotal⟩

end GolangCollector.Accountant
