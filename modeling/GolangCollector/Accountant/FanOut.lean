import GolangCollector.Accountant.GroupDriver

/-! # Demand and job priorities

With `USE_GLOBAL_JOB_PRIOS` every submitter ad is replaced by a copy for each of its job priorities
(`cycle/globaljobprio.go`). `AssignSubmitters` (`accountant/groupquota.go`) adds the demand of each
ad that it is given to a group, and so it adds the demand of a submitter once for each priority. -/

namespace GolangCollector.Accountant

open GoStrings Negotiator RoseTree

variable {F : Type} (lib : MatchLibrary F)

/-! ## What is added to a group -/

def priorities (ad : ClassAd) : List ℤ :=
  match lib.evaluateAttrString ad attrJobPrioArray with
  | none => [-2147483648]
  | some arr => (((arr.splitOnP (· = ',')).map trimSpace).filter fun tok => tok ≠ []).map atoiC

theorem fanOutJobPrios_eq (ads : List ClassAd) :
    fanOutJobPrios lib ads = ads.flatMap fun ad =>
      (priorities lib ad).map fun prio => ad.insert attrJobPrio (.lit (.int prio)) := by
  rw [fanOutJobPrios]
  congr 1
  funext ad
  rw [priorities]
  cases lib.evaluateAttrString ad attrJobPrioArray with
  | none => rfl
  | some arr =>
    dsimp only
    rw [List.map_map]
    rfl

def groupOf (nodes : GroupNode F) (ad : ClassAd) : Option Text :=
  match lib.evaluateAttrString ad "Name" with
  | none => none
  | some name =>
    if name = [] ∨ '@' ∉ name then none
    else some (getAssignedGroup nodes (buildNameMap nodes) name).label.name

variable [Field F] (weighted : Bool)

def demandOn (nodes : GroupNode F) (group : Text) (ad : ClassAd) : F :=
  if groupOf lib nodes ad = some group then submitterDemand lib ad weighted else 0

/-- The demand of each group, with its name. -/
def requests (t : GroupTree F) : RoseTree (Text × F) := t.map fun g => (g.name, g.requested)

theorem requests_assignSubmitter (t : GroupTree F) (ad : ClassAd) :
    requests (assignSubmitter lib weighted t ad) = (requests t).map fun p =>
      (p.1, p.2 + demandOn lib weighted (t.map (·.toGroup)) p.1 ad) := by
  have hnone : groupOf lib (t.map (·.toGroup)) ad = none →
      requests t = (requests t).map fun p =>
        (p.1, p.2 + demandOn lib weighted (t.map (·.toGroup)) p.1 ad) := by
    intro hgroup
    have hsame : ∀ p : Text × F,
        (p.1, p.2 + demandOn lib weighted (t.map (·.toGroup)) p.1 ad) = p := by
      intro p
      rw [demandOn, hgroup, if_neg (Option.some_ne_none _).symm, add_zero]
    rw [funext hsame]
    exact (RoseTree.map_id _).symm
  rw [assignSubmitter]
  cases hname : lib.evaluateAttrString ad "Name" with
  | none => exact hnone (by rw [groupOf, hname])
  | some name =>
    dsimp only
    split_ifs with hskip
    · exact hnone (by rw [groupOf, hname]; exact if_pos hskip)
    · have hgroup : groupOf lib (t.map (·.toGroup)) ad = some (getAssignedGroup (t.map (·.toGroup))
          (buildNameMap (t.map (·.toGroup))) name).label.name := by
        rw [groupOf, hname]
        exact if_neg hskip
      rw [requests, requests, map_map, map_map]
      congr 1
      funext g
      rw [Function.comp_apply, Function.comp_apply, demandOn, hgroup]
      split_ifs with heq heq' heq'
      · rfl
      · exact absurd (congrArg some heq.symm) heq'
      · exact absurd (Option.some.inj heq').symm heq
      · rw [add_zero]

theorem requests_foldl (ads : List ClassAd) (t : GroupTree F) :
    requests (ads.foldl (assignSubmitter lib weighted) t) = (requests t).map fun p =>
      (p.1, p.2 + (ads.map (demandOn lib weighted (t.map (·.toGroup)) p.1)).sum) := by
  induction ads generalizing t with
  | nil =>
    simp only [List.foldl_nil, List.map_nil, List.sum_nil, add_zero]
    exact (RoseTree.map_id _).symm
  | cons ad ads ih =>
    rw [List.foldl_cons, ih, map_toGroup_assignSubmitter, requests_assignSubmitter, map_map]
    congr 1
    funext p
    rw [Function.comp_apply, List.map_cons, List.sum_cons, add_assoc]

theorem requests_assignSubmitters (cfg : GroupSettings F) (ads : List ClassAd) (usage : Text → F)
    (root : GroupTree F) :
    requests (cfg.assignSubmitters lib ads usage root) = root.map fun g =>
      (g.name, (ads.map (demandOn lib cfg.useWeightedDemand (root.map (·.toGroup)) g.name)).sum) := by
  have hregroup : ∀ t : GroupTree F, requests (regroupSubmitters t) = requests t := by
    rintro ⟨g, cs⟩
    rw [regroupSubmitters]
    split_ifs
    · rw [requests, requests, map_node, map_node]
      rfl
    · rfl
  rw [GroupSettings.assignSubmitters, hregroup, requests_foldl, requests, map_map, map_map, map_map]
  congr 1
  funext g
  rw [Function.comp_apply, Function.comp_apply]
  exact congrArg (Prod.mk g.name) (zero_add _)

/-! ## Copies -/

def ReadsNoPrio (ad : ClassAd) : Prop :=
  ∀ attr ∈ ["Name".toList, "IdleJobs".toList, "RunningJobs".toList, "WeightedIdleJobs".toList,
    "WeightedRunningJobs".toList], ∀ prio : ℤ,
    lib.evaluateAttr (ad.insert attrJobPrio (.lit (.int prio))) attr = lib.evaluateAttr ad attr

variable {lib}

theorem ReadsNoPrio.demandOn_insert {ad : ClassAd} (h : ReadsNoPrio lib ad) (nodes : GroupNode F)
    (group : Text) (prio : ℤ) :
    demandOn lib weighted nodes group (ad.insert attrJobPrio (.lit (.int prio))) =
      demandOn lib weighted nodes group ad := by
  simp only [ReadsNoPrio, List.forall_mem_cons] at h
  obtain ⟨hname, hidle, hrunning, hweightedIdle, hweightedRunning, -⟩ := h
  have hgroup : groupOf lib nodes (ad.insert attrJobPrio (.lit (.int prio))) =
      groupOf lib nodes ad := by
    simp only [groupOf, MatchLibrary.evaluateAttrString, hname]
  have hdemand : submitterDemand lib (ad.insert attrJobPrio (.lit (.int prio))) weighted =
      submitterDemand lib ad weighted := by
    simp only [submitterDemand, MatchLibrary.evaluateAttrInt, MatchLibrary.evalNumber, hidle,
      hrunning, hweightedIdle, hweightedRunning]
  rw [demandOn, hgroup, hdemand, demandOn]

theorem sum_demandOn_fanOut {ads : List ClassAd} (h : ∀ ad ∈ ads, ReadsNoPrio lib ad)
    (nodes : GroupNode F) (group : Text) :
    ((fanOutJobPrios lib ads).map (demandOn lib weighted nodes group)).sum =
      (ads.map fun ad =>
        ((priorities lib ad).length : F) * demandOn lib weighted nodes group ad).sum := by
  rw [fanOutJobPrios_eq]
  induction ads with
  | nil => rfl
  | cons ad ads ih =>
    rw [List.forall_mem_cons] at h
    have hcopies : ((priorities lib ad).map fun prio =>
        ad.insert attrJobPrio (.lit (.int prio))).map (demandOn lib weighted nodes group) =
        List.replicate (priorities lib ad).length (demandOn lib weighted nodes group ad) := by
      rw [List.map_map, List.eq_replicate_iff, List.length_map]
      refine ⟨rfl, fun x hx => ?_⟩
      obtain ⟨prio, -, rfl⟩ := List.mem_map.mp hx
      exact h.1.demandOn_insert weighted nodes group prio
    rw [List.flatMap_cons, List.map_append, List.sum_append, hcopies, List.sum_replicate,
      nsmul_eq_mul, ih h.2, List.map_cons, List.sum_cons]

/-- **Fanning out keeps the demand of every group exactly if the copies add nothing.** -/
theorem requested_fanOut_iff (cfg : GroupSettings F) {ads : List ClassAd}
    (h : ∀ ad ∈ ads, ReadsNoPrio lib ad) (usage : Text → F) (root : GroupTree F) :
    (cfg.assignSubmitters lib (fanOutJobPrios lib ads) usage root).map (·.requested) =
        (cfg.assignSubmitters lib ads usage root).map (·.requested) ↔
      ∀ n, Has root n → (ads.map fun ad => (((priorities lib ad).length : F) - 1) *
        demandOn lib cfg.useWeightedDemand (root.map (·.toGroup)) n.label.name ad).sum = 0 := by
  have hrequested : ∀ ads, (cfg.assignSubmitters lib ads usage root).map (·.requested) =
      root.map fun g =>
        (ads.map (demandOn lib cfg.useWeightedDemand (root.map (·.toGroup)) g.name)).sum := by
    intro ads
    have hrequests := congrArg (RoseTree.map Prod.snd)
      (requests_assignSubmitters lib cfg ads usage root)
    rw [requests, map_map, map_map] at hrequests
    exact hrequests
  rw [hrequested, hrequested, map_eq_map_iff]
  refine forall₂_congr fun n _ => ?_
  have hsplit : (ads.map fun ad => ((priorities lib ad).length : F) *
      demandOn lib cfg.useWeightedDemand (root.map (·.toGroup)) n.label.name ad).sum =
      (ads.map fun ad => (((priorities lib ad).length : F) - 1) *
        demandOn lib cfg.useWeightedDemand (root.map (·.toGroup)) n.label.name ad).sum +
      (ads.map (demandOn lib cfg.useWeightedDemand (root.map (·.toGroup)) n.label.name)).sum := by
    rw [← List.sum_map_add]
    congr 2
    funext ad
    ring
  rw [sum_demandOn_fanOut _ h, hsplit, add_eq_right]

/-! ## A submitter with two priorities -/

def prioSubmitter (prios : Text) : ClassAd :=
  ⟨[("Name", .lit (.str "g.u@d")), ("IdleJobs", .lit (.int 5)),
    ("JobPrioArray", .lit (.str prios))]⟩

theorem readsNoPrio_prioSubmitter (prios : Text) :
    ReadsNoPrio (literalMatchLibrary id 0 : MatchLibrary ℚ) (prioSubmitter prios) := by
  intro attr hattr prio
  have hne : toLower attr ≠ toLower attrJobPrio := by
    revert hattr attr
    decide +kernel
  change literalAttr _ _ _ _ = literalAttr _ _ _ _
  rw [literalAttr, literalAttr, ClassAd.lookup_insert_of_ne _ _ hne]

theorem requested_fanOut_one_priority :
    (fourGroups.assignSubmitters (literalMatchLibrary id 0)
        (fanOutJobPrios (literalMatchLibrary id 0) [prioSubmitter "10"]) (fun _ => 0)
        (startTree oneGroupTree)).map (·.requested) =
      (fourGroups.assignSubmitters (literalMatchLibrary id 0) [prioSubmitter "10"]
        (fun _ => 0) (startTree oneGroupTree)).map (·.requested) := by
  have hreads : ∀ ad ∈ [prioSubmitter "10"],
      ReadsNoPrio (literalMatchLibrary id 0 : MatchLibrary ℚ) ad := by
    intro ad had
    rw [List.mem_singleton.mp had]
    exact readsNoPrio_prioSubmitter _
  refine (requested_fanOut_iff fourGroups hreads (fun _ => 0) (startTree oneGroupTree)).mpr ?_
  intro n hn
  rw [← mem_breadthFirst] at hn
  revert hn n
  decide +kernel

theorem requested_fanOut_two_priorities :
    let ads := [prioSubmitter "10,5"]
    let requested := fun ads => (fourGroups.assignSubmitters (literalMatchLibrary id 0) ads
      (fun _ => 0) (startTree oneGroupTree)).breadthFirst.map (·.label.requested)
    requested (fanOutJobPrios (literalMatchLibrary id 0) ads) = [0, 10] ∧ requested ads = [0, 5] := by
  decide +kernel

end GolangCollector.Accountant
