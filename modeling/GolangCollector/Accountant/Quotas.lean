import GolangCollector.Accountant.GroupTree
import Mathlib.Tactic.Linarith

/-! # The quotas of the groups

`AssignQuotas` hands the pool's size down the tree of groups: the static quotas of a group's
children are served first, the dynamic ones share what is left, and the group keeps the rest
(`accountant/groupquota.go`). Nothing is lost or made up on the way. Arithmetic is exact. -/

namespace GolangCollector.Accountant

open GoStrings Negotiator RoseTree

/-! ## The groups of a cycle -/

structure GroupSettings (F : Type) extends GroupConfig F where
  allowQuotaOversubscription : Bool
  strictEnforceQuota : Bool
  maxAllocationRounds : ℤ
  useWeightedDemand : Bool
  roundRobinRate : Option F
  usingWeightedSlots : Bool
  considerPreemption : Bool

structure NodeState (F : Type) where
  subtreeRequested : F
  subtreeUsage : F
  rr : Bool
  rrTime : F
  subtreeRRTime : F

/-- `GroupNode` in a cycle, with what the allocator keeps about it. -/
structure GroupState (F : Type) extends Group F, NodeState F where
  quota : F
  subtreeQuota : F
  requested : F
  allocated : F
  usage : F
  sortKey : F
  submitters : List ClassAd

abbrev GroupTree (F : Type) := RoseTree (GroupState F)

variable {F : Type}

def quotaSum [AddMonoid F] (static : Bool) (children : List (GroupTree F)) : F :=
  (children.map fun c => if c.label.staticQuota = static then c.label.configQuota else 0).sum

variable [Field F] [LinearOrder F]

def childQuota (allowOversub : Bool) (quota : F) (children : List (GroupTree F))
    (child : GroupState F) : F :=
  let sqsum := quotaSum true children
  let dqsum := quotaSum false children
  let sqa := if allowOversub then sqsum else min sqsum quota
  let dqa := max 0 (quota - sqa)
  let zs := if sqsum ≤ 0 then 1 else sqsum
  let zd := max dqsum 1
  let q := if child.staticQuota then child.configQuota * (sqa / zs)
    else child.configQuota * (dqa / zd)
  if q < 0 then 0 else q

def keptQuota (allowOversub : Bool) (quota chq : F) (n : GroupState F) : F :=
  let kept := if allowOversub then quota else quota - chq
  let kept := if n.name = rootGroupName then quota - chq else kept
  if kept < 0 then 0 else kept

mutual

def assignQuotas (allowOversub : Bool) : GroupTree F → F → GroupTree F
  | .node n children, quota =>
    if quota ≤ 0 then .node n children
    else
      let q := childQuota allowOversub quota children
      let chq := (children.map fun c => q c.label).sum
      .node { n with subtreeQuota := quota, quota := keptQuota allowOversub quota chq n }
        (assignChildren allowOversub q children)

def assignChildren (allowOversub : Bool) (q : GroupState F → F) :
    List (GroupTree F) → List (GroupTree F)
  | [] => []
  | c :: cs => assignQuotas allowOversub c (q c.label) :: assignChildren allowOversub q cs

end

def resetQuota (n : GroupState F) : GroupState F := { n with quota := 0, subtreeQuota := 0 }

def GroupSettings.assignQuotas (cfg : GroupSettings F) (root : GroupTree F) (totalQuota : F) :
    GroupTree F :=
  Accountant.assignQuotas cfg.allowQuotaOversubscription (root.map resetQuota) totalQuota

def startTree (root : GroupNode F) : GroupTree F :=
  root.map fun g => ⟨g, ⟨0, 0, false, 0, 0⟩, 0, 0, 0, 0, 0, 0, []⟩

/-! ## What a group hands down -/

theorem assignChildren_eq (allowOversub : Bool) (q : GroupState F → F) (cs : List (GroupTree F)) :
    assignChildren allowOversub q cs = cs.map fun c => assignQuotas allowOversub c (q c.label) := by
  induction cs with
  | nil => rw [assignChildren, List.map_nil]
  | cons c cs ih => rw [assignChildren, ih, List.map_cons]

variable {t : GroupTree F}

theorem assignQuotas_of_nonpos {allowOversub : Bool} {quota : F} (h : quota ≤ 0) :
    assignQuotas allowOversub t quota = t := by
  cases t with
  | node n cs => rw [assignQuotas, if_pos h]

theorem assignQuotas_of_pos {allowOversub : Bool} {n : GroupState F} {cs : List (GroupTree F)}
    {quota : F} (h : 0 < quota) :
    assignQuotas allowOversub (.node n cs) quota =
      .node { n with
          subtreeQuota := quota
          quota := keptQuota allowOversub quota
            (cs.map fun c => childQuota allowOversub quota cs c.label).sum n }
        (cs.map fun c => assignQuotas allowOversub c (childQuota allowOversub quota cs c.label)) := by
  rw [assignQuotas, if_neg h.not_ge, ← assignChildren_eq allowOversub (childQuota _ quota cs)]

omit [LinearOrder F] in
theorem sum_kinds (a b : F) (cs : List (GroupTree F)) :
    (cs.map fun c => if c.label.staticQuota then c.label.configQuota * a
      else c.label.configQuota * b).sum = quotaSum true cs * a + quotaSum false cs * b := by
  rw [quotaSum, quotaSum]
  induction cs with
  | nil => simp
  | cons c cs ih =>
    simp only [List.map_cons, List.sum_cons, ih]
    cases c.label.staticQuota with
    | false => simp; ring
    | true => simp; ring

section

variable {quota : F} {cs : List (GroupTree F)}

theorem childQuota_nonneg (allowOversub : Bool) (child : GroupState F) :
    0 ≤ childQuota allowOversub quota cs child := by
  rw [childQuota]
  generalize (if child.staticQuota = true then _ else _ : F) = q
  split_ifs with h
  · exact le_rfl
  · exact not_lt.mp h

variable [IsStrictOrderedRing F]

theorem quotaSum_nonneg (static : Bool) (hcs : ∀ c ∈ cs, 0 ≤ c.label.configQuota) :
    0 ≤ quotaSum static cs := by
  refine List.sum_nonneg fun x hx => ?_
  obtain ⟨c, hc, rfl⟩ := List.mem_map.mp hx
  split_ifs
  · exact hcs c hc
  · exact le_rfl

variable {c : GroupTree F}

theorem configQuota_le_quotaSum (hcs : ∀ c ∈ cs, 0 ≤ c.label.configQuota) (hc : c ∈ cs)
    {static : Bool} (hstatic : c.label.staticQuota = static) :
    c.label.configQuota ≤ quotaSum static cs := by
  refine List.single_le_sum (fun x hx => ?_) _ (List.mem_map.mpr ⟨c, hc, if_pos hstatic⟩)
  obtain ⟨d, hd, rfl⟩ := List.mem_map.mp hx
  split_ifs
  · exact hcs d hd
  · exact le_rfl

def staticFactor (quota : F) (cs : List (GroupTree F)) : F :=
  min (quotaSum true cs) quota / if quotaSum true cs ≤ 0 then 1 else quotaSum true cs

def dynamicFactor (quota : F) (cs : List (GroupTree F)) : F :=
  max 0 (quota - min (quotaSum true cs) quota) / max (quotaSum false cs) 1

theorem quotaSum_mul_staticFactor (hcs : ∀ c ∈ cs, 0 ≤ c.label.configQuota) (hquota : 0 < quota) :
    quotaSum true cs * staticFactor quota cs = min (quotaSum true cs) quota := by
  rw [staticFactor]
  split_ifs with hzero
  · have heq : quotaSum true cs = 0 := le_antisymm hzero (quotaSum_nonneg true hcs)
    rw [heq, zero_mul, min_eq_left hquota.le]
  · exact mul_div_cancel₀ _ (not_le.mp hzero).ne'

theorem quotaSum_mul_dynamicFactor_le (quota : F) (cs : List (GroupTree F)) :
    quotaSum false cs * dynamicFactor quota cs ≤ quota - min (quotaSum true cs) quota := by
  have hleft : 0 ≤ quota - min (quotaSum true cs) quota := sub_nonneg.mpr (min_le_right _ _)
  have hpos : 0 < max (quotaSum false cs) 1 := lt_max_of_lt_right one_pos
  rw [dynamicFactor, max_eq_right hleft, mul_div_left_comm]
  exact mul_le_of_le_one_right hleft ((div_le_one hpos).mpr (le_max_left _ _))

section

variable (hcs : ∀ c ∈ cs, 0 ≤ c.label.configQuota)
include hcs

section

variable (hquota : 0 < quota)
include hquota

theorem factors_nonneg : 0 ≤ staticFactor quota cs ∧ 0 ≤ dynamicFactor quota cs := by
  refine ⟨div_nonneg (le_min (quotaSum_nonneg true hcs) hquota.le) ?_,
    div_nonneg (le_max_left _ _) (zero_le_one.trans (le_max_right _ _))⟩
  split_ifs with hzero
  · exact zero_le_one
  · exact (not_le.mp hzero).le

theorem childQuota_eq (hc : c ∈ cs) :
    childQuota false quota cs c.label =
      if c.label.staticQuota then c.label.configQuota * staticFactor quota cs
      else c.label.configQuota * dynamicFactor quota cs := by
  have hfactors := factors_nonneg hcs hquota
  rw [childQuota]
  change (if (if c.label.staticQuota then c.label.configQuota * staticFactor quota cs
    else c.label.configQuota * dynamicFactor quota cs) < 0 then 0 else _) = _
  refine if_neg (not_lt.mpr ?_)
  split_ifs
  · exact mul_nonneg (hcs c hc) hfactors.1
  · exact mul_nonneg (hcs c hc) hfactors.2

theorem sum_childQuota_le : (cs.map fun c => childQuota false quota cs c.label).sum ≤ quota := by
  rw [List.map_congr_left fun c hc => childQuota_eq hcs hquota hc, sum_kinds,
    quotaSum_mul_staticFactor hcs hquota]
  linarith [quotaSum_mul_dynamicFactor_le quota cs]

theorem childQuota_static (hc : c ∈ cs) (hstatic : c.label.staticQuota = true)
    (hfits : quotaSum true cs ≤ quota) :
    childQuota false quota cs c.label = c.label.configQuota := by
  have hle := configQuota_le_quotaSum hcs hc hstatic
  rw [childQuota_eq hcs hquota hc, if_pos hstatic, staticFactor, min_eq_left hfits]
  split_ifs with hzero
  · have heq : c.label.configQuota = 0 := le_antisymm (hle.trans hzero) (hcs c hc)
    rw [heq, zero_mul]
  · rw [div_self (not_le.mp hzero).ne', mul_one]

end

end

end

/-! ## Quotas are conserved -/

theorem map_toGroup_assignQuotas (allowOversub : Bool) (t : GroupTree F) (quota : F) :
    (assignQuotas allowOversub t quota).map (·.toGroup) = t.map (·.toGroup) := by
  induction t using RoseTree.induction generalizing quota with
  | node n cs ih =>
    obtain hquota | hquota := le_or_gt quota 0
    · rw [assignQuotas_of_nonpos hquota]
    · rw [assignQuotas_of_pos hquota, map_node, map_node, List.map_map]
      exact congrArg _ (List.map_congr_left fun c hc => ih c hc _)

omit [LinearOrder F] in
theorem quotaSum_congr {cs ds : List (GroupTree F)}
    (h : cs.map (·.label.toGroup) = ds.map (·.label.toGroup)) (static : Bool) :
    quotaSum static cs = quotaSum static ds := by
  have hmap := congrArg (List.map fun g : Group F =>
    if g.staticQuota = static then g.configQuota else 0) h
  rw [List.map_map, List.map_map] at hmap
  exact congrArg List.sum hmap

/-- **Quotas add up** to that of the subtree. -/
structure QuotasConserved (n : GroupTree F) : Prop where
  quota_nonneg : 0 ≤ n.label.quota
  subtreeQuota_nonneg : 0 ≤ n.label.subtreeQuota
  total_quota : n.total (·.quota) = n.label.subtreeQuota
  static_quota : ∀ c ∈ n.children, c.label.staticQuota = true →
    quotaSum true n.children ≤ n.label.subtreeQuota → c.label.subtreeQuota = c.label.configQuota

variable [IsStrictOrderedRing F]

theorem quotasConserved_of_zero (hconfig : ∀ n, Has t n → 0 ≤ n.label.configQuota)
    (hzero : ∀ n, Has t n → n.label.quota = 0 ∧ n.label.subtreeQuota = 0) :
    ∀ n, Has t n → QuotasConserved n := by
  induction t using RoseTree.induction with
  | node a cs ih =>
    rw [forall_has_node] at hconfig hzero ⊢
    have hbelow : ∀ c ∈ cs, ∀ n, Has c n → QuotasConserved n := fun c hc =>
      ih c hc (hconfig.2 c hc) (hzero.2 c hc)
    have hsum : (cs.map (total (·.quota))).sum = 0 := by
      refine List.sum_eq_zero fun x hx => ?_
      obtain ⟨c, hc, rfl⟩ := List.mem_map.mp hx
      rw [(hbelow c hc c (.refl c)).total_quota, (hzero.2 c hc c (.refl c)).2]
    refine ⟨⟨hzero.1.1.ge, hzero.1.2.ge, ?_, fun c hc hstatic hfits => ?_⟩, hbelow⟩
    · rw [total_node, hsum, add_zero]
      exact hzero.1.1.trans hzero.1.2.symm
    · have hcs : ∀ c ∈ cs, 0 ≤ c.label.configQuota := fun c hc => hconfig.2 c hc c (.refl c)
      rw [(hzero.2 c hc c (.refl c)).2]
      exact le_antisymm (hcs c hc)
        ((configQuota_le_quotaSum hcs hc hstatic).trans (hfits.trans hzero.1.2.le))

theorem quotasConserved_assignQuotas {quota : F} (hquota : 0 ≤ quota)
    (hconfig : ∀ n, Has t n → 0 ≤ n.label.configQuota)
    (hzero : ∀ n, Has t n → n.label.quota = 0 ∧ n.label.subtreeQuota = 0) :
    (assignQuotas false t quota).label.subtreeQuota = quota ∧
      ∀ n, Has (assignQuotas false t quota) n → QuotasConserved n := by
  induction t using RoseTree.induction generalizing quota with
  | node a cs ih =>
    obtain rfl | hpos := hquota.eq_or_lt
    · rw [assignQuotas_of_nonpos le_rfl]
      exact ⟨(hzero _ (.refl _)).2, quotasConserved_of_zero hconfig hzero⟩
    rw [assignQuotas_of_pos hpos, forall_has_node]
    rw [forall_has_node] at hconfig hzero
    have hcs : ∀ c ∈ cs, 0 ≤ c.label.configQuota := fun c hc => hconfig.2 c hc c (.refl c)
    set q := childQuota false quota cs with hq
    have hchild : ∀ c ∈ cs, (assignQuotas false c (q c.label)).label.subtreeQuota = q c.label ∧
        ∀ n, Has (assignQuotas false c (q c.label)) n → QuotasConserved n := fun c hc =>
      ih c hc (childQuota_nonneg _ _) (hconfig.2 c hc) (hzero.2 c hc)
    have hkept : keptQuota false quota (cs.map fun c => q c.label).sum a =
        quota - (cs.map fun c => q c.label).sum := by
      have hle := sum_childQuota_le hcs hpos
      simp only [keptQuota, Bool.false_eq_true, if_false, ite_self]
      exact if_neg (not_lt.mpr (sub_nonneg.mpr hle))
    refine ⟨rfl, ⟨?_, hpos.le, ?_, ?_⟩, ?_⟩
    · rw [label_node, hkept]
      exact sub_nonneg.mpr (sum_childQuota_le hcs hpos)
    · have hbelow : cs.map (total (·.quota) ∘ fun c => assignQuotas false c (q c.label)) =
          cs.map fun c => q c.label := List.map_congr_left fun c hc => by
        rw [Function.comp_apply, ((hchild c hc).2 _ (.refl _)).total_quota, (hchild c hc).1]
      rw [total_node, List.map_map, hbelow, hkept, sub_add_cancel, label_node]
    · rintro d hd hstatic hfits
      obtain ⟨c, hc, rfl⟩ := List.mem_map.mp hd
      have hlabel : ∀ c : GroupTree F,
          (assignQuotas false c (q c.label)).label.toGroup = c.label.toGroup := fun c => by
        simpa using congrArg label (map_toGroup_assignQuotas false c (q c.label))
      rw [children_node, quotaSum_congr (by simp [hlabel] : _ = cs.map (·.label.toGroup))] at hfits
      rw [(hchild c hc).1, hlabel]
      rw [hlabel] at hstatic
      exact childQuota_static hcs hpos hc hstatic hfits
    · rintro d hd
      obtain ⟨c, hc, rfl⟩ := List.mem_map.mp hd
      exact (hchild c hc).2

omit [IsStrictOrderedRing F] in
theorem reordered_assignQuotas (allowOversub : Bool) {t u : GroupTree F} (h : Reordered t u)
    (quota : F) :
    Reordered (assignQuotas allowOversub t quota) (assignQuotas allowOversub u quota) := by
  induction t using RoseTree.induction generalizing u quota with
  | node a cs ih =>
    obtain hquota | hquota := le_or_gt quota 0
    · rwa [assignQuotas_of_nonpos hquota, assignQuotas_of_nonpos hquota]
    cases h with
    | @node _ _ ds es hbelow horder =>
      have hlabel : ∀ {c d : GroupTree F}, Reordered c d → c.label = d.label := by
        rintro c d ⟨⟩
        rfl
      have hlabels : cs.map label = ds.map label :=
        List.forall₂_eq_eq_eq ▸ List.forall₂_map_left_iff.mpr
          (List.forall₂_map_right_iff.mpr (hbelow.imp fun _ _ => hlabel))
      -- what is handed to a child depends on sums over its siblings
      have hsum : ∀ static, quotaSum static cs = quotaSum static es := fun static => by
        have hgroups := congrArg (List.map GroupState.toGroup) hlabels
        rw [List.map_map, List.map_map] at hgroups
        exact (quotaSum_congr hgroups static).trans (horder.map _).sum_eq
      have hq : childQuota allowOversub quota cs = childQuota allowOversub quota es := by
        funext child
        rw [childQuota, childQuota, hsum, hsum]
      rw [assignQuotas_of_pos hquota, assignQuotas_of_pos hquota, ← hq]
      set q := childQuota allowOversub quota cs
      have hchq : (cs.map fun c => q c.label).sum = (es.map fun c => q c.label).sum := by
        have hmap := congrArg (List.map q) hlabels
        rw [List.map_map, List.map_map] at hmap
        exact (congrArg List.sum hmap).trans (horder.map _).sum_eq
      rw [hchq]
      refine .node _ ?_ (horder.map fun c => assignQuotas allowOversub c (q c.label))
      refine List.forall₂_map_left_iff.mpr (List.forall₂_map_right_iff.mpr ?_)
      refine ((List.forall₂_and_left _ _).mpr ⟨ih, hbelow⟩).imp fun c d ⟨hc, hcd⟩ => ?_
      rw [← hlabel hcd]
      exact hc hcd _

/-! ## The trees that are built -/

omit [Field F] [LinearOrder F] [IsStrictOrderedRing F] in
theorem forall_label_addGroup {P : Group F → Prop} {new : Group F} (hnew : P new)
    {comps : List Text} {t t' : GroupNode F} (hadd : addGroup new comps t = .ok t')
    (h : ∀ n, Has t n → P n.label) : ∀ n, Has t' n → P n.label := by
  induction comps generalizing t t' with
  | nil =>
    cases hadd
    exact h
  | cons comp comps ih =>
    obtain ⟨group, cs⟩ := t
    rw [forall_has_node] at h
    cases comps with
    | nil =>
      rw [addGroup] at hadd
      split_ifs at hadd
      cases hadd
      refine forall_has_node.mpr ⟨h.1, fun c hc => ?_⟩
      obtain hc | hc := List.mem_append.mp hc
      · exact h.2 c hc
      · rw [List.mem_singleton.mp hc, forall_has_node]
        exact ⟨hnew, by simp⟩
    | cons comp' comps =>
      rw [addGroup] at hadd
      · cases hchange : changeChild (.missingParent new.name comp) comp
          (addGroup new (comp' :: comps)) cs with
        | error e => rw [children_node, hchange] at hadd; cases hadd
        | ok cs' =>
          rw [children_node, hchange] at hadd
          cases hadd
          obtain ⟨l, c, c', r, rfl, rfl, -, hc'⟩ := changeChild_eq_ok hchange
          refine forall_has_node.mpr ⟨h.1, fun d hd => ?_⟩
          rw [List.mem_append, List.mem_cons] at hd
          obtain hd | rfl | hd := hd
          · exact h.2 d (by simp [hd])
          · exact ih hc' (h.2 c (by simp))
          · exact h.2 d (by simp [hd])
      · simp

theorem configuredGroup_quota (cfg : GroupConfig F) (gname : Text) :
    0 ≤ (configuredGroup cfg gname).1.configQuota ∧
      ((configuredGroup cfg gname).1.staticQuota = false →
        (configuredGroup cfg gname).1.configQuota ≤ 1) := by
  rw [configuredGroup]
  cases cfgLookup cfg.groupQuota gname with
  | some q =>
    dsimp only
    split_ifs with hneg
    · exact ⟨le_rfl, fun _ => zero_le_one⟩
    · exact ⟨not_lt.mp hneg, by simp⟩
  | none =>
    cases cfgLookup cfg.groupQuotaDynamic gname with
    | none => exact ⟨le_rfl, fun _ => zero_le_one⟩
    | some q =>
      dsimp only
      split_ifs with hneg hone
      · exact ⟨le_rfl, fun _ => zero_le_one⟩
      · exact ⟨zero_le_one, fun _ => le_rfl⟩
      · exact ⟨not_lt.mp hneg, fun _ => not_lt.mp hone⟩

theorem configQuota_buildGroupTree {parseExpr : Text → Bool} {cfg : GroupConfig F}
    {root : GroupNode F} {warnings : List (GroupWarning F)}
    (h : buildGroupTree parseExpr cfg = some (root, warnings)) :
    ∀ n, Has root n → 0 ≤ n.label.configQuota ∧
      (n.label.staticQuota = false → n.label.configQuota ≤ 1) := by
  let P : Group F → Prop := fun g => 0 ≤ g.configQuota ∧ (g.staticQuota = false → g.configQuota ≤ 1)
  rw [buildGroupTree] at h
  generalize (if cfg.groupSortExpr = [] then _ else cfg.groupSortExpr) = expr at h
  dsimp only at h
  split_ifs at h with hparse
  cases h
  rw [forall_has_node]
  generalize hst : List.foldl (buildStep cfg) _ _ = st
  have htree : ∀ n, Has st.1 n → P n.label := by
    rw [← hst]
    refine List.foldlRecOn
      (motive := fun st : GroupNode F × List (GroupWarning F) × Bool => ∀ n, Has st.1 n → P n.label)
      _ _ ?_ fun st hst gname _ => ?_
    · rw [forall_has_node]
      exact ⟨⟨le_rfl, fun _ => zero_le_one⟩, by simp⟩
    · rw [buildStep]
      dsimp only
      cases hadd : addGroup (configuredGroup cfg gname).1 (parseGroupName gname) st.1 with
      | error w => exact hst
      | ok root => exact forall_label_addGroup (configuredGroup_quota cfg gname) hadd hst
  obtain ⟨⟨group, cs⟩, rest⟩ := st
  exact forall_has_node.mp htree

theorem quotasConserved_of_config {cfg : GroupSettings F}
    (hoversub : cfg.allowQuotaOversubscription = false)
    (hconfig : ∀ n, Has t n → 0 ≤ n.label.configQuota) {totalQuota : F} (htotal : 0 ≤ totalQuota) :
    (cfg.assignQuotas t totalQuota).label.subtreeQuota = totalQuota ∧
      ∀ n, Has (cfg.assignQuotas t totalQuota) n → QuotasConserved n := by
  rw [GroupSettings.assignQuotas, hoversub]
  refine quotasConserved_assignQuotas htotal ?_ ?_
  · rw [forall_has_map]
    intro n hn
    rw [label_map]
    exact hconfig n hn
  · rw [forall_has_map]
    intro n _
    rw [label_map]
    exact ⟨rfl, rfl⟩

theorem configQuota_nonneg {parseExpr : Text → Bool} {cfg : GroupConfig F} {root : GroupNode F}
    {warnings : List (GroupWarning F)}
    (hbuild : buildGroupTree parseExpr cfg = some (root, warnings))
    (ht : t.map (·.toGroup) = root) : ∀ n, Has t n → 0 ≤ n.label.configQuota := by
  intro n hn
  have hroot := forall_has_map.mp (ht ▸ configQuota_buildGroupTree hbuild) n hn
  rw [label_map] at hroot
  exact hroot.1

/-- **`AssignQuotas` conserves the pool**, without oversubscription: quotas are not negative, add up
in each subtree, and static children are served first. -/
theorem assign_quotas_conserve {F : Type} [Field F] [LinearOrder F] [IsStrictOrderedRing F]
    {parseExpr : Text → Bool} {cfg : GroupSettings F} {root : GroupNode F}
    {warnings : List (GroupWarning F)}
    (hbuild : buildGroupTree parseExpr cfg.toGroupConfig = some (root, warnings))
    (hoversub : cfg.allowQuotaOversubscription = false) {t : GroupTree F}
    (ht : t.map (·.toGroup) = root) {totalQuota : F} (htotal : 0 ≤ totalQuota) :
    (cfg.assignQuotas t totalQuota).map (·.toGroup) = root ∧
      (cfg.assignQuotas t totalQuota).label.subtreeQuota = totalQuota ∧
      (∀ n, Has (cfg.assignQuotas t totalQuota) n → QuotasConserved n) ∧
      ∀ u, Reordered t u →
        Reordered (cfg.assignQuotas t totalQuota) (cfg.assignQuotas u totalQuota) := by
  obtain ⟨hroot, hconserved⟩ :=
    quotasConserved_of_config hoversub (configQuota_nonneg hbuild ht) htotal
  refine ⟨?_, hroot, hconserved, fun u hu => ?_⟩
  · rw [GroupSettings.assignQuotas, map_toGroup_assignQuotas, map_map, ← ht]
    rfl
  · exact reordered_assignQuotas _ (hu.map resetQuota) totalQuota

def fourGroups : GroupSettings ℚ where
  groupNames := ["a", "a.b", "c", "d"]
  groupQuota := AList.insert "a" 6 <| AList.insert "a.b" 9 <|
    AList.insert "c" 2 ∅
  groupQuotaDynamic := AList.insert "d" (1 / 2) ∅
  groupAcceptSurplus := ∅
  groupAutoregroup := ∅
  defaultAcceptSurplus := false
  defaultAutoregroup := false
  groupSortExpr := []
  allowQuotaOversubscription := false
  strictEnforceQuota := true
  maxAllocationRounds := 3
  useWeightedDemand := true
  roundRobinRate := none
  usingWeightedSlots := false
  considerPreemption := false

theorem assign_quotas_conserve_fourGroups :
    ∃ root warnings,
      buildGroupTree (fun _ => true) fourGroups.toGroupConfig = some (root, warnings) ∧
        (fourGroups.assignQuotas (startTree root) 12).total (·.quota) = 12 ∧
        ((fourGroups.assignQuotas (startTree root) 12).breadthFirst.map fun n =>
          (n.label.quota, n.label.subtreeQuota)) = [(2, 12), (0, 6), (2, 2), (2, 2), (6, 6)] := by
  have hsome : (buildGroupTree (fun _ => true) fourGroups.toGroupConfig).map (fun p =>
      (fourGroups.assignQuotas (startTree p.1) 12).breadthFirst.map fun n =>
        (n.label.quota, n.label.subtreeQuota)) =
      some [(2, 12), (0, 6), (2, 2), (2, 2), (6, 6)] := by
    decide +kernel
  obtain ⟨⟨root, warnings⟩, hbuild, hquotas⟩ := Option.map_eq_some_iff.mp hsome
  have ht : (startTree root).map (·.toGroup) = root := by
    rw [startTree, map_map]
    exact map_id root
  obtain ⟨-, hroot, hconserved, -⟩ :=
    assign_quotas_conserve hbuild rfl ht (show (0 : ℚ) ≤ 12 by decide +kernel)
  exact ⟨root, warnings, hbuild, (hconserved _ (.refl _)).total_quota.trans hroot, hquotas⟩

end GolangCollector.Accountant
