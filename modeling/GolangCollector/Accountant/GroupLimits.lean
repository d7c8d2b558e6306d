import GolangCollector.Accountant.GroupDriver

/-! # The limits of the groups

A group is offered a limit between its usage and its target, in steps of the round-robin rate. The
step is a quotient by `maxdelta`, the largest gap between a group's usage and what the driver
measures it by: the allocation if surplus is accepted anywhere, and the quota if not. Strict
enforcement then holds the limit to what each group above has left (`accountant/groupalloc.go`). -/

namespace GolangCollector.Accountant

open GoStrings RoseTree List

variable {F : Type} [Field F] [LinearOrder F]

def Driver.HasGap (s : Driver F) : Prop :=
  ∃ x, Has s.root x ∧ x.label.usage < DriverInput.measured s.globalAcceptSurplus x.label

def Driver.HasRoom (s : Driver F) : Prop := ∃ x, Has s.root x ∧ x.label.usage < x.label.quota

def Driver.Divides (inp : DriverInput F) (s : Driver F) (g : GroupState F) : Prop :=
  if s.globalAcceptSurplus then inp.cfg.considerPreemption = false ∨ g.quota ≤ g.usage
  else s.HasRoom

def DriverMove.isInner {F : Type} : DriverMove F → Bool
  | .offer _ _ => true
  | .pass => true
  | _ => false

namespace DriverInput

/-! ## The largest gap -/

omit [Field F] in
theorem lt_foldl_max {f : GroupState F → F} {x m : F} {groups : List (GroupState F)} :
    x < groups.foldl (fun m g => max m (f g)) m ↔ x < m ∨ ∃ g ∈ groups, x < f g := by
  induction groups generalizing m with
  | nil => simp
  | cons g groups ih =>
    rw [List.foldl_cons, ih, lt_max_iff, or_assoc]
    simp

omit [Field F] in
theorem le_foldl_max {f : GroupState F → F} {m : F} {groups : List (GroupState F)} :
    m ≤ groups.foldl (fun m g => max m (f g)) m := by
  induction groups generalizing m with
  | nil => exact le_rfl
  | cons g groups ih => exact (le_max_left _ _).trans ih

theorem maxdelta_nonneg (b : Bool) (groups : List (GroupState F)) : 0 ≤ maxdelta b groups :=
  le_foldl_max

theorem maxdelta_pos_iff [IsStrictOrderedRing F] {b : Bool} {groups : List (GroupState F)} :
    0 < maxdelta b groups ↔ ∃ g ∈ groups, g.usage < measured b g := by
  rw [maxdelta, lt_foldl_max]
  simp

/-! ## The limit that is proposed -/

section

variable {cfg : GroupSettings F} {n maxdelta : F} {g : GroupState F}

def unmeasured (globalAcceptSurplus : Bool) (g : GroupState F) : F :=
  if globalAcceptSurplus then g.quota else g.allocated

omit [Field F] in
theorem max_measured (b : Bool) (g : GroupState F) :
    max g.allocated g.quota = max (measured b g) (unmeasured b g) := by
  cases b with
  | false => exact max_comm _ _
  | true => rfl

variable [IsStrictOrderedRing F] [FloorRing F]

def wholeSlots (cfg : GroupSettings F) (x : F) : F := if cfg.usingWeightedSlots then x else (⌊x⌋ : F)

theorem proposedSlots_of_le (h : max g.allocated g.quota ≤ g.usage) :
    cfg.proposedSlots n maxdelta g = some (wholeSlots cfg (max g.allocated g.quota)) := by
  have hdelta : max 0 (max g.allocated g.quota - g.usage) = 0 := max_eq_left (sub_nonpos.mpr h)
  simp only [GroupSettings.proposedSlots, wholeSlots, hdelta, lt_irrefl, if_false, Option.map_some,
    min_self]
  split_ifs
  · rfl
  · rfl

theorem proposedSlots_of_lt (h : g.usage < max g.allocated g.quota) :
    cfg.proposedSlots n maxdelta g = (quotient? n maxdelta).map fun q =>
      wholeSlots cfg (min (g.usage + (max g.allocated g.quota - g.usage) * q)
        (max g.allocated g.quota)) := by
  have hdelta : max 0 (max g.allocated g.quota - g.usage) = max g.allocated g.quota - g.usage :=
    max_eq_right (sub_pos.mpr h).le
  simp only [GroupSettings.proposedSlots, wholeSlots, hdelta, sub_pos.mpr h, if_true]
  cases quotient? n maxdelta with
  | none => simp
  | some q => split_ifs <;> rfl

theorem proposedSlots_isSome_iff :
    (∃ x, cfg.proposedSlots n maxdelta g = some x) ↔
      maxdelta ≠ 0 ∨ max g.allocated g.quota ≤ g.usage := by
  obtain hle | hlt := le_or_gt (max g.allocated g.quota) g.usage
  · rw [proposedSlots_of_le hle]
    exact ⟨fun _ => Or.inr hle, fun _ => ⟨_, rfl⟩⟩
  · rw [proposedSlots_of_lt hlt, quotient?]
    split_ifs with hzero
    · simp [hzero, not_le.mpr hlt]
    · exact ⟨fun _ => Or.inl hzero, fun _ => ⟨_, rfl⟩⟩

theorem wholeSlots_mono {x y : F} (h : x ≤ y) : wholeSlots cfg x ≤ wholeSlots cfg y := by
  rw [wholeSlots, wholeSlots]
  split_ifs
  · exact h
  · exact_mod_cast Int.floor_mono h

omit [IsStrictOrderedRing F] in
theorem wholeSlots_le (x : F) : wholeSlots cfg x ≤ x := by
  rw [wholeSlots]
  split_ifs
  · exact le_rfl
  · exact Int.floor_le x

theorem proposedSlots_bounds (hn : 0 ≤ n) (hle : n ≤ maxdelta) {x : F}
    (hx : cfg.proposedSlots n maxdelta g = some x) :
    wholeSlots cfg (min g.usage (max g.allocated g.quota)) ≤ x ∧ x ≤ max g.allocated g.quota := by
  obtain hhas | hgap := le_or_gt (max g.allocated g.quota) g.usage
  · rw [proposedSlots_of_le hhas] at hx
    cases hx
    exact ⟨wholeSlots_mono (min_le_right _ _), wholeSlots_le _⟩
  · rw [proposedSlots_of_lt hgap, Option.map_eq_some_iff] at hx
    obtain ⟨q, hq, rfl⟩ := hx
    have hnonneg : 0 ≤ q := by
      rw [quotient?] at hq
      split_ifs at hq
      cases hq
      exact div_nonneg hn (hn.trans hle)
    refine ⟨wholeSlots_mono (min_le_min_right _ ?_), (wholeSlots_le _).trans (min_le_right _ _)⟩
    exact le_add_of_nonneg_right (mul_nonneg (sub_pos.mpr hgap).le hnonneg)

end

/-! ## The loop over the rate -/

section

variable {inp : DriverInput F}

theorem one_le_of_ninc {r : F} (h : inp.ninc = some r) : 1 ≤ r := by
  rw [ninc, Option.filter_eq_some_iff] at h
  simpa using h.2

variable [IsStrictOrderedRing F]

theorem nextN_bounds (inp : DriverInput F) {n maxdelta : F} (hn : 0 ≤ n) (hmax : 0 ≤ maxdelta) :
    0 ≤ inp.nextN n maxdelta ∧ inp.nextN n maxdelta ≤ maxdelta := by
  rw [nextN]
  cases hrate : inp.ninc with
  | none => exact ⟨hmax, le_rfl⟩
  | some r =>
    have hr : 0 ≤ r := zero_le_one.trans (one_le_of_ninc hrate)
    exact ⟨le_min (add_nonneg hn hr) hmax, min_le_right _ _⟩

omit [Field F] [IsStrictOrderedRing F] in
theorem perm_sortForNegotiation (autoregroup : Bool) (groups : List (PlacedGroup F)) :
    (sortForNegotiation autoregroup groups).Perm groups := by
  rw [sortForNegotiation]
  refine ((perm_insertionSort _ _).map Prod.fst).trans ?_
  rw [zipIdx_map_fst]

omit [Field F] [LinearOrder F] [IsStrictOrderedRing F] in
theorem mem_placedGroups {root : GroupTree F} {g : PlacedGroup F} (h : g ∈ placedGroups root) :
    ∃ x, Has root x ∧ x.label = g.2 := by
  obtain ⟨y, hy, rfl⟩ := mem_map.mp h
  refine ⟨y.map Prod.snd, ?_, label_map _ _⟩
  rw [← mem_breadthFirst, ← map_snd_placed [] root, breadthFirst_map]
  exact mem_map_of_mem hy

/-- **In the loop over the round-robin rate.** -/
structure Offers (s : Driver F) (n maxdelta : F) (order left : List (PlacedGroup F)) : Prop where
  nonneg : 0 ≤ n
  le : n ≤ maxdelta
  pos_iff : 0 < maxdelta ↔ s.HasGap
  groups : ∀ g ∈ order, ∃ x, Has s.root x ∧ x.label = g.2
  left : left ⊆ order

def Offering (s : Driver F) : Prop :=
  ∀ n maxdelta total order left, s.phase = .offering n maxdelta total order left →
    Offers s n maxdelta order left

variable [FloorRing F]

theorem offering_allocate (usage : Text → F) (s : Driver F) : Offering (inp.allocate usage s) := by
  rintro n maxdelta total order left hphase
  cases hphase
  obtain ⟨hn, hle⟩ := nextN_bounds inp (le_refl (0 : F)) (maxdelta_nonneg
    s.globalAcceptSurplus ((inp.regroupRoot s.autoregroup (inp.allocateRound s.root)).breadthFirst.map
      label))
  refine ⟨hn, hle, ?_, fun g hg => ?_, Subset.refl _⟩
  · rw [maxdelta_pos_iff, Driver.HasGap]
    change _ ↔ ∃ x, Has (RoseTree.map _ _) x ∧ _
    rw [exists_has_map]
    simp only [List.mem_map, mem_breadthFirst, exists_exists_and_eq_and, label_map]
    exact Iff.rfl
  · exact mem_placedGroups ((perm_sortForNegotiation _ _).subset hg)

theorem offering_of_step {s s' : Driver F} {l : DriverMove F} (hstep : inp.step s l = some s')
    (hs : Offering s) : Offering s' := by
  rcases inp.step_cases hstep with ⟨usage, -, -, rfl⟩ |
    ⟨usage, succeeds, n, maxdelta, total, order, g, left, -, hphase, ⟨-, rfl⟩ | ⟨-, rfl⟩⟩ |
    ⟨n, maxdelta, total, order, -, hphase, -, rfl⟩ |
    ⟨usage, now, n, maxdelta, total, order, -, -, -, rfl⟩
  · exact offering_allocate usage s
  · have h := hs _ _ _ _ _ hphase
    rintro _ _ _ _ _ ⟨⟩
    exact ⟨h.nonneg, h.le, h.pos_iff, h.groups, Subset.trans (subset_cons_self _ _) h.left⟩
  · have h := hs _ _ _ _ _ hphase
    rintro n' maxdelta' total' order' left' hphase'
    cases succeeds with
    | false => cases hphase'
    | true =>
      cases hphase'
      exact ⟨h.nonneg, h.le, h.pos_iff, h.groups, Subset.trans (subset_cons_self _ _) h.left⟩
  · have h := hs _ _ _ _ _ hphase
    rintro _ _ _ _ _ ⟨⟩
    obtain ⟨hn, hle⟩ := nextN_bounds inp h.nonneg (h.nonneg.trans h.le)
    exact ⟨hn, hle, h.pos_iff, h.groups, Subset.refl _⟩
  · rintro n' maxdelta' total' order' left' hphase'
    rw [reassess] at hphase'
    split_ifs at hphase'
    cases hphase'

/-! ## The loop ends -/

def passesLeft (inp : DriverInput F) (n maxdelta : F) : ℕ :=
  match inp.ninc with
  | none => if n < maxdelta then 1 else 0
  | some _ => ⌈maxdelta - n⌉.toNat

theorem passesLeft_nextN (inp : DriverInput F) {n maxdelta : F} (h : n < maxdelta) :
    inp.passesLeft (inp.nextN n maxdelta) maxdelta < inp.passesLeft n maxdelta := by
  rw [passesLeft, passesLeft, nextN]
  cases hrate : inp.ninc with
  | none =>
    dsimp only
    rw [if_pos h, if_neg (lt_irrefl _)]
    exact one_pos
  | some r =>
    dsimp only
    have hr := one_le_of_ninc hrate
    have hpos : 0 < ⌈maxdelta - n⌉ := Int.ceil_pos.mpr (sub_pos.mpr h)
    have hless : ⌈maxdelta - min (n + r) maxdelta⌉ < ⌈maxdelta - n⌉ := by
      obtain hle | hlt := le_total maxdelta (n + r)
      · rwa [min_eq_right hle, sub_self, Int.ceil_zero]
      · rw [min_eq_left hlt, ← Int.add_one_le_iff, ← Int.ceil_add_one]
        exact Int.ceil_mono (by linarith)
    omega

def innerLeft (inp : DriverInput F) (s : Driver F) : ℕ :=
  match s.phase with
  | .offering n maxdelta _ order left =>
    inp.passesLeft n maxdelta * (order.length + 1) + left.length + 1
  | _ => 0

theorem innerLeft_of_step {s s' : Driver F} {l : DriverMove F} (hstep : inp.step s l = some s')
    (hinner : l.isInner = true) : inp.innerLeft s' < inp.innerLeft s := by
  rcases inp.step_cases hstep with ⟨usage, rfl, -, -⟩ |
    ⟨usage, succeeds, n, maxdelta, total, order, g, left, -, hphase, ⟨-, rfl⟩ | ⟨-, rfl⟩⟩ |
    ⟨n, maxdelta, total, order, -, hphase, hless, rfl⟩ |
    ⟨usage, now, n, maxdelta, total, order, rfl, -⟩
  · cases hinner
  · rw [innerLeft, innerLeft, hphase]
    simp
  · rw [innerLeft, innerLeft, hphase]
    cases succeeds with
    | false => simp
    | true => simp
  · have hpasses := passesLeft_nextN inp hless
    have hmul := Nat.mul_le_mul_right (order.length + 1) hpasses
    rw [innerLeft, innerLeft, hphase]
    dsimp only
    rw [length_nil]
    rw [Nat.succ_mul] at hmul
    omega
  · cases hinner

theorem exists_step {s : Driver F} {n maxdelta total : F} {order left : List (PlacedGroup F)}
    (hphase : s.phase = .offering n maxdelta total order left) :
    ∃ l s', inp.step s l = some s' := by
  cases left with
  | cons g left =>
    refine ⟨.offer (fun _ => 0) true, ?_⟩
    rw [step, hphase]
    by_cases hskip : (!inp.negotiates g.2) = true
    · exact ⟨_, if_pos hskip⟩
    · exact ⟨_, if_neg hskip⟩
  | nil =>
    by_cases hless : n < maxdelta
    · refine ⟨.pass, ?_⟩
      rw [step, hphase]
      exact ⟨_, if_pos hless⟩
    · refine ⟨.reassess (fun _ => 0) 0, ?_⟩
      rw [step, hphase]
      exact ⟨_, if_neg hless⟩

end

end DriverInput

theorem DriverInput.usage_lt_allocated {inp : DriverInput F} {g : GroupState F}
    (h : inp.negotiates g = true) (hpreempt : inp.cfg.considerPreemption = false) :
    g.usage < g.allocated := by
  simp only [DriverInput.negotiates, hpreempt, Bool.not_false, Bool.and_true, Bool.and_eq_true,
    Bool.not_eq_true', decide_eq_false_iff_not, not_le] at h
  exact h.1.2

section

variable [IsStrictOrderedRing F] [FloorRing F] {inp : DriverInput F} {s : Driver F}
  {n maxdelta : F} {order left : List (PlacedGroup F)} {g : PlacedGroup F}

theorem DriverInput.Offers.proposedSlots_isSome_iff (h : Offers s n maxdelta order left)
    (hg : g ∈ left) : (∃ x, inp.cfg.proposedSlots n maxdelta g.2 = some x) ↔
      s.HasGap ∨ unmeasured s.globalAcceptSurplus g.2 ≤ g.2.usage := by
  obtain ⟨x, hx, hlabel⟩ := h.groups g (h.left hg)
  have hmax : maxdelta ≠ 0 ↔ s.HasGap := by
    rw [← h.pos_iff, (h.nonneg.trans h.le).lt_iff_ne, ne_comm]
  rw [DriverInput.proposedSlots_isSome_iff, hmax, max_measured s.globalAcceptSurplus, max_le_iff]
  refine or_congr_right' fun hnogap => and_iff_right ?_
  refine not_lt.mp fun hless => hnogap ⟨x, hx, ?_⟩
  rwa [hlabel]

theorem DriverInput.Offers.isSome_of_divides (h : Offers s n maxdelta order left) (hg : g ∈ left)
    (hnegotiates : inp.negotiates g.2 = true) (hdivides : s.Divides inp g.2) :
    ∃ x, inp.cfg.proposedSlots n maxdelta g.2 = some x := by
  rw [h.proposedSlots_isSome_iff hg]
  obtain ⟨x, hx, hlabel⟩ := h.groups g (h.left hg)
  rw [Driver.Divides] at hdivides
  split_ifs at hdivides with haccept
  · obtain hpreempt | hused := hdivides
    · refine .inl ⟨x, hx, ?_⟩
      rw [hlabel, measured, if_pos haccept]
      exact usage_lt_allocated hnegotiates hpreempt
    · rw [unmeasured, if_pos haccept]
      exact .inr hused
  · obtain ⟨y, hy, hroom⟩ := hdivides
    refine .inl ⟨y, hy, ?_⟩
    rwa [measured, if_neg haccept]

theorem DriverInput.Offers.divides_of_isSome (h : Offers s n maxdelta order left) (hg : g ∈ left)
    (hnegotiates : inp.negotiates g.2 = true) (hpreempt : inp.cfg.considerPreemption = false)
    (hsome : ∃ x, inp.cfg.proposedSlots n maxdelta g.2 = some x) : s.Divides inp g.2 := by
  rw [h.proposedSlots_isSome_iff hg] at hsome
  rw [Driver.Divides]
  split_ifs with haccept
  · exact .inl hpreempt
  · obtain ⟨y, hy, hgap⟩ | hle := hsome
    · rw [measured, if_neg haccept] at hgap
      exact ⟨y, hy, hgap⟩
    · -- a group that has its allocation is not negotiated
      rw [unmeasured, if_neg haccept] at hle
      exact absurd hle (not_le.mpr (usage_lt_allocated hnegotiates hpreempt))

end

def Driver.limits (inp : DriverInput ℚ) (s : Driver ℚ) : List (Bool × Option ℚ) :=
  match s.phase with
  | .offering n maxdelta _ _ left =>
    left.map fun g => (inp.negotiates g.2, (inp.limitOf (fun _ => 0) n maxdelta g s).2.1)
  | _ => []

def liveUsage (usage : Text → F) (root : GroupTree F) : RoseTree F := root.map fun g => usage g.name

def usageAt (live : RoseTree F) (place : List ℕ) : F := ((live.subtree? place).map (total id)).getD 0

section

variable {usage : Text → F}

omit [LinearOrder F] in
theorem calculateSubtreeUsage_node (n : GroupState F) (cs : List (GroupTree F)) :
    calculateSubtreeUsage usage (.node n cs) =
      .node { n with subtreeUsage := (cs.map fun c =>
          (calculateSubtreeUsage usage c).label.subtreeUsage).sum + usage n.name }
        (cs.map (calculateSubtreeUsage usage)) := by
  have hchildren : calculateChildrenUsage usage cs = cs.map (calculateSubtreeUsage usage) := by
    induction cs with
    | nil => rw [calculateChildrenUsage, map_nil]
    | cons c cs ih => rw [calculateChildrenUsage, ih, map_cons]
  rw [calculateSubtreeUsage, hchildren, List.map_map]
  rfl

omit [LinearOrder F] in
theorem label_calculateSubtreeUsage (t : GroupTree F) :
    (calculateSubtreeUsage usage t).label =
      { t.label with subtreeUsage := (liveUsage usage t).total id } := by
  induction t using RoseTree.induction with
  | node n cs ih =>
    have hsum : (cs.map fun c => (calculateSubtreeUsage usage c).label.subtreeUsage) =
        cs.map (total id ∘ liveUsage usage) := map_congr_left fun c hc => by rw [ih c hc]; rfl
    rw [calculateSubtreeUsage_node, label_node, label_node, hsum, liveUsage, map_node, total_node,
      List.map_map, add_comm]
    rfl

omit [LinearOrder F] in
theorem branch_calculateSubtreeUsage (t : GroupTree F) (p : List ℕ) :
    (calculateSubtreeUsage usage t).branch p = (t.branch p).map (calculateSubtreeUsage usage) := by
  induction p generalizing t with
  | nil => rfl
  | cons i p ih =>
    have hchildren : (calculateSubtreeUsage usage t).children =
        t.children.map (calculateSubtreeUsage usage) := by
      cases t with
      | node n cs => rw [calculateSubtreeUsage_node, children_node, children_node]
    rw [branch, branch, hchildren, getElem?_map, map_cons]
    cases t.children[i]? with
    | none => rfl
    | some c => exact congrArg _ (ih c)

def GroupState.strictlyAvailable (g : GroupState F) : F := max 0 (g.strictQuota - g.subtreeUsage)

theorem enforce_eq (mine : F) (g : GroupState F) :
    enforce mine g = if g.acceptSurplus then mine else min mine g.strictlyAvailable := by
  have havailable : (if g.strictQuota - g.subtreeUsage < 0 then 0
      else g.strictQuota - g.subtreeUsage) = g.strictlyAvailable := by
    rw [GroupState.strictlyAvailable]
    split_ifs with hneg
    · exact (max_eq_left hneg.le).symm
    · exact (max_eq_right (not_lt.mp hneg)).symm
  rw [enforce]
  dsimp only
  rw [havailable, min_comm, min_def_lt]

theorem enforce_le (mine : F) (g : GroupState F) : enforce mine g ≤ mine := by
  rw [enforce_eq]
  split_ifs
  · exact le_rfl
  · exact min_le_left _ _

theorem foldl_enforce_le (groups : List (GroupState F)) (mine : F) :
    groups.foldl enforce mine ≤ mine := by
  induction groups generalizing mine with
  | nil => exact le_rfl
  | cons g groups ih => exact (ih _).trans (enforce_le mine g)

theorem foldl_enforce_le_available {groups : List (GroupState F)} (mine : F)
    {g : GroupState F} (hg : g ∈ groups) (h : g.acceptSurplus = false) :
    groups.foldl enforce mine ≤ g.strictlyAvailable := by
  induction groups generalizing mine with
  | nil => cases hg
  | cons g' groups ih =>
    rw [foldl_cons]
    obtain rfl | hg := mem_cons.mp hg
    · rw [enforce_eq, if_neg (by rw [h]; decide)]
      exact (foldl_enforce_le _ _).trans (min_le_right _ _)
    · exact ih _ hg

end

/-- **Strict enforcement holds the subtrees to their quotas**, or to what they use now. -/
theorem strict_enforcement_holds {F : Type} [Field F] [LinearOrder F] [IsStrictOrderedRing F]
    {cfg : GroupSettings F} (hstrict : cfg.strictEnforceQuota = true) {usage : Text → F}
    {root n : GroupTree F} {place : List ℕ} (hn : root.subtree? place = some n)
    (husage : n.label.usage ≤ usage n.label.name) (slots : F) :
    cfg.strictEnforce usage root place n.label slots ≤ slots ∧
      ∀ x ≤ cfg.strictEnforce usage root place n.label slots, ∀ q a, q <+: place →
        root.subtree? q = some a → a.label.acceptSurplus = false →
        usageAt ((liveUsage usage root).setLabel x place) q ≤
          max a.label.strictQuota (usageAt (liveUsage usage root) q) := by
  have hlimit : cfg.strictEnforce usage root place n.label slots =
      (((root.branch place).map fun a => (calculateSubtreeUsage usage a).label).reverse.foldl enforce
        (slots - n.label.usage)) + n.label.usage := by
    rw [GroupSettings.strictEnforce, hstrict, if_neg (by decide), branch_calculateSubtreeUsage,
      List.map_map]
    rfl
  rw [hlimit]
  refine ⟨?_, fun x hx q a hq ha haccept => ?_⟩
  · have hle := foldl_enforce_le ((root.branch place).map fun a =>
      (calculateSubtreeUsage usage a).label).reverse (slots - n.label.usage)
    linarith
  · have hmem : (calculateSubtreeUsage usage a).label ∈ ((root.branch place).map fun a =>
        (calculateSubtreeUsage usage a).label).reverse := by
      rw [mem_reverse]
      exact mem_map_of_mem ((mem_branch (by rw [hn]; rfl)).mpr ⟨q, hq, ha⟩)
    have havailable := foldl_enforce_le_available (slots - n.label.usage) hmem
      (by rw [label_calculateSubtreeUsage]; exact haccept)
    obtain ⟨r, rfl⟩ := hq
    rw [subtree?_append, ha, Option.bind_some] at hn
    have hbefore : usageAt (liveUsage usage root) q = (liveUsage usage a).total id := by
      rw [usageAt, liveUsage, subtree?_map, ha]
      rfl
    have hafter : usageAt ((liveUsage usage root).setLabel x (q ++ r)) q =
        (liveUsage usage a).total id + (x - usage n.label.name) := by
      have hgroup : (liveUsage usage a).subtree? r = some (liveUsage usage n) := by
        rw [liveUsage, subtree?_map, hn]
        rfl
      rw [usageAt, subtree?_setLabel, liveUsage, subtree?_map, ha]
      change total id ((liveUsage usage a).setLabel x r) = _
      rw [total_setLabel id x hgroup]
      change _ + (x - (n.map _).label) = _
      rw [label_map]
    rw [hbefore, hafter]
    rw [GroupState.strictlyAvailable, label_calculateSubtreeUsage] at havailable
    have hroom : max 0 (a.label.strictQuota - (liveUsage usage a).total id) +
        (liveUsage usage a).total id = max a.label.strictQuota ((liveUsage usage a).total id) := by
      rw [← max_add_add_right, zero_add, sub_add_cancel, max_comm]
    rw [← hroom]
    have havailable' : _ ≤ max 0 (a.label.strictQuota - (liveUsage usage a).total id) := havailable
    linarith

def strictGroup : GroupTree ℚ := .node { sampleGroup "P.c" 10 10 100 true with usage := 3 } []

def strictTree : GroupTree ℚ :=
  .node (sampleGroup "<none>" 10 20 0 true) [.node (sampleGroup "P" 0 10 0 false) [strictGroup]]

def strictUsage (name : Text) : ℚ :=
  if name = "P.c" then 4 else if name = "P" then 2 else 0

theorem strict_enforcement_holds_strictTree :
    fourGroups.strictEnforce strictUsage strictTree [0, 0] strictGroup.label 10 = 7 ∧
      usageAt ((liveUsage strictUsage strictTree).setLabel 7 [0, 0]) [0] ≤
        max 10 (usageAt (liveUsage strictUsage strictTree) [0]) := by
  have hlimit : fourGroups.strictEnforce strictUsage strictTree [0, 0] strictGroup.label 10 = 7 := by
    decide +kernel
  have hn : strictTree.subtree? [0, 0] = some strictGroup := rfl
  have husage : strictGroup.label.usage ≤ strictUsage strictGroup.label.name := by decide +kernel
  have habove : strictTree.subtree? [0] = some (.node (sampleGroup "P" 0 10 0 false) [strictGroup]) :=
    rfl
  have hholds := strict_enforcement_holds (show fourGroups.strictEnforceQuota = true from rfl) hn
    husage 10
  have hcap : (sampleGroup "P" 0 10 0 false).strictQuota = 10 := by decide +kernel
  have hbound := hholds.2 7 hlimit.ge [0] _ ⟨[0], rfl⟩ habove rfl
  rw [label_node, hcap] at hbound
  exact ⟨hlimit, hbound⟩

theorem nothing_enforced :
    let cfg := { fourGroups with strictEnforceQuota := false }
    cfg.strictEnforce strictUsage strictTree [0, 0] strictGroup.label 10 = 10 ∧
      strictGroup.label.usage ≤ strictUsage strictGroup.label.name ∧
      max 10 (usageAt (liveUsage strictUsage strictTree) [0]) = 10 ∧
      usageAt ((liveUsage strictUsage strictTree).setLabel 10 [0, 0]) [0] = 12 := by
  decide +kernel

end GolangCollector.Accountant
