import Mathlib.Algebra.Order.BigOperators.Group.List
import Mathlib.Data.List.Sort
import GolangCollector.ClassAd.Evaluation
import GolangCollector.Negotiator.Scan

/-! # Significant attributes

The negotiator tells each schedd which job attributes its matches can depend on, and the schedd may
treat jobs that agree on them as one (`cycle/stats.go`). The attributes are collected from the text
of expressions: the Requirements and Rank of every slot, and the configured rank expressions and job
constraint, the latter as if each stood in the first slot. Evaluation looks at more: any attribute
of a slot that an expression leads to, expressions relative to each slot, and a constraint evaluated
by the job alone. -/

namespace GolangCollector.Negotiator

open GoStrings List

/-! ## The collector -/

def alwaysSignificant : List Text :=
  ["Requirements", "Rank", "ConcurrencyLimits", "RequestCpus",
    "RequestMemory", "RequestDisk"]

def bannedSignificant : List Text :=
  ["CurrentTime".toList, "LastHeardFrom".toList, "RemoteUser".toList, "RemoteOwner".toList,
    "RemoteUserFloor".toList, "RemoteUserPrio".toList, "RemoteUserResourcesInUse".toList,
    "RemoteGroupResourcesInUse".toList, "SubmittorPrio".toList, "SubmitterUserPrio".toList,
    "SubmitterUserResourcesInUse".toList, "SubmitterGroupResourcesInUse".toList,
    "TotalJobRunTime".toList, "MachineLastMatchTime".toList, "JobCurrentStartDate".toList,
    "JobState".toList, "Mips".toList, "Kflops".toList, "SlotID".toList, "DSlotId".toList,
    "PartitionableSlot".toList, "DynamicSlot".toList, "Offline".toList].map toLower

def isSlotPrefixed (lc : Text) : Bool :=
  "slot".toList.isPrefixOf lc && ((lc.drop 4).dropWhile Char.isDigit).head? = some '_'

def lastComponent (ref : Text) : Text := ((cutLast '.' ref).map Prod.snd).getD ref

def addRef (seen : List Text) (ref : Text) : List Text :=
  let ref := lastComponent ref
  let lc := toLower ref
  if ref = [] then seen
  else if lc ∈ bannedSignificant then seen
  else if isSlotPrefixed lc then seen
  else if lc ∈ seen.map toLower then seen
  else seen ++ [ref]

section

variable (parse : Text → Option Expr) (print : Expr → Text)

def jobRef? (machineAd : ClassAd) (r : Scope × Text) : Option Text :=
  match r.1 with
  | .targetScope => some r.2
  | .noScope => if (machineAd.lookup r.2).isSome then none else some r.2
  | _ => none

def collectJobRefs (machineAd : ClassAd) (exprText : Text) : List Text :=
  match parse exprText with
  | none => []
  | some expr => (expr.refs false).filterMap (jobRef? machineAd)

def slotRefs (slots : List ClassAd) : List Text :=
  slots.flatMap fun slot =>
    ["Requirements".toList, "Rank".toList].flatMap fun attr =>
      match slot.lookup attr with
      | none => []
      | some expr => collectJobRefs parse slot (print expr)

def configuredRefs (slots : List ClassAd) (exprs : List Text) : List Text :=
  match slots.head? with
  | none => []
  | some sample =>
    exprs.flatMap fun s => if trimSpace s = [] then [] else collectJobRefs parse sample s

def significantAttrs (slots : List ClassAd) (exprs : List Text) : List Text :=
  ((slotRefs parse print slots ++ configuredRefs parse slots exprs ++ alwaysSignificant).foldl
    addRef []).insertionSort (· ≤ ·)

def computeSignificantAttrs (slots : List ClassAd) (exprs : List Text) : Text :=
  [','].intercalate (significantAttrs parse print slots exprs)

end

def Exempt (a : Text) : Prop := toLower a ∈ bannedSignificant ∨ isSlotPrefixed (toLower a)

def Listed (attrs : List Text) (a : Text) : Prop := toLower a ∈ attrs.map toLower

theorem listed_foldl_addRef_or_exempt (refs : List Text) (seen : List Text) (a : Text) :
    Listed (refs.foldl addRef seen) a ∨ Exempt a ↔
      Listed seen a ∨ Exempt a ∨
        ∃ ref ∈ refs, lastComponent ref ≠ [] ∧ toLower a = toLower (lastComponent ref) := by
  induction refs generalizing seen with
  | nil => simp
  | cons ref refs ih =>
    rw [List.foldl_cons, ih]
    have hstep : Listed (addRef seen ref) a ∨ Exempt a ↔ Listed seen a ∨ Exempt a ∨
        (lastComponent ref ≠ [] ∧ toLower a = toLower (lastComponent ref)) := by
      rw [addRef]
      generalize lastComponent ref = c
      split_ifs with hnil hban hslot hseen
      · simp [hnil]
      · simp only [Exempt]
        grind
      · simp only [Exempt]
        grind
      · simp only [Listed]
        grind
      · simp only [Listed, List.map_append, List.mem_append]
        grind
    simp only [List.mem_cons, exists_eq_or_imp]
    rw [← or_assoc, hstep]
    simp only [or_assoc]

/-! ## What a match depends on -/

structure ConfiguredExprs where
  preJobRank : Text
  postJobRank : Text
  jobConstraint : Text

def ConfiguredExprs.texts (cfg : ConfiguredExprs) : List Text :=
  [cfg.preJobRank, cfg.postJobRank, cfg.jobConstraint]

structure Outcome (F : Type) where
  symmetry : Bool
  slotRank : MatchValue F
  /-- None where the text does not parse, and then there is no matchmaker. -/
  preJobRank : Option F
  postJobRank : Option F
  /-- None where there is no constraint, or none that compiles. -/
  jobConstraint : Option Bool

def myRef (name : String) : Expr := .attributeReference .myScope name.toList

def outcome {F : Type} [IntCast F] (lib : MatchLibrary F)
    (compile : Text → Option (ClassAd → Bool)) (cfg : ConfiguredExprs) (job slot : ClassAd) :
    Outcome F where
  symmetry := lib.symmetry job slot
  slotRank := lib.evaluateExprRight job slot (myRef "Rank")
  preJobRank := (parseRankExpr lib cfg.preJobRank).map (rankRight lib job slot)
  postJobRank := (parseRankExpr lib cfg.postJobRank).map (rankRight lib job slot)
  jobConstraint :=
    if cfg.jobConstraint = [] then none else (compile cfg.jobConstraint).map (· job)

structure Standard {F V : Type} (parse : Text → Option Expr) (lib : MatchLibrary F)
    (compile : Text → Option (ClassAd → Bool)) (sem : Semantics V) (value : V → MatchValue F)
    (depth : ℕ) : Prop where
  parseExpr_eq : lib.parseExpr = parse
  symmetry_eq : ∀ job slot, lib.symmetry job slot =
    ((value (job.eval sem depth slot (myRef "Requirements"))).isTrue &&
      (value (slot.eval sem depth job (myRef "Requirements"))).isTrue)
  evaluateExprRight_eq : ∀ job slot e,
    lib.evaluateExprRight job slot e = value (slot.eval sem depth job e)
  compile_eq : ∀ text, compile text =
    (parse text).map fun e job => (value (job.eval sem depth ⟨[]⟩ e)).isTrue

inductive Reached (ad : ClassAd) (S : Text → Prop) : Text → Prop
  | base {a : Text} : S a → Reached ad S a
  | through {a : Text} {e : Expr} {r : Scope × Text} :
      Reached ad S a → ad.lookup a = some e → r ∈ e.refs true → Keeps r → Reached ad S r.2

def SignificantSuffice (parse : Text → Option Expr) (print : Expr → Text) (pool : List ClassAd)
    (cfg : ConfiguredExprs) : Prop :=
  ∀ (F V : Type) [IntCast F] (lib : MatchLibrary F) (compile : Text → Option (ClassAd → Bool))
    (sem : Semantics V) (value : V → MatchValue F) (depth : ℕ),
    Standard parse lib compile sem value depth →
    ∀ job job' : ClassAd,
      (∀ a, Reached job
        (fun a => Listed (significantAttrs parse print pool cfg.texts) a ∨ Exempt a) a →
          job.lookup a = job'.lookup a) →
      ∀ slot ∈ pool, outcome lib compile cfg job slot = outcome lib compile cfg job' slot

def Met (parse : Text → Option Expr) (print : Expr → Text) (pool : List ClassAd)
    (cfg : ConfiguredExprs) (name : Text) : Prop :=
  (∃ slot ∈ pool, ∃ attr ∈ ["Requirements".toList, "Rank".toList], ∃ e₀ e r,
    slot.lookup attr = some e₀ ∧ parse (print e₀) = some e ∧ r ∈ e.refs false ∧ slot.Leaves r ∧
      r.2 = name) ∨
  ∃ sample, pool.head? = some sample ∧ ∃ text ∈ cfg.texts, ∃ e r,
    trimSpace text ≠ [] ∧ parse text = some e ∧ r ∈ e.refs false ∧ sample.Leaves r ∧ r.2 = name

def Covered (parse : Text → Option Expr) (print : Expr → Text) (pool : List ClassAd)
    (cfg : ConfiguredExprs) (a : Text) : Prop :=
  Listed alwaysSignificant a ∨ Exempt a ∨
    ∃ name, Met parse print pool cfg name ∧ lastComponent name ≠ [] ∧
      toLower a = toLower (lastComponent name)

/-- **Every reference to the job is covered.** -/
structure RefsCovered (parse : Text → Option Expr) (print : Expr → Text) (pool : List ClassAd)
    (cfg : ConfiguredExprs) : Prop where
  slots : ∀ slot ∈ pool, RefersTo (Covered parse print pool cfg) slot
  ranks : ∀ slot ∈ pool, ∀ text ∈ [cfg.preJobRank, cfg.postJobRank], trimSpace text ≠ [] →
    ∀ e, parse text = some e → ∀ r ∈ e.refs true, slot.Leaves r → Covered parse print pool cfg r.2
  constraint : pool ≠ [] → cfg.jobConstraint ≠ [] → ∀ e, parse cfg.jobConstraint = some e →
    ∀ r ∈ e.refs true, Keeps r → Covered parse print pool cfg r.2

section

variable {parse : Text → Option Expr} {print : Expr → Text} {pool : List ClassAd}
  {cfg : ConfiguredExprs} {r : Scope × Text}

theorem jobRef?_eq_some_iff {ad : ClassAd} {name : Text} :
    jobRef? ad r = some name ↔ ad.Leaves r ∧ r.2 = name := by
  obtain ⟨scope, a⟩ := r
  cases scope <;> simp [jobRef?, ClassAd.Leaves]

theorem mem_collectJobRefs {ad : ClassAd} {text name : Text} :
    name ∈ collectJobRefs parse ad text ↔
      ∃ e r, parse text = some e ∧ r ∈ e.refs false ∧ ad.Leaves r ∧ r.2 = name := by
  rw [collectJobRefs]
  cases parse text with
  | none => simp
  | some e => simp [mem_filterMap, jobRef?_eq_some_iff]

theorem mem_refs_iff_met {name : Text} :
    name ∈ slotRefs parse print pool ++ configuredRefs parse pool cfg.texts ↔
      Met parse print pool cfg name := by
  rw [mem_append, Met]
  refine or_congr ?_ ?_
  · simp only [slotRefs, mem_flatMap]
    refine exists_congr fun slot => and_congr_right fun _ => exists_congr fun attr =>
      and_congr_right fun _ => ?_
    cases slot.lookup attr with
    | none => simp
    | some e₀ => simp [mem_collectJobRefs]
  · rw [configuredRefs]
    cases pool.head? with
    | none => simp
    | some sample =>
      simp only [mem_flatMap, Option.some.injEq, exists_eq_left']
      refine exists_congr fun text => and_congr_right fun _ => ?_
      by_cases hblank : trimSpace text = []
      · simp [hblank]
      · simp [hblank, mem_collectJobRefs]

variable {a : Text}

theorem covered_iff :
    Listed (significantAttrs parse print pool cfg.texts) a ∨ Exempt a ↔
      Covered parse print pool cfg a := by
  have hsort : Listed (significantAttrs parse print pool cfg.texts) a ↔
      Listed ((slotRefs parse print pool ++ configuredRefs parse pool cfg.texts ++
        alwaysSignificant).foldl addRef []) a := by
    simp only [Listed, significantAttrs, List.mem_map, List.mem_insertionSort]
  rw [hsort, listed_foldl_addRef_or_exempt, Covered]
  have hwhole : ∀ ref ∈ alwaysSignificant, lastComponent ref = ref ∧ ref ≠ [] := by
    decide
  constructor
  · rintro (h | h | ⟨ref, hmem, hne, heq⟩)
    · simp [Listed] at h
    · exact .inr (.inl h)
    · rcases mem_append.mp hmem with hmem | hmem
      · exact .inr (.inr ⟨ref, mem_refs_iff_met.mp hmem, hne, heq⟩)
      · rw [(hwhole ref hmem).1] at heq
        exact .inl (mem_map.mpr ⟨ref, hmem, heq.symm⟩)
  · rintro (h | h | ⟨name, hmet, hne, heq⟩)
    · obtain ⟨ref, hmem, heq⟩ := mem_map.mp h
      obtain ⟨hlast, hne⟩ := hwhole ref hmem
      exact .inr (.inr ⟨ref, mem_append_right _ hmem, by rwa [hlast], by rw [hlast, heq]⟩)
    · exact .inr (.inl h)
    · exact .inr (.inr ⟨name, mem_append_left _ (mem_refs_iff_met.mpr hmet), hne, heq⟩)

theorem listed_requirements : Listed alwaysSignificant "Requirements" :=
  mem_map_of_mem (by decide)

theorem Covered.congr {a b : Text} (h : toLower a = toLower b)
    (ha : Covered parse print pool cfg a) : Covered parse print pool cfg b := by
  simpa only [Covered, Listed, Exempt, h] using ha

/-! ## Covered references suffice -/

theorem agreeOn_reached {S : Text → Prop} {job job' : ClassAd}
    (h : ∀ a, Reached job S a → job.lookup a = job'.lookup a) : AgreeOn (Reached job S) job job' :=
  ⟨h, fun _ ha _ he _ hr hkeeps => .through ha he hr hkeeps⟩

theorem map_rankRight_eq {F : Type} [IntCast F] {lib : MatchLibrary F} {job job' slot : ClassAd}
    {text : Text}
    (h : trimSpace text ≠ [] → ∀ e, lib.parseExpr text = some e →
      lib.evaluateExprRight job slot e = lib.evaluateExprRight job' slot e) :
    (parseRankExpr lib text).map (rankRight lib job slot) =
      (parseRankExpr lib text).map (rankRight lib job' slot) := by
  rw [parseRankExpr]
  split_ifs with hblank
  · rfl
  · rw [Option.map_map, Option.map_map]
    refine Option.map_congr fun e he => ?_
    simp only [Function.comp_apply, rankRight, Option.bind_some, h hblank e he]

theorem RefsCovered.significantSuffice (h : RefsCovered parse print pool cfg) :
    SignificantSuffice parse print pool cfg := by
  intro F V _ lib compile sem value depth hstd job job' hsame slot hslot
  simp only [covered_iff] at hsame
  have hagree := agreeOn_reached hsame
  have hslotRefs : RefersTo (Reached job (Covered parse print pool cfg)) slot :=
    fun a e he r hr hleaves => .base (h.slots slot hslot a e he r hr hleaves)
  obtain ⟨hright, hleft⟩ := hagree.eval_eq sem hslotRefs depth
  have hmine : ∀ name r, r ∈ (myRef name).refs true → ¬ slot.Leaves r := by
    simp [myRef, Expr.refs, ClassAd.Leaves]
  have hrank : ∀ text ∈ [cfg.preJobRank, cfg.postJobRank],
      (parseRankExpr lib text).map (rankRight lib job slot) =
        (parseRankExpr lib text).map (rankRight lib job' slot) := by
    intro text htext
    refine map_rankRight_eq fun hblank e he => ?_
    rw [hstd.parseExpr_eq] at he
    rw [hstd.evaluateExprRight_eq, hstd.evaluateExprRight_eq, hright e fun r hr hleaves =>
      .base (h.ranks slot hslot text htext hblank e he r hr hleaves)]
  rw [outcome, outcome, Outcome.mk.injEq]
  refine ⟨?_, ?_, hrank _ (by simp), hrank _ (by simp), ?_⟩
  · rw [hstd.symmetry_eq, hstd.symmetry_eq, hright _ fun r hr hl => absurd hl (hmine _ r hr), hleft]
    intro r hr _
    rw [mem_singleton.mp hr]
    exact .base (.inl listed_requirements)
  · rw [hstd.evaluateExprRight_eq, hstd.evaluateExprRight_eq,
      hright _ fun r hr hl => absurd hl (hmine _ r hr)]
  · split_ifs with hempty
    · rfl
    · rw [hstd.compile_eq, Option.map_map, Option.map_map]
      refine Option.map_congr fun e he => ?_
      -- The constraint is evaluated with nothing to match against.
      have halone : RefersTo (Reached job (Covered parse print pool cfg)) ⟨[]⟩ := by
        simp [RefersTo, ClassAd.lookup]
      simp only [Function.comp_apply]
      rw [(hagree.eval_eq sem halone depth).2 e fun r hr hkeeps =>
        .base (h.constraint (ne_nil_of_mem hslot) hempty e he r hr hkeeps)]

/-! ## Uncovered references do not -/

def standardLibrary {F V : Type} (parse : Text → Option Expr) (sem : Semantics V)
    (value : V → MatchValue F) (depth : ℕ) : MatchLibrary F where
  parseExpr := parse
  parseFloat _ := none
  floatLit _ := .lit (.real 0)
  evaluateAttr ad attr := value (ad.eval sem depth ⟨[]⟩ (.attributeReference .myScope attr))
  symmetry job slot :=
    (value (job.eval sem depth slot (myRef "Requirements"))).isTrue &&
      (value (slot.eval sem depth job (myRef "Requirements"))).isTrue
  evaluateExprRight job slot e := value (slot.eval sem depth job e)
  evaluateAttrLeft job slot attr :=
    value (job.eval sem depth slot (.attributeReference .myScope attr))
  evaluateRankLeft job slot :=
    match value (job.eval sem depth slot (myRef "Rank")) with
    | .real f => some f
    | _ => none

def standardCompile {F V : Type} (parse : Text → Option Expr) (sem : Semantics V)
    (value : V → MatchValue F) (depth : ℕ) (text : Text) : Option (ClassAd → Bool) :=
  (parse text).map fun e job => (value (job.eval sem depth ⟨[]⟩ e)).isTrue

theorem standard_standardLibrary {F V : Type} (parse : Text → Option Expr) (sem : Semantics V)
    (value : V → MatchValue F) (depth : ℕ) :
    Standard parse (standardLibrary parse sem value depth) (standardCompile parse sem value depth)
      sem value depth :=
  ⟨rfl, fun _ _ => rfl, fun _ _ _ => rfl, fun _ => rfl⟩

def below (bound count : ℕ) : MatchValue ℤ := if bound ≤ count then .int 0 else .bool true

def unresolved (my target : ClassAd) (r : Scope × Text) : ℕ :=
  match r.1 with
  | .noScope => if (my.lookup r.2).isSome || (target.lookup r.2).isSome then 0 else 1
  | .myScope => if (my.lookup r.2).isSome then 0 else 1
  | .targetScope => if (target.lookup r.2).isSome then 0 else 1
  | .parentScope => 1

theorem eval_one_eq (my target : ClassAd) (e : Expr) :
    my.eval undefinedCount 1 target e = ((e.refs true).map (unresolved my target)).sum := by
  rw [ClassAd.eval, Expr.evalWith_undefinedCount]
  congr 2
  funext ⟨scope, name⟩
  cases scope <;> simp only [unresolved]
  · cases my.lookup name <;> cases target.lookup name <;> rfl
  · cases my.lookup name <;> rfl
  · cases target.lookup name <;> rfl
  · rfl

def Defines (ad ad' : ClassAd) : Prop := ∀ a, (ad.lookup a).isSome → (ad'.lookup a).isSome

theorem defines_insert (ad : ClassAd) (x : Text) (e : Expr) : Defines ad (ad.insert x e) := by
  intro a ha
  by_cases h : toLower a = toLower x
  · rw [ad.lookup_insert_of_eq e h]
    rfl
  · rwa [ad.lookup_insert_of_ne e h]

variable {e : Expr}

theorem eval_one_lt {my my' target target' : ClassAd} (hmy : Defines my my')
    (htarget : Defines target target') (hr : r ∈ e.refs true)
    (hlt : unresolved my' target' r < unresolved my target r) :
    my'.eval undefinedCount 1 target' e < my.eval undefinedCount 1 target e := by
  rw [eval_one_eq, eval_one_eq]
  refine sum_lt_sum _ _ (fun ⟨scope, name⟩ _ => ?_) ⟨r, hr, hlt⟩
  have h₁ := hmy name
  have h₂ := htarget name
  cases scope <;> simp only [unresolved] <;> grind

theorem eval_one_insert_lt {slot job : ClassAd} {e l : Expr} (hr : r ∈ e.refs true)
    (hleaves : slot.Leaves r) (hnone : job.lookup r.2 = none) :
    slot.eval undefinedCount 1 (job.insert r.2 l) e < slot.eval undefinedCount 1 job e := by
  refine eval_one_lt (fun _ h => h) (defines_insert job r.2 l) hr ?_
  have hsome := job.lookup_insert_of_eq l (rfl : toLower r.2 = toLower r.2)
  obtain ⟨scope, name⟩ := r
  obtain rfl | ⟨rfl, hmy⟩ := hleaves
  · simp [unresolved, hnone, hsome]
  · simp_all [unresolved]

theorem eval_one_alone_insert_lt {job : ClassAd} {e l : Expr} (hr : r ∈ e.refs true)
    (hkeeps : Keeps r) (hnone : job.lookup r.2 = none) :
    (job.insert r.2 l).eval undefinedCount 1 ⟨[]⟩ e < job.eval undefinedCount 1 ⟨[]⟩ e := by
  refine eval_one_lt (defines_insert job r.2 l) (fun _ h => h) hr ?_
  have hsome := job.lookup_insert_of_eq l (rfl : toLower r.2 = toLower r.2)
  have hempty : (⟨[]⟩ : ClassAd).lookup r.2 = none := rfl
  obtain ⟨scope, name⟩ := r
  obtain rfl | rfl := hkeeps <;> simp_all [unresolved]

theorem agree_insert {job : ClassAd} {x : Text} {l : Expr}
    (hself : ∀ a e, job.lookup a = some e → ∀ r ∈ e.refs true, ¬ Keeps r)
    (hx : ¬ Covered parse print pool cfg x) (ha : Reached job
      (fun a => Listed (significantAttrs parse print pool cfg.texts) a ∨ Exempt a) a) :
    job.lookup a = (job.insert x l).lookup a := by
  cases ha with
  | base ha =>
    refine (job.lookup_insert_of_ne l fun h => hx ?_).symm
    exact (covered_iff.mp ha).congr h
  | through _ he hr hkeeps => exact absurd hkeeps (hself _ _ he _ hr)

theorem empty_refers_nothing (a : Text) (e : Expr) (h : (⟨[]⟩ : ClassAd).lookup a = some e) :
    ∀ r ∈ e.refs true, ¬ Keeps r := by
  simp [ClassAd.lookup] at h

theorem numberOf_below {bound count : ℕ} :
    (below bound count).numberOf = if bound ≤ count then some 0 else none := by
  rw [below]
  split_ifs <;> rfl

theorem isTrue_below {bound count : ℕ} : (below bound count).isTrue = decide (count < bound) := by
  rw [below]
  split_ifs with h
  · simp [MatchValue.isTrue, h]
  · simp [MatchValue.isTrue, Nat.lt_of_not_le h]

theorem rankUnset_ne_zero : rankUnset ≠ 0 := by
  decide +kernel

variable {slot : ClassAd}

theorem SignificantSuffice.ranks (h : SignificantSuffice parse print pool cfg) (hslot : slot ∈ pool)
    {text : Text} (htext : text ∈ [cfg.preJobRank, cfg.postJobRank]) (hblank : trimSpace text ≠ [])
    (he : parse text = some e) (hr : r ∈ e.refs true) (hleaves : slot.Leaves r) :
    Covered parse print pool cfg r.2 := by
  by_contra hx
  set bound := slot.eval undefinedCount 1 ⟨[]⟩ e with hbound
  have hlt := eval_one_insert_lt (l := .lit .undefined) hr hleaves
    (rfl : (⟨[]⟩ : ClassAd).lookup r.2 = none)
  have hsame := h ℤ ℕ _ _ undefinedCount (below bound) 1 (standard_standardLibrary parse _ _ _)
    ⟨[]⟩ (ClassAd.insert ⟨[]⟩ r.2 (.lit .undefined))
    (fun a ha => agree_insert empty_refers_nothing hx ha) slot hslot
  rw [outcome, outcome, Outcome.mk.injEq] at hsame
  have hrank : ∀ job : ClassAd, (parseRankExpr (standardLibrary parse undefinedCount (below bound) 1)
      text).map (rankRight (standardLibrary parse undefinedCount (below bound) 1) job slot) =
        some (if bound ≤ slot.eval undefinedCount 1 job e then 0 else rankUnset) := by
    intro job
    rw [parseRankExpr, if_neg hblank]
    simp only [standardLibrary, he, Option.map_some, rankRight, Option.bind_some, numberOf_below]
    split_ifs <;> rfl
  have hne : some (if bound ≤ slot.eval undefinedCount 1 ⟨[]⟩ e then (0 : ℤ) else rankUnset) ≠
      some (if bound ≤ slot.eval undefinedCount 1 (ClassAd.insert ⟨[]⟩ r.2 (.lit .undefined)) e then 0
        else rankUnset) := by
    rw [if_pos hbound.le, if_neg hlt.not_ge]
    exact fun heq => rankUnset_ne_zero (Option.some.inj heq).symm
  rw [← hrank, ← hrank] at hne
  simp only [mem_cons, not_mem_nil, or_false] at htext
  obtain rfl | rfl := htext
  · exact hne hsame.2.2.1
  · exact hne hsame.2.2.2.1

theorem SignificantSuffice.constraint (h : SignificantSuffice parse print pool cfg)
    (hpool : pool ≠ []) (hempty : cfg.jobConstraint ≠ []) (he : parse cfg.jobConstraint = some e)
    (hr : r ∈ e.refs true) (hkeeps : Keeps r) : Covered parse print pool cfg r.2 := by
  by_contra hx
  obtain ⟨slot, hslot⟩ := exists_mem_of_ne_nil pool hpool
  set bound := ClassAd.eval undefinedCount 1 ⟨[]⟩ ⟨[]⟩ e with hbound
  have hlt := eval_one_alone_insert_lt (l := .lit .undefined) hr hkeeps
    (rfl : (⟨[]⟩ : ClassAd).lookup r.2 = none)
  have hsame := h ℤ ℕ _ _ undefinedCount (below bound) 1 (standard_standardLibrary parse _ _ _)
    ⟨[]⟩ (ClassAd.insert ⟨[]⟩ r.2 (.lit .undefined))
    (fun a ha => agree_insert empty_refers_nothing hx ha) slot hslot
  rw [outcome, outcome, Outcome.mk.injEq, if_neg hempty, if_neg hempty] at hsame
  have hval := hsame.2.2.2.2
  simp only [standardCompile, he, Option.map_some, Option.some.injEq, isTrue_below,
    decide_eq_decide] at hval
  exact lt_irrefl _ (hval.mpr hlt)

/-! A slot's attributes are seen by a job whose Requirements name them. -/

def copies (e : Expr) : ℕ → Exprs
  | 0 => .nil
  | m + 1 => .cons e (copies e m)

theorem refs_copies (scope : Scope) (a : Text) (m : ℕ) :
    (copies (.attributeReference scope a) m).refs true = List.replicate m (scope, a) := by
  induction m with
  | zero => rfl
  | succ m ih => rw [copies, Exprs.refs, ih, Expr.refs, replicate_succ, singleton_append]

def naming (a : Text) (m : ℕ) : Expr :=
  .listLiteral (copies (.attributeReference .targetScope a) m)

theorem refs_naming (a : Text) (m : ℕ) :
    (naming a m).refs true = List.replicate m (.targetScope, a) := by
  rw [naming, Expr.refs, refs_copies]

def requiring (a : Text) (m : ℕ) : ClassAd := ⟨[("Requirements", naming a m)]⟩

theorem lookup_singleton (n : Text) (e : Expr) (name : Text) :
    (⟨[(n, e)]⟩ : ClassAd).lookup name = if toLower name = toLower n then some e else none := by
  by_cases h : toLower name = toLower n
  · simp [ClassAd.lookup, h]
  · simp [ClassAd.lookup, h, Ne.symm h]

theorem eval_requirements {job slot : ClassAd} {m : ℕ}
    (hreq : job.lookup "Requirements" = some (naming a m)) (ha : slot.lookup a = some e) :
    job.eval undefinedCount 3 slot (myRef "Requirements") =
      m * slot.eval undefinedCount 1 job e := by
  have htwo : job.eval undefinedCount 2 slot (naming a m) =
      m * slot.eval undefinedCount 1 job e := by
    rw [ClassAd.eval, Expr.evalWith_undefinedCount, refs_naming]
    simp [ha]
  rw [ClassAd.eval, myRef, Expr.evalWith]
  simp only [hreq, Option.map_some, Option.getD_some, htwo]

theorem eval_two_eq {job job' slot : ClassAd}
    (hsome : ∀ name, (job.lookup name).isSome = (job'.lookup name).isSome)
    (hzero : ∀ name e, job.lookup name = some e → job.eval undefinedCount 1 slot e = 0)
    (hzero' : ∀ name e, job'.lookup name = some e → job'.eval undefinedCount 1 slot e = 0) :
    slot.eval undefinedCount 2 job e = slot.eval undefinedCount 2 job' e := by
  have hone : slot.eval undefinedCount 1 job = slot.eval undefinedCount 1 job' := by
    funext e
    have heq : unresolved slot job = unresolved slot job' := by
      funext r
      simp only [unresolved, hsome]
    rw [eval_one_eq, eval_one_eq, heq]
  have hjob : ∀ name, (job.lookup name).map (job.eval undefinedCount 1 slot) =
      (job'.lookup name).map (job'.eval undefinedCount 1 slot) := by
    intro name
    have hname := hsome name
    cases h : job.lookup name with
    | none => simp_all
    | some e =>
      obtain ⟨e', h'⟩ := Option.isSome_iff_exists.mp (hname.symm.trans (by rw [h]; rfl))
      rw [h', Option.map_some, Option.map_some, hzero name e h, hzero' name e' h']
  rw [ClassAd.eval, ClassAd.eval]
  simp only [hone, hjob]

def requiringAnd (a : Text) (m : ℕ) (x : Text) : ClassAd :=
  (requiring a m).insert x (.lit .undefined)

theorem lookup_requiringAnd (a : Text) (m : ℕ) (x name : Text) :
    (requiringAnd a m x).lookup name =
      if toLower name = toLower x then some (.lit .undefined)
      else if toLower name = toLower "Requirements" then some (naming a m)
      else none := by
  split_ifs with hx hreq
  · exact ClassAd.lookup_insert_of_eq _ _ hx
  · rw [requiringAnd, ClassAd.lookup_insert_of_ne _ _ hx, requiring, lookup_singleton, if_pos hreq]
  · rw [requiringAnd, ClassAd.lookup_insert_of_ne _ _ hx, requiring, lookup_singleton, if_neg hreq]

theorem eval_slot_requirements (ha : (slot.lookup a).isSome) (m : ℕ) (x : Text) :
    slot.eval undefinedCount 3 (requiringAnd a m x) (myRef "Requirements") =
      slot.eval undefinedCount 3 (requiringAnd a 0 x) (myRef "Requirements") := by
  have hzero : ∀ m name e, (requiringAnd a m x).lookup name = some e →
      (requiringAnd a m x).eval undefinedCount 1 slot e = 0 := by
    intro m name e he
    rw [lookup_requiringAnd] at he
    rw [eval_one_eq]
    split_ifs at he <;> cases he
    · rfl
    · rw [refs_naming]
      simp [unresolved, ha]
  have htwo : slot.eval undefinedCount 2 (requiringAnd a m x) =
      slot.eval undefinedCount 2 (requiringAnd a 0 x) := by
    funext e
    refine eval_two_eq (fun name => ?_) (hzero m) (hzero 0)
    rw [lookup_requiringAnd, lookup_requiringAnd]
    split_ifs <;> rfl
  rw [ClassAd.eval, ClassAd.eval, myRef, Expr.evalWith, Expr.evalWith]
  simp only [htwo]

theorem SignificantSuffice.slots (h : SignificantSuffice parse print pool cfg)
    (hslot : slot ∈ pool) : RefersTo (Covered parse print pool cfg) slot := by
  intro a e ha r hr hleaves
  by_contra hx
  have hreq : toLower "Requirements" ≠ toLower r.2 := fun heq =>
    hx (Covered.congr heq (.inl listed_requirements))
  -- The job names the attribute often enough to outweigh the slot's side.
  set side := slot.eval undefinedCount 3 (requiringAnd a 0 r.2) (myRef "Requirements") with hside
  have hfew : (requiring a (side + 1)).lookup "Requirements" =
      some (naming a (side + 1)) := by
    rw [requiring, lookup_singleton, if_pos rfl]
  have hmore : (requiringAnd a (side + 1) r.2).lookup "Requirements" =
      some (naming a (side + 1)) := by
    rw [lookup_requiringAnd, if_neg hreq, if_pos rfl]
  have hlt : slot.eval undefinedCount 1 (requiringAnd a (side + 1) r.2) e <
      slot.eval undefinedCount 1 (requiring a (side + 1)) e :=
    eval_one_insert_lt hr hleaves (by rw [requiring, lookup_singleton, if_neg hreq.symm])
  set bound := (side + 1) * slot.eval undefinedCount 1 (requiring a (side + 1)) e
  have hjob : (side + 1) * slot.eval undefinedCount 1 (requiringAnd a (side + 1) r.2) e < bound :=
    Nat.mul_lt_mul_of_pos_left hlt (Nat.succ_pos side)
  have hslotSide : slot.eval undefinedCount 3 (requiringAnd a (side + 1) r.2)
      (myRef "Requirements") < bound := by
    rw [eval_slot_requirements (Option.isSome_of_mem ha), ← hside]
    exact Nat.lt_of_lt_of_le (Nat.lt_succ_self side) (Nat.le_mul_of_pos_right _ (by omega))
  have hself : ∀ b e, (requiring a (side + 1)).lookup b = some e →
      ∀ q ∈ e.refs true, ¬ Keeps q := by
    intro b e he q hq
    rw [requiring, lookup_singleton] at he
    split_ifs at he
    cases he
    rw [refs_naming] at hq
    rw [eq_of_mem_replicate hq]
    rintro (hk | hk) <;> cases hk
  have hsame := h ℤ ℕ _ _ undefinedCount (below bound) 3 (standard_standardLibrary parse _ _ _)
    (requiring a (side + 1)) (requiringAnd a (side + 1) r.2)
    (fun b hb => agree_insert hself hx hb) slot hslot
  rw [outcome, outcome, Outcome.mk.injEq] at hsame
  have hsym := hsame.1
  simp only [standardLibrary, isTrue_below, eval_requirements hfew ha, eval_requirements hmore ha,
    bound, lt_irrefl, hjob, hslotSide, decide_false, decide_true, Bool.false_and,
    Bool.and_true] at hsym
  cases hsym

/-- **Jobs that agree on the significant attributes fare alike at every slot** iff every reference
to the job is covered. -/
theorem significantAttrs_suffice_iff (parse : Text → Option Expr) (print : Expr → Text)
    (pool : List ClassAd) (cfg : ConfiguredExprs) :
    SignificantSuffice parse print pool cfg ↔ RefsCovered parse print pool cfg := by
  constructor
  · intro h
    refine ⟨fun slot hslot => h.slots hslot, ?_, ?_⟩
    · intro slot hslot text htext hblank e he r hr hleaves
      exact h.ranks hslot htext hblank he hr hleaves
    · intro hpool hempty e he r hr hkeeps
      exact h.constraint hpool hempty he hr hkeeps
  · exact RefsCovered.significantSuffice

end

/-! ## A pool that is not covered -/

def plainSemantics : Semantics (MatchValue ℚ) where
  lit v := literalValue id 0 (.lit v)
  undefined := .undefined
  tooDeep := .error
  binaryOp _ _ _ := .error
  unaryOp _ _ := .error
  listLiteral _ := .error
  functionCall _ _ := .error
  conditional _ _ _ := .error
  elvis _ _ := .error
  select _ _ := .error
  subscript _ _ := .error
  recordLiteral _ := .error

def plainParse (text : Text) : Option Expr :=
  if text = "true" then some (.lit (.bool true))
  else some (.attributeReference .noScope text)

def plainPrint : Expr → Text
  | .attributeReference _ name => name
  | _ => "true"

def policySlot : ClassAd :=
  ⟨[("Requirements", .attributeReference .noScope "Start"),
    ("Start", .attributeReference .targetScope "Ok"),
    ("Good", .lit (.bool true)), ("Size", .lit (.int 1))]⟩

def openSlot : ClassAd := ⟨[("Requirements", .lit (.bool true))]⟩

def welcomeJob : ClassAd :=
  ⟨[("Requirements", .lit (.bool true)), ("Ok", .lit (.bool true)),
    ("Good", .lit (.bool true)), ("Size", .lit (.int 7))]⟩

def unwelcomeJob : ClassAd :=
  ((welcomeJob.insert "Ok" (.lit (.bool false))).insert "Good"
    (.lit (.bool false))).insert "Size" (.lit (.int 2))

def sizedExprs : ConfiguredExprs := ⟨"Size", [], "Good"⟩

theorem significantAttrs_miss :
    significantAttrs plainParse plainPrint [policySlot, openSlot] sizedExprs.texts =
      ["ConcurrencyLimits".toList, "Rank".toList, "RequestCpus".toList, "RequestDisk".toList,
        "RequestMemory".toList, "Requirements".toList] ∧
    Standard plainParse (standardLibrary plainParse plainSemantics id 4)
      (standardCompile plainParse plainSemantics id 4) plainSemantics id 4 ∧
    (∀ a, Reached welcomeJob (fun a =>
        Listed (significantAttrs plainParse plainPrint [policySlot, openSlot] sizedExprs.texts) a ∨
          Exempt a) a → welcomeJob.lookup a = unwelcomeJob.lookup a) ∧
    ([welcomeJob, unwelcomeJob].map fun job =>
      (outcome (standardLibrary plainParse plainSemantics id 4)
        (standardCompile plainParse plainSemantics id 4) sizedExprs job policySlot).symmetry) =
      [true, false] ∧
    ([welcomeJob, unwelcomeJob].map fun job =>
      (outcome (standardLibrary plainParse plainSemantics id 4)
        (standardCompile plainParse plainSemantics id 4) sizedExprs job openSlot).preJobRank) =
      [some 7, some 2] ∧
    ([welcomeJob, unwelcomeJob].map fun job =>
      (outcome (standardLibrary plainParse plainSemantics id 4)
        (standardCompile plainParse plainSemantics id 4) sizedExprs job openSlot).jobConstraint) =
      [some true, some false] := by
  have hlist : significantAttrs plainParse plainPrint [policySlot, openSlot] sizedExprs.texts =
      ["ConcurrencyLimits".toList, "Rank".toList, "RequestCpus".toList, "RequestDisk".toList,
        "RequestMemory".toList, "Requirements".toList] := by
    decide +kernel
  refine ⟨hlist, standard_standardLibrary _ _ _ _, ?_, by decide +kernel, by decide +kernel,
    by decide +kernel⟩
  rw [hlist]
  have hfree : ∀ x ∈ ["Ok".toList, "Good".toList, "Size".toList],
      ¬ (toLower x ∈ map toLower ["ConcurrencyLimits".toList, "Rank".toList,
        "RequestCpus".toList, "RequestDisk".toList, "RequestMemory".toList,
        "Requirements".toList] ∨ toLower x ∈ bannedSignificant ∨ isSlotPrefixed (toLower x)) := by
    decide +kernel
  intro a ha
  cases ha with
  | base ha =>
    have hne : ∀ x ∈ ["Ok".toList, "Good".toList, "Size".toList], toLower a ≠ toLower x := by
      intro x hx heq
      rw [Listed, Exempt, heq] at ha
      exact absurd ha (hfree x hx)
    rw [unwelcomeJob, ClassAd.lookup_insert_of_ne _ _ (hne _ (by simp)),
      ClassAd.lookup_insert_of_ne _ _ (hne _ (by simp)),
      ClassAd.lookup_insert_of_ne _ _ (hne _ (by simp))]
  | through _ he hr hkeeps =>
    exfalso
    have hlit : ∀ p ∈ welcomeJob.attrs, p.2.refs true = [] := by decide
    obtain ⟨p, hp, rfl⟩ := Option.map_eq_some_iff.mp he
    rw [hlit p (mem_of_find?_eq_some hp)] at hr
    cases hr

end GolangCollector.Negotiator
