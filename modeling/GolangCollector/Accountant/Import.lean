import GolangCollector.Lib.GuardedLoad
import GolangCollector.Accountant.Accounts

/-! # The one-shot import

`New` with `ImportFrom` (`accountant/accountant.go`, `loadCppAccountantLog` of `import.go`): unless
the store has a customer, the ads of a C++ journal are loaded into it, record by record and
attribute by attribute; then the root group gets its priority and the usage of submitters is
reconciled. -/

namespace GolangCollector.Accountant

open RecordLog GoStrings Negotiator List Store Option

variable {F : Type}

/-! ## What is loaded -/

abbrev JournalAds (F : Type) := GoMap Text (Record F)

def Table.cppHead : Table → Text
  | .acct => "Accountant."
  | .customer => "Customer."
  | .resource => "Resource."

def splitCppKey (full : Text) : Option (Table × Text) :=
  let split := fun tbl : Table =>
    if tbl.cppHead.isPrefixOf full then some (tbl, full.drop tbl.cppHead.length) else none
  (split .customer).or ((split .resource).or (split .acct))

def Attr.name : Attr → Text
  | .priority => "Priority"
  | .priorityFactor => "PriorityFactor"
  | .resourcesUsed => "ResourcesUsed"
  | .weightedResourcesUsed => "WeightedResourcesUsed"
  | .hierWeightedResourcesUsed => "HierWeightedResourcesUsed"
  | .unchargedTime => "UnchargedTime"
  | .weightedUnchargedTime => "WeightedUnchargedTime"
  | .accumulatedUsage => "AccumulatedUsage"
  | .weightedAccumulatedUsage => "WeightedAccumulatedUsage"
  | .beginUsageTime => "BeginUsageTime"
  | .lastUsageTime => "LastUsageTime"
  | .ceiling => "Ceiling"
  | .floor => "Floor"
  | .lastUpdateTime => "LastUpdateTime"
  | .remoteUser => "RemoteUser"
  | .startTime => "StartTime"
  | .slotWeight => "SlotWeight"
  | .submitterShare => "SubmitterShare"
  | .submitterLimit => "SubmitterLimit"
  | .roundRobinTime => "RoundRobinTime"
  | .limitCount => "Count"
  | .matchedConcurrencyLimits => "MatchedConcurrencyLimits"
  | .other name _ => name

def sortedAttrs (ad : Record F) : List (Attr × AttrValue F) :=
  (ad.keys.insertionSort fun a b => a.name ≤ b.name).filterMap fun a =>
    (ad.attr? a).map fun v => (a, v)

def importSource (ads : JournalAds F) : List ((Table × Text) × List (Attr × AttrValue F)) :=
  (ads.keys.insertionSort (· ≤ ·)).filterMap fun full => do
    let key ← splitCppKey full
    let ad ← ads.lookup full
    some (key, sortedAttrs ad)

theorem splitCppKey_eq_some {full : Text} {key : Table × Text}
    (h : splitCppKey full = some key) : full = key.1.cppHead ++ key.2 := by
  have hsplit : ∀ {tbl : Table}, (if tbl.cppHead.isPrefixOf full then
      some (tbl, full.drop tbl.cppHead.length) else none) = some key →
      full = key.1.cppHead ++ key.2 := by
    intro tbl h
    split_ifs at h with hpre
    cases h
    exact (prefix_iff_eq_append.mp (List.isPrefixOf_iff_prefix.mp hpre)).symm
  simp only [splitCppKey, or_eq_some_iff] at h
  obtain h | ⟨-, h | ⟨-, h⟩⟩ := h <;> exact hsplit h

theorem mem_importSource {ads : JournalAds F} {p : (Table × Text) × List (Attr × AttrValue F)} :
    p ∈ importSource ads ↔ ∃ full ad, ads.lookup full = some ad ∧ splitCppKey full = some p.1 ∧
      p.2 = sortedAttrs ad := by
  simp only [importSource, mem_filterMap, mem_insertionSort, bind_eq_bind,
    bind_eq_some_iff, some.injEq]
  constructor
  · rintro ⟨full, -, key, hkey, ad, had, rfl⟩
    exact ⟨full, ad, had, hkey, rfl⟩
  · rintro ⟨full, ad, had, hkey, hattrs⟩
    refine ⟨full, ?_, p.1, hkey, ad, had, by rw [← hattrs]⟩
    rw [← AList.mem_keys, ← AList.lookup_isSome, had]
    rfl

theorem mem_sortedAttrs {ad : Record F} {attr : Attr} {v : AttrValue F} :
    (attr, v) ∈ sortedAttrs ad ↔ ad.attr? attr = some v := by
  simp only [sortedAttrs, mem_filterMap, mem_insertionSort, map_eq_some_iff,
    Prod.mk.injEq]
  constructor
  · rintro ⟨a, -, w, hw, rfl, rfl⟩
    exact hw
  · intro h
    refine ⟨attr, ?_, v, h, rfl, rfl⟩
    rw [← AList.mem_keys, ← AList.lookup_isSome]
    rw [Record.attr?] at h
    rw [h]
    rfl

/-! ## What is put right -/

def Tables.keysOf (t : Tables F) (tbl : Table) : List Text :=
  ((t.keys.filter fun p => p.1 = tbl).map Prod.snd).insertionSort (· ≤ ·)

section

variable [Zero F] [One F] [Add F] [Div F] [IntCast F] [BEq F] [LT F] [LE F] [DecidableLT F]
  [DecidableLE F] (lib : Library F) (cfg : Config F)

def Tables.resourcesOf (t : Tables F) (user : Text) : List Text :=
  (t.keysOf .resource).filter fun res =>
    (value t (.resource, res) .remoteUser).bind AttrValue.toText = some user

def Tables.weightOf (t : Tables F) (user : Text) : F :=
  (t.resourcesOf user).foldl
    (fun w res => w + ((value t (.resource, res) .slotWeight).bind AttrValue.toFloat).getD 1) 0

def rootFactor : F := clampFactor (chosenFactor ⟨cfg.filled, .empty, 0⟩ rootGroupName)

def rootFixups : List (Fixup (Table × Text) Attr (AttrValue F)) :=
  [⟨(.customer, rootGroupName), .priorityFactor, .float (rootFactor cfg),
      fun v => ((v.bind AttrValue.toFloat).filter fun v => 1 ≤ v).isNone⟩,
    ⟨(.customer, rootGroupName), .priority, .float minPriority,
      fun v => (v.bind AttrValue.toFloat).getD minPriority < minPriority⟩]

def userFixups (t : Tables F) (name : Text) : List (Fixup (Table × Text) Attr (AttrValue F)) :=
  [⟨(.customer, name), .resourcesUsed, .int ((t.resourcesOf name).length : ℤ),
      fun v => (v.bind (AttrValue.toInt lib.truncate)).getD 0 ≠ ((t.resourcesOf name).length : ℤ)⟩,
    ⟨(.customer, name), .weightedResourcesUsed, .float (t.weightOf name),
      fun v => (v.bind AttrValue.toFloat).getD 0 != t.weightOf name⟩]

def Tables.submitters (t : Tables F) : List Text :=
  (t.keysOf .customer).filter fun name => !isGroupName name

def startFixups (t : Tables F) : List (Fixup (Table × Text) Attr (AttrValue F)) :=
  rootFixups cfg ++ t.submitters.flatMap (userFixups lib t)

def importer (ads : JournalAds F) : Loader (Table × Text) Attr (AttrValue F) where
  source := importSource ads
  guard := fun key => key.1 = .customer
  fixups := startFixups lib cfg

end

/-! ## The start is lawful -/

variable {t : Tables F}

theorem Tables.mem_keysOf {tbl : Table} {key : Text} : key ∈ t.keysOf tbl ↔ There t (tbl, key) := by
  rw [keysOf, mem_insertionSort, There, reading_isSome, AList.lookup_isSome, AList.mem_keys]
  simp

theorem Tables.nodup_keysOf (t : Tables F) (tbl : Table) : (t.keysOf tbl).Nodup := by
  rw [keysOf, (perm_insertionSort _ _).nodup_iff]
  refine Nodup.map_on ?_ (t.keys_nodup.filter _)
  rintro ⟨tbl₁, key₁⟩ h₁ ⟨tbl₂, key₂⟩ h₂ rfl
  have htbl₁ := (mem_filter.mp h₁).2
  have htbl₂ := (mem_filter.mp h₂).2
  simp only [decide_eq_true_eq] at htbl₁ htbl₂
  rw [htbl₁, htbl₂]

variable {t t' : Tables F}

theorem Tables.filter_keysOf_congr {tbl : Table} {p : Text → Bool}
    (h : ∀ key, p key = true → (There t (tbl, key) ↔ There t' (tbl, key))) :
    (t.keysOf tbl).filter p = (t'.keysOf tbl).filter p := by
  have hsorted : ∀ t : Tables F, ((t.keysOf tbl).filter p).Pairwise (· ≤ ·) :=
    fun t => (pairwise_insertionSort _ _).filter p
  refine Perm.eq_of_pairwise (fun a b _ _ hab hba => le_antisymm hab hba) (hsorted t)
    (hsorted t') ?_
  rw [perm_ext_iff_of_nodup ((t.nodup_keysOf tbl).filter p) ((t'.nodup_keysOf tbl).filter p)]
  intro key
  simp only [mem_filter, mem_keysOf]
  exact and_congr_left (h key)

def Maintained (key : Table × Text) (attr : Attr) : Prop :=
  (key = (.customer, rootGroupName) ∧ (attr = .priorityFactor ∨ attr = .priority)) ∨
    (key.1 = .customer ∧ isGroupName key.2 = false ∧
      (attr = .resourcesUsed ∨ attr = .weightedResourcesUsed))

structure Alike (t t' : Tables F) : Prop where
  submitter : ∀ name, isGroupName name = false →
    (There t (.customer, name) ↔ There t' (.customer, name))
  resource : ∀ res, There t (.resource, res) ↔ There t' (.resource, res)
  value : ∀ res attr, value t (.resource, res) attr = value t' (.resource, res) attr

theorem alike_of_same (h : Same t t') : Alike t t' :=
  ⟨fun _ _ => (same_iff.mp h).1 _, fun _ => (same_iff.mp h).1 _, fun _ _ => (same_iff.mp h).2 _ _⟩

theorem alike_foldl {ops : List (Op (Table × Text) Attr (AttrValue F))}
    (hadds : ∀ op ∈ ops, op.Adds) (hkey : ∀ op ∈ ops, op.key = (.customer, rootGroupName) ∨
      ∃ name, op.key = (.customer, name) ∧ There t (.customer, name)) :
    Alike (ops.foldl Op.effect t) t := by
  have hresource : ∀ op ∈ ops, ∀ res, op.key ≠ (.resource, res) := by
    intro op hop res h
    obtain hroot | ⟨name, hname, -⟩ := hkey op hop
    · rw [hroot] at h
      cases h
    · rw [hname] at h
      cases h
  refine ⟨fun name hname => ?_, fun res => ?_, fun res attr => ?_⟩
  · rw [there_foldl hadds, or_iff_left_of_imp]
    rintro ⟨op, hop, hopkey⟩
    obtain hroot | ⟨name', hname', hthere⟩ := hkey op hop
    · rw [hroot] at hopkey
      cases hopkey
      exact absurd hname (by decide)
    · rw [hname'] at hopkey
      cases hopkey
      exact hthere
  · rw [there_foldl hadds, or_iff_left_of_imp]
    rintro ⟨op, hop, hopkey⟩
    exact absurd hopkey (hresource op hop res)
  · exact value_foldl_of_notMem hadds (fun v hv => hresource _ hv res rfl) t

namespace Alike

variable {t t' : Tables F} (h : Alike t t')
include h

theorem resourcesOf : t.resourcesOf = t'.resourcesOf := by
  funext user
  rw [Tables.resourcesOf, Tables.resourcesOf]
  simp only [h.value]
  exact Tables.filter_keysOf_congr fun res _ => h.resource res

theorem submitters : t.submitters = t'.submitters :=
  Tables.filter_keysOf_congr fun name hname => h.submitter name (by simpa using hname)

theorem weightOf [Zero F] [One F] [Add F] [IntCast F] : t.weightOf = t'.weightOf := by
  funext user
  rw [Tables.weightOf, Tables.weightOf, h.resourcesOf]
  simp only [h.value]

end Alike

section

variable [Zero F] [One F] [Add F] [IntCast F] [BEq F] (lib : Library F)
  {f : Fixup (Table × Text) Attr (AttrValue F)} {name : Text}

theorem key_of_mem_userFixups (h : f ∈ userFixups lib t name) :
    f.key = (.customer, name) ∧ (f.attr = .resourcesUsed ∨ f.attr = .weightedResourcesUsed) := by
  obtain rfl | rfl := mem_pair.mp h
  · exact ⟨rfl, .inl rfl⟩
  · exact ⟨rfl, .inr rfl⟩

variable [Div F] [LT F] [LE F] [DecidableLT F] [DecidableLE F] (cfg : Config F)

theorem Alike.startFixups (h : Alike t t') :
    Accountant.startFixups lib cfg t = Accountant.startFixups lib cfg t' := by
  have hfixups : userFixups lib t = userFixups lib t' := by
    funext name
    rw [userFixups, userFixups, h.resourcesOf, h.weightOf]
  rw [Accountant.startFixups, Accountant.startFixups, h.submitters, hfixups]

theorem mem_startFixups :
    f ∈ startFixups lib cfg t ↔ f ∈ rootFixups cfg ∨
      ∃ name, There t (.customer, name) ∧ isGroupName name = false ∧ f ∈ userFixups lib t name := by
  simp only [startFixups, mem_append, mem_flatMap, Tables.submitters, mem_filter,
    Tables.mem_keysOf, Bool.not_eq_true', and_assoc]

theorem key_of_mem_rootFixups (h : f ∈ rootFixups cfg) : f.key = (.customer, rootGroupName) ∧
      (f.attr = .priorityFactor ∨ f.attr = .priority) := by
  obtain rfl | rfl := mem_pair.mp h
  · exact ⟨rfl, .inl rfl⟩
  · exact ⟨rfl, .inr rfl⟩

theorem once_startFixups (t : Tables F) : Once (startFixups lib cfg t) := by
  intro f hf g hg hkey hattr
  obtain hf | ⟨name, -, hname, hf⟩ := (mem_startFixups lib cfg).mp hf <;>
    obtain hg | ⟨name', -, hname', hg⟩ := (mem_startFixups lib cfg).mp hg
  · obtain rfl | rfl := mem_pair.mp hf <;> obtain rfl | rfl := mem_pair.mp hg <;>
      first | rfl | cases hattr
  · -- the root group is no submitter
    rw [(key_of_mem_rootFixups cfg hf).1, (key_of_mem_userFixups lib hg).1] at hkey
    cases hkey
    exact absurd hname' (by decide)
  · rw [(key_of_mem_userFixups lib hf).1, (key_of_mem_rootFixups cfg hg).1] at hkey
    cases hkey
    exact absurd hname (by decide)
  · obtain rfl : name = name' := by
      rw [(key_of_mem_userFixups lib hf).1, (key_of_mem_userFixups lib hg).1] at hkey
      exact (Prod.mk.inj hkey).2
    obtain rfl | rfl := mem_pair.mp hf <;> obtain rfl | rfl := mem_pair.mp hg <;>
      first | rfl | cases hattr

theorem lawful_importer (ads : JournalAds F) :
    (importer lib cfg ads).Lawful Maintained (.customer, rootGroupName) where
  source_once := by
    rintro key attr v v' ⟨attrs, hp, hq⟩ ⟨attrs', hp', hq'⟩
    obtain ⟨full, ad, had, hkey, rfl⟩ := mem_importSource.mp hp
    obtain ⟨full', ad', had', hkey', rfl⟩ := mem_importSource.mp hp'
    obtain rfl : full = full' := by
      rw [splitCppKey_eq_some hkey, splitCppKey_eq_some hkey']
    rw [had] at had'
    cases had'
    exact some.inj ((mem_sortedAttrs.mp hq).symm.trans (mem_sortedAttrs.mp hq'))
  once := once_startFixups lib cfg
  congr := fun h => (alike_of_same h).startFixups lib cfg
  stable := by
    intro t ops hops
    refine Alike.startFixups lib cfg
      (alike_foldl (fun op hop => adds_of_mem_fixupOps (hops hop)) ?_)
    intro op hop
    obtain ⟨f, hf, -, rfl⟩ := mem_fixupOps.mp (hops hop)
    obtain hf | ⟨name, hthere, -, hf⟩ := (mem_startFixups lib cfg).mp hf
    · exact .inl (key_of_mem_rootFixups cfg hf).1
    · exact .inr ⟨name, (key_of_mem_userFixups lib hf).1, hthere⟩
  guard := by
    intro t f hf
    obtain hf | ⟨name, -, -, hf⟩ := (mem_startFixups lib cfg).mp hf
    · rw [(key_of_mem_rootFixups cfg hf).1]
      rfl
    · rw [(key_of_mem_userFixups lib hf).1]
      rfl
  own := by
    intro t f hf
    obtain hf | ⟨name, -, hname, hf⟩ := (mem_startFixups lib cfg).mp hf
    · exact .inl (key_of_mem_rootFixups cfg hf)
    · obtain ⟨hkey, hattr⟩ := key_of_mem_userFixups lib hf
      exact .inr (by rw [hkey]; exact ⟨rfl, hname, hattr⟩)
  there := by
    intro t f hf
    obtain hf | ⟨name, hthere, -, hf⟩ := (mem_startFixups lib cfg).mp hf
    · exact .inl (key_of_mem_rootFixups cfg hf).1
    · rw [(key_of_mem_userFixups lib hf).1]
      exact .inr hthere

end

/-! ## What is put right is what `New` writes -/

def LogEntry.change : LogEntry F → Change (Table × Text) Attr (AttrValue F)
  | .set tbl key attr v => .set (tbl, key) attr v
  | .del tbl key => .del (tbl, key)

theorem replay_change (log : List (LogEntry F)) :
    RecordLog.replay (log.map LogEntry.change) = replay log := by
  rw [RecordLog.replay, foldl_map, replay]
  congr 1
  funext t e
  cases e <;> rfl

def Store.fix (s : Store F) (f : Fixup (Table × Text) Attr (AttrValue F)) : Store F :=
  if f.needs (s.attr? f.key.1 f.key.2 f.attr) then s.set f.key.1 f.key.2 f.attr f.v else s

theorem Store.attr?_eq_value (s : Store F) (tbl : Table) (key : Text) (attr : Attr) :
    s.attr? tbl key attr = value s.tables (tbl, key) attr := by
  rw [attr?, record?, value, reading]
  cases s.tables.lookup (tbl, key) <;> rfl

def Apart (fs : List (Fixup (Table × Text) Attr (AttrValue F))) : Prop :=
  fs.Pairwise fun f g => ¬ (g.key = f.key ∧ g.attr = f.attr)

theorem Store.tables_foldl_fix {fs : List (Fixup (Table × Text) Attr (AttrValue F))}
    (hfs : Apart fs) (s : Store F) : (fs.foldl fix s).tables = fixed fs s.tables := by
  induction fs generalizing s with
  | nil => rfl
  | cons f fs ih =>
    obtain ⟨hf, hfs⟩ := pairwise_cons.mp hfs
    rw [foldl_cons, ih hfs, fix, attr?_eq_value, fixed, fixed]
    by_cases hneeds : f.needs (value s.tables f.key f.attr) = true
    · -- the others do not see the assignment
      have hops : fixupOps fs (s.set f.key.1 f.key.2 f.attr f.v).tables =
          fixupOps fs s.tables := by
        refine filterMap_congr fun g hg => ?_
        have hvalue : value (s.set f.key.1 f.key.2 f.attr f.v).tables g.key g.attr =
            value s.tables g.key g.attr :=
          (value_set s.tables f.key f.attr f.v).trans (if_neg (hf g hg))
        rw [Fixup.op?, Fixup.op?, hvalue]
      have hop : Fixup.op? s.tables f = some (.set f.key f.attr f.v) := if_pos hneeds
      rw [if_pos hneeds, hops, fixupOps, fixupOps, filterMap_cons_some hop]
      rfl
    · have hop : Fixup.op? s.tables f = none := if_neg hneeds
      rw [if_neg hneeds, fixupOps, fixupOps, filterMap_cons_none hop]

section

theorem Store.remoteUser?_eq (s : Store F) (res : Text) :
    s.remoteUser? res = (value s.tables (.resource, res) .remoteUser).bind AttrValue.toText := by
  rw [remoteUser?, getString, attr?_eq_value]

theorem Store.held_eq (s : Store F) (user : Text) :
    s.held user = (s.tables.resourcesOf user).length := by
  rw [held, countP_eq_length_filter, Tables.resourcesOf]
  simp only [remoteUser?_eq]
  rfl

variable [Zero F] [One F] [Add F] [IntCast F]

theorem Store.heldWeight_eq (s : Store F) (user : Text) :
    s.heldWeight user = s.tables.weightOf user := by
  rw [heldWeight, Tables.weightOf, Tables.resourcesOf]
  simp only [remoteUser?_eq, getFloat, attr?_eq_value]
  rfl

variable [BEq F] (lib : Library F)

theorem reconcileOne_eq {held : Text → ℕ} {heldWeight : Text → F}
    (hheld : held name = (t.resourcesOf name).length) (hweight : heldWeight name = t.weightOf name)
    (hname : isGroupName name = false) (s : Store F) :
    reconcileOne lib held heldWeight s name = (userFixups lib t name).foldl Store.fix s := by
  have hfirst : ∀ (c : Bool) (v : AttrValue F) (ws : List (Attr × AttrValue F)),
      s.sets .customer name (writeIf c .resourcesUsed v ++ ws) =
        (if c then s.set .customer name .resourcesUsed v else s).sets .customer name ws := by
    intro c v ws
    cases c <;> rfl
  have hsecond : ∀ (s : Store F) (c : Bool) (v : AttrValue F),
      s.sets .customer name (writeIf c .weightedResourcesUsed v) =
        if c then s.set .customer name .weightedResourcesUsed v else s := by
    intro s c v
    cases c <;> rfl
  -- the second attribute is not the first
  have hattr : ∀ (c : Bool) (v : AttrValue F),
      (if c then s.set .customer name .resourcesUsed v else s).attr? .customer name
        .weightedResourcesUsed = s.attr? .customer name .weightedResourcesUsed := by
    intro c v
    cases c
    · rfl
    · rw [if_pos rfl, attr?_set, if_neg (by simp)]
  rw [reconcileOne, if_neg (by simp [hname]), hfirst, hsecond, hheld, hweight, userFixups,
    foldl_cons, foldl_cons, foldl_nil, fix, fix]
  dsimp only
  rw [hattr]
  rfl

variable [Div F] [LT F] [LE F] [DecidableLT F] [DecidableLE F] (cfg : Config F)

theorem apart_startFixups (t : Tables F) : Apart (startFixups lib cfg t) := by
  refine pairwise_append.mpr ⟨?_, ?_, ?_⟩
  · simp [rootFixups]
  · refine pairwise_flatMap.mpr ⟨fun name _ => by simp [userFixups], ?_⟩
    refine ((t.nodup_keysOf .customer).filter _).imp ?_
    rintro name name' hne f hf g hg ⟨hkey, -⟩
    rw [(key_of_mem_userFixups lib hf).1, (key_of_mem_userFixups lib hg).1] at hkey
    exact hne (Prod.mk.inj hkey).2.symm
  · rintro f hf g hg ⟨hkey, -⟩
    obtain ⟨name, hname, hg⟩ := mem_flatMap.mp hg
    rw [(key_of_mem_rootFixups cfg hf).1, (key_of_mem_userFixups lib hg).1] at hkey
    cases hkey
    exact absurd (mem_filter.mp hname).2 (by decide)

variable [Mul F]

omit [Add F] [Div F] [Mul F] in
theorem getPriorityFactor_root (s : Store F) (lastUpdate : ℤ) :
    (getPriorityFactor ⟨cfg.filled, s, lastUpdate⟩ rootGroupName).2.store =
      s.fix ⟨(.customer, rootGroupName), .priorityFactor, .float (rootFactor cfg),
        fun v => ((v.bind AttrValue.toFloat).filter fun v => 1 ≤ v).isNone⟩ := by
  rw [getPriorityFactor, fix, getFloat]
  dsimp only
  split
  · next h => exact (if_neg fun hnone => by simp [h] at hnone).symm
  · next h => exact (if_pos (by simp [h])).symm

theorem getPriority_root (s : Store F) (lastUpdate : ℤ) :
    (getPriority ⟨cfg.filled, s, lastUpdate⟩ rootGroupName).2.store =
      (rootFixups cfg).foldl Store.fix s := by
  rw [rootFixups, foldl_cons, foldl_cons, foldl_nil, ← getPriorityFactor_root cfg s
    lastUpdate, getPriority, fix]
  dsimp only
  simp only [decide_eq_true_eq]
  split_ifs with h h' h' <;> first | rfl | exact absurd h h' | exact absurd h' h

theorem tables_new (s : Store F) : (new lib cfg s).store.tables =
    fixed (startFixups lib cfg s.tables) s.tables := by
  rw [← tables_foldl_fix (apart_startFixups lib cfg s.tables), startFixups, foldl_append, new]
  dsimp only
  rw [getPriority_root]
  refine congrArg Store.tables ?_
  -- the root group is no submitter and no resource
  have hroot : Apart (rootFixups cfg) := (pairwise_append.mp (apart_startFixups lib cfg ∅)).1
  have halike : Alike ((rootFixups cfg).foldl fix s).tables s.tables := by
    rw [tables_foldl_fix hroot]
    refine alike_foldl (fun op => adds_of_mem_fixupOps) fun op hop => ?_
    obtain ⟨f, hf, -, rfl⟩ := mem_fixupOps.mp hop
    exact .inl (key_of_mem_rootFixups cfg hf).1
  generalize (rootFixups cfg).foldl fix s = s' at halike
  have hfixups : userFixups lib s'.tables = userFixups lib s.tables := by
    funext name
    rw [userFixups, userFixups, halike.resourcesOf, halike.weightOf]
  calc reconcileResourcesUsed lib s'
    _ = s'.tables.submitters.foldl (reconcileOne lib s'.held s'.heldWeight) s' := by
        rw [Tables.submitters, foldl_filter, reconcileResourcesUsed]
        congr 1
        funext s name
        cases hname : isGroupName name
        · rfl
        · rw [reconcileOne, hname]
          rfl
    _ = s'.tables.submitters.foldl (fun s name => (userFixups lib s'.tables name).foldl fix s)
          s' := by
        refine foldl_ext _ _ _ fun s name hname => ?_
        exact reconcileOne_eq lib (s'.held_eq name) (s'.heldWeight_eq name)
          (by simpa using (mem_filter.mp hname).2) s
    _ = (s.tables.submitters.flatMap (userFixups lib s.tables)).foldl fix s' := by
        rw [foldl_flatMap, halike.submitters, hfixups]

/-- **A store with a customer is opened without an import**, whatever the journal holds. -/
theorem start_importer (ads : JournalAds F) (enc : AttrValue F → Bool) {s : Store F}
    (hname : (s.record? .customer name).isSome) :
    ((importer lib cfg ads).start enc (s.log.map LogEntry.change)).records =
      (new lib cfg s).store.tables := by
  have hguard : (importer lib cfg ads).guarded s.tables = true := by
    refine Loader.guarded_iff.mpr ⟨(.customer, name), ?_, rfl⟩
    rw [There, reading_isSome]
    exact hname
  rw [Loader.records_start, replay_change, s.replays, if_pos hguard, tables_new]
  rfl

end

/-! ## Stopped and done again -/

def encodable (finite : F → Bool) : AttrValue F → Bool
  | .float f => finite f
  | _ => true

def Carries (ads : JournalAds F) (whole again : Tables F) : Prop :=
  ∀ full ad key, ads.lookup full = some ad → splitCppKey full = some key →
    There again key ∧ ∀ attr v, ad.attr? attr = some v →
      value again key attr = value whole key attr

section

variable [Zero F] [One F] [Add F] [Div F] [IntCast F] [BEq F] [LT F] [LE F] [DecidableLT F]
  [DecidableLE F] (lib : Library F) (cfg : Config F) (ads : JournalAds F) (finite : F → Bool)

def newOnce : Tables F := ((importer lib cfg ads).start (encodable finite) []).records

def newLogged (n : ℕ) : List (Change (Table × Text) Attr (AttrValue F)) :=
  (importer lib cfg ads).stopped (encodable finite) n

def newAgain (n : ℕ) : Tables F :=
  ((importer lib cfg ads).start (encodable finite) (newLogged lib cfg ads finite n)).records

def CustomerLogged (n : ℕ) : Prop :=
  ∃ name attr v, Change.set (.customer, name) attr v ∈ newLogged lib cfg ads finite n

def ImportLogged (n : ℕ) : Prop :=
  (importer lib cfg ads).Complete (encodable finite) ∧
    ((importer lib cfg ads).loadLog (encodable finite)).length ≤ n

theorem there_newOnce {full : Text} {ad : Record F} {key : Table × Text}
    (had : ads.lookup full = some ad) (hkey : splitCppKey full = some key) :
    There (newOnce lib cfg ads finite) key := by
  rw [newOnce, Loader.records_start_nil, there_fixed, Loader.loaded,
    there_foldl fun op => Loader.adds_of_mem_loadOps]
  refine .inl (.inr ⟨.ensure key,
    Loader.mem_loadOps.mpr (.inl ⟨(key, sortedAttrs ad), ?_, rfl⟩), rfl⟩)
  exact mem_importSource.mpr ⟨full, ad, had, hkey, rfl⟩

/-- **`New` that is stopped after some changes and done again** makes good what is missing if no
customer was logged or all of the import was, and else only what it puts right itself. -/
theorem one_shot_import (n : ℕ) :
    (¬ CustomerLogged lib cfg ads finite n ∨ ImportLogged lib cfg ads finite n →
      Same (newAgain lib cfg ads finite n) (newOnce lib cfg ads finite) ∧
        Carries ads (newOnce lib cfg ads finite) (newAgain lib cfg ads finite n)) ∧
    (CustomerLogged lib cfg ads finite n →
      Carries ads (newOnce lib cfg ads finite) (newAgain lib cfg ads finite n) →
      ∀ full ad key, ads.lookup full = some ad → splitCppKey full = some key →
        (key = (.customer, rootGroupName) ∨
          ∃ attr v, .set key attr v ∈ newLogged lib cfg ads finite n) ∧
        ∀ attr v, ad.attr? attr = some v →
          Maintained key attr ∨ .set key attr v ∈ newLogged lib cfg ads finite n) := by
  have hl := lawful_importer lib cfg ads
  constructor
  · intro hn
    have hsame : Same (newAgain lib cfg ads finite n) (newOnce lib cfg ads finite) := by
      refine hl.same_start (hn.imp_left fun hnone key attr v hmem => ?_)
      rw [← Bool.not_eq_true]
      intro hguard
      obtain ⟨tbl, name⟩ := key
      obtain rfl : tbl = .customer := by simpa [importer] using hguard
      exact hnone ⟨name, attr, v, hmem⟩
    refine ⟨hsame, fun full ad key had hkey => ⟨?_, fun attr v _ => (same_iff.mp hsame).2 key attr⟩⟩
    exact ((same_iff.mp hsame).1 key).mpr (there_newOnce lib cfg ads finite had hkey)
  · rintro ⟨name, attr, v, hmem⟩ hcarries full ad key had hkey
    obtain ⟨hthere, hvalue⟩ := hl.mem_stopped_of_guarded ⟨_, attr, v, hmem, by simp [importer]⟩
    obtain ⟨hkeythere, hattrs⟩ := hcarries full ad key had hkey
    refine ⟨hthere key hkeythere, fun attr v hv => ?_⟩
    by_cases hown : Maintained key attr
    · exact .inl hown
    · exact .inr (hvalue key attr v
        ⟨sortedAttrs ad, mem_importSource.mpr ⟨full, ad, had, hkey, rfl⟩, mem_sortedAttrs.mpr hv⟩
        hown (hattrs attr v hv))

end

def twoCustomers : JournalAds ℚ :=
  ((∅ : JournalAds ℚ).insert "Customer.a@d".toList ((∅ : Record ℚ).insert .ceiling (.int 5))).insert
    "Customer.b@d" ((∅ : Record ℚ).insert .ceiling (.int 7))

def twoOnce : Tables ℚ := newOnce literalLibrary plainConfig twoCustomers fun _ => true

def twoAgain (n : ℕ) : Tables ℚ :=
  newAgain literalLibrary plainConfig twoCustomers (fun _ => true) n

theorem one_shot_import_two :
    Same (twoAgain 2) twoOnce ∧
      value (twoAgain 2) (.customer, "b@d") .ceiling = some (.int 7) := by
  refine ⟨((one_shot_import literalLibrary plainConfig twoCustomers (fun _ => true) 2).1
    (.inr ⟨?_, ?_⟩)).1, ?_⟩
  · unfold Loader.Complete
    decide +kernel
  · decide +kernel
  · decide +kernel

theorem one_shot_import_one :
    value (twoAgain 1) (.customer, "b@d") .ceiling = none ∧
      value twoOnce (.customer, "b@d") .ceiling = some (.int 7) ∧
      ¬ Carries twoCustomers twoOnce (twoAgain 1) := by
  have hagain : value (twoAgain 1) (.customer, "b@d".toList) .ceiling = none := by decide +kernel
  have honce : value twoOnce (.customer, "b@d") .ceiling = some (.int 7) := by
    decide +kernel
  refine ⟨hagain, honce, fun hcarries => ?_⟩
  have hcarried := (hcarries "Customer.b@d".toList _ (.customer, "b@d".toList) rfl (by decide)).2
    .ceiling (.int 7) (by decide)
  rw [hagain, honce] at hcarried
  cases hcarried

end GolangCollector.Accountant
