import GolangCollector.Lib.RoseTree
import GolangCollector.Accountant.Ticks

/-! # The tree of accounting groups

`BuildGroupTree` makes a tree of the configured group names, and `GetAssignedGroup` walks it to the
deepest known group of a submitter's name, without regard to case. The accountant books usage on a
name that it cuts out of the submitter's name, as it is spelled (`accountant/grouptree.go`,
`accountant/accountant.go`). -/

namespace GolangCollector.Accountant

open GoStrings Negotiator List Option

/-! ## The tree -/

structure GroupConfig (F : Type) where
  groupNames : List Text
  groupQuota : GoMap Text F
  groupQuotaDynamic : GoMap Text F
  groupAcceptSurplus : GoMap Text Bool
  groupAutoregroup : GoMap Text Bool
  defaultAcceptSurplus : Bool
  defaultAutoregroup : Bool
  groupSortExpr : Text

structure Group (F : Type) where
  name : Text
  configQuota : F
  staticQuota : Bool
  acceptSurplus : Bool
  autoregroup : Bool

abbrev GroupNode (F : Type) := RoseTree (Group F)

inductive GroupWarning (F : Type) where
  | reserved (name : Text)
  | missingParent (name parent : Text)
  | duplicate (name : Text)
  | negativeQuota (quota : F) (name : Text)
  | noQuota (name : Text)

def defaultGroupSortExpr : Text :=
  ("ifThenElse(AccountingGroup=?=\"<none>\",3.4e+38, ifThenElse(GroupQuota>0, " ++
    "GroupResourcesInUse/GroupQuota, 3.3e+38))").toList

section

variable {F β : Type}

def cfgLookup (m : GoMap Text β) (name : Text) : Option β :=
  (m.lookup name).or ((m.entries.find? fun e => equalFold e.1 name).map Sigma.snd)

def parseGroupName (gname : Text) : List Text := gname.splitOn '.'

def leafName (full : Text) : Text :=
  if full = rootGroupName then full else (parseGroupName full).getLastD []

def findChild (parent : GroupNode F) (name : Text) : Option (GroupNode F) :=
  parent.children.find? fun c => equalFold (leafName c.label.name) name

def changeChild {ε : Type} (missing : ε) (name : Text)
    (change : GroupNode F → Except ε (GroupNode F)) :
    List (GroupNode F) → Except ε (List (GroupNode F))
  | [] => .error missing
  | c :: cs =>
    if equalFold (leafName c.label.name) name then (change c).map (· :: cs)
    else (changeChild missing name change cs).map (c :: ·)

def addGroup (new : Group F) : List Text → GroupNode F → Except (GroupWarning F) (GroupNode F)
  | [], group => .ok group
  | [leaf], group =>
    if (findChild group leaf).isSome then .error (.duplicate new.name)
    else .ok (.node group.label (group.children ++ [.node new []]))
  | comp :: comps, group =>
    (changeChild (.missingParent new.name comp) comp (addGroup new comps) group.children).map
      (.node group.label)

variable [Zero F] [One F] [LT F] [DecidableLT F]

def configuredGroup (cfg : GroupConfig F) (gname : Text) : Group F × List (GroupWarning F) :=
  let (quota, static, warnings) :=
    match cfgLookup cfg.groupQuota gname with
    | some q => if q < 0 then (0, true, [.negativeQuota q gname]) else (q, true, [])
    | none =>
      match cfgLookup cfg.groupQuotaDynamic gname with
      | some q => (if q < 0 then 0 else if 1 < q then 1 else q, false, [])
      | none => (0, false, [.noQuota gname])
  (⟨gname, quota, static,
    (cfgLookup cfg.groupAcceptSurplus gname).getD cfg.defaultAcceptSurplus,
    (cfgLookup cfg.groupAutoregroup gname).getD cfg.defaultAutoregroup⟩, warnings)

def buildStep (cfg : GroupConfig F) (st : GroupNode F × List (GroupWarning F) × Bool)
    (gname : Text) : GroupNode F × List (GroupWarning F) × Bool :=
  let (new, warnings) := configuredGroup cfg gname
  match addGroup new (parseGroupName gname) st.1 with
  | .error w => (st.1, st.2.1 ++ [w], st.2.2)
  | .ok root => (root, st.2.1 ++ warnings, st.2.2 || new.autoregroup)

def buildGroupTree (parseExpr : Text → Bool) (cfg : GroupConfig F) :
    Option (GroupNode F × List (GroupWarning F)) :=
  let sortExpr := if cfg.groupSortExpr = [] then defaultGroupSortExpr else cfg.groupSortExpr
  if !parseExpr sortExpr then none
  else
    let (reserved, groups) := cfg.groupNames.partition fun g => equalFold g rootGroupName
    let groups := groups.insertionSort fun g h => toLower g ≤ toLower h
    let root : Group F := ⟨rootGroupName, 0, false, true, false⟩
    let (tree, warnings, autoregroup) :=
      groups.foldl (buildStep cfg) (.node root [], reserved.map .reserved, cfg.defaultAutoregroup)
    some (.node { tree.label with autoregroup } tree.children, warnings)

omit [Zero F] [One F] [LT F] [DecidableLT F]

def buildNameMap (root : GroupNode F) : GoMap Text (GroupNode F) :=
  root.breadthFirst.foldl (fun m n => m.insert (toLower n.label.name) n) ∅

def descend : List Text → GroupNode F → GroupNode F
  | [], group => group
  | comp :: comps, group =>
    match findChild group comp with
    | none => group
    | some child => descend comps child

def getAssignedGroup (root : GroupNode F) (nameMap : GoMap Text (GroupNode F))
    (customerName : Text) : GroupNode F :=
  match nameMap.lookup (toLower customerName) with
  | some n => n
  | none =>
    match cutLast '@' customerName with
    | none => root
    | some (front, _) =>
      match cutLast '.' front with
      | none => root
      | some (gname, _) => descend (parseGroupName gname) root

/-! ## Where the groups of a tree stand -/

def folded (s : Text) : Text := s.map foldChar

theorem equalFold_iff {s t : Text} : equalFold s t = true ↔ folded s = folded t := by
  rw [equalFold, decide_eq_true_iff, folded, folded]

def childKey (group : GroupNode F) : Text := folded (leafName group.label.name)

theorem eq_of_parseGroupName_eq {gname leaf : Text} (h : parseGroupName gname = [leaf]) :
    leaf = gname := by
  have hjoin : ['.'].intercalate (parseGroupName gname) = gname := intercalate_splitOn '.'
  rw [h] at hjoin
  simpa [intercalate] using hjoin

theorem folded_leafName {gname leaf : Text} {above : List Text}
    (h : (parseGroupName gname).map folded = above ++ [leaf]) : folded (leafName gname) = leaf := by
  have hleaf : leafName gname = (parseGroupName gname).getLastD [] := by
    rw [leafName]
    split_ifs with hroot
    · subst hroot
      rfl
    · rfl
  have hlast := congrArg getLast? h
  rw [getLast?_map, getLast?_concat, map_eq_some_iff] at hlast
  obtain ⟨last, hlast, rfl⟩ := hlast
  rw [hleaf, getLastD_eq_getLast?, hlast, getD_some]

/-- **A tree below a path**: names extend that of the parent, and no two are one. -/
inductive Placed : List Text → GroupNode F → Prop
  | node {path : List Text} {group : Group F} {cs : List (GroupNode F)}
      (hpath : ∀ c ∈ cs, (parseGroupName c.label.name).map folded = path ++ [childKey c])
      (hdistinct : (cs.map childKey).Nodup)
      (hbelow : ∀ c ∈ cs, Placed (path ++ [childKey c]) c) :
      Placed path (.node group cs)

variable {name : Text}

theorem findChild_eq_some {group c : GroupNode F} (hdistinct : (group.children.map childKey).Nodup)
    (hc : c ∈ group.children) (hname : childKey c = folded name) :
    findChild group name = some c := by
  obtain ⟨d, hd⟩ : ∃ d, findChild group name = some d := by
    rw [← isSome_iff_exists, findChild, find?_isSome]
    exact ⟨c, hc, equalFold_iff.mpr hname⟩
  have hfound := find?_some (show find? _ _ = _ from hd)
  have hkey : childKey d = folded name := equalFold_iff.mp hfound
  have heq : d = c := inj_on_of_nodup_map hdistinct (mem_of_find?_eq_some hd) hc
    (hkey.trans hname.symm)
  rw [hd, heq]

theorem findChild_eq_none {group : GroupNode F} :
    findChild group name = none ↔ ∀ c ∈ group.children, childKey c ≠ folded name := by
  rw [findChild, find?_eq_none]
  refine forall₂_congr fun c _ => ?_
  rw [equalFold_iff]
  rfl

theorem changeChild_eq_ok {ε : Type} {missing : ε} {change : GroupNode F → Except ε (GroupNode F)}
    {cs cs' : List (GroupNode F)} (h : changeChild missing name change cs = .ok cs') :
    ∃ l c c' r, cs = l ++ c :: r ∧ cs' = l ++ c' :: r ∧ childKey c = folded name ∧
      change c = .ok c' := by
  induction cs generalizing cs' with
  | nil => cases h
  | cons d cs ih =>
    rw [changeChild] at h
    split_ifs at h with hd
    · cases hchange : change d with
      | error e => rw [hchange] at h; cases h
      | ok d' =>
        rw [hchange] at h
        cases h
        exact ⟨[], d, d', cs, rfl, rfl, equalFold_iff.mp hd, hchange⟩
    · cases hrest : changeChild missing name change cs with
      | error e => rw [hrest] at h; cases h
      | ok ds =>
        rw [hrest] at h
        cases h
        obtain ⟨l, c, c', r, rfl, rfl, hkey, hchange⟩ := ih hrest
        exact ⟨d :: l, c, c', r, rfl, rfl, hkey, hchange⟩

variable {path : List Text}

theorem Placed.exchange {group : Group F} {l r : List (GroupNode F)} {c c' : GroupNode F}
    (h : Placed path (.node group (l ++ c :: r))) (hname : c'.label.name = c.label.name)
    (hc' : Placed (path ++ [childKey c]) c') : Placed path (.node group (l ++ c' :: r)) := by
  have hkey : childKey c' = childKey c := by rw [childKey, hname, childKey]
  cases h with
  | node hpath hdistinct hbelow =>
    have hmem : ∀ d ∈ l ++ c' :: r, d = c' ∨ d ∈ l ++ c :: r := by
      intro d hd
      simp only [mem_append, mem_cons] at hd ⊢
      tauto
    have hc : c ∈ l ++ c :: r := by simp
    refine .node (fun d hd => ?_) ?_ fun d hd => ?_
    · obtain rfl | hd := hmem d hd
      · rw [hname, hkey]
        exact hpath c hc
      · exact hpath d hd
    · simpa [hkey] using hdistinct
    · obtain rfl | hd := hmem d hd
      · rw [hkey]
        exact hc'
      · exact hbelow d hd

theorem Placed.append {group new : Group F} {cs : List (GroupNode F)} {leaf : Text}
    (h : Placed path (.node group cs))
    (hnew : (parseGroupName new.name).map folded = path ++ [folded leaf])
    (habsent : ∀ c ∈ cs, childKey c ≠ folded leaf) :
    Placed path (.node group (cs ++ [.node new []])) := by
  have hkey : childKey (.node new []) = folded leaf := folded_leafName hnew
  cases h with
  | node hpath hdistinct hbelow =>
    refine .node (fun c hc => ?_) ?_ fun c hc => ?_
    · obtain hc | hc := mem_append.mp hc
      · exact hpath c hc
      · rw [mem_singleton.mp hc, hkey]
        exact hnew
    · rw [map_append, nodup_append]
      refine ⟨hdistinct, nodup_singleton _, fun k hk k' hk' => ?_⟩
      obtain ⟨c, hc, rfl⟩ := mem_map.mp hk
      rw [mem_singleton.mp hk', hkey]
      exact habsent c hc
    · obtain hc | hc := mem_append.mp hc
      · exact hbelow c hc
      · rw [mem_singleton.mp hc]
        exact .node (by simp) nodup_nil (by simp)

theorem Placed.addGroup {new : Group F} {comps path : List Text} {t t' : GroupNode F}
    (h : Placed path t) (hadd : addGroup new comps t = .ok t')
    (hnew : (parseGroupName new.name).map folded = path ++ comps.map folded) :
    Placed path t' ∧ t'.label = t.label ∧
      ∀ c' ∈ t'.children, comps.map folded = [childKey c'] ∨
        ∃ c ∈ t.children, childKey c' = childKey c := by
  induction comps generalizing path t t' with
  | nil =>
    cases hadd
    exact ⟨h, rfl, fun c hc => .inr ⟨c, hc, rfl⟩⟩
  | cons comp comps ih =>
    obtain ⟨group, cs⟩ := t
    cases comps with
    | nil =>
      rw [Accountant.addGroup] at hadd
      split_ifs at hadd with hfound
      cases hadd
      have habsent := findChild_eq_none.mp (not_isSome_iff_eq_none.mp hfound)
      refine ⟨h.append hnew habsent, rfl, fun c hc => ?_⟩
      obtain hc | hc := mem_append.mp hc
      · exact .inr ⟨c, hc, rfl⟩
      · have hkey : childKey (.node new []) = folded comp := folded_leafName hnew
        rw [mem_singleton.mp hc, hkey]
        exact .inl rfl
    | cons comp' comps =>
      rw [Accountant.addGroup] at hadd
      · cases hchange : changeChild (.missingParent new.name comp) comp
          (Accountant.addGroup new (comp' :: comps)) cs with
        | error e => rw [RoseTree.children_node, hchange] at hadd; cases hadd
        | ok cs' =>
          rw [RoseTree.children_node, hchange] at hadd
          cases hadd
          obtain ⟨l, c, c', r, rfl, rfl, hkey, hc'⟩ := changeChild_eq_ok hchange
          have hc : Placed (path ++ [childKey c]) c := by
            cases h with
            | node hpath hdistinct hbelow => exact hbelow c (by simp)
          obtain ⟨hplaced, hlabel, -⟩ := ih hc hc' (by rw [hnew, hkey]; simp)
          refine ⟨h.exchange (by rw [hlabel]) hplaced, rfl, fun d hd => .inr ?_⟩
          simp only [RoseTree.children_node, mem_append, mem_cons] at hd ⊢
          obtain hd | rfl | hd := hd
          · exact ⟨d, .inl hd, rfl⟩
          · exact ⟨c, .inr (.inl rfl), by rw [childKey, hlabel, childKey]⟩
          · exact ⟨d, .inr (.inr hd), rfl⟩
      · simp

theorem Placed.descend {t n : GroupNode F} (h : Placed path t) (hn : RoseTree.Has t n) :
    n = t ∨ ∃ below, (parseGroupName n.label.name).map folded = path ++ below ∧
      ∀ comps, comps.map folded = below → descend comps t = n := by
  -- on the place of the group: the path of its ancestor below `t` begins with that child's leaf
  induction hn generalizing path with
  | refl t => exact .inl rfl
  | @child t c n hc hn ih =>
    obtain ⟨group, cs⟩ := t
    cases h with
    | node hpath hdistinct hbelow =>
      have hstep : ∀ comps below, comps.map folded = childKey c :: below →
          ∃ comp rest, comps = comp :: rest ∧ rest.map folded = below ∧
            Accountant.descend comps (.node group cs) = Accountant.descend rest c := by
        intro comps below hcomps
        obtain ⟨comp, rest, rfl, hcomp, hrest⟩ := map_eq_cons_iff.mp hcomps
        refine ⟨comp, rest, rfl, hrest, ?_⟩
        rw [Accountant.descend, findChild_eq_some hdistinct hc hcomp.symm]
      refine .inr ?_
      obtain rfl | ⟨below, hname, hwalk⟩ := ih (hbelow c hc)
      · refine ⟨[childKey n], hpath n hc, fun comps hcomps => ?_⟩
        obtain ⟨comp, rest, rfl, hrest, heq⟩ := hstep comps [] hcomps
        rw [heq, map_eq_nil_iff.mp hrest, Accountant.descend]
      · refine ⟨childKey c :: below, by simpa using hname, fun comps hcomps => ?_⟩
        obtain ⟨comp, rest, rfl, hrest, heq⟩ := hstep comps below hcomps
        rw [heq, hwalk rest hrest]

theorem has_descend (comps : List Text) (t : GroupNode F) : RoseTree.Has t (descend comps t) := by
  induction comps generalizing t with
  | nil => exact .refl t
  | cons comp comps ih =>
    rw [descend]
    cases hfound : findChild t comp with
    | none => exact .refl t
    | some c => exact .child (mem_of_find?_eq_some hfound) (ih c)

/-- **A tree of groups** below a root of its own name. -/
structure Rooted (root : GroupNode F) : Prop where
  placed : Placed [] root
  name : root.label.name = rootGroupName
  unreserved : ∀ c ∈ root.children, childKey c ≠ folded rootGroupName

variable {root : GroupNode F}

theorem Rooted.relabel (h : Rooted root) {label : Group F} (hname : label.name = root.label.name) :
    Rooted (.node label root.children) := by
  obtain ⟨group, cs⟩ := root
  refine ⟨?_, hname.trans h.name, h.unreserved⟩
  cases h.placed with
  | node hpath hdistinct hbelow => exact .node hpath hdistinct hbelow

section

variable [Zero F] [One F] [LT F] [DecidableLT F]

theorem Rooted.buildStep {cfg : GroupConfig F} {gname : Text}
    {st : GroupNode F × List (GroupWarning F) × Bool} (h : Rooted st.1)
    (hgname : equalFold gname rootGroupName = false) :
    Rooted (buildStep cfg st gname).1 := by
  have hname : (configuredGroup cfg gname).1.name = gname := rfl
  rw [Accountant.buildStep]
  dsimp only
  cases hadd : addGroup (configuredGroup cfg gname).1 (parseGroupName gname) st.1 with
  | error w => exact h
  | ok root =>
    obtain ⟨hplaced, hlabel, hchildren⟩ := h.placed.addGroup hadd (by rw [hname]; rfl)
    refine ⟨hplaced, (congrArg Group.name hlabel).trans h.name, fun c hc hkey => ?_⟩
    obtain hpath | ⟨d, hd, hcd⟩ := hchildren c hc
    · -- a path of one component is the name itself
      obtain ⟨leaf, hpath, hleaf⟩ := map_eq_singleton_iff.mp hpath
      rw [eq_of_parseGroupName_eq hpath, hkey] at hleaf
      rw [equalFold_iff.mpr hleaf] at hgname
      cases hgname
    · exact h.unreserved d hd (hcd ▸ hkey)

theorem rooted_buildGroupTree {parseExpr : Text → Bool} {cfg : GroupConfig F}
    {warnings : List (GroupWarning F)} (h : buildGroupTree parseExpr cfg = some (root, warnings)) :
    Rooted root := by
  rw [buildGroupTree] at h
  generalize (if cfg.groupSortExpr = [] then _ else cfg.groupSortExpr) = expr at h
  dsimp only at h
  split_ifs at h with hparse
  cases h
  refine Rooted.relabel ?_ rfl
  refine foldlRecOn
    (motive := fun st : GroupNode F × List (GroupWarning F) × Bool => Rooted st.1) _ _ ?_
    fun st hst gname hgname => ?_
  · exact ⟨.node (by simp) nodup_nil (by simp), rfl, by simp⟩
  · refine hst.buildStep ?_
    rw [mem_insertionSort, partition_eq_filter_filter, mem_filter] at hgname
    simpa using hgname.2

end

theorem Rooted.descend_name {root n : GroupNode F} (h : Rooted root) (hn : RoseTree.Has root n) :
    descend (parseGroupName n.label.name) root = n := by
  obtain rfl | ⟨below, hname, hwalk⟩ := h.placed.descend hn
  · -- no child of the root has the root's name
    have hparse : parseGroupName rootGroupName = [rootGroupName] := by decide
    rw [h.name, hparse, descend, findChild_eq_none.mpr h.unreserved]
  · exact hwalk _ hname

theorem Rooted.eq_of_name {root m n : GroupNode F} (h : Rooted root) (hm : RoseTree.Has root m)
    (hn : RoseTree.Has root n) (hname : m.label.name = n.label.name) : m = n := by
  rw [← h.descend_name hm, ← h.descend_name hn, hname]

theorem lookup_buildNameMap (root : GroupNode F) (k : Text) :
    (∀ n ∈ (buildNameMap root).lookup k, n ∈ root.breadthFirst ∧ toLower n.label.name = k) ∧
      ((buildNameMap root).lookup k = none ↔
        ∀ n ∈ root.breadthFirst, toLower n.label.name ≠ k) := by
  rw [buildNameMap]
  generalize root.breadthFirst = ns
  induction ns using reverseRecOn with
  | nil => simp
  | append_singleton ns n ih =>
    rw [foldl_append, foldl_cons, foldl_nil]
    by_cases hk : toLower n.label.name = k
    · subst hk
      simp
    · rw [AList.lookup_insert_ne (Ne.symm hk)]
      refine ⟨fun m hm => ?_, ?_⟩
      · obtain ⟨hmem, hname⟩ := ih.1 m hm
        exact ⟨mem_append_left _ hmem, hname⟩
      · rw [ih.2]
        simp only [forall_mem_append, forall_mem_singleton, ne_eq, hk,
          not_false_eq_true, and_true]

/-! ## The group that is charged -/

def SpelledAsGroup (root : GroupNode F) (name : Text) : Prop :=
  (∀ n ∈ root.breadthFirst, toLower n.label.name ≠ toLower name) ∧
    ∃ front domain, name = front ++ '@' :: domain ∧ '@' ∉ domain ∧
      ('.' ∉ front ∨
        ∃ n ∈ root.breadthFirst, ∃ user, front = n.label.name ++ '.' :: user ∧ '.' ∉ user)

theorem spelledAsGroup_iff {name front domain : Text}
    (hcut : cutLast '@' name = some (front, domain)) :
    SpelledAsGroup root name ↔ (∀ n ∈ root.breadthFirst, toLower n.label.name ≠ toLower name) ∧
      ('.' ∉ front ∨
        ∃ n ∈ root.breadthFirst, ∃ user, front = n.label.name ++ '.' :: user ∧ '.' ∉ user) := by
  rw [SpelledAsGroup]
  refine and_congr_right fun _ => ⟨?_, fun h => ?_⟩
  · rintro ⟨front', domain', hname, hdomain, h⟩
    cases hcut.symm.trans (cutLast_eq_some_iff.mpr ⟨hname, hdomain⟩)
    exact h
  · obtain ⟨hname, hdomain⟩ := cutLast_eq_some_iff.mp hcut
    exact ⟨front, domain, hname, hdomain, h⟩

theorem toLower_assignedGroupName_ne (hat : '@' ∈ name) :
    toLower (assignedGroupName name) ≠ toLower name := by
  have hroot : toLower rootGroupName ≠ toLower name := by
    intro h
    have hmem : '@' ∈ toLower rootGroupName := by
      rw [h]
      exact mem_map.mpr ⟨'@', hat, by decide⟩
    revert hmem
    decide
  rw [assignedGroupName]
  cases hcut : cutLast '@' name with
  | none => exact hroot
  | some p =>
    obtain ⟨front, domain⟩ := p
    dsimp only
    cases hdot : cutLast '.' front with
    | none => exact hroot
    | some q =>
      -- what stands before a dot and an `@` is shorter than the name
      obtain ⟨group, user⟩ := q
      obtain ⟨rfl, -⟩ := cutLast_eq_some_iff.mp hcut
      obtain ⟨rfl, -⟩ := cutLast_eq_some_iff.mp hdot
      intro h
      have hlen := congrArg length h
      simp only [toLower, length_map, length_append, length_cons] at hlen
      omega

theorem Rooted.assigned_iff (h : Rooted root) (hat : '@' ∈ name) :
    assignedGroupName name = (getAssignedGroup root (buildNameMap root) name).label.name ↔
      SpelledAsGroup root name := by
  obtain ⟨hfound, hnone⟩ := lookup_buildNameMap root (toLower name)
  cases hlookup : (buildNameMap root).lookup (toLower name) with
  | some n =>
    -- a submitter with a group's name goes to that group, and is charged to another
    obtain ⟨hmem, hname⟩ := hfound n hlookup
    rw [getAssignedGroup, hlookup]
    refine iff_of_false (fun heq => ?_) fun hspelled => hspelled.1 n hmem hname
    exact toLower_assignedGroupName_ne hat (by rw [heq, hname])
  | none =>
    have hunseeded := hnone.mp hlookup
    obtain ⟨⟨front, domain⟩, hcut⟩ := isSome_iff_exists.mp (cutLast_isSome_iff.mpr hat)
    rw [getAssignedGroup, hlookup, assignedGroupName, hcut, spelledAsGroup_iff hcut]
    dsimp only
    cases hdot : cutLast '.' front with
    | none =>
      have hfront : '.' ∉ front := by
        rw [← cutLast_isSome_iff, hdot]
        simp
      exact iff_of_true h.name.symm ⟨hunseeded, .inl hfront⟩
    | some p =>
      obtain ⟨group, user⟩ := p
      obtain ⟨hfront, huser⟩ := cutLast_eq_some_iff.mp hdot
      constructor
      · intro hgroup
        refine ⟨hunseeded, .inr ⟨_, RoseTree.mem_breadthFirst.mpr
          (has_descend (parseGroupName group) root), user, ?_, huser⟩⟩
        rw [← hgroup]
        exact hfront
      · rintro ⟨-, hnodot | ⟨n, hn, user', hfront', huser'⟩⟩
        · exact absurd (by rw [hfront]; simp) hnodot
        · have heq := hdot.symm.trans (cutLast_eq_some_iff.mpr ⟨hfront', huser'⟩)
          cases heq
          exact congrArg (fun t => t.label.name)
            (h.descend_name (RoseTree.mem_breadthFirst.mp hn)).symm

theorem Rooted.bookings_of_spelled {root g : GroupNode F} (h : Rooted root)
    (hname : SpelledAsGroup root name) (hg : g ∈ root.breadthFirst) :
    bookings name g.label.name =
      if (getAssignedGroup root (buildNameMap root) name).label.name = g.label.name then 1
      else 0 := by
  have hat : '@' ∈ name := by
    obtain ⟨-, front, domain, rfl, -⟩ := hname
    simp
  have hne : g.label.name ≠ name := fun heq => hname.1 g hg (congrArg toLower heq)
  rw [bookings, if_neg hne, zero_add, ← (h.assigned_iff hat).mpr hname]
  simp only [eq_comm]

end

section

variable {K : Type} [Field K] [LinearOrder K] (lib : Library K)

/-- **The group that is charged is the group that is assigned exactly for the names that are spelled
as their group**; over such names, group usage is that of the assigned submitters. -/
theorem group_attribution_iff {parseExpr : Text → Bool} {cfg : GroupConfig K} {root : GroupNode K}
    {warnings : List (GroupWarning K)}
    (h : buildGroupTree parseExpr cfg = some (root, warnings)) :
    (∀ name, '@' ∈ name →
      (assignedGroupName name = (getAssignedGroup root (buildNameMap root) name).label.name ↔
        SpelledAsGroup root name)) ∧
    ∀ (a : Accountant K) (cy : CycleCalls),
      (∀ cl ∈ claims lib a cy.slots, SpelledAsGroup root cl.customer) →
      (∀ m ∈ cy.added, SpelledAsGroup root m.submitter) →
      ∀ g ∈ root.breadthFirst,
        (runCycle lib a cy).store.floatOf g.label.name .weightedResourcesUsed =
          (((claims lib a cy.slots).filter fun cl => (getAssignedGroup root (buildNameMap root)
            cl.customer).label.name = g.label.name).map Claim.weight).sum +
          ((cy.added.filter fun m => (getAssignedGroup root (buildNameMap root)
            m.submitter).label.name = g.label.name).map (chargedWeight lib a)).sum := by
  have hrooted := rooted_buildGroupTree h
  refine ⟨fun name hat => hrooted.assigned_iff hat, fun a cy hclaims hadded g hg => ?_⟩
  rw [weightedUsed_runCycle, Budget.sum_map_filter, Budget.sum_map_filter]
  congr 2
  · refine map_congr_left fun cl hcl => ?_
    rw [hrooted.bookings_of_spelled (hclaims cl hcl) hg]
    split_ifs <;> simp
  · refine map_congr_left fun m hm => ?_
    rw [hrooted.bookings_of_spelled (hadded m hm) hg]
    split_ifs <;> simp

end

def oneGroup : GroupConfig ℚ where
  groupNames := ["g"]
  groupQuota := ∅
  groupQuotaDynamic := ∅
  groupAcceptSurplus := ∅
  groupAutoregroup := ∅
  defaultAcceptSurplus := false
  defaultAutoregroup := false
  groupSortExpr := []

def oneGroupTree : GroupNode ℚ :=
  .node ⟨rootGroupName, 0, false, true, false⟩ [.node ⟨"g", 0, false, false, false⟩ []]

theorem group_attribution_one_group :
    buildGroupTree (fun _ => true) oneGroup = some (oneGroupTree, [.noQuota "g".toList]) ∧
      SpelledAsGroup oneGroupTree "g.u@d".toList ∧
      assignedGroupName "g.u@d".toList =
        (getAssignedGroup oneGroupTree (buildNameMap oneGroupTree) "g.u@d".toList).label.name ∧
      (runCycle literalLibrary fresh ⟨1, [claimedSlot "slot1" "g.u@d"], []⟩).store.floatOf
        "g".toList .weightedResourcesUsed = 2 := by
  have htree : buildGroupTree (fun _ => true) oneGroup =
      some (oneGroupTree, [.noQuota "g".toList]) := rfl
  have hg : .node ⟨"g".toList, 0, false, false, false⟩ [] ∈ oneGroupTree.breadthFirst :=
    RoseTree.mem_breadthFirst.mpr (.child (mem_singleton_self _) (.refl _))
  have hspelled : SpelledAsGroup oneGroupTree "g.u@d".toList :=
    ⟨by decide, "g.u".toList, "d".toList, by decide, by decide, .inr ⟨_, hg, "u".toList,
      by decide, by decide⟩⟩
  have hcustomers : (claims literalLibrary fresh [claimedSlot "slot1" "g.u@d"]).map
      Claim.customer = ["g.u@d".toList] := by decide +kernel
  obtain ⟨hagree, husage⟩ := group_attribution_iff literalLibrary htree
  refine ⟨htree, hspelled, (hagree _ (by decide)).mpr hspelled, ?_⟩
  refine (husage fresh ⟨1, [claimedSlot "slot1" "g.u@d"], []⟩ (fun cl hcl => ?_) (by simp) _
    hg).trans (by decide +kernel)
  have hcustomer := mem_map_of_mem (f := Claim.customer) hcl
  rw [hcustomers, mem_singleton] at hcustomer
  rw [hcustomer]
  exact hspelled

theorem group_attribution_upper_case :
    buildGroupTree (fun _ => true) oneGroup = some (oneGroupTree, [.noQuota "g"]) ∧
      (getAssignedGroup oneGroupTree (buildNameMap oneGroupTree) "G.u@d").label.name =
        "g" ∧
      assignedGroupName "G.u@d" = "G" ∧
      (runCycle literalLibrary fresh ⟨1, [claimedSlot "slot1" "G.u@d"], []⟩).store.floatOf
        "g" .weightedResourcesUsed = 0 := by
  refine ⟨rfl, ?_, ?_, ?_⟩
  · decide +kernel
  · decide +kernel
  · decide +kernel

end GolangCollector.Accountant
