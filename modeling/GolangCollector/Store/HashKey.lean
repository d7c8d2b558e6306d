import GolangCollector.ClassAd.Ad
import GolangCollector.Store.AdType

/-! # The identity key of an ad

`keyFields` (`store/hashkey.go`) builds the key an ad is stored under from up to three fields: a
name (with `Machine` as fallback), a qualifier glued to it (`SlotID` for startd ads, `ScheddName`
for schedd and submitter ads) and an address. The same fields as a tuple are the `Identity` of the
ad, and its key is that tuple flattened. -/

namespace GolangCollector

open GoStrings List Option

/-! ## The key -/

def firstOf (get : Text → Option Text) : List Text → Text
  | [] => []
  | a :: as =>
    match get a with
    | some v => if v ≠ [] then v else firstOf get as
    | none => firstOf get as

def keyName (get : Text → Option Text) : Option Text :=
  match get attrName with
  | some (c :: cs) => some (c :: cs)
  | _ =>
    -- an empty `Name` falls back too
    match get attrMachine with
    | some (c :: cs) => some (c :: cs)
    | _ => none

def keyFields (t : AdType) (get : Text → Option Text) : Option Text :=
  match keyName get with
  | none => none
  | some name =>
    match t with
    | .startdAd | .startdPvtAd =>
      let name :=
        match get attrSlotID with
        | some (c :: cs) => name ++ ':' :: c :: cs
        | _ => name
      some (name ++ '\x00' :: firstOf get [attrMyAddress, attrStartdIPAddr])
    | .scheddAd | .submitterAd =>
      let name :=
        match get attrScheddName with
        | some (c :: cs) => name ++ c :: cs
        | _ => name
      some (name ++ '\x00' :: firstOf get [attrMyAddress, attrScheddIPAddr])
    | .masterAd => some (name ++ '\x00' :: [])
    | _ => some (name ++ '\x00' :: (get attrMyAddress).getD [])

def ClassAd.keyAttr (ev : Evaluator) (ad : ClassAd) (attr : Text) : Option Text :=
  if attr = attrSlotID then (ad.evaluateAttrInt ev attr).map formatInt
  else ad.evaluateAttrString ev attr

def hashKey (ev : Evaluator) (t : AdType) (ad : ClassAd) : Option Text :=
  keyFields t (ad.keyAttr ev)

/-! ## The identity tuple -/

/-- The fields an ad is identified by. -/
structure Identity where
  /-- The resolved `Name` or `Machine`. -/
  name : Text
  /-- `SlotID` (startd tables) or `ScheddName` (schedd and submitter tables). -/
  qualifier : Text
  /-- The resolved address; a master has none. -/
  address : Text
  deriving DecidableEq, Repr

namespace Identity

def NulFree (i : Identity) : Prop :=
  '\x00' ∉ i.name ∧ '\x00' ∉ i.qualifier ∧ '\x00' ∉ i.address

instance (i : Identity) : Decidable i.NulFree := inferInstanceAs (Decidable (_ ∧ _ ∧ _))

def suffix (t : AdType) (qualifier : Text) : Text :=
  match t with
  | .startdAd | .startdPvtAd => if qualifier = [] then [] else ':' :: qualifier
  | .scheddAd | .submitterAd => qualifier
  | _ => []

theorem suffix_startdAd_injective : Function.Injective (suffix .startdAd) := by
  intro q q' h
  cases q <;> cases q' <;> simp_all [suffix]

def flatten (t : AdType) (i : Identity) : Text :=
  i.name ++ suffix t i.qualifier ++ '\x00' :: i.address

def resolve (t : AdType) (get : Text → Option Text) : Option Identity :=
  (keyName get).map fun name =>
    match t with
    | .startdAd | .startdPvtAd =>
      ⟨name, (get attrSlotID).getD [], firstOf get [attrMyAddress, attrStartdIPAddr]⟩
    | .scheddAd | .submitterAd =>
      ⟨name, (get attrScheddName).getD [], firstOf get [attrMyAddress, attrScheddIPAddr]⟩
    | .masterAd => ⟨name, [], []⟩
    | _ => ⟨name, [], (get attrMyAddress).getD []⟩

end Identity

theorem keyFields_eq_map_flatten (t : AdType) (get : Text → Option Text) :
    keyFields t get = (Identity.resolve t get).map (Identity.flatten t) := by
  rw [keyFields, Identity.resolve]
  cases keyName get with
  | none => rfl
  | some name =>
    -- an absent and an empty qualifier both leave the bare name
    have hslot : (match get attrSlotID with
        | some (c :: cs) => name ++ ':' :: c :: cs
        | _ => name) = name ++ Identity.suffix .startdAd ((get attrSlotID).getD []) := by
      rcases get attrSlotID with _ | _ | ⟨c, cs⟩ <;> simp [Identity.suffix]
    have hschedd : (match get attrScheddName with
        | some (c :: cs) => name ++ c :: cs
        | _ => name) = name ++ Identity.suffix .scheddAd ((get attrScheddName).getD []) := by
      rcases get attrScheddName with _ | _ | ⟨c, cs⟩ <;> simp [Identity.suffix]
    cases t <;> simp_all [Identity.flatten, Identity.suffix]

/-! ## When two identities share a key

A NUL-free name and address can be read back from a key, so only the seam between name and
qualifier is ambiguous: a startd's `":"` can also stand in the name, and a schedd's qualifier
follows the name with no separator at all. -/

namespace Identity

def StartdConfusable (i j : Identity) : Prop :=
  i.qualifier = [] ∧ j.qualifier ≠ [] ∧ i.name = j.name ++ ':' :: j.qualifier

def ScheddConfusable (i j : Identity) : Prop :=
  i.name ≠ j.name ∧ j.name <+: i.name ∧ j.qualifier = i.name.drop j.name.length ++ i.qualifier

def Confusable (t : AdType) (i j : Identity) : Prop :=
  i.address = j.address ∧
    match t with
    | .startdAd | .startdPvtAd => StartdConfusable i j ∨ StartdConfusable j i
    | .scheddAd | .submitterAd => ScheddConfusable i j ∨ ScheddConfusable j i
    | _ => False

def Admissible (t : AdType) (i : Identity) : Prop :=
  match t with
  | .startdAd | .startdPvtAd => ':' ∉ i.qualifier
  | .scheddAd | .submitterAd => True
  | .masterAd => i.qualifier = [] ∧ i.address = []
  | _ => i.qualifier = []

theorem append_cons_inj_of_notMem {c : Char} {a b x y : Text} (hx : c ∉ x) (hy : c ∉ y)
    (h : a ++ c :: x = b ++ c :: y) : a = b ∧ x = y := by
  -- one text reaches `w` further than the other, and `w` would put a `c` into the shorter end
  rcases append_eq_append_iff.mp h with ⟨w, rfl, hw⟩ | ⟨w, rfl, hw⟩
  · cases w with
    | nil => simpa using hw
    | cons d ds =>
      have hmem : c ∈ x := by
        have := (cons.inj hw).2
        exact this ▸ mem_append_right ds (mem_cons_self)
      exact absurd hmem hx
  · cases w with
    | nil => simpa using hw.symm
    | cons d ds =>
      have hmem : c ∈ y := by
        have := (cons.inj hw).2
        exact this ▸ mem_append_right ds (mem_cons_self)
      exact absurd hmem hy

variable {i j : Identity} {t : AdType}

theorem flatten_eq_iff (hi : i.NulFree) (hj : j.NulFree) :
    i.flatten t = j.flatten t ↔
      i.name ++ suffix t i.qualifier = j.name ++ suffix t j.qualifier ∧ i.address = j.address := by
  constructor
  · intro h
    exact append_cons_inj_of_notMem hi.2.2 hj.2.2 h
  · rintro ⟨hname, haddr⟩
    rw [flatten, flatten, hname, haddr]

theorem startd_suffixed_eq_iff (hi : ':' ∉ i.qualifier) (hj : ':' ∉ j.qualifier) :
    i.name ++ suffix .startdAd i.qualifier = j.name ++ suffix .startdAd j.qualifier ↔
      (i.name = j.name ∧ i.qualifier = j.qualifier) ∨
        StartdConfusable i j ∨ StartdConfusable j i := by
  by_cases hqi : i.qualifier = [] <;> by_cases hqj : j.qualifier = []
  · simp [suffix, StartdConfusable, hqi, hqj]
  · have hne : ¬ ([] = j.qualifier) := fun h => hqj h.symm
    simp [suffix, StartdConfusable, hqi, hqj, hne]
  · simp [suffix, StartdConfusable, hqi, hqj, eq_comm]
  · -- two slots: the last colon is the separator on both sides
    simp only [suffix, StartdConfusable, hqi, hqj, if_false, false_and, or_false]
    constructor
    · exact append_cons_inj_of_notMem hi hj
    · rintro ⟨hname, hqual⟩
      rw [hname, hqual]

theorem scheddConfusable_of_append {w : Text} (hw : w ≠ []) (hname : i.name = j.name ++ w)
    (hqual : j.qualifier = w ++ i.qualifier) : ScheddConfusable i j := by
  refine ⟨?_, hname ▸ prefix_append _ _, ?_⟩
  · rw [hname]
    simpa using hw
  · rw [hname, drop_left, hqual]

theorem schedd_suffixed_eq_iff :
    i.name ++ suffix .scheddAd i.qualifier = j.name ++ suffix .scheddAd j.qualifier ↔
      (i.name = j.name ∧ i.qualifier = j.qualifier) ∨
        ScheddConfusable i j ∨ ScheddConfusable j i := by
  simp only [suffix]
  constructor
  · -- one name is the other with `w` after it, and `w` opens the other's qualifier
    intro h
    rcases append_eq_append_iff.mp h with ⟨w, hname, hqual⟩ | ⟨w, hname, hqual⟩
    · by_cases hw : w = []
      · exact Or.inl ⟨by simp [hname, hw], by simp [hqual, hw]⟩
      · exact Or.inr (Or.inr (scheddConfusable_of_append hw hname hqual))
    · by_cases hw : w = []
      · exact Or.inl ⟨by simp [hname, hw], by simp [hqual, hw]⟩
      · exact Or.inr (Or.inl (scheddConfusable_of_append hw hname hqual))
  · rintro (⟨hname, hqual⟩ | ⟨_, ⟨w, hw⟩, hqual⟩ | ⟨_, ⟨w, hw⟩, hqual⟩)
    · rw [hname, hqual]
    · rw [hqual, ← hw, drop_left, append_assoc]
    · rw [hqual, ← hw, drop_left, append_assoc]

theorem Confusable.ne (h : Confusable t i j) : i ≠ j := by
  rintro rfl
  rcases t <;> simp [Confusable, StartdConfusable, ScheddConfusable] at h

theorem flatten_eq_iff_confusable (hi : i.NulFree) (hj : j.NulFree) (ai : i.Admissible t)
    (aj : j.Admissible t) : i.flatten t = j.flatten t ↔ i = j ∨ Confusable t i j := by
  have hext : i = j ↔ (i.name = j.name ∧ i.qualifier = j.qualifier) ∧ i.address = j.address := by
    rcases i with ⟨_, _, _⟩
    rcases j with ⟨_, _, _⟩
    simp [and_assoc]
  rw [flatten_eq_iff hi hj, hext]
  cases t
  case startdAd | startdPvtAd =>
    have hseam := startd_suffixed_eq_iff ai aj
    simp only [suffix] at hseam ⊢
    rw [hseam]
    exact or_and_right.trans (or_congr Iff.rfl and_comm)
  case scheddAd | submitterAd =>
    have hseam := schedd_suffixed_eq_iff (i := i) (j := j)
    simp only [suffix] at hseam ⊢
    rw [hseam]
    exact or_and_right.trans (or_congr Iff.rfl and_comm)
  -- without a qualifier the suffixed name is the name
  all_goals simp_all [suffix, Confusable, Admissible]

end Identity

/-! ## Keys of ads -/

def ClassAd.identity (ev : Evaluator) (t : AdType) (ad : ClassAd) : Option Identity :=
  Identity.resolve t (ad.keyAttr ev)

theorem hashKey_eq_map_flatten (ev : Evaluator) (t : AdType) (ad : ClassAd) :
    hashKey ev t ad = (ad.identity ev t).map (Identity.flatten t) :=
  keyFields_eq_map_flatten t _

theorem colon_notMem_keyAttr_slotID (ev : Evaluator) (ad : ClassAd) :
    ':' ∉ (ad.keyAttr ev attrSlotID).getD [] := by
  rw [ClassAd.keyAttr, if_pos rfl]
  cases ad.evaluateAttrInt ev attrSlotID with
  | none => simp
  | some v =>
    intro h
    rcases mem_formatInt h with hd | hd
    · exact absurd hd (by decide)
    · exact absurd hd (by decide)

theorem ClassAd.identity_admissible {ev : Evaluator} {ad : ClassAd} {i : Identity}
    (h : ad.identity ev t = some i) : i.Admissible t := by
  have hslot := colon_notMem_keyAttr_slotID ev ad
  rw [ClassAd.identity, Identity.resolve] at h
  obtain ⟨name, -, rfl⟩ := map_eq_some_iff.mp h
  cases t <;> simp_all [Identity.Admissible]

/-- **Key separation**: different identities get different keys iff they are not confusable. -/
theorem hashKey_separates_iff (ev : Evaluator) (t : AdType) (a b : ClassAd) (i j : Identity)
    (hi : a.identity ev t = some i) (hj : b.identity ev t = some j)
    (ni : i.NulFree) (nj : j.NulFree) :
    (i ≠ j → hashKey ev t a ≠ hashKey ev t b) ↔ ¬ Identity.Confusable t i j := by
  have hkeys : hashKey ev t a = hashKey ev t b ↔ i = j ∨ Identity.Confusable t i j := by
    rw [hashKey_eq_map_flatten, hashKey_eq_map_flatten, hi, hj, map_some, map_some,
      some.injEq]
    exact Identity.flatten_eq_iff_confusable ni nj (ClassAd.identity_admissible hi)
      (ClassAd.identity_admissible hj)
  rw [ne_eq (hashKey ev t a), hkeys]
  constructor
  · intro h hc
    exact h hc.ne (Or.inr hc)
  · intro hc hne h
    exact h.elim hne hc

def submitterOnSchedd (name scheddName : String) : ClassAd :=
  ⟨[(attrName, .lit (.str name.toList)), (attrScheddName, .lit (.str scheddName.toList)),
    (attrMyAddress, .lit (.str "<10.0.0.1:9618>"))]⟩

theorem hashKey_separates_unrelated_schedds :
    hashKey literalEvaluator .submitterAd (submitterOnSchedd "alice@pool" "s1") ≠
      hashKey literalEvaluator .submitterAd (submitterOnSchedd "alice@pool" "s2") :=
  (hashKey_separates_iff literalEvaluator .submitterAd (submitterOnSchedd "alice@pool" "s1")
    (submitterOnSchedd "alice@pool" "s2")
    ⟨"alice@pool", "s1", "<10.0.0.1:9618>"⟩
    ⟨"alice@pool", "s2", "<10.0.0.1:9618>"⟩
    (by decide) (by decide) (by decide) (by decide)).mpr
    (by simp [Identity.Confusable, Identity.ScheddConfusable]) (by decide)

theorem hashKey_submitters_collide :
    (submitterOnSchedd "alice@pool" "east").identity literalEvaluator .submitterAd =
        some ⟨"alice@pool", "east", "<10.0.0.1:9618>"⟩ ∧
      (submitterOnSchedd "alice@poole" "ast").identity literalEvaluator .submitterAd =
        some ⟨"alice@poole", "ast", "<10.0.0.1:9618>"⟩ ∧
      Identity.NulFree ⟨"alice@pool", "east", "<10.0.0.1:9618>"⟩ ∧
      Identity.NulFree ⟨"alice@poole", "ast", "<10.0.0.1:9618>"⟩ ∧
      hashKey literalEvaluator .submitterAd (submitterOnSchedd "alice@pool" "east") =
        hashKey literalEvaluator .submitterAd (submitterOnSchedd "alice@poole" "ast") := by
  decide

end GolangCollector
