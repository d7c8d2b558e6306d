import GolangCollector.Store.Memory

/-! # Expiry of the in-memory store

`Expire` finds the stale ads by a scan but deletes them by key, and recomputes each key from the
stored ad: it reaps exactly the ads past their lifetime as long as every ad is stored under its own
key (`Store.Keyed`). A write keys its ad like `HashKey` does when the texts it is given spell the
attributes of the key plainly and alike (`StoreOp.PlainlyKeyed`). `UpdatePvt` keys the private ad by
its public ad, but copies only the name and the address over. -/

namespace GolangCollector

open GoStrings GoInt List Option

/-! ## Past the lifetime -/

def PastLifetime (lib : Library) (now defaultLifetime : Int) (ad : ClassAd) : Prop :=
  ∃ lastHeard, ad.evaluateAttrInt lib.eval attrLastHeardFrom = some lastHeard ∧
    (ad.evaluateAttrInt lib.eval attrClassAdLifetime).getD defaultLifetime < now - lastHeard

/-- **Expiry is complete and precise.** -/
structure ExpiresExactly (lib : Library) (now : Int) (s : Store) : Prop where
  /-- No ad past its lifetime is left. -/
  complete : ∀ t ∈ AdType.storageTypes, ∀ k ad,
    ((s.expire lib now).1.cols t).lookup k = some ad →
      ¬ PastLifetime lib now s.defaultLifetime ad
  /-- Every ad within its lifetime is kept. -/
  precise : ∀ t ∈ AdType.storageTypes, ∀ k ad, (s.cols t).lookup k = some ad →
    ¬ PastLifetime lib now s.defaultLifetime ad →
      ((s.expire lib now).1.cols t).lookup k = some ad

namespace Store

def ClockInRange (lib : Library) (now : Int) (s : Store) : Prop :=
  ∀ t k ad lastHeard, (s.cols t).lookup k = some ad →
    ad.evaluateAttrInt lib.eval attrLastHeardFrom = some lastHeard → IsInt64 (now - lastHeard)

def Keyed (lib : Library) (s : Store) : Prop :=
  ∀ t k ad, (s.cols t).lookup k = some ad → hashKey lib.eval t ad = some k

variable {lib : Library} {now : Int} {s : Store} {ad : ClassAd}

theorem stale_iff {d : Int} (h : ∀ lastHeard,
    ad.evaluateAttrInt lib.eval attrLastHeardFrom = some lastHeard → IsInt64 (now - lastHeard)) :
    stale lib now d ad ↔ PastLifetime lib now d ad := by
  rw [stale, PastLifetime]
  cases hheard : ad.evaluateAttrInt lib.eval attrLastHeardFrom with
  | none => simp
  | some lastHeard => simp [wrap_of_isInt64 (h lastHeard hheard)]

variable {t : AdType}

theorem Keyed.mem_keysWhere_iff (h : s.Keyed lib) {p : ClassAd → Bool} {k : Text} :
    k ∈ (s.cols t).keysWhere lib t p ↔ ∃ ad, (s.cols t).lookup k = some ad ∧ p ad := by
  rw [Table.mem_keysWhere_iff]
  constructor
  · rintro ⟨k', ad, hk', hp, hkey⟩
    obtain rfl : k' = k := some.inj ((h t k' ad hk').symm.trans hkey)
    exact ⟨ad, hk', hp⟩
  · rintro ⟨ad, hk, hp⟩
    exact ⟨k, ad, hk, hp, h t k ad hk⟩

theorem Keyed.expiresExactly (h : s.Keyed lib) (hclock : s.ClockInRange lib now) :
    ExpiresExactly lib now s where
  complete := by
    intro t ht k ad hleft hpast
    rw [lookup_expire ht] at hleft
    split at hleft
    · cases hleft
    · -- the ad is stale and stored under its own key, so that key was deleted
      rename_i hnot
      refine hnot (h.mem_keysWhere_iff.mpr ⟨ad, hleft, ?_⟩)
      exact (stale_iff fun lastHeard => hclock t k ad lastHeard hleft).mpr hpast
  precise := by
    intro t ht k ad hk hpast
    -- a stale ad with this recomputed key would be this very ad
    have hnot : k ∉ staleKeys lib now s.defaultLifetime t (s.cols t) := by
      intro hmem
      obtain ⟨ad', hk', hstale⟩ := h.mem_keysWhere_iff.mp hmem
      obtain rfl : ad = ad' := some.inj (hk.symm.trans hk')
      exact hpast ((stale_iff fun lastHeard => hclock t k ad lastHeard hk).mp hstale)
    rw [lookup_expire ht, if_neg hnot, hk]

end Store

/-! ## Runs -/

inductive StoreOp where
  | update (t : AdType) (ad : ClassAd)
  | updateOldText (t : AdType) (text : Text)
  | updatePvt (publicText pvtText : Text)
  | invalidate (t : AdType) (constraint : Text) (keyAd : Option ClassAd)
  | expire

namespace StoreOp

variable (lib : Library) (now : Int)

def perform (s : Store) : StoreOp → Store
  | update t ad => (s.update lib now t ad).toOption.getD s
  | updateOldText t text => (s.updateOldText lib now t text).toOption.getD s
  | updatePvt publicText pvtText => (s.updatePvt lib now publicText pvtText).toOption.getD s
  | invalidate t constraint keyAd =>
    ((s.invalidate lib t constraint keyAd).toOption.map Prod.fst).getD s
  | expire => (s.expire lib now).1

def written : StoreOp → Option (AdType × Text × ClassAd)
  | update t ad =>
    if t = .anyAd then none
    else (hashKey lib.eval t ad).map fun key =>
      (t, key, ad.insert attrLastHeardFrom (.lit (.int now)))
  | updateOldText t text =>
    if t = .anyAd then none
    else (hashKeyFromText t text).bind fun key =>
      (parseOld lib (stampText text now)).map fun ad => (t, key, ad)
  | updatePvt publicText pvtText =>
    (hashKeyFromText .startdAd publicText).bind fun key =>
      (parseOld lib (pvtAdText publicText pvtText now)).map fun ad => (.startdPvtAd, key, ad)
  | invalidate .. => none
  | expire => none

def SelfKeyed (op : StoreOp) : Prop :=
  ∀ t k ad, op.written lib now = some (t, k, ad) → hashKey lib.eval t ad = some k

end StoreOp

def KeyedByText (lib : Library) (t : AdType) (key body : Text) : Prop :=
  ∀ attr ∈ consulted t (scanned key), sourceBy lib.duplicates body attr = sourceOf key attr ∧
    ∀ src, sourceOf key attr = some src → Verbatim attr src

def StoreOp.PlainlyKeyed (lib : Library) : StoreOp → Prop
  | update t ad => ∀ attr ∈ consulted t (ad.keyAttr lib.eval), ∀ e, ad.lookup attr = some e →
      ∀ now, lib.eval (ad.insert attrLastHeardFrom (.lit (.int now))) e = lib.eval ad e
  | updateOldText t text => KeyedByText lib t text text
  | updatePvt publicText pvtText =>
    KeyedByText lib .startdPvtAd publicText (pvtBody publicText pvtText)
  | invalidate .. => True
  | expire => True

def Store.run (lib : Library) (s : Store) (ops : List (Int × StoreOp)) : Store :=
  ops.foldl (fun s op => op.2.perform lib op.1 s) s

namespace StoreOp

variable {lib : Library} {now : Int} {s : Store}

theorem lookup_setCol_insert {t t' : AdType} {key k : Text} {ad ad' : ClassAd}
    (h : ((s.setCol t ((s.cols t).insert key ad)).cols t').lookup k = some ad') :
    (s.cols t').lookup k = some ad' ∨ (t', k, ad') = (t, key, ad) := by
  rw [Store.setCol_cols] at h
  by_cases htt : t' = t
  · subst htt
    rw [Function.update_self] at h
    by_cases hk : k = key
    · subst hk
      rw [AList.lookup_insert, some.injEq] at h
      exact Or.inr (by rw [h])
    · rw [AList.lookup_insert_ne hk] at h
      exact Or.inl h
  · rw [Function.update_of_ne htt] at h
    exact Or.inl h

theorem lookup_updateOld {t t' : AdType} {key text k : Text}
    (h : ((((Table.updateOld lib (s.cols t) key text).map (s.setCol t)).toOption.getD s).cols
      t').lookup k = some ad) : (s.cols t').lookup k = some ad ∨
      ((parseOld lib text).map fun ad => (t, key, ad)) = some (t', k, ad) := by
  cases hparse : parseOld lib text with
  | none => exact Or.inl (by simpa [hparse, Table.updateOld, Except.toOption, Except.map] using h)
  | some ad' =>
    simp only [hparse, Table.updateOld] at h
    rcases lookup_setCol_insert h with h | h
    · exact Or.inl h
    · exact Or.inr (by rw [map_some, h])

variable {op : StoreOp}

theorem lookup_perform {k : Text} (h : ((op.perform lib now s).cols t).lookup k = some ad) :
    (s.cols t).lookup k = some ad ∨ op.written lib now = some (t, k, ad) := by
  cases op with
  | update t' ad' =>
    rw [perform, Store.update] at h
    rw [written]
    split at h
    · exact Or.inl h
    · rename_i hany
      rw [if_neg hany]
      cases hkey : hashKey lib.eval t' ad' with
      | none => exact Or.inl (by simpa [hkey, Except.toOption] using h)
      | some key =>
        rw [hkey] at h
        rcases lookup_setCol_insert h with h | h
        · exact Or.inl h
        · exact Or.inr (by rw [map_some, h])
  | updateOldText t' text =>
    rw [perform, Store.updateOldText] at h
    rw [written]
    split at h
    · exact Or.inl h
    · rename_i hany
      rw [if_neg hany]
      cases hkey : hashKeyFromText t' text with
      | none => exact Or.inl (by simpa [hkey, Except.toOption] using h)
      | some key =>
        rw [hkey] at h
        exact lookup_updateOld h
  | updatePvt publicText pvtText =>
    rw [perform, Store.updatePvt] at h
    rw [written]
    cases hkey : hashKeyFromText .startdAd publicText with
    | none => exact Or.inl (by simpa [hkey, Except.toOption] using h)
    | some key =>
      rw [hkey] at h
      exact lookup_updateOld h
  | invalidate t' constraint keyAd =>
    -- a removal only takes keys away
    left
    rw [perform, Store.invalidate] at h
    cases hq : parseConstraint lib constraint with
    | error e => simpa [hq, Except.toOption, Except.map] using h
    | ok q =>
      by_cases hany : t' = .anyAd
      · simpa [hq, hany, Except.toOption, Except.map] using h
      · simp only [hq, Except.toOption, Except.map, if_neg hany, map_some,
          getD_some, lookup_removeKeys] at h
        split at h
        · cases h
        · exact h
  | expire =>
    left
    by_cases ht : t ∈ AdType.storageTypes
    · rw [perform, Store.lookup_expire ht] at h
      split at h
      · cases h
      · exact h
    · -- the query-only table is not swept
      rw [perform, Store.expire] at h
      simpa [GoMap.sweep_fst _ AdType.nodup_storageTypes, ht] using h

theorem hashKey_of_keyedByText (hlib : lib.ReadsLiterals) {key body : Text}
    (h : KeyedByText lib t key body) (hparse : parseOld lib (stampText body now) = some ad) :
    hashKey lib.eval t ad = hashKeyFromText t key := by
  rw [hashKeyFromText_eq, hashKey]
  refine (keyFields_eq_of_reading fun attr hattr => ?_).symm
  obtain ⟨hsame, hverb⟩ := h attr hattr
  have hsource : sourceBy lib.duplicates (stampText body now) attr = sourceOf key attr := by
    rw [sourceBy_stampText, if_neg (ne_lastHeardFrom_of_consulted hattr), hsame]
  rw [reading, scanned]
  cases hsrc : sourceOf key attr with
  | none => rw [reading_absent hparse (hsource.trans hsrc)]; rfl
  | some src => rw [(hverb src hsrc).reading_eq hlib hparse (hsource.trans hsrc)]; rfl

theorem PlainlyKeyed.selfKeyed (hlib : lib.ReadsLiterals) (h : op.PlainlyKeyed lib) :
    op.SelfKeyed lib now := by
  intro t k ad hw
  cases op with
  | update t' ad' =>
    rw [written] at hw
    split at hw
    · cases hw
    · obtain ⟨key, hkey, heq⟩ := map_eq_some_iff.mp hw
      cases heq
      rw [← hkey, hashKey, hashKey]
      refine (keyFields_eq_of_reading fun attr hattr => ?_).symm
      have hvalue : (ad'.insert attrLastHeardFrom (.lit (.int now))).evaluateAttr lib.eval attr =
          ad'.evaluateAttr lib.eval attr := by
        rw [ClassAd.evaluateAttr, ClassAd.evaluateAttr,
          ClassAd.lookup_insert_of_ne _ _ (ne_lastHeardFrom_of_consulted hattr)]
        cases hlook : ad'.lookup attr with
        | none => rfl
        | some e => exact h attr hattr e hlook now
      simp only [reading, ClassAd.keyAttr, ClassAd.evaluateAttrInt, ClassAd.evaluateAttrString,
        hvalue]
  | updateOldText t' text =>
    rw [written] at hw
    split at hw
    · cases hw
    · obtain ⟨key, hkey, hw⟩ := bind_eq_some_iff.mp hw
      obtain ⟨ad', hparse, heq⟩ := map_eq_some_iff.mp hw
      cases heq
      rw [← hkey, hashKey_of_keyedByText hlib h hparse]
  | updatePvt publicText pvtText =>
    obtain ⟨key, hkey, hw⟩ := bind_eq_some_iff.mp hw
    obtain ⟨ad', hparse, heq⟩ := map_eq_some_iff.mp hw
    cases heq
    rw [← hkey, hashKey_of_keyedByText hlib h hparse]
    rfl
  | invalidate => cases hw
  | expire => cases hw

theorem SelfKeyed.keyed_perform (hop : op.SelfKeyed lib now) (h : s.Keyed lib) :
    (op.perform lib now s).Keyed lib := by
  intro t k ad hk
  rcases lookup_perform hk with hold | hnew
  · exact h t k ad hold
  · exact hop t k ad hnew

end StoreOp

theorem Store.Keyed.run {lib : Library} {s : Store} (h : s.Keyed lib) {ops : List (Int × StoreOp)}
    (hops : ∀ op ∈ ops, op.2.SelfKeyed lib op.1) : (s.run lib ops).Keyed lib := by
  induction ops generalizing s with
  | nil => exact h
  | cons op ops ih =>
    rw [forall_mem_cons] at hops
    exact ih (hops.1.keyed_perform h) hops.2

/-- **Expiry after a run** of plainly keyed operations reaps exactly the ads past their lifetime. -/
theorem expire_run_exact (lib : Library) (hlib : lib.ReadsLiterals) (ops : List (Int × StoreOp))
    (now : Int) (hops : ∀ op ∈ ops, op.2.PlainlyKeyed lib)
    (hclock : (Store.new.run lib ops).ClockInRange lib now) :
    ExpiresExactly lib now (Store.new.run lib ops) := by
  have hnew : Store.new.Keyed lib := by
    intro t k ad h
    simp [Store.new] at h
  exact (hnew.run fun op hop => (hops op hop).selfKeyed hlib).expiresExactly hclock

def slotPublicText : Text := "Name = \"slot1@a\"\nSlotID = 1\n"

def namePublicText : Text := "Name = \"slot1@a\"\n"

def capabilityText : Text := "Capability = \"secret\"\n"

def storedPvtAd : ClassAd :=
  ⟨[(attrName, .lit (.str "slot1@a")),
    ("Capability", .lit (.str "secret")), (attrLastHeardFrom, .lit (.int 0))]⟩

theorem expire_run_exact_namePublicText :
    ExpiresExactly (literalLibrary .firstWins) 1000
      (Store.new.run (literalLibrary .firstWins)
        [(0, .updatePvt namePublicText capabilityText)]) := by
  have hwritten : StoreOp.written (literalLibrary .firstWins) 0
      (.updatePvt namePublicText capabilityText) =
        some (.startdPvtAd, "slot1@a\x00".toList, storedPvtAd) := by decide
  refine expire_run_exact _ (literalLibrary_readsLiterals _) _ _ ?_ ?_
  · intro op hop
    cases mem_singleton.mp hop
    change ∀ attr ∈ consulted .startdPvtAd (scanned namePublicText), _
    rw [show consulted .startdPvtAd (scanned namePublicText) =
      [attrName, attrSlotID, attrMyAddress, attrStartdIPAddr] by decide]
    simp only [forall_mem_cons, not_mem_nil, IsEmpty.forall_iff, implies_true, and_true]
    refine ⟨⟨by decide, fun src h => ?_⟩, ⟨by decide, fun src h => ?_⟩,
      ⟨by decide, fun src h => ?_⟩, by decide, fun src h => ?_⟩
    · obtain rfl : quoted "slot1@a" = src := some.inj ((by decide : _ = _).trans h)
      exact ⟨_, rfl, by decide, by decide⟩
    all_goals cases (by decide : none = sourceOf namePublicText _).trans h
  · intro t k ad lastHeard hk hheard
    rw [Store.run, foldl_cons, foldl_nil] at hk
    rcases StoreOp.lookup_perform hk with hold | hnew
    · simp [Store.new] at hold
    · rw [hwritten] at hnew
      cases hnew
      cases (show some (0 : Int) = some lastHeard from hheard)
      decide

theorem expire_keeps_stale_private_ad :
    ¬ ExpiresExactly (literalLibrary .firstWins) 1000
      (Store.new.run (literalLibrary .firstWins)
        [(0, .updatePvt slotPublicText capabilityText)]) := by
  intro h
  refine h.complete .startdPvtAd (by decide) "slot1@a:1\x00" storedPvtAd ?_ ⟨0, ?_, ?_⟩
  · decide
  · decide
  · decide

end GolangCollector
