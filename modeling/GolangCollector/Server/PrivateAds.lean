import GolangCollector.Server.Handlers
import GolangCollector.Store.Sources

/-! # Private ads at READ

The private table holds claim ids; `QUERY_STARTD_PVT_ADS`, at NEGOTIATOR, is the channel that serves
it. A command at READ should say nothing about it: stores that differ in the private table only get
the same reply, and no reply carries a private attribute (`ReadSafe`). The two handlers that take a
table by name do not check for the private one, and turn redaction off for it. -/

namespace GolangCollector

open GoStrings List Option

/-! ## Safety of a request -/

/-- **A request is safe at READ.** -/
structure ReadSafe {T : Type} (lib : QueryLibrary) (cedar : Cedar) (impl : (AdType → T) → Backend)
    (cmd : Command) (req : ClassAd) : Prop where
  sameReply : ∀ conn σ σ', AgreeOutside σ σ' →
    (serve lib cedar (impl σ) cmd conn req).map Reply.seen =
      (serve lib cedar (impl σ') cmd conn req).map Reply.seen
  noPrivate : ∀ conn σ reply, serve lib cedar (impl σ) cmd conn req = some reply →
    ∀ i ∈ reply.items, i.Public cedar

structure BackendContract {T : Type} (cedar : Cedar) (reading : Reading)
    (subscribes : Text → Text → Bool) (ads : T → List ClassAd) (impl : (AdType → T) → Backend) :
    Prop where
  /-- What is not asked of the private table does not depend on it. -/
  isolated : ∀ σ σ', AgreeOutside σ σ' → ∀ t, t ≠ .startdPvtAd → impl σ t = impl σ' t
  /-- Redacting queries redact. -/
  redacts : ∀ σ t, (impl σ t).Redacts cedar.isPrivate
  /-- Queries of a table answer. -/
  answers : ∀ σ t, t ≠ .anyAd → (impl σ t).Answers reading (ads (σ t))
  /-- Any ad can be stored. -/
  stores : ∀ ad, ∃ state, ads state = [ad]
  /-- A table can be empty. -/
  empties : ∃ state, ads state = []
  /-- A subscription that is not taken fails. -/
  refuses : ∀ σ cursor constraint, subscribes cursor constraint = false →
    ∃ e, (impl σ .startdPvtAd).watch cursor constraint = .error e
  /-- A subscription that is taken tells two states of its table apart. -/
  tells : ∀ cursor constraint, subscribes cursor constraint = true →
    ∃ σ σ' events events', AgreeOutside σ σ' ∧
      (impl σ .startdPvtAd).watch cursor constraint = .ok events ∧
      (impl σ' .startdPvtAd).watch cursor constraint = .ok events' ∧
      events.flatMap (eventItems cedar false) ≠ events'.flatMap (eventItems cedar false)

/-! ## Backends that keep the contract -/

section Contract

variable (lib : Library) {cedar : Cedar} {coll : Collections}

def Collections.Tells (cedar : Cedar) (coll : Collections) : Prop :=
  ∀ cursor constraint, coll.resumes cursor = true → ∀ p : Option (ClassAd → Bool),
    ∃ tab tab' events events', coll.follow tab cursor constraint (some p) = .ok events ∧
      coll.follow tab' cursor constraint (some p) = .ok events' ∧
      events.flatMap (eventItems cedar false) ≠ events'.flatMap (eventItems cedar false)

def privateOnly (tab : Table) : Tables := Function.update (fun _ => ∅) .startdPvtAd tab

theorem agreeOutside_privateOnly (tab tab' : Table) :
    AgreeOutside (privateOnly tab) (privateOnly tab') := by
  intro t ht
  rw [privateOnly, privateOnly, Function.update_of_ne ht, Function.update_of_ne ht]

theorem scan_single (ad : ClassAd) : Table.scan ((∅ : Table).insert [] ad) = [ad] := rfl

theorem tells_of_follow (htells : coll.Tells cedar) (impl : Tables → Backend)
    {narrowing : Text → Option (Option (ClassAd → Bool))}
    (hwatch : ∀ cols cursor constraint, (impl cols .startdPvtAd).watch cursor constraint =
      coll.follow (cols .startdPvtAd) cursor constraint (narrowing constraint))
    {cursor constraint : Text}
    (h : (coll.resumes cursor && (narrowing constraint).isSome) = true) :
    ∃ σ σ' events events', AgreeOutside σ σ' ∧
      (impl σ .startdPvtAd).watch cursor constraint = .ok events ∧
      (impl σ' .startdPvtAd).watch cursor constraint = .ok events' ∧
      events.flatMap (eventItems cedar false) ≠ events'.flatMap (eventItems cedar false) := by
  obtain ⟨hresumes, hsome⟩ := Bool.and_eq_true_iff.mp h
  obtain ⟨p, hp⟩ := isSome_iff_exists.mp hsome
  obtain ⟨tab, tab', events, events', hevents, hevents', hne⟩ := htells cursor constraint hresumes p
  refine ⟨privateOnly tab, privateOnly tab', events, events', agreeOutside_privateOnly tab tab',
    ?_, ?_, hne⟩
  · rw [hwatch, privateOnly, Function.update_self, hp]
    exact hevents
  · rw [hwatch, privateOnly, Function.update_self, hp]
    exact hevents'

theorem Store.contract (htells : coll.Tells cedar) (lifetime : Int) :
    BackendContract cedar (Store.reading lib)
      (fun cursor constraint => coll.resumes cursor && (Store.narrowing lib constraint).isSome)
      Table.scan fun cols => Store.backend lib cedar.isPrivate coll ⟨cols, lifetime⟩ where
  isolated := fun _ _ hagree _ ht => Store.backend_congr hagree ht
  redacts := by
    intro σ t
    refine redacts_sourceOfRows ?_ _ _
    rintro p ⟨⟩
    rfl
  answers := fun σ _ ht => Store.answers_backend ⟨σ, lifetime⟩ ht
  stores := fun ad => ⟨_, scan_single ad⟩
  empties := ⟨∅, rfl⟩
  refuses := fun _ _ constraint h => Collections.follow_error _ constraint h
  tells := fun _ _ h => tells_of_follow htells _ (fun _ _ _ => rfl) h

end Contract

/-! ## Reaching the private table -/

section Reaching

variable (lib : QueryLibrary) (cedar : Cedar) (reading : Reading) (subscribes : Text → Text → Bool)

def HitsPrivate (req ad : ClassAd) : List Text → Prop
  | [] => False
  | target :: rest =>
    match adTypeForTarget target with
    | none => HitsPrivate req ad rest
    | some t =>
      let constraint := (parseSubQuery lib req target).constraint
      reading.accepts constraint ∧
        ((t = .startdPvtAd ∧ reading.selects constraint ad) ∨ HitsPrivate req ad rest)

def ReachesPrivate (cmd : Command) (req : ClassAd) : Prop :=
  match cmd with
  | .queryMultipleAds => ∃ ad, HitsPrivate lib reading req ad (targetsOf lib req)
  | .watchAds => ∃ name constraint cursor,
      cedar.decodeRequest req = some (name, constraint, cursor) ∧
        adTypeByName name = some .startdPvtAd ∧ subscribes cursor constraint
  | _ => False

end Reaching

section Safety

variable {T : Type} {lib : QueryLibrary} {cedar : Cedar} {reading : Reading}
  {subscribes : Text → Text → Bool} {ads : T → List ClassAd} {impl : (AdType → T) → Backend}
  {σ σ' : AdType → T} {req : ClassAd} {t : AdType}

theorem adTypeForTarget_ne_anyAd {target : Text} (h : adTypeForTarget target = some t) :
    t ≠ .anyAd := by
  rintro rfl
  obtain ⟨before, after, heq, -⟩ := lookup_eq_some_iff.mp h
  have hmem : AdType.anyAd ∈ targetToAd.map Prod.snd :=
    mem_map.mpr ⟨(target, .anyAd), by rw [heq]; simp, rfl⟩
  exact absurd hmem (by decide)

section

variable (h : BackendContract cedar reading subscribes ads impl)
include h

theorem BackendContract.silent (q : QuerySpec) (redact : Bool)
    (hacc : reading.accepts q.constraint = true)
    (hnone : ∀ ad ∈ ads (σ .startdPvtAd), reading.selects q.constraint ad = false) (r : Resp) :
    relayMatches cedar (impl σ .startdPvtAd) q redact r = (r, none) := by
  refine (sends_relayMatches cedar (h.answers σ .startdPvtAd (by decide)) q redact).silent hacc ?_ r
  rintro ⟨ad, had, hsel⟩
  rw [hnone ad had] at hsel
  cases hsel

theorem BackendContract.fails (ht : t ≠ .anyAd) (q : QuerySpec) (redact : Bool)
    (hacc : ¬ reading.accepts q.constraint = true) (r : Resp) :
    ∃ e, relayMatches cedar (impl σ t) q redact r = (r, some e) :=
  (sends_relayMatches cedar (h.answers σ t ht) q redact).fails hacc r

theorem relayTargets_safe (hagree : AgreeOutside σ σ') {targets : List Text}
    (hnone : ∀ ad, ¬ HitsPrivate lib reading req ad targets) {r : Resp} (hr : r.Public cedar) :
    (relayTargets lib cedar (impl σ) req targets r).1 =
        (relayTargets lib cedar (impl σ') req targets r).1 ∧
      (relayTargets lib cedar (impl σ) req targets r).2.isSome =
        (relayTargets lib cedar (impl σ') req targets r).2.isSome ∧
      (relayTargets lib cedar (impl σ) req targets r).1.Public cedar := by
  -- along the targets, with the response written so far
  induction targets generalizing r with
  | nil => exact ⟨rfl, rfl, hr⟩
  | cons target rest ih =>
    cases htarget : adTypeForTarget target with
    | none =>
      simp only [relayTargets, htarget]
      refine ih (fun ad hhit => hnone ad ?_) hr
      simpa only [HitsPrivate, htarget] using hhit
    | some t =>
      simp only [HitsPrivate, htarget, not_and, not_or] at hnone
      simp only [relayTargets, htarget]
      by_cases hacc : reading.accepts (parseSubQuery lib req target).constraint = true
      · have hrest : ∀ ad, ¬ HitsPrivate lib reading req ad rest :=
          fun ad => (hnone ad hacc).2
        by_cases ht : t = .startdPvtAd
        · -- the private table is asked, but no ad is selected
          subst ht
          have hselect : ∀ ad, reading.selects (parseSubQuery lib req target).constraint ad =
              false := fun ad => by simpa using (hnone ad hacc).1
          simp only [h.silent _ _ hacc fun ad _ => hselect ad]
          exact ih hrest hr
        · -- a public table: both stores give the same, and it is redacted
          have hpublic := relayMatches_public (h.redacts σ' t) (parseSubQuery lib req target) hr
          simp only [h.isolated σ σ' hagree t ht, ht, ne_eq, not_false_eq_true, decide_true]
          split
          · rename_i r' e heq
            rw [heq] at hpublic
            exact ⟨rfl, rfl, hpublic⟩
          · rename_i r' heq
            rw [heq] at hpublic
            exact ih hrest hpublic
      · -- the constraint does not compile, and the loop ends
        have ht := adTypeForTarget_ne_anyAd htarget
        obtain ⟨e, he⟩ := h.fails (σ := σ) ht (parseSubQuery lib req target)
          (t ≠ .startdPvtAd) hacc r
        obtain ⟨e', he'⟩ := h.fails (σ := σ') ht (parseSubQuery lib req target)
          (t ≠ .startdPvtAd) hacc r
        simp only [he, he', isSome_some]
        exact ⟨trivial, trivial, hr⟩

theorem relayTargets_longer (hagree : AgreeOutside σ σ') {ad : ClassAd}
    (had : ad ∈ ads (σ .startdPvtAd)) (hempty : ads (σ' .startdPvtAd) = []) {targets : List Text}
    {w w' : List Item} (hle : w'.length ≤ w.length)
    (hmore : w'.length < w.length ∨ HitsPrivate lib reading req ad targets) :
    ∃ u e u' e', relayTargets lib cedar (impl σ) req targets ⟨w, none⟩ = (⟨u, none⟩, e) ∧
      relayTargets lib cedar (impl σ') req targets ⟨w', none⟩ = (⟨u', none⟩, e') ∧
      u'.length < u.length := by
  induction targets generalizing w w' with
  | nil => exact ⟨w, none, w', none, rfl, rfl, hmore.resolve_right id⟩
  | cons target rest ih =>
    cases htarget : adTypeForTarget target with
    | none =>
      simp only [relayTargets, htarget]
      refine ih hle (hmore.imp_right fun hhit => ?_)
      simpa only [HitsPrivate, htarget] using hhit
    | some t =>
      have ht := adTypeForTarget_ne_anyAd htarget
      simp only [HitsPrivate, htarget] at hmore
      simp only [relayTargets, htarget]
      by_cases hacc : reading.accepts (parseSubQuery lib req target).constraint = true
      · obtain ⟨block, hblock, hrun⟩ := (sends_relayMatches cedar (h.answers σ t ht)
          (parseSubQuery lib req target) (t ≠ .startdPvtAd)).appends hacc
        simp only [hrun]
        by_cases hpvt : t = .startdPvtAd
        · -- only the first store writes here, and something if this is the hit
          subst hpvt
          have hsilent := h.silent (σ := σ') (parseSubQuery lib req target)
            (AdType.startdPvtAd ≠ .startdPvtAd) hacc (by rw [hempty]; exact nofun)
          simp only [hsilent]
          refine ih (by rw [length_append]; omega) ?_
          rcases hmore with hlt | ⟨-, ⟨-, hsel⟩ | hhit⟩
          · exact Or.inl (by rw [length_append]; omega)
          · have hpos := length_pos_iff.mpr (hblock ⟨ad, had, hsel⟩)
            exact Or.inl (by rw [length_append]; omega)
          · exact Or.inr hhit
        · -- a public table adds the same block to both
          simp only [← h.isolated σ σ' hagree t hpvt, hrun]
          refine ih (by simpa using hle) ?_
          rcases hmore with hlt | ⟨-, ⟨hpvt', -⟩ | hhit⟩
          · exact Or.inl (by simpa using hlt)
          · exact absurd hpvt' hpvt
          · exact Or.inr hhit
      · obtain ⟨e, he⟩ := h.fails (σ := σ) ht (parseSubQuery lib req target)
          (t ≠ .startdPvtAd) hacc ⟨w, none⟩
        obtain ⟨e', he'⟩ := h.fails (σ := σ') ht (parseSubQuery lib req target)
          (t ≠ .startdPvtAd) hacc ⟨w', none⟩
        simp only [he, he']
        exact ⟨w, some e, w', some e', rfl, rfl, hmore.resolve_right fun hhit => hacc hhit.1⟩

end

/-! ## The handlers -/

theorem public_start (conn : Conn) : Resp.Public cedar ⟨[], conn.room⟩ := nofun

theorem readSafe_query (h : BackendContract cedar reading subscribes ads impl) {cmd : Command}
    (hcmd : queryCommands cmd = some t) (ht : t ≠ .startdPvtAd) (req : ClassAd) :
    ReadSafe lib cedar impl cmd req where
  sameReply := by
    intro conn σ σ' hagree
    rw [serve_query _ _ _ hcmd, serve_query _ _ _ hcmd, queryHandler, queryHandler,
      h.isolated σ σ' hagree t ht]
  noPrivate := by
    intro conn σ reply hreply
    rw [serve_query _ _ _ hcmd] at hreply
    cases hreply
    refine public_finish ?_
    simp only [ht, ne_eq, not_false_eq_true, decide_true]
    exact relayMatches_public (h.redacts σ t) _ (public_start conn)

theorem seen_finish_ne {u u' : List Item} (h : u'.length < u.length) (e e' : Option ServeError) :
    (finish (⟨u, none⟩, e)).seen ≠ (finish (⟨u', none⟩, e')).seen := by
  intro hseen
  have hlength := congrArg (fun p => p.1.length) hseen
  have herr := congrArg Prod.snd hseen
  cases e <;> cases e' <;> simp [finish, Resp.put, Reply.seen] at hlength herr <;> omega

theorem readSafe_multi (h : BackendContract cedar reading subscribes ads impl) (req : ClassAd) :
    ReadSafe lib cedar impl .queryMultipleAds req ↔
      ∀ ad, ¬ HitsPrivate lib reading req ad (targetsOf lib req) := by
  constructor
  · intro hsafe ad hhit
    obtain ⟨full, hfull⟩ := h.stores ad
    obtain ⟨empty, hempty⟩ := h.empties
    -- the stores differ in the private table only, which holds the ad in one of them
    have hagree : AgreeOutside (Function.update (fun _ => empty) .startdPvtAd full)
        fun _ => empty := fun t ht => Function.update_of_ne ht _ _
    have had :
        ad ∈ ads (Function.update (fun _ => empty) AdType.startdPvtAd full .startdPvtAd) := by
      rw [Function.update_self, hfull]
      exact mem_singleton_self ad
    obtain ⟨u, e, u', e', hrun, hrun', hlt⟩ :=
      relayTargets_longer h hagree had hempty (Nat.le_refl ([] : List Item).length) (Or.inr hhit)
    have hseen := hsafe.sameReply ⟨none, false⟩ _ _ hagree
    rw [serve_multi, serve_multi, multiQueryHandler, multiQueryHandler, hrun, hrun',
      map_some, map_some, some.injEq] at hseen
    exact seen_finish_ne hlt e e' hseen
  · intro hnone
    refine ⟨fun conn σ σ' hagree => ?_, fun conn σ reply hreply => ?_⟩
    · obtain ⟨hresp, herr, -⟩ := relayTargets_safe h hagree hnone (public_start conn)
      exact congrArg some (seen_finish hresp herr)
    · rw [serve_multi] at hreply
      cases hreply
      exact public_finish (relayTargets_safe h (fun _ _ => rfl) hnone (public_start conn)).2.2

theorem watchHandler_public (h : BackendContract cedar reading subscribes ads impl)
    {name constraint cursor : Text}
    (hreq : cedar.decodeRequest req = some (name, constraint, cursor))
    (hname : adTypeByName name = some t) (ht : t ≠ .startdPvtAd) (conn : Conn) :
    (∀ σ', AgreeOutside σ σ' →
        watchHandler cedar (impl σ) conn req = watchHandler cedar (impl σ') conn req) ∧
      ∀ i ∈ (watchHandler cedar (impl σ) conn req).items, i.Public cedar := by
  constructor
  · intro σ' hagree
    simp only [watchHandler, hreq, hname, h.isolated σ σ' hagree t ht]
  · have hevents : ∀ events : List WatchEvent, ∀ i ∈ events.flatMap (eventItems cedar true),
        i.Public cedar := by
      intro events i hi
      obtain ⟨ev, -, hmem⟩ := mem_flatMap.mp hi
      exact public_eventItems ev i hmem
    simp only [watchHandler, hreq, hname, ht, ne_eq, not_false_eq_true, decide_true]
    cases (impl σ t).watch cursor constraint with
    | error e => exact nofun
    | ok events =>
      have hput := (public_start conn).put (hevents events)
      simp only
      split
      · rename_i r hr
        rw [hr] at hput
        exact hput
      · rename_i r hr
        rw [hr] at hput
        split
        · exact hput.put (public_eventItems _)
        · exact hput

theorem seen_watchHandler_private {name constraint cursor : Text}
    (hreq : cedar.decodeRequest req = some (name, constraint, cursor))
    (hname : adTypeByName name = some .startdPvtAd) {b : Backend} {events : List WatchEvent}
    (hevents : (b .startdPvtAd).watch cursor constraint = .ok events) :
    (watchHandler cedar b ⟨none, false⟩ req).seen =
      (events.flatMap (eventItems cedar false), false) := by
  simp [watchHandler, hreq, hname, hevents, Resp.put_open, Reply.seen]

theorem readSafe_watch (h : BackendContract cedar reading subscribes ads impl) (req : ClassAd) :
    ReadSafe lib cedar impl .watchAds req ↔
      ¬ ∃ name constraint cursor, cedar.decodeRequest req = some (name, constraint, cursor) ∧
        adTypeByName name = some .startdPvtAd ∧ subscribes cursor constraint := by
  constructor
  · rintro hsafe ⟨name, constraint, cursor, hreq, hname, hsub⟩
    obtain ⟨σ, σ', events, events', hagree, hevents, hevents', hne⟩ :=
      h.tells cursor constraint hsub
    have hseen := hsafe.sameReply ⟨none, false⟩ σ σ' hagree
    rw [serve_watch, serve_watch, map_some, map_some, some.injEq,
      seen_watchHandler_private hreq hname hevents, seen_watchHandler_private hreq hname hevents',
      Prod.mk.injEq] at hseen
    exact hne hseen.1
  · intro hnone
    -- every reply but one from a public table is an error before anything is written
    have hcases : ∀ conn, (∀ σ, ∃ e, watchHandler cedar (impl σ) conn req = ⟨[], some e⟩) ∨
        ∀ σ, (∀ σ', AgreeOutside σ σ' →
            watchHandler cedar (impl σ) conn req = watchHandler cedar (impl σ') conn req) ∧
          ∀ i ∈ (watchHandler cedar (impl σ) conn req).items, i.Public cedar := by
      intro conn
      cases hreq : cedar.decodeRequest req with
      | none => exact Or.inl fun σ => ⟨.badRequest, by simp only [watchHandler, hreq]⟩
      | some p =>
        obtain ⟨name, constraint, cursor⟩ := p
        cases hname : adTypeByName name with
        | none =>
          exact Or.inl fun σ =>
            ⟨.unknownAdType name, by simp only [watchHandler, hreq, hname]⟩
        | some t =>
          by_cases ht : t = .startdPvtAd
          · subst ht
            have hsub : subscribes cursor constraint = false := by
              by_contra hsub
              exact hnone ⟨name, constraint, cursor, hreq, hname, by simpa using hsub⟩
            refine Or.inl fun σ => ?_
            obtain ⟨e, he⟩ := h.refuses σ cursor constraint hsub
            exact ⟨.backend e, by simp only [watchHandler, hreq, hname, he]⟩
          · exact Or.inr fun σ => watchHandler_public h hreq hname ht conn
    refine ⟨fun conn σ σ' hagree => ?_, fun conn σ reply hreply => ?_⟩
    · rw [serve_watch, serve_watch]
      rcases hcases conn with herror | hpublic
      · obtain ⟨e, he⟩ := herror σ
        obtain ⟨e', he'⟩ := herror σ'
        rw [he, he']
        rfl
      · rw [(hpublic σ).1 σ' hagree]
    · rw [serve_watch] at hreply
      cases hreply
      rcases hcases conn with herror | hpublic
      · obtain ⟨e, he⟩ := herror σ
        rw [he]
        exact nofun
      · exact (hpublic σ).2

end Safety

/-! ## A store with one claim -/

def isClaimId (a : Text) : Bool := toLower a = "claimid"

def claimCedar : Cedar where
  isPrivate := isClaimId
  putClassAd ad := ⟨ad.attrs.filter fun p => !isClaimId p.1⟩
  putClassAd_public := by
    intro ad p hp
    exact (Bool.not_eq_true' _).mp (List.mem_filter.mp hp).2
  myType_public := by decide
  targetType_public := by decide
  encodeHeader _ key cursor :=
    ⟨[("Key", .lit (.str key)), ("Cursor", .lit (.str cursor))]⟩
  decodeRequest req :=
    (req.evaluateAttrString literalEvaluator "WatchAdType").map fun name => (name, [], [])

def replayCollections : Collections where
  render ad :=
    { exprs := (ad.attrs.filter fun p => IsAttrName p.1).map fun p =>
        attrLine p.1 (printingLibrary.unparse p.2)
      myType := []
      targetType := []
      rendered := by
        intro e he
        obtain ⟨p, hp, rfl⟩ := List.mem_map.mp he
        exact ⟨p.1, _, of_decide_eq_true (List.mem_filter.mp hp).2, rfl⟩ }
  resumes _ := true
  watch tab _ := .ok (tab.scan.map (fun ad => ⟨.upsert, [], [], some ad⟩) ++
    [⟨.synced, [], formatInt tab.scan.length, none⟩])
  watch_isOk _ _ := rfl
  watchFilter p events := events.filter fun ev => ev.ad.all p

theorem replayCollections_tells : replayCollections.Tells claimCedar := by
  intro cursor constraint _ p
  refine ⟨∅, (∅ : Table).insert [] ⟨[]⟩, ?_⟩
  cases p with
  | none => exact ⟨_, _, rfl, rfl, by decide⟩
  | some p =>
    refine ⟨_, _, rfl, rfl, ?_⟩
    change flatMap _ [WatchEvent.mk .synced [] ['0'] none] ≠ flatMap _
      ([WatchEvent.mk .upsert [] [] (some ⟨[]⟩), ⟨.synced, [], ['1'], none⟩].filter
        fun ev => ev.ad.all p)
    cases hp : p ⟨[]⟩
    · rw [filter_cons_of_neg (by simp [hp]), filter_cons_of_pos rfl, filter_nil]
      decide
    · rw [filter_cons_of_pos (by simp [hp]), filter_cons_of_pos rfl, filter_nil]
      decide

def claimBackend (cols : Tables) : Backend :=
  Store.backend printingLibrary.toLibrary claimCedar.isPrivate replayCollections ⟨cols, 900⟩

def stringAd (attr s : Text) : ClassAd := ⟨[(attr, .lit (.str s))]⟩

def claimTables : Tables :=
  privateOnly ((∅ : Table).insert [] (stringAd "ClaimId" "secret"))

/-- **Which requests are safe at READ**: exactly those that do not reach the private table. -/
theorem readSafe_iff {T : Type} (lib : QueryLibrary) (cedar : Cedar) (reading : Reading)
    (subscribes : Text → Text → Bool) (ads : T → List ClassAd) (impl : (AdType → T) → Backend)
    (h : BackendContract cedar reading subscribes ads impl) (cmd : Command)
    (hread : commandPerm cmd = .read) (req : ClassAd) :
    ReadSafe lib cedar impl cmd req ↔ ¬ ReachesPrivate lib cedar reading subscribes cmd req := by
  -- the commands at READ: queries of one public table, the query of several, the subscription
  rcases commandPerm_eq_read hread with ⟨t, hcmd, ht⟩ | rfl | rfl
  · have hnot : ¬ ReachesPrivate lib cedar reading subscribes cmd req := by
      cases cmd <;> first | exact not_false | cases hcmd
    exact iff_of_true (readSafe_query h hcmd ht req) hnot
  · rw [readSafe_multi h, ReachesPrivate, not_exists]
  · rw [readSafe_watch h, ReachesPrivate]

theorem readSafe_iff_machine :
    ReadSafe printingLibrary claimCedar claimBackend .queryMultipleAds
      (stringAd attrTargetType "Machine") := by
  refine (readSafe_iff _ _ _ _ _ _ (Store.contract _ replayCollections_tells 900) _ rfl _).mpr ?_
  have htargets : targetsOf printingLibrary (stringAd attrTargetType "Machine") =
      ["Machine".toList] := by decide
  rw [ReachesPrivate, htargets]
  rintro ⟨ad, -, ⟨htable, -⟩ | hrest⟩
  · cases htable
  · exact hrest

theorem private_ads_leak :
    (commandPerm .queryMultipleAds = .read ∧
      ¬ ReadSafe printingLibrary claimCedar claimBackend .queryMultipleAds
        (stringAd attrTargetType "StartdPvt")) ∧
    commandPerm .watchAds = .read ∧
      ¬ ReadSafe printingLibrary claimCedar claimBackend .watchAds
        (stringAd "WatchAdType" "StartdPvt") := by
  have hquery : serve printingLibrary claimCedar (claimBackend claimTables) .queryMultipleAds
      ⟨none, false⟩ (stringAd attrTargetType "StartdPvt") =
      some ⟨[.int32 1, .rawAd ["ClaimId = \"secret\""] [] [], .int32 0, .flush true],
        none⟩ := rfl
  have hwatch : serve printingLibrary claimCedar (claimBackend claimTables) .watchAds
      ⟨none, false⟩ (stringAd "WatchAdType" "StartdPvt") =
      some ⟨[.classAd (claimCedar.encodeHeader .upsert [] []),
        .classAd (stringAd "ClaimId" "secret"), .flush false,
        .classAd (claimCedar.encodeHeader .synced [] ['1']), .flush false], none⟩ := rfl
  refine ⟨⟨rfl, fun hsafe => ?_⟩, rfl, fun hsafe => ?_⟩
  · exact absurd (hsafe.noPrivate _ _ _ hquery _ (.tail _ (.head _)) "ClaimId" (by decide))
      (by decide)
  · exact absurd (hsafe.noPrivate _ _ _ hwatch _ (.tail _ (.head _)) "ClaimId" (by decide))
      (by decide)

end GolangCollector
