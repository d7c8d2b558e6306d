import GolangCollector.Accountant.LimitCounts
import GolangCollector.Negotiator.Books
import GolangCollector.Negotiator.Partition
import GolangCollector.Negotiator.SlotWeights

/-! # What a match charges against concurrency limits

A committed match is charged twice: the cycle's tracker counts the list of the request
(`cycle/limits.go`), and the accountant counts the list it finds on the enriched slot ad
(`accountant/limits.go`), which is the request's where it has one and the slot's own otherwise. The
tracker takes the accountant's count of a limit when it first meets it, so the two stay in step as
long as both count the same. -/

namespace GolangCollector.Negotiator

open GoStrings Runs Accountant List Option Negotiator.Cycle CycleState

/-! ## The tracker -/

def FoldsCase {F : Type} (count : Text → F) : Prop :=
  ∀ m n, toLower m = toLower n → count m = count n

def tokensIncrement {F : Type} [Zero F] [Add F] (tokens : List (Text × F)) (name : Text) : F :=
  ((tokens.filter fun p => p.1 = toLower name).map Prod.snd).sum

namespace ConcurrencyTracker

variable {F : Type}

def Holds (t : ConcurrencyTracker F) (name : Text) : Prop := (t.lookup (toLower name)).isSome = true

instance (t : ConcurrencyTracker F) (name : Text) : Decidable (t.Holds name) :=
  inferInstanceAs (Decidable (_ = true))

def Follows (t : ConcurrencyTracker F) (count : Text → F) : Prop :=
  ∀ name v, t.lookup (toLower name) = some v → v = count name

variable {t : ConcurrencyTracker F} {seed count : Text → F}

theorem follows_empty (count : Text → F) : Follows ∅ count := by
  intro name v h
  simp at h

theorem Follows.usage_eq (h : t.Follows count) {name : Text} (hheld : t.Holds name) :
    t.usage seed name = count name := by
  obtain ⟨v, hv⟩ := isSome_iff_exists.mp hheld
  rw [usage, hv, getD_some, h name v hv]

theorem lookup_touch (name n : Text) : (t.touch seed name).lookup n =
    if n = toLower name then some ((t.lookup n).getD (seed (toLower name))) else t.lookup n := by
  rw [touch]
  split_ifs with hn
  · subst hn
    cases h : t.lookup (toLower name) with
    | some v => exact h
    | none => exact AList.lookup_insert t
  · cases h : t.lookup (toLower name) with
    | some v => rfl
    | none => exact AList.lookup_insert_ne hn

theorem Follows.touch (h : t.Follows count) (hfolds : FoldsCase count) (name : Text) :
    (t.touch count name).Follows count := by
  intro n v hv
  rw [lookup_touch] at hv
  split_ifs at hv with hn
  · obtain rfl := some.inj hv
    cases hlookup : t.lookup (toLower n) with
    | some v => exact h n v hlookup
    | none => exact hfolds _ _ (by rw [toLower_toLower, hn])
  · exact h n v hv

theorem Holds.touch {n : Text} (h : t.Holds n) (name : Text) : (t.touch seed name).Holds n := by
  rw [Holds, lookup_touch]
  split_ifs
  · rfl
  · exact h

theorem holds_touch (name : Text) : (t.touch seed name).Holds name := by
  rw [Holds, lookup_touch, if_pos rfl]
  rfl

def touchAll (seed : Text → F) (t : ConcurrencyTracker F) (names : List Text) :
    ConcurrencyTracker F := names.foldl (fun t name => t.touch seed name) t

theorem Follows.touchAll (h : t.Follows count) (hfolds : FoldsCase count) (names : List Text) :
    (t.touchAll count names).Follows count :=
  foldlRecOn (motive := fun t : ConcurrencyTracker F => t.Follows count) names _ h
    fun _ ht name _ => ht.touch hfolds name

theorem holds_touchAll {names : List Text} {name : Text} (h : name ∈ names) :
    (t.touchAll seed names).Holds name := by
  induction names generalizing t with
  | nil => cases h
  | cons m names ih =>
    rcases mem_cons.mp h with rfl | h
    · exact foldlRecOn (motive := fun t : ConcurrencyTracker F => t.Holds name) names _
        (holds_touch name) fun _ ht m _ => ht.touch m
    · exact ih h

variable [AddCommMonoid F]

theorem Follows.charge {tokens : List (Text × F)} (h : t.Follows count) (hfolds : FoldsCase count)
    (hlower : ∀ p ∈ tokens, toLower p.1 = p.1) (hheld : ∀ p ∈ tokens, t.Holds p.1) :
    ConcurrencyTracker.Follows
      (tokens.foldl (fun t p => t.insert p.1 (t.usage seed p.1 + p.2)) t)
      fun n => count n + tokensIncrement tokens n := by
  induction tokens generalizing t count with
  | nil =>
    intro n v hv
    simpa [tokensIncrement] using h n v hv
  | cons p tokens ih =>
    rw [forall_mem_cons] at hlower hheld
    have hcount : t.usage seed p.1 = count p.1 := h.usage_eq hheld.1
    -- one token moves the count that is followed
    have hone : ConcurrencyTracker.Follows (t.insert p.1 (t.usage seed p.1 + p.2))
        fun n => count n + if p.1 = toLower n then p.2 else 0 := by
      intro n v hv
      dsimp only
      by_cases hn : toLower n = p.1
      · rw [hn, AList.lookup_insert] at hv
        obtain rfl := some.inj hv
        rw [if_pos hn.symm, hcount, hfolds p.1 n (by rw [hlower.1, hn])]
      · rw [AList.lookup_insert_ne hn] at hv
        rw [if_neg (Ne.symm hn), add_zero]
        exact h n v hv
    have hfolds' : FoldsCase fun n => count n + if p.1 = toLower n then p.2 else 0 := by
      intro m n hmn
      dsimp only
      rw [hfolds m n hmn, hmn]
    have hheld' : ∀ q ∈ tokens, ConcurrencyTracker.Holds
        (t.insert p.1 (t.usage seed p.1 + p.2)) q.1 := by
      intro q hq
      rw [Holds]
      by_cases hqp : toLower q.1 = p.1
      · rw [hqp, AList.lookup_insert]
        rfl
      · rw [AList.lookup_insert_ne hqp]
        exact hheld.2 q hq
    have hrest := ih hone hfolds' hlower.2 hheld'
    have hsum : ∀ n, count n + tokensIncrement (p :: tokens) n =
        (count n + if p.1 = toLower n then p.2 else 0) + tokensIncrement tokens n := by
      intro n
      rw [tokensIncrement, filter_cons, tokensIncrement, add_assoc]
      by_cases hn : p.1 = toLower n <;> simp [hn]
    rw [foldl_cons]
    simpa only [hsum] using hrest

end ConcurrencyTracker

/-! ## The steps -/

def limitTokens {F : Type} [Zero F] [One F] [LE F] [DecidableLE F] (lib : MatchLibrary F)
    (limits : Text) : List (Text × F) :=
  (splitLimits (toLower limits)).filterMap (parseConcurrencyLimit lib)

def Cycle.offered? {F A : Type} (c : Cycle F A) (s : CycleState F A) : Option Request :=
  match s.pc with
  | .round r =>
    match r.stage with
    | .negotiating _ n => n.cur.map (c.enrichRequest s r n)
    | _ => none
  | _ => none

def Cycle.listAlone {F A : Type} (c : Cycle F A) (req : Request) : Text :=
  (c.lib.evaluateAttrString req.ad "ConcurrencyLimits").getD []

section

variable {F A : Type} [Zero F] [One F] [Add F] [Sub F] [Mul F] [Div F] [IntCast F] [BEq F] [LT F]
  [LE F] [DecidableLT F] [DecidableLE F] {c : Cycle F A} {st : CycleSetup F}
  {s s' : CycleState F A} {l : Label F}

def Cycle.gate (c : Cycle F A) (s : CycleState F A) : ConcurrencyLimits F :=
  s.limits.view (c.acct.getLimit s.acct) c.cfg.concurrencyLimitMax

/-- **A match that is charged** to the accountant and the tracker. -/
structure Charges (c : Cycle F A) (s s' : CycleState F A) (req : Request) (slot : ClassAd) :
    Prop where
  offered : c.offered? s = some req
  live : ∃ i, s.view.slots[i]? = some slot ∧ s.view.isLive i
  passed : ∀ p ∈ limitTokens c.lib (c.listAlone req), (c.gate s).exceeds p.1 p.2 = false
  acct_eq : ∃ r n now, s'.acct = c.acct.addMatch s.acct (NegState.name n)
    (enrichMatchAd c.lib slot req (c.matchContext (r : Round F) n req)) now
  limits_eq : ∃ names, (∀ p ∈ limitTokens c.lib (c.listAlone req), p.1 ∈ names) ∧
    s'.limits = (s.limits.touchAll (c.acct.getLimit s.acct) names).add (c.acct.getLimit s'.acct)
      c.lib (c.listAlone req)

inductive LimitsMove (c : Cycle F A) (s s' : CycleState F A) : Option (Request × ClassAd) → Prop
    where
  /-- Nothing is charged; limits may have been read. -/
  | reads (hacct : Reported c s.acct s'.acct) (names : List Text)
      (hlimits : s'.limits = s.limits.touchAll (c.acct.getLimit s.acct) names) :
      LimitsMove c s s' none
  | charges (req : Request) (slot : ClassAd) (h : Charges c s s' req slot) :
      LimitsMove c s s' (some (req, slot))

def Cycle.committed? (c : Cycle F A) (s : CycleState F A) : Label F → Option (Request × ClassAd)
  | .offer ctxDone sendOk _ =>
    match s.pc with
    | .round r =>
      match r.stage with
      | .negotiating fr n =>
        (n.cur.map (c.enrichRequest s r n)).bind fun req =>
          match c.mm.matchRequest c.lib ctxDone req s.view (c.matchLimits s fr n) with
          | some (.ok cand) =>
            -- in compat mode a failed delivery comes before the accounting
            if c.cfg.compatMode && !sendOk then none else some (req, cand.slot)
          | _ => none
      | _ => none
    | _ => none
  | _ => none

omit [Sub F] [Mul F] [Div F] in
theorem passed_of_matchRequest {ctxDone : Bool} {req : Request} {view : SlotView}
    {limits : MatchLimits F} {cand : Candidate F} {v : ConcurrencyLimits F}
    (hv : limits.concurrency = some v)
    (h : c.mm.matchRequest c.lib ctxDone req view limits = some (.ok cand)) :
    ∀ p ∈ limitTokens c.lib (c.listAlone req), v.exceeds p.1 p.2 = false := by
  rw [Matchmaker.matchRequest] at h
  split at h
  · cases h
  · split at h
    · cases h
    · next matchConc hgate =>
      intro p hp
      rw [Matchmaker.gateRequest, hv] at hgate
      dsimp only at hgate
      rw [listAlone] at hp
      cases heval : c.lib.evaluateAttrString req.ad "ConcurrencyLimits" with
      | none =>
        rw [heval] at hp
        cases hp
      | some cl =>
        rw [heval] at hp hgate
        dsimp only [getD_some] at hp hgate
        split_ifs at hgate with hcl
        · split at hgate
          · cases hgate
          · next hreject =>
            have hnone := (not_congr rejectForConcurrencyLimits_isSome_iff).mp
              (by rw [hreject]; simp)
            rw [← Bool.not_eq_true]
            exact fun hexceeds => hnone ⟨p, hp, hexceeds⟩
        · obtain rfl : cl = [] := not_not.mp hcl
          cases hp

omit [Sub F] [Mul F] [Div F] [IntCast F] [BEq F] in
theorem read_of_passed {v : ConcurrencyLimits F} {cl : Text}
    (hpassed : ∀ p ∈ limitTokens c.lib cl, v.exceeds p.1 p.2 = false) :
    ∀ p ∈ limitTokens c.lib cl, p.1 ∈ limitsRead c.lib cl v := by
  intro p hp
  have hall : (limitTokens c.lib cl).span (fun p => !v.exceeds p.1 p.2) =
      (limitTokens c.lib cl, []) := by
    have hpass : ∀ p ∈ limitTokens c.lib cl, (!v.exceeds p.1 p.2) = true := fun p hp => by
      rw [hpassed p hp]
      rfl
    rw [span_eq_takeWhile_dropWhile, takeWhile_eq_self_iff.mpr hpass,
      dropWhile_eq_nil_iff.mpr hpass]
  have hread : limitsRead c.lib cl v = (limitTokens c.lib cl).map Prod.fst := by
    have htokens : (splitLimits (toLower cl)).filterMap (parseLimitToken c.lib) =
        limitTokens c.lib cl := rfl
    simp only [limitsRead, htokens, hall]
    simp
  rw [hread]
  exact mem_map_of_mem hp

section

variable {r : Round F} {fr : SpinFrame F} {n : NegState F} {req : Request} {cand : Candidate F}
  {sendOk : Bool} {now : ℤ}

omit [Zero F] [One F] [Add F] [Sub F] [Mul F] [Div F] [IntCast F] [BEq F] [LT F] [LE F]
  [DecidableLT F] [DecidableLE F] in
theorem acct_reject (rej : RejectInfo) : (c.reject s r fr n req rej sendOk).acct = s.acct := by
  rw [reject]
  dsimp only
  split
  · rfl
  · split
    · simp [Cycle.breakOff, CycleState.goto, CycleState.count]
    · simp [CycleState.goto, CycleState.count]

omit [Mul F] [Div F] [BEq F] [LT F] [DecidableLT F] in
theorem deliverMatch_of_failed (h : (c.cfg.compatMode && !sendOk) = true) :
    (c.deliverMatch s r fr n req cand sendOk now).acct = s.acct ∧
      (c.deliverMatch s r fr n req cand sendOk now).limits = s.limits := by
  rw [deliverMatch, if_pos h]
  exact ⟨rfl, rfl⟩

omit [Mul F] [Div F] [BEq F] [LT F] [DecidableLT F] in
theorem deliverMatch_of_sent (h : (c.cfg.compatMode && !sendOk) = false) :
    (c.deliverMatch s r fr n req cand sendOk now).acct = c.acct.addMatch s.acct n.name
        (enrichMatchAd c.lib cand.slot req (c.matchContext r n req)) now ∧
      (c.deliverMatch s r fr n req cand sendOk now).limits =
        s.limits.add (c.acct.getLimit (c.acct.addMatch s.acct n.name
          (enrichMatchAd c.lib cand.slot req (c.matchContext r n req)) now)) c.lib
          (c.listAlone req) := by
  have hlimits : ∀ e op, (c.sendInOrder s n.sub e op).limits = s.limits := fun e op => by
    rw [sendInOrder]
    split <;> rfl
  rw [deliverMatch, if_neg (by simp [h])]
  refine ⟨by simp [commit, goto, record, matchResult], ?_⟩
  simp only [commit, goto, record, matchResult, sendInOrder_acct,
    hlimits, listAlone]
  cases c.lib.evaluateAttrString req.ad "ConcurrencyLimits" with
  | none => rfl
  | some cl => rfl

end

omit [Mul F] [Div F] in
theorem limitsMove_stepOffer {r : Round F} {fr : SpinFrame F} {n : NegState F}
    {ctxDone sendOk : Bool} {now : ℤ} (hpc : s.pc = .round r)
    (hstage : r.stage = .negotiating fr n)
    (h : c.stepOffer s r fr n ctxDone sendOk now = some s') :
    LimitsMove c s s' (c.committed? s (.offer ctxDone sendOk now)) := by
  rw [stepOffer] at h
  cases hcur : n.cur with
  | none =>
    rw [hcur] at h
    cases h
  | some req =>
    rw [hcur] at h
    dsimp only at h
    have hoffered : c.offered? s = some (c.enrichRequest s r n req) := by
      simp only [offered?, hpc, hstage, hcur, map_some]
    have hcommitted : c.committed? s (.offer ctxDone sendOk now) =
        match c.mm.matchRequest c.lib ctxDone (c.enrichRequest s r n req) s.view
          (c.matchLimits s fr n) with
        | some (.ok cand) => if c.cfg.compatMode && !sendOk then none
            else some (c.enrichRequest s r n req, cand.slot)
        | _ => none := by
      simp only [committed?, hpc, hstage, hcur, map_some, bind_some]
    cases h
    split
    · next hmatch =>
      rw [hcommitted, show c.mm.matchRequest c.lib ctxDone (c.enrichRequest s r n req) s.view
        (c.matchLimits s fr n) = none from hmatch]
      exact .reads (.inl (by simp [Cycle.breakOff, CycleState.goto, CycleState.count])) _ (by
        rw [(of_books_eq (books_breakOff _)).2.2.2]
        rfl)
    · next rej hmatch =>
      rw [hcommitted, show c.mm.matchRequest c.lib ctxDone (c.enrichRequest s r n req) s.view
        (c.matchLimits s fr n) = some (.error rej) from hmatch]
      refine .reads (.inl ?_) _ (by
        rw [(of_books_eq (books_reject _ _ _)).2.2.2]
        rfl)
      exact acct_reject _
    · next cand hmatch =>
      rw [hcommitted, show c.mm.matchRequest c.lib ctxDone (c.enrichRequest s r n req) s.view
        (c.matchLimits s fr n) = some (.ok cand) from hmatch]
      dsimp only
      by_cases hfailed : (c.cfg.compatMode && !sendOk) = true
      · obtain ⟨hacct, hlimits⟩ := deliverMatch_of_failed hfailed
        rw [if_pos hfailed]
        exact .reads (.inl hacct) _ hlimits
      · obtain ⟨hacct, hlimits⟩ := deliverMatch_of_sent (by simpa using hfailed)
        rw [if_neg hfailed]
        have hpassed : ∀ p ∈ limitTokens c.lib (c.listAlone (c.enrichRequest s r n req)),
            (c.gate s).exceeds p.1 p.2 = false := passed_of_matchRequest rfl hmatch
        obtain ⟨conc, heligible⟩ := Matchmaker.eligible_of_matchRequest hmatch
        refine .charges _ _ ⟨hoffered, ⟨_, heligible.slot_eq, heligible.live⟩, hpassed,
          ⟨r, n, now, hacct⟩, if ctxDone = true then [] else
            c.limitsMatchReads s (c.enrichRequest s r n req).ad (c.matchLimits s fr n),
          fun p hp => ?_, hlimits.trans (by rw [hacct]; rfl)⟩
        cases ctxDone with
        | true => cases hmatch
        | false =>
          -- the list evaluates by itself, or there is no token
          rw [if_neg Bool.false_ne_true, limitsMatchReads]
          cases heval : c.lib.evaluateAttrString (c.enrichRequest s r n req).ad
            "ConcurrencyLimits" with
          | none =>
            rw [listAlone, heval] at hp
            cases hp
          | some cl =>
            rw [listAlone, heval, getD_some] at hpassed hp
            exact read_of_passed hpassed p hp

theorem reported_of_step (h : c.step st s l = some s')
    (hother : ∀ ctxDone sendOk now, l ≠ .offer ctxDone sendOk now) :
    Reported c s.acct s'.acct := by
  cases move_of_step h with
  | kept hkept hflow => exact hflow.reported
  | commit r fr n idx slot tier hcommit =>
    have hround : ∀ {r'}, s.pc = .round r' → r' = r := fun hr' =>
      Pc.round.inj (hr'.symm.trans hcommit.round_eq)
    have hstage : ∀ {stage}, r.stage = stage → stage = .negotiating fr n := fun hs =>
      hs.symm.trans hcommit.stage_eq
    have hphase := hcommit.phase_eq
    rcases worker_or_spine h with ⟨i, ok, rfl, hdeliver⟩ | ⟨-, hspine⟩
    · exact .inl (kept_stepDeliver hdeliver).2.1
    · cases hspine with
      | group info ads hidle => cases hidle.symm.trans hcommit.round_eq
      | spin r' ctxErr hr' hs | prefetch r' env todo k reply _ hr' hs
      | sub r' fr' ctxErr now _ hr' hs | spinEnd r' fr' _ hr' hs => cases hround hr'; cases hstage hs
      | top r' fr' n' now hr' hs hp | next r' fr' n' hr' hs hp
      | fetch r' fr' n' reply _ hr' hs hp =>
        cases hround hr'
        cases hstage hs
        cases hp.symm.trans hphase
      | offer r' fr' n' ctxDone sendOk now => exact absurd rfl (hother ctxDone sendOk now)
      | leave r' fr' n' result now hr' hs hp =>
        cases hround hr'
        cases hstage hs
        cases hp.symm.trans hphase

theorem limitsMove_of_step (h : c.step st s l = some s') :
    LimitsMove c s s' (c.committed? s l) := by
  by_cases hoffer : ∃ ctxDone sendOk now, l = .offer ctxDone sendOk now
  · obtain ⟨ctxDone, sendOk, now, rfl⟩ := hoffer
    rcases worker_or_spine h with ⟨i, ok, hl, -⟩ | ⟨-, hspine⟩
    · cases hl
    · cases hspine with
      | offer r fr n _ _ _ _ hround hstage _ hoffer => exact limitsMove_stepOffer hround hstage hoffer
  · have hother : ∀ ctxDone sendOk now, l ≠ .offer ctxDone sendOk now := fun ctxDone sendOk now hl =>
      hoffer ⟨ctxDone, sendOk, now, hl⟩
    have hnone : c.committed? s l = none := by
      cases l with
      | offer ctxDone sendOk now => exact absurd rfl (hother ctxDone sendOk now)
      | _ => rfl
    rw [hnone]
    exact .reads (reported_of_step h hother) [] (limits_of_step h hother)

end

end GolangCollector.Negotiator
