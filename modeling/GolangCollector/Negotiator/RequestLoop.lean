import GolangCollector.Negotiator.Cycle

/-! # The request loop by itself

What `negotiateSubmitter` does with the requests of a submitter (`cycle/spin.go`), as the sequence of
its acts: requests are fetched, dropped without a reply, answered with a match or rejected. The loop
is taken as the queue and the variables it turns on (`LoopView`) and the moves it can make
(`LoopMove`). Two things are kept by every move: the replies come request by request (`InOrder`), and
what is dropped for its autocluster follows a reject (`Justified`). -/

namespace GolangCollector.Negotiator

open GoStrings List Option

/-! ## Acts -/

inductive Act where
  | fetched (rs : List Request)
  | dropped (r : Request)
  | matched (r : Request)
  | rejected (r : Request)
  deriving DecidableEq

namespace Act

def requests : Act → List Request
  | fetched rs => rs
  | _ => []

def isReply : Act → Bool
  | matched _ | rejected _ => true
  | _ => false

def rejected? : Act → Option Request
  | rejected r => some r
  | _ => none

end Act

def Request.SameAs (r r' : Request) : Prop := r = { r' with ad := r.ad }

instance (r r' : Request) : Decidable (r.SameAs r') :=
  inferInstanceAs (Decidable (r = { r' with ad := r.ad }))

theorem Request.SameAs.refl (r : Request) : r.SameAs r := rfl

theorem Request.SameAs.withAd {r r' : Request} (h : r.SameAs r') (ad : ClassAd) :
    Request.SameAs { r with ad := ad } r' := by
  rw [SameAs, h]

theorem Request.SameAs.count_eq {r r' : Request} (h : r.SameAs r') : r.count = r'.count := by
  rw [h]

theorem Request.SameAs.autoClusterID_eq {r r' : Request} (h : r.SameAs r') :
    r.autoClusterID = r'.autoClusterID := by
  rw [h]

/-! ## The loop and its moves -/

structure LoopView where
  queue : List Request
  cur : Option Request
  curOffers : ℤ
  rejectedACs : List ℤ
  phase : NegPhase

def NegPhase.Left : NegPhase → Prop
  | .returned _ => True
  | _ => False

def LoopView.skips (v : LoopView) (r : Request) : Bool :=
  0 ≤ r.autoClusterID && r.autoClusterID ∈ v.rejectedACs

/-- **A move of the request loop**, and its acts. -/
inductive LoopMove (fails : Request → Bool) (v : LoopView) : List Act → LoopView → Prop where
  /-- Someone else moves. -/
  | stays : LoopMove fails v [] v
  /-- The loop is left at its head, or while it waits for requests. -/
  | leaves {v' : LoopView} (hleft : v'.phase.Left) : LoopMove fails v [] v'
  /-- The current request is offered again. -/
  | offers {req : Request} (hphase : v.phase = .top) (hcur : v.cur = some req)
      (hcount : v.curOffers < req.count) : LoopMove fails v [] { v with phase := .offer }
  /-- The current request is used up, or there is none. -/
  | asks (hphase : v.phase = .top) :
      LoopMove fails v [] { v with cur := none, curOffers := 0, phase := .request }
  | takes {dropped rest : List Request} {req : Request} (hphase : v.phase = .request)
      (hqueue : v.queue = dropped ++ req :: rest)
      (hdropped : ∀ r ∈ dropped, v.skips r = true ∨ fails r = true) :
      LoopMove fails v (dropped.map .dropped)
        { v with queue := rest, cur := some req, phase := .offer }
  /-- Every queued request is dropped; more are fetched, or the loop is left. -/
  | runsOut {v' : LoopView} (hphase : v.phase = .request)
      (hdropped : ∀ r ∈ v.queue, v.skips r = true ∨ fails r = true)
      (hnext : v'.phase.Left ∨ v' = { v with queue := [], phase := .fetching }) :
      LoopMove fails v (v.queue.map .dropped) v'
  | fetches (rs : List Request) (hphase : v.phase = .fetching) :
      LoopMove fails v [.fetched rs] { v with queue := rs, phase := .request }
  | grants {v' : LoopView} {req : Request} (ad : ClassAd) (hphase : v.phase = .offer)
      (hcur : v.cur = some req)
      (hnext : v'.phase.Left ∨ v' = { v with
        cur := some { req with ad := ad }, curOffers := v.curOffers + 1, phase := .top }) :
      LoopMove fails v [.matched { req with ad := ad }] v'
  | rejects {v' : LoopView} {req : Request} (ad : ClassAd) (hphase : v.phase = .offer)
      (hcur : v.cur = some req)
      (hnext : v'.phase.Left ∨ v' = { v with
        cur := none, phase := .top
        rejectedACs :=
          if 0 ≤ req.autoClusterID then req.autoClusterID :: v.rejectedACs else v.rejectedACs }) :
      LoopMove fails v [.rejected { req with ad := ad }] v'

/-! ## Groups of replies -/

structure ReplyGroup where
  request : Request
  matched : List Request
  rejected : Option Request

namespace ReplyGroup

def acts (g : ReplyGroup) : List Act :=
  g.matched.map .matched ++ g.rejected.toList.map .rejected

structure Disciplined (g : ReplyGroup) : Prop where
  same : ∀ r ∈ g.matched ++ g.rejected.toList, r.SameAs g.request
  bound : (g.matched.length : ℤ) ≤ max 1 g.request.count
  below : g.rejected.isSome → (g.matched.length : ℤ) < max 1 g.request.count

theorem disciplined_nil (req : Request) : Disciplined ⟨req, [], none⟩ where
  same := nofun
  bound := le_max_of_le_left (by simp)
  below := nofun

end ReplyGroup

/-- **What was done so far is in order.** -/
structure Replied (queue₀ : List Request) (acts : List Act) (groups : List ReplyGroup)
    (taken rest : List Request) : Prop where
  stream : queue₀ ++ acts.flatMap Act.requests = taken ++ rest
  order : (groups.map ReplyGroup.request).Sublist taken
  replies : acts.filter Act.isReply = groups.flatMap ReplyGroup.acts
  disciplined : ∀ g ∈ groups, g.Disciplined
  dropped : ∀ r, Act.dropped r ∈ acts → r ∈ taken

namespace Replied

variable {queue₀ : List Request} {acts : List Act} {groups : List ReplyGroup}
  {taken rest : List Request}

theorem nil (queue₀ : List Request) : Replied queue₀ [] [] [] queue₀ where
  stream := by simp
  order := .slnil
  replies := rfl
  disciplined := nofun
  dropped := nofun

theorem drop {dropped : List Request} (h : Replied queue₀ acts groups taken (dropped ++ rest)) :
    Replied queue₀ (acts ++ dropped.map .dropped) groups (taken ++ dropped) rest where
  stream := by
    have hnone : (dropped.map Act.dropped).flatMap Act.requests = [] := by
      simp [flatMap_map, Act.requests]
    rw [flatMap_append, hnone, append_nil, h.stream, append_assoc]
  order := h.order.trans (sublist_append_left ..)
  replies := by
    have hnone : (dropped.map Act.dropped).filter Act.isReply = [] := by
      simp [List.filter_map, Function.comp_def, Act.isReply]
    rw [filter_append, hnone, append_nil, h.replies]
  disciplined := h.disciplined
  dropped r hr := by
    rcases mem_append.mp hr with hr | hr
    · exact mem_append_left _ (h.dropped r hr)
    · obtain ⟨r', hr', ⟨⟩⟩ := mem_map.mp hr
      exact mem_append_right _ hr'

theorem take {req : Request} (h : Replied queue₀ acts groups taken (req :: rest)) :
    Replied queue₀ acts (groups ++ [⟨req, [], none⟩]) (taken ++ [req]) rest where
  stream := by rw [h.stream, append_assoc, singleton_append]
  order := by simpa using h.order.append (.refl [req])
  replies := by simp [h.replies, ReplyGroup.acts]
  disciplined g hg := by
    rcases mem_append.mp hg with hg | hg
    · exact h.disciplined g hg
    · rw [mem_singleton.mp hg]
      exact ReplyGroup.disciplined_nil req
  dropped r hr := mem_append_left _ (h.dropped r hr)

theorem fetch (h : Replied queue₀ acts groups taken []) (rs : List Request) :
    Replied queue₀ (acts ++ [.fetched rs]) groups taken rs where
  stream := by
    have hstream := h.stream
    rw [append_nil] at hstream
    simp [← append_assoc, hstream, Act.requests]
  order := h.order
  replies := by simp [filter_append, h.replies, Act.isReply]
  disciplined := h.disciplined
  dropped r hr := h.dropped r (by simpa using hr)

theorem reply {done : List ReplyGroup} {g g' : ReplyGroup} {a : Act}
    (h : Replied queue₀ acts (done ++ [g]) taken rest) (hrequest : g'.request = g.request)
    (hacts : g'.acts = g.acts ++ [a]) (ha : a.isReply = true) (hg' : g'.Disciplined) :
    Replied queue₀ (acts ++ [a]) (done ++ [g']) taken rest where
  stream := by
    have hnone : a.requests = [] := by cases a <;> first | rfl | cases ha
    simpa [hnone] using h.stream
  order := by simpa [hrequest] using h.order
  replies := by simp [filter_append, ha, h.replies, hacts]
  disciplined g hg := by
    rcases mem_append.mp hg with hg | hg
    · exact h.disciplined g (mem_append_left _ hg)
    · rw [mem_singleton.mp hg]
      exact hg'
  dropped r hr := by
    rcases mem_append.mp hr with hr | hr
    · exact h.dropped r hr
    · rw [← mem_singleton.mp hr] at ha
      cases ha

end Replied

structure Cursor (v : LoopView) (current : Option ReplyGroup) (rest : List Request) : Prop where
  queue : rest = v.queue
  idle : v.phase = .request ∨ v.phase = .fetching → v.cur = none ∧ v.curOffers = 0
  drained : v.phase = .fetching → v.queue = []
  offered : v.phase = .offer → ∀ req, v.cur = some req → v.curOffers < req.count ∨ v.curOffers = 0
  of_none : v.cur = none → current = none
  of_some : ∀ req, v.cur = some req → ∃ g, current = some g ∧ req.SameAs g.request ∧
    g.rejected = none ∧ (g.matched.length : ℤ) = v.curOffers

def InOrder (queue₀ : List Request) (acts : List Act) (v : LoopView) : Prop :=
  ∃ done current taken rest, Replied queue₀ acts (done ++ Option.toList current) taken rest ∧
    (¬ v.phase.Left → Cursor v current rest)

section

variable {fails : Request → Bool} {queue₀ : List Request} {acts new : List Act} {v v' : LoopView}

theorem Cursor.offering {current : Option ReplyGroup} {rest : List Request} {req : Request}
    (h : Cursor v current rest) (hphase : v.phase = .offer) (hcur : v.cur = some req) :
    ∃ g, current = some g ∧ req.SameAs g.request ∧ g.rejected = none ∧
      (g.matched.length : ℤ) = v.curOffers ∧ (g.matched.length : ℤ) < max 1 g.request.count := by
  obtain ⟨g, hg, hsame, hnone, hlength⟩ := h.of_some req hcur
  have hbelow := h.offered hphase req hcur
  rw [hsame.count_eq] at hbelow
  exact ⟨g, hg, hsame, hnone, hlength, by omega⟩

theorem InOrder.move (h : InOrder queue₀ acts v) (hmove : LoopMove fails v new v') :
    InOrder queue₀ (acts ++ new) v' := by
  obtain ⟨done, current, taken, rest, hreplied, hcursor⟩ := h
  cases hmove with
  | stays =>
    rw [append_nil]
    exact ⟨done, current, taken, rest, hreplied, hcursor⟩
  | leaves hleft =>
    rw [append_nil]
    exact ⟨done, current, taken, rest, hreplied, fun hnot => absurd hleft hnot⟩
  | @offers req hphase hcur hcount =>
    rw [append_nil]
    have hc := hcursor (by simp [hphase, NegPhase.Left])
    refine ⟨done, current, taken, rest, hreplied, fun _ => ⟨hc.queue, ?_, ?_, ?_, hc.of_none, ?_⟩⟩
    · simp
    · simp
    · rintro - req' hreq'
      obtain rfl := some.inj (hcur.symm.trans hreq')
      exact Or.inl hcount
    · exact hc.of_some
  | asks hphase =>
    rw [append_nil]
    have hc := hcursor (by simp [hphase, NegPhase.Left])
    refine ⟨done ++ current.toList, none, taken, rest, ?_, fun _ => ⟨hc.queue, ?_, ?_, ?_, ?_, ?_⟩⟩
    · simpa using hreplied
    all_goals simp
  | @takes dropped rest' req hphase hqueue hdropped =>
    have hc := hcursor (by simp [hphase, NegPhase.Left])
    obtain ⟨hcur, hoffers⟩ := hc.idle (Or.inl hphase)
    obtain rfl := hc.of_none hcur
    obtain rfl := hc.queue
    rw [hqueue] at hreplied
    refine ⟨done, some ⟨req, [], none⟩, taken ++ dropped ++ [req], rest', ?_,
      fun _ => ⟨rfl, ?_, ?_, ?_, ?_, ?_⟩⟩
    · simpa using hreplied.drop.take
    · simp
    · simp
    · exact fun _ _ _ => Or.inr hoffers
    · simp
    · rintro req' ⟨⟩
      exact ⟨_, rfl, .refl req, rfl, by simpa using hoffers.symm⟩
  | runsOut hphase hdropped hnext =>
    have hc := hcursor (by simp [hphase, NegPhase.Left])
    have hdrop : Replied queue₀ (acts ++ v.queue.map .dropped) (done ++ current.toList)
        (taken ++ v.queue) [] := by
      rw [← hc.queue]
      exact Replied.drop (by simpa using hreplied)
    refine ⟨done, current, _, _, hdrop, fun hnot => ?_⟩
    obtain rfl := hnext.resolve_left hnot
    exact ⟨rfl, fun _ => hc.idle (Or.inl hphase), fun _ => rfl, by simp, hc.of_none, hc.of_some⟩
  | fetches rs hphase =>
    have hc := hcursor (by simp [hphase, NegPhase.Left])
    rw [hc.queue, hc.drained hphase] at hreplied
    exact ⟨done, current, taken, rs, hreplied.fetch rs, fun _ =>
      ⟨rfl, fun _ => hc.idle (Or.inr hphase), by simp, by simp, hc.of_none, hc.of_some⟩⟩
  | @grants _ req ad hphase hcur hnext =>
    have hc := hcursor (by simp [hphase, NegPhase.Left])
    obtain ⟨g, rfl, hsame, hnone, hlength, hbelow⟩ := hc.offering hphase hcur
    have hg : g.Disciplined := hreplied.disciplined g (by simp)
    refine ⟨done, some { g with matched := g.matched ++ [{ req with ad := ad }] }, taken, rest,
      hreplied.reply rfl ?_ rfl ⟨?_, ?_, ?_⟩, fun hnot => ?_⟩
    · simp [ReplyGroup.acts, hnone]
    · simp only [hnone, toList_none, append_nil, mem_append, mem_singleton]
      rintro r (hr | rfl)
      · exact hg.same r (mem_append_left _ hr)
      · exact hsame.withAd ad
    · simp only [length_append, length_singleton, Nat.cast_add, Nat.cast_one]
      omega
    · simp [hnone]
    · obtain rfl := hnext.resolve_left hnot
      refine ⟨hc.queue, by simp, by simp, by simp, by simp, ?_⟩
      rintro req' ⟨⟩
      exact ⟨_, rfl, hsame.withAd ad, hnone, by simp [hlength]⟩
  | @rejects _ req ad hphase hcur hnext =>
    have hc := hcursor (by simp [hphase, NegPhase.Left])
    obtain ⟨g, rfl, hsame, hnone, -, hbelow⟩ := hc.offering hphase hcur
    have hg : g.Disciplined := hreplied.disciplined g (by simp)
    refine ⟨done ++ [{ g with rejected := some { req with ad := ad } }], none, taken, rest,
      ?_, fun hnot => ?_⟩
    · rw [toList_none, append_nil]
      refine hreplied.reply rfl ?_ rfl ⟨?_, hg.bound, fun _ => hbelow⟩
      · simp [ReplyGroup.acts, hnone]
      · simp only [toList_some, mem_append, mem_singleton]
        rintro r (hr | rfl)
        · exact hg.same r (mem_append_left _ hr)
        · exact hsame.withAd ad
    · obtain rfl := hnext.resolve_left hnot
      exact ⟨hc.queue, by simp, by simp, by simp, by simp, by simp⟩

end

/-! ## Dropped requests -/

def WasRejected (queue₀ : List Request) (acts : List Act) (ac : ℤ) : Prop :=
  ∃ q f, Act.rejected q ∈ acts ∧ f ∈ queue₀ ++ acts.flatMap Act.requests ∧ q.SameAs f ∧
    f.autoClusterID = ac

def DropsJustified (fails : Request → Bool) (queue₀ : List Request) (acts : List Act) : Prop :=
  ∀ before r, before ++ [Act.dropped r] <+: acts → fails r = false →
    WasRejected queue₀ before r.autoClusterID

section

variable {fails : Request → Bool} {queue₀ : List Request} {acts new : List Act} {v v' : LoopView}

theorem WasRejected.append {ac : ℤ} (h : WasRejected queue₀ acts ac) (new : List Act) :
    WasRejected queue₀ (acts ++ new) ac := by
  obtain ⟨q, f, hq, hf, hsame, hac⟩ := h
  refine ⟨q, f, mem_append_left _ hq, ?_, hsame, hac⟩
  rw [flatMap_append, ← append_assoc]
  exact mem_append_left _ hf

theorem DropsJustified.snoc (h : DropsJustified fails queue₀ acts) {a : Act}
    (ha : ∀ r, a = .dropped r → fails r = false → WasRejected queue₀ acts r.autoClusterID) :
    DropsJustified fails queue₀ (acts ++ [a]) := by
  intro before r hbefore hr
  rcases prefix_concat_iff.mp hbefore with heq | hbefore
  · obtain ⟨rfl, ⟨⟩⟩ := append_inj' heq rfl
    exact ha r rfl hr
  · exact h before r hbefore hr

theorem DropsJustified.drops {dropped : List Request} (h : DropsJustified fails queue₀ acts)
    (hdropped : ∀ r ∈ dropped, fails r = false → WasRejected queue₀ acts r.autoClusterID) :
    DropsJustified fails queue₀ (acts ++ dropped.map .dropped) := by
  induction dropped generalizing acts with
  | nil => simpa using h
  | cons r dropped ih =>
    rw [forall_mem_cons] at hdropped
    rw [map_cons, append_cons]
    refine ih (h.snoc ?_) fun r' hr' hpass => (hdropped.2 r' hr' hpass).append _
    rintro _ ⟨⟩
    exact hdropped.1

structure Justified (fails : Request → Bool) (queue₀ : List Request) (acts : List Act)
    (v : LoopView) : Prop where
  remembered : ¬ v.phase.Left → ∀ ac ∈ v.rejectedACs, WasRejected queue₀ acts ac
  drops : DropsJustified fails queue₀ acts

theorem Justified.move (h : Justified fails queue₀ acts v) (horder : InOrder queue₀ acts v)
    (hmove : LoopMove fails v new v') : Justified fails queue₀ (acts ++ new) v' := by
  -- a queued request that is dropped and passes the constraint is of a remembered autocluster
  have hskips : ¬ v.phase.Left → ∀ r, v.skips r = true ∨ fails r = true → fails r = false →
      WasRejected queue₀ acts r.autoClusterID := by
    intro hnot r hdrop hpass
    rw [hpass, or_iff_left (by simp), LoopView.skips, Bool.and_eq_true, decide_eq_true_iff,
      decide_eq_true_iff] at hdrop
    exact h.remembered hnot _ hdrop.2
  cases hmove with
  | stays => rwa [append_nil]
  | leaves hleft =>
    rw [append_nil]
    exact ⟨fun hnot => absurd hleft hnot, h.drops⟩
  | offers hphase _ _ | asks hphase =>
    rw [append_nil]
    exact ⟨fun _ => h.remembered (by simp [hphase, NegPhase.Left]), h.drops⟩
  | takes hphase hqueue hdropped =>
    have hnot : ¬ v.phase.Left := by simp [hphase, NegPhase.Left]
    exact ⟨fun _ ac hac => (h.remembered hnot ac hac).append _,
      h.drops.drops fun r hr => hskips hnot r (hdropped r hr)⟩
  | runsOut hphase hdropped hnext =>
    have hnot : ¬ v.phase.Left := by simp [hphase, NegPhase.Left]
    refine ⟨fun hnot' ac hac => ?_, h.drops.drops fun r hr => hskips hnot r (hdropped r hr)⟩
    obtain rfl := hnext.resolve_left hnot'
    exact (h.remembered hnot ac hac).append _
  | fetches rs hphase =>
    exact ⟨fun _ ac hac => (h.remembered (by simp [hphase, NegPhase.Left]) ac hac).append _,
      h.drops.snoc nofun⟩
  | grants ad hphase hcur hnext =>
    refine ⟨fun hnot ac hac => ?_, h.drops.snoc nofun⟩
    obtain rfl := hnext.resolve_left hnot
    exact (h.remembered (by simp [hphase, NegPhase.Left]) ac hac).append _
  | @rejects _ req ad hphase hcur hnext =>
    have hnot : ¬ v.phase.Left := by simp [hphase, NegPhase.Left]
    refine ⟨fun hnot' ac hac => ?_, h.drops.snoc nofun⟩
    obtain rfl := hnext.resolve_left hnot'
    -- the rejected request is the one of the current group, which was taken from what was fetched
    have hnew : WasRejected queue₀ (acts ++ [.rejected { req with ad := ad }])
        req.autoClusterID := by
      obtain ⟨done, current, taken, rest, hreplied, hcursor⟩ := horder
      obtain ⟨g, rfl, hsame, -⟩ := (hcursor hnot).of_some req hcur
      have htaken : g.request ∈ taken := hreplied.order.subset (by simp)
      refine ⟨_, g.request, mem_append_right _ (mem_singleton_self _), ?_,
        hsame.withAd ad, hsame.autoClusterID_eq.symm⟩
      rw [flatMap_append, ← append_assoc, hreplied.stream]
      exact mem_append_left _ (mem_append_left _ htaken)
    dsimp only at hac
    split at hac
    · rcases mem_cons.mp hac with rfl | hac
      · exact hnew
      · exact (h.remembered hnot ac hac).append _
    · exact (h.remembered hnot ac hac).append _

end

end GolangCollector.Negotiator
