import GolangCollector.Lib.Runs
import GolangCollector.Store.Remote

/-! # A connection of the remote backend

A `connLane` (`store/rpcbackend.go`) keeps one client of the database. `conn` returns it, or starts
a dial in a goroutine of its own (`dialShared`) and waits for that; while a dial is in flight every
caller waits for the same one. `drop` discards a client that broke, `close` shuts the lane.

Each critical section under the lane's mutex is one step, and so is each way out of a wait. The dial
itself runs outside the mutex, so that everything else can happen between its start and its end; the
world decides how it ends and how long the lane then holds off (the backoff with its jitter). Clients
and channels are numbered as they are made. -/

namespace GolangCollector.ConnLane

open GoStrings List

/-! ## The lane -/

def errBackendClosed : RpcError := .transport "collector: rpc backend is closed"

def dialFailure (err : Text) : RpcError :=
  .transport ("collector: connect to ad database: " ++ err)

inductive Caller where
  | idle
  /-- At the head of the loop. -/
  | entered
  /-- At the backoff gate, until a time. -/
  | gated (wakes : ℕ)
  /-- In wait of a dial, on its channel. -/
  | waiting (done : ℕ)
  /-- Past the wait, before the last look at the lane. -/
  | woken
  | returned (client : Option ℕ) (err : Option RpcError)
  deriving DecidableEq, Repr

/-- **`connLane`**, and what goes on around it. -/
structure Lane where
  client : Option ℕ
  /-- The channel that the end of the dial closes. -/
  dialing : Option ℕ
  dialErr : Option RpcError
  nextDialAt : ℕ
  closed : Bool
  now : ℕ
  /-- How many `dialShared` goroutines run. -/
  dials : ℕ
  /-- How many channels and how many clients have been made. -/
  chans : ℕ
  clients : ℕ
  /-- The channels that were closed, and the clients, in the order of the calls. -/
  closedChans : List ℕ
  closings : List ℕ
  /-- A goroutine closed a channel that is not there. -/
  panicked : Bool
  callers : ℕ → Caller

def fresh : Lane where
  client := none
  dialing := none
  dialErr := none
  nextDialAt := 0
  closed := false
  now := 0
  dials := 0
  chans := 0
  clients := 0
  closedChans := []
  closings := []
  panicked := false
  callers := fun _ => .idle

inductive Event where
  /-- A caller calls `conn`. -/
  | enter (c : ℕ)
  /-- A caller takes the first look at the lane. -/
  | look (c : ℕ)
  /-- The gate of a caller opens. -/
  | gateOpens (c : ℕ)
  /-- A caller finds its channel closed. -/
  | wake (c : ℕ)
  /-- The context of a waiting caller ends. -/
  | cancel (c : ℕ)
  /-- A caller takes the second look. -/
  | lookAgain (c : ℕ)
  /-- A dial ends; after a failure the lane holds off. -/
  | dialEnds (err : Option Text) (holdOff : ℕ)
  | drop (cl : ℕ)
  | close
  | advance (d : ℕ)
  deriving DecidableEq, Repr

def Event.bringsClient : Event → Bool
  | .dialEnds none _ => true
  | _ => false

namespace Lane

def goes (s : Lane) (c : ℕ) (pc : Caller) : Lane :=
  { s with callers := fun c' => if c' = c then pc else s.callers c' }

def look (s : Lane) (c : ℕ) : Lane :=
  if s.closed then s.goes c (.returned none (some errBackendClosed))
  else
    match s.client with
    | some cl => s.goes c (.returned (some cl) none)
    | none =>
      if s.now < s.nextDialAt then s.goes c (.gated s.nextDialAt)
      else
        match s.dialing with
        | some done => s.goes c (.waiting done)
        | none =>
          { s with dialing := some s.chans, chans := s.chans + 1, dials := s.dials + 1 }.goes c
            (.waiting s.chans)

def lookAgain (s : Lane) (c : ℕ) : Lane :=
  if s.closed then s.goes c (.returned none (some errBackendClosed))
  else
    match s.client with
    | some cl => s.goes c (.returned (some cl) none)
    | none => s.goes c (.returned none s.dialErr)

def endDial (s : Lane) (err : Option Text) (holdOff : ℕ) : Lane :=
  let s := { s with dials := s.dials - 1 }
  let s :=
    match err with
    | none =>
      { s with client := some s.clients, clients := s.clients + 1, dialErr := none, nextDialAt := 0 }
    | some e => { s with dialErr := some (dialFailure e), nextDialAt := s.now + holdOff }
  match s.dialing with
  | some done => { s with dialing := none, closedChans := s.closedChans ++ [done] }
  | none => { s with panicked := true }

def drop (s : Lane) (cl : ℕ) : Lane :=
  if s.client = some cl then { s with client := none, closings := s.closings ++ [cl] } else s

def close (s : Lane) : Lane :=
  { s with closed := true, client := none, closings := s.closings ++ s.client.toList }

def step (s : Lane) : Event → Option Lane
  | .enter c =>
    match s.callers c with
    | .idle | .returned .. => some (s.goes c .entered)
    | _ => none
  | .look c => if s.callers c = .entered then some (s.look c) else none
  | .gateOpens c =>
    match s.callers c with
    | .gated wakes => if wakes ≤ s.now then some (s.goes c .entered) else none
    | _ => none
  | .wake c =>
    match s.callers c with
    | .waiting done => if done ∈ s.closedChans then some (s.goes c .woken) else none
    | _ => none
  | .cancel c =>
    match s.callers c with
    | .gated _ | .waiting _ => some (s.goes c (.returned none (some .context)))
    | _ => none
  | .lookAgain c => if s.callers c = .woken then some (s.lookAgain c) else none
  | .dialEnds err holdOff => if 0 < s.dials then some (s.endDial err holdOff) else none
  | .drop cl => some (s.drop cl)
  | .close => some s.close
  | .advance d => some { s with now := s.now + d }

/-! ## What a step can do -/

def CallersOnly (s s' : Lane) : Prop :=
  ∃ callers now, s' = { s with callers := callers, now := now } ∧
    ∀ c done, callers c = .waiting done → s.callers c = .waiting done ∨ s.dialing = some done

def StartsDial (s s' : Lane) : Prop :=
  ∃ c, s.closed = false ∧ s.client = none ∧ s.dialing = none ∧
    s' = { s with dialing := some s.chans, chans := s.chans + 1, dials := s.dials + 1 }.goes c
      (.waiting s.chans)

variable {s s' : Lane} {l : Event}

theorem callersOnly_goes {c : ℕ} {pc : Caller}
    (h : ∀ done, pc = .waiting done → s.dialing = some done) : CallersOnly s (s.goes c pc) := by
  refine ⟨_, s.now, rfl, fun c' done hwait => ?_⟩
  split at hwait
  · exact Or.inr (h done hwait)
  · exact Or.inl hwait

theorem step_cases (h : s.step l = some s') :
    CallersOnly s s' ∨ StartsDial s s' ∨
      (∃ err holdOff, l = .dialEnds err holdOff ∧ 0 < s.dials ∧ s' = s.endDial err holdOff) ∨
      (∃ cl, l = .drop cl ∧ s.client = some cl ∧
        s' = { s with client := none, closings := s.closings ++ [cl] }) ∨
      (l = .close ∧ s' = s.close) := by
  cases l with
  | enter c =>
    rw [step] at h
    split at h
    · cases h
      exact Or.inl (callersOnly_goes nofun)
    · cases h
      exact Or.inl (callersOnly_goes nofun)
    · cases h
  | look c =>
    rw [step] at h
    split at h
    · cases h
      rw [look]
      split
      · exact Or.inl (callersOnly_goes nofun)
      · rename_i hopen
        split
        · exact Or.inl (callersOnly_goes nofun)
        · rename_i hclient
          split
          · exact Or.inl (callersOnly_goes nofun)
          · split
            · rename_i done hdialing
              refine Or.inl (callersOnly_goes fun done' hsame => ?_)
              cases hsame
              exact hdialing
            · rename_i hdialing
              exact Or.inr (Or.inl ⟨c, by simpa using hopen, hclient, hdialing, rfl⟩)
    · cases h
  | gateOpens c | wake c =>
    rw [step] at h
    split at h
    · split at h
      · cases h
        exact Or.inl (callersOnly_goes nofun)
      · cases h
    · cases h
  | cancel c =>
    rw [step] at h
    split at h
    · cases h
      exact Or.inl (callersOnly_goes nofun)
    · cases h
      exact Or.inl (callersOnly_goes nofun)
    · cases h
  | lookAgain c =>
    rw [step] at h
    split at h
    · cases h
      rw [lookAgain]
      split
      · exact Or.inl (callersOnly_goes nofun)
      · split
        · exact Or.inl (callersOnly_goes nofun)
        · exact Or.inl (callersOnly_goes nofun)
    · cases h
  | dialEnds err holdOff =>
    rw [step] at h
    split at h
    · rename_i hdials
      cases h
      exact Or.inr (Or.inr (Or.inl ⟨err, holdOff, rfl, hdials, rfl⟩))
    · cases h
  | drop cl =>
    cases h
    rw [drop]
    split
    · rename_i hcurrent
      exact Or.inr (Or.inr (Or.inr (Or.inl ⟨cl, rfl, hcurrent, rfl⟩)))
    · exact Or.inl ⟨s.callers, s.now, rfl, fun _ _ => Or.inl⟩
  | close =>
    cases h
    exact Or.inr (Or.inr (Or.inr (Or.inr ⟨rfl, rfl⟩)))
  | advance d =>
    cases h
    exact Or.inl ⟨s.callers, s.now + d, rfl, fun _ _ => Or.inl⟩

/-! ## What holds in every state -/

structure Ordered (s : Lane) : Prop where
  /-- The lane says that a dial is in flight exactly while one is. -/
  dials : s.dials = s.dialing.toList.length
  quiet : s.panicked = false
  /-- While a dial is in flight there is no client. -/
  clientless : s.dialing.isSome → s.client = none
  waits : ∀ c done, s.callers c = .waiting done → s.dialing = some done ∨ done ∈ s.closedChans
  closings_nodup : s.closings.Nodup
  closings_lt : ∀ cl ∈ s.closings, cl < s.clients
  /-- The client that the lane holds is one of those made, and open. -/
  client_open : ∀ cl, s.client = some cl → cl < s.clients ∧ cl ∉ s.closings

theorem ordered_fresh : Ordered fresh where
  dials := rfl
  quiet := rfl
  clientless := nofun
  waits := nofun
  closings_nodup := List.nodup_nil
  closings_lt := nofun
  client_open := nofun

section

variable (h : s.Ordered)
include h

theorem Ordered.exists_dialing (hdials : 0 < s.dials) :
    ∃ done, s.dialing = some done ∧ s.dials = 1 := by
  rw [h.dials] at hdials ⊢
  cases hdialing : s.dialing with
  | none =>
    rw [hdialing] at hdials
    exact absurd hdials (lt_irrefl 0)
  | some done => exact ⟨done, rfl, rfl⟩

theorem Ordered.endDial (hdials : 0 < s.dials) (err : Option Text) (holdOff : ℕ) :
    (s.endDial err holdOff).Ordered := by
  obtain ⟨done, hdialing, hone⟩ := h.exists_dialing hdials
  have hnone : s.client = none := h.clientless (by rw [hdialing]; rfl)
  have hwaits : ∀ c done', s.callers c = .waiting done' →
      (none : Option ℕ) = some done' ∨ done' ∈ s.closedChans ++ [done] := by
    intro c done' hwait
    right
    rcases h.waits c done' hwait with hsame | hclosed
    · rw [hdialing] at hsame
      cases hsame
      simp
    · exact mem_append_left _ hclosed
  cases err with
  | none =>
    simp only [Lane.endDial, hdialing]
    refine ⟨by simp [hone], h.quiet, nofun, hwaits, h.closings_nodup, fun cl hcl => ?_, ?_⟩
    · exact Nat.lt_succ_of_lt (h.closings_lt cl hcl)
    · rintro cl ⟨⟩
      exact ⟨Nat.lt_succ_self _, fun hmem => lt_irrefl _ (h.closings_lt _ hmem)⟩
  | some e =>
    simp only [Lane.endDial, hdialing]
    exact ⟨by simp [hone], h.quiet, nofun, hwaits, h.closings_nodup, h.closings_lt, h.client_open⟩

theorem Ordered.closeClient {cl : ℕ} (hcl : s.client = some cl) (closed : Bool) :
    Ordered { s with client := none, closings := s.closings ++ [cl], closed := closed } := by
  obtain ⟨hlt, hopen⟩ := h.client_open cl hcl
  refine ⟨h.dials, h.quiet, fun _ => rfl, h.waits, ?_, ?_, nofun⟩
  · exact nodup_append.mpr ⟨h.closings_nodup, nodup_singleton _, fun a ha b hb => by
      rintro rfl
      exact hopen (mem_singleton.mp hb ▸ ha)⟩
  · intro cl' hmem
    rcases mem_append.mp hmem with hold | hnew
    · exact h.closings_lt cl' hold
    · exact mem_singleton.mp hnew ▸ hlt

theorem Ordered.step (hstep : s.step l = some s') : s'.Ordered := by
  rcases step_cases hstep with ⟨callers, now, rfl, hcallers⟩ | ⟨c, -, hclient, hdialing, rfl⟩ |
    ⟨err, holdOff, -, hdials, rfl⟩ | ⟨cl, -, hcl, rfl⟩ | ⟨-, rfl⟩
  · refine ⟨h.dials, h.quiet, h.clientless, fun c done hwait => ?_, h.closings_nodup,
      h.closings_lt, h.client_open⟩
    exact (hcallers c done hwait).elim (h.waits c done) Or.inl
  · refine ⟨?_, h.quiet, fun _ => hclient, fun c' done hwait => ?_, h.closings_nodup,
      h.closings_lt, h.client_open⟩
    · have hdials := h.dials
      rw [hdialing] at hdials
      exact congrArg (· + 1) hdials
    · dsimp only [goes] at hwait ⊢
      split at hwait
      · cases hwait
        exact Or.inl rfl
      · rcases h.waits c' done hwait with hsame | hclosed
        · rw [hdialing] at hsame
          cases hsame
        · exact Or.inr hclosed
  · exact h.endDial hdials err holdOff
  · exact h.closeClient hcl s.closed
  · rw [Lane.close]
    cases hclient : s.client with
    | none =>
      rw [Option.toList_none, append_nil]
      exact ⟨h.dials, h.quiet, fun _ => rfl, h.waits, h.closings_nodup, h.closings_lt, nofun⟩
    | some cl => exact h.closeClient hclient true

/-! ## The discipline of a lane -/

structure Disciplined (s : Lane) : Prop where
  one_dial : s.dials ≤ 1
  dialing_iff : s.dialing.isSome ↔ 0 < s.dials
  quiet : s.panicked = false
  released : ∀ c done, s.callers c = .waiting done →
    s.dialing = some done ∨ (s.step (.wake c)).isSome
  drops_current : ∀ cl s', s.step (.drop cl) = some s' → s'.closings ≠ s.closings →
    s.client = some cl ∧ s'.closings = s.closings ++ [cl]
  closes_once : s.closings.Nodup
  shut : s.closed → s.dials = 0 → s.client = none

theorem Ordered.disciplined (hshut : s.closed → s.dials = 0 → s.client = none) : s.Disciplined where
  one_dial := by
    rw [h.dials]
    cases s.dialing <;> simp
  dialing_iff := by
    rw [h.dials]
    cases s.dialing <;> simp
  quiet := h.quiet
  released c done hwait := by
    refine (h.waits c done hwait).imp_right fun hclosed => ?_
    simp [Lane.step, hwait, hclosed]
  drops_current cl s' hstep hne := by
    cases hstep
    rw [drop] at hne ⊢
    split at hne
    · rename_i hcurrent
      rw [if_pos hcurrent]
      exact ⟨hcurrent, rfl⟩
    · exact absurd rfl hne
  closes_once := h.closings_nodup
  shut := hshut

end

def NoLateClient (s : Lane) (l : Event) : Prop := l.bringsClient = true → s.closed = false

instance (s : Lane) (l : Event) : Decidable (s.NoLateClient l) :=
  inferInstanceAs (Decidable (_ → _))

theorem client_of_closed (hstep : s.step l = some s') (hlate : s.NoLateClient l)
    (h : s.closed = true → s.client = none) : s'.closed = true → s'.client = none := by
  rcases step_cases hstep with ⟨callers, now, rfl, -⟩ | ⟨c, -, hclient, -, rfl⟩ |
    ⟨err, holdOff, rfl, hdials, rfl⟩ | ⟨cl, -, -, rfl⟩ | ⟨-, rfl⟩
  · exact h
  · exact fun _ => hclient
  · cases err with
    | none =>
      have hopen := hlate rfl
      intro hclosed
      rw [endDial] at hclosed
      dsimp only at hclosed
      split at hclosed
      · rw [hopen] at hclosed
        cases hclosed
      · rw [hopen] at hclosed
        cases hclosed
    | some e =>
      rw [endDial]
      dsimp only
      split <;> exact h
  · exact fun _ => rfl
  · exact fun _ => rfl

theorem not_disciplined_of_late (h : s.Ordered) (hstep : s.step l = some s')
    (hlate : ¬ s.NoLateClient l) : ¬ s'.Disciplined := by
  intro hdisc
  simp only [NoLateClient, Classical.not_imp, Bool.not_eq_false] at hlate
  obtain ⟨hbrings, hclosed⟩ := hlate
  match l, hbrings with
  | .dialEnds none holdOff, _ =>
    rw [step] at hstep
    split at hstep
    · rename_i hdials
      cases hstep
      obtain ⟨done, hdialing, hone⟩ := h.exists_dialing hdials
      have hshut := hdisc.shut
      simp only [endDial, hdialing, hone] at hshut
      cases hshut hclosed trivial
    · cases hstep

end Lane

open Runs

/-- **A lane is disciplined** iff no dial that was in flight when it was closed brings a client. -/
theorem lane_disciplined_iff {ls : List Event} {s : Lane}
    (h : Run Lane.step (fun _ _ => True) fresh ls s) :
    (∀ ls₁ ls₂ s₁, ls = ls₁ ++ ls₂ → Run Lane.step (fun _ _ => True) fresh ls₁ s₁ →
        s₁.Disciplined) ↔
      Run Lane.step Lane.NoLateClient fresh ls s := by
  have hordered : ∀ {ls s}, Run Lane.step (fun _ _ => True) fresh ls s → s.Ordered := fun hrun =>
    hrun.invariant (fun _ _ _ hstep _ hinv => hinv.step hstep) Lane.ordered_fresh
  constructor
  · intro hdisc
    rcases h.run_or_break with hrun | ⟨ls₁, l, ls₂, s₁, s₂, rfl, hbefore, hstep, hlate, -⟩
    · exact hrun
    · -- the state after the late client
      refine absurd ?_ (Lane.not_disciplined_of_late (hordered hbefore) hstep hlate)
      exact hdisc (ls₁ ++ [l]) ls₂ s₂ (by simp) (hbefore.snoc hstep trivial)
  · rintro hrun ls₁ ls₂ s₁ rfl hpre
    have hshut : s₁.closed = true → s₁.client = none :=
      (hrun.of_append hpre).invariant (I := fun s => s.closed = true → s.client = none)
        (fun _ _ _ hstep hlate => Lane.client_of_closed hstep hlate) nofun
    exact (hordered hpre).disciplined fun hclosed _ => hshut hclosed

def orderly : List Event :=
  [.enter 0, .look 0, .enter 1, .look 1, .dialEnds none 0, .wake 0, .lookAgain 0, .wake 1,
    .lookAgain 1, .drop 0, .enter 0, .look 0, .dialEnds (some "refused") 5, .close]

theorem lane_disciplined_orderly :
    ∃ s, Run Lane.step (fun _ _ => True) fresh orderly s ∧
      ∀ ls₁ ls₂ s₁, orderly = ls₁ ++ ls₂ → Run Lane.step (fun _ _ => True) fresh ls₁ s₁ →
        s₁.Disciplined := by
  have hsome : (execUnder Lane.step Lane.NoLateClient fresh orderly).isSome := by decide +kernel
  obtain ⟨s, hs⟩ := Option.isSome_iff_exists.mp hsome
  have hrun := Run.of_execUnder hs
  have hall := hrun.mono (Q := fun _ _ => True) fun _ _ _ => trivial
  exact ⟨s, hall, (lane_disciplined_iff hall).mpr hrun⟩

theorem lane_holds_client_after_close :
    ∃ s, exec Lane.step fresh [.enter 0, .look 0, .close, .dialEnds none 0] = some s ∧
      s.closed = true ∧ s.dials = 0 ∧ s.client = some 0 ∧ s.closings = [] ∧ ¬ s.Disciplined := by
  refine ⟨_, rfl, rfl, rfl, rfl, rfl, fun h => ?_⟩
  cases h.shut rfl rfl

end GolangCollector.ConnLane
