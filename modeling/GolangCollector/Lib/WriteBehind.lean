import Mathlib.Order.Basic
import Mathlib.Tactic.Common

/-! # A write-behind buffer, one key at a time

Writers put versions of a key into a buffer; flushers take the buffered version out and later commit
it to a store, or put it back; other writers and removers act on the store directly. `Cell` is all
that happens to one key. Versions carry the ticket of their acceptance, `latest` remembers the one
accepted last, and `direct` the ticket of the last direct write.

Nothing orders two flights, nor a flight and a direct action. `Act.Calm` is the discipline that
does, and under it `Cell.Ordered` is an invariant: from the store over the flight to the buffer the
versions are ever newer, and the newest is the latest accepted. -/

namespace WriteBehind

open Option

structure Stamped (V : Type) where
  /-- Tickets are handed out in the order of acceptance. -/
  ticket : ℕ
  /-- What was accepted. -/
  version : V
  deriving DecidableEq, Repr

variable {G V : Type}

@[ext]
structure Cell (G V : Type) where
  /-- The buffered version. -/
  buf : Option (Stamped V)
  /-- The version each flusher has taken out and not yet committed. -/
  flight : G → Option (Stamped V)
  /-- The stored version. -/
  stored : Option (Stamped V)
  /-- The version accepted last, unless it was removed. -/
  latest : Option (Stamped V)
  /-- The ticket of the last direct write, unless it was removed. -/
  direct : Option ℕ
  /-- The next ticket. -/
  clock : ℕ

inductive Act (G V : Type) where
  /-- Nothing. -/
  | skip
  /-- Another key is accepted. -/
  | pass
  /-- A version is accepted into the buffer. -/
  | accept (v : V)
  /-- A flusher takes the buffered version out. -/
  | take (g : G)
  /-- A flusher commits what it took out. -/
  | commit (g : G)
  /-- A flusher puts back what it took out, unless a newer version was buffered. -/
  | putBack (g : G)
  /-- A version is accepted and written directly. -/
  | write (v : V)
  /-- The stored version is removed. -/
  | remove
  deriving DecidableEq, Repr

namespace Cell

def next [DecidableEq G] (c : Cell G V) : Act G V → Cell G V
  | .skip => c
  | .pass => { c with clock := c.clock + 1 }
  | .accept v =>
    { c with buf := some ⟨c.clock, v⟩, latest := some ⟨c.clock, v⟩, clock := c.clock + 1 }
  | .take g => { c with buf := none, flight := Function.update c.flight g c.buf }
  -- a flusher that holds nothing of the key leaves the stored version alone
  | .commit g =>
    { c with stored := (c.flight g).or c.stored, flight := Function.update c.flight g none }
  | .putBack g =>
    { c with buf := c.buf.or (c.flight g), flight := Function.update c.flight g none }
  | .write v =>
    { c with
      stored := some ⟨c.clock, v⟩
      latest := some ⟨c.clock, v⟩
      direct := some c.clock
      clock := c.clock + 1 }
  | .remove => { c with stored := none, latest := none, direct := none }

def Settled (c : Cell G V) : Prop := c.buf = none ∧ ∀ g, c.flight g = none

def AtLeast (i : ℕ) (place : Option (Stamped V)) : Prop := ∃ v, place = some v ∧ i ≤ v.ticket

end Cell

namespace Act

def Enabled (c : Cell G V) : Act G V → Prop
  | take g => c.flight g = none
  | _ => True

def Calm (c : Cell G V) : Act G V → Prop
  | take _ => c.buf ≠ none → ∀ h, c.flight h = none
  | write _ => c.Settled
  | remove => c.Settled
  | _ => True

end Act

namespace Cell

/-- **Versions get newer from the store to the buffer.** -/
structure Ordered (c : Cell G V) : Prop where
  single : ∀ g h v w, c.flight g = some v → c.flight h = some w → g = h
  stored_lt_flight : ∀ v g w, c.stored = some v → c.flight g = some w → v.ticket < w.ticket
  flight_lt_buf : ∀ g v w, c.flight g = some v → c.buf = some w → v.ticket < w.ticket
  stored_lt_buf : ∀ v w, c.stored = some v → c.buf = some w → v.ticket < w.ticket
  stored_lt : ∀ v, c.stored = some v → v.ticket < c.clock
  flight_lt : ∀ g v, c.flight g = some v → v.ticket < c.clock
  latest_lt : ∀ v, c.latest = some v → v.ticket < c.clock
  latest_buf : ∀ v, c.buf = some v → c.latest = some v
  latest_flight : c.buf = none → ∀ g v, c.flight g = some v → c.latest = some v
  latest_stored : c.Settled → c.latest = c.stored
  direct_le : ∀ d, c.direct = some d → AtLeast d c.stored

variable [DecidableEq G] {c : Cell G V} {f : G → Option (Stamped V)}

theorem flight_update_none {g h : G} {v : Stamped V} (hv : Function.update f g none h = some v) :
    h ≠ g ∧ f h = some v := by
  by_cases hg : h = g
  · rw [hg, Function.update_self] at hv
    cases hv
  · rw [Function.update_of_ne hg] at hv
    exact ⟨hg, hv⟩

variable {g : G}

theorem flight_eq_none (hg : f g = none) (hall : ∀ h, Function.update f g none h = none) (h : G) :
    f h = none := by
  by_cases hne : h = g
  · rw [hne, hg]
  · rw [← Function.update_of_ne hne none f]
    exact hall h

section

variable (hc : c.Ordered)
include hc

theorem Ordered.accept (v : V) : (c.next (.accept v)).Ordered := by
  refine { hc with
    flight_lt_buf := ?_, stored_lt_buf := ?_, stored_lt := ?_, flight_lt := ?_,
    latest_lt := ?_, latest_buf := ?_, latest_flight := ?_, latest_stored := ?_ }
  -- the new ticket is the clock, which is above every ticket in a place
  · intro g w x hw hx
    cases hx
    exact hc.flight_lt g w hw
  · intro w x hw hx
    cases hx
    exact hc.stored_lt w hw
  · exact fun w hw => Nat.lt_succ_of_lt (hc.stored_lt w hw)
  · exact fun g w hw => Nat.lt_succ_of_lt (hc.flight_lt g w hw)
  · intro w hw
    cases hw
    exact Nat.lt_succ_self _
  · exact fun w hw => hw
  · intro hnone
    cases hnone
  · intro hsettled
    cases hsettled.1

theorem Ordered.take (hen : c.flight g = none) (hcalm : c.buf ≠ none → ∀ h, c.flight h = none) :
    (c.next (.take g)).Ordered := by
  cases hbuf : c.buf with
  | none =>
    -- nothing to take: the flusher's empty hands stay empty
    have hsame : c.next (.take g) = c := by
      have hflight : Function.update c.flight g none = c.flight := by
        rw [Function.update_eq_self_iff]
        exact hen.symm
      simp only [Cell.next, hbuf, hflight]
      rw [← hbuf]
    rw [hsame]
    exact hc
  | some v =>
    -- nothing else is in flight, so `v` is the one version there afterwards
    have hnone := hcalm (by rw [hbuf]; simp)
    have hflight : ∀ h w, Function.update c.flight g (some v) h = some w → h = g ∧ w = v := by
      intro h w hw
      by_cases hg : h = g
      · rw [hg, Function.update_self, some.injEq] at hw
        exact ⟨hg, hw.symm⟩
      · rw [Function.update_of_ne hg, hnone h] at hw
        cases hw
    have hnext : c.next (.take g) =
        { c with buf := none, flight := Function.update c.flight g (some v) } := by
      rw [Cell.next, hbuf]
    rw [hnext]
    refine { hc with
      single := ?_, stored_lt_flight := ?_, flight_lt_buf := ?_, stored_lt_buf := ?_,
      flight_lt := ?_, latest_buf := ?_, latest_flight := ?_, latest_stored := ?_ }
    · intro h h' w w' hw hw'
      rw [(hflight h w hw).1, (hflight h' w' hw').1]
    · intro w h x hw hx
      rw [(hflight h x hx).2]
      exact hc.stored_lt_buf w v hw hbuf
    · intro _ _ _ _ hw
      cases hw
    · intro _ _ _ hw
      cases hw
    · intro h w hw
      rw [(hflight h w hw).2]
      exact hc.latest_lt v (hc.latest_buf v hbuf)
    · intro _ hw
      cases hw
    · intro _ h w hw
      rw [(hflight h w hw).2]
      exact hc.latest_buf v hbuf
    · intro hsettled
      have := hsettled.2 g
      simp at this

theorem Ordered.commit (g : G) : (c.next (.commit g)).Ordered := by
  -- if `g` had a version in flight, no other flusher has one
  have hother : ∀ v, c.flight g = some v → ∀ h w,
      Function.update c.flight g none h = some w → False := by
    intro v hv h w hw
    obtain ⟨hne, hw⟩ := flight_update_none hw
    exact hne (hc.single h g w v hw hv)
  refine { hc with
    single := ?_, stored_lt_flight := ?_, flight_lt_buf := ?_, stored_lt_buf := ?_,
    stored_lt := ?_, flight_lt := ?_, latest_flight := ?_, latest_stored := ?_,
    direct_le := ?_ }
  · intro h h' w w' hw hw'
    exact hc.single h h' w w' (flight_update_none hw).2 (flight_update_none hw').2
  · intro v h w hv hw
    rcases or_eq_some_iff.mp hv with hg | ⟨-, hv⟩
    · exact (hother v hg h w hw).elim
    · exact hc.stored_lt_flight v h w hv (flight_update_none hw).2
  · exact fun h v w hv hw => hc.flight_lt_buf h v w (flight_update_none hv).2 hw
  · intro v w hv hw
    rcases or_eq_some_iff.mp hv with hg | ⟨-, hv⟩
    · exact hc.flight_lt_buf g v w hg hw
    · exact hc.stored_lt_buf v w hv hw
  · intro v hv
    rcases or_eq_some_iff.mp hv with hg | ⟨-, hv⟩
    · exact hc.flight_lt g v hg
    · exact hc.stored_lt v hv
  · exact fun h v hv => hc.flight_lt h v (flight_update_none hv).2
  · exact fun hbuf h v hv => hc.latest_flight hbuf h v (flight_update_none hv).2
  · -- the key settles by this commit, or it was settled before
    intro hsettled
    cases hg : c.flight g with
    | some v =>
      simp only [Cell.next, hg, some_or]
      exact hc.latest_flight hsettled.1 g v hg
    | none =>
      simp only [Cell.next, hg, none_or]
      exact hc.latest_stored ⟨hsettled.1, flight_eq_none hg hsettled.2⟩
  · -- a version in flight was accepted after every direct write
    intro d hd
    obtain ⟨v, hv, hle⟩ := hc.direct_le d hd
    cases hg : c.flight g with
    | some w =>
      refine ⟨w, by simp [Cell.next, hg], ?_⟩
      exact Nat.le_of_lt (Nat.lt_of_le_of_lt hle (hc.stored_lt_flight v g w hv hg))
    | none => exact ⟨v, by simp [Cell.next, hg, hv], hle⟩

theorem Ordered.putBack (g : G) : (c.next (.putBack g)).Ordered := by
  -- the buffer ends with its own version, else with the one put back: in both cases the latest
  have hbuf : ∀ v, c.buf.or (c.flight g) = some v → c.latest = some v := by
    intro v hv
    rcases or_eq_some_iff.mp hv with hb | ⟨hb, hg⟩
    · exact hc.latest_buf v hb
    · exact hc.latest_flight hb g v hg
  refine { hc with
    single := ?_, stored_lt_flight := ?_, flight_lt_buf := ?_, stored_lt_buf := ?_,
    flight_lt := ?_, latest_buf := hbuf, latest_flight := ?_, latest_stored := ?_ }
  · intro h h' w w' hw hw'
    exact hc.single h h' w w' (flight_update_none hw).2 (flight_update_none hw').2
  · exact fun v h w hv hw => hc.stored_lt_flight v h w hv (flight_update_none hw).2
  · intro h v w hv hw
    obtain ⟨hne, hv⟩ := flight_update_none hv
    rcases or_eq_some_iff.mp hw with hb | ⟨-, hg⟩
    · exact hc.flight_lt_buf h v w hv hb
    · exact absurd (hc.single h g v w hv hg) hne
  · intro v w hv hw
    rcases or_eq_some_iff.mp hw with hb | ⟨-, hg⟩
    · exact hc.stored_lt_buf v w hv hb
    · exact hc.stored_lt_flight v g w hv hg
  · exact fun h v hv => hc.flight_lt h v (flight_update_none hv).2
  · intro hnone h v hv
    exact hc.latest_flight (or_eq_none_iff.mp hnone).1 h v (flight_update_none hv).2
  · intro hsettled
    obtain ⟨hb, hg⟩ := or_eq_none_iff.mp hsettled.1
    exact hc.latest_stored ⟨hb, flight_eq_none hg hsettled.2⟩

theorem Ordered.write (v : V) (hcalm : c.Settled) : (c.next (.write v)).Ordered := by
  obtain ⟨hb, hf⟩ := hcalm
  refine { hc with
    stored_lt_flight := ?_, stored_lt_buf := ?_, stored_lt := ?_, flight_lt := ?_,
    latest_lt := ?_, latest_buf := ?_, latest_flight := ?_, latest_stored := fun _ => rfl,
    direct_le := ?_ }
  · exact fun _ g w _ hw => absurd ((hf g).symm.trans hw) (by simp)
  · exact fun _ w _ hw => absurd (hb.symm.trans hw) (by simp)
  · intro w hw
    cases hw
    exact Nat.lt_succ_self _
  · exact fun g w hw => Nat.lt_succ_of_lt (hc.flight_lt g w hw)
  · intro w hw
    cases hw
    exact Nat.lt_succ_self _
  · exact fun w hw => absurd (hb.symm.trans hw) (by simp)
  · exact fun _ g w hw => absurd ((hf g).symm.trans hw) (by simp)
  · intro d hd
    cases hd
    exact ⟨_, rfl, Nat.le_refl _⟩

theorem Ordered.remove (hcalm : c.Settled) : (c.next .remove).Ordered := by
  obtain ⟨hb, hf⟩ := hcalm
  refine { hc with
    stored_lt_flight := ?_, stored_lt_buf := ?_, stored_lt := ?_, latest_lt := ?_,
    latest_buf := ?_, latest_flight := ?_, latest_stored := fun _ => rfl, direct_le := ?_ }
  · intro _ _ _ hv
    cases hv
  · intro _ _ hv
    cases hv
  · intro _ hv
    cases hv
  · intro _ hv
    cases hv
  · exact fun w hw => absurd (hb.symm.trans hw) (by simp)
  · exact fun _ g w hw => absurd ((hf g).symm.trans hw) (by simp)
  · intro _ hd
    cases hd

variable {a : Act G V}

theorem Ordered.next (hen : a.Enabled c) (hcalm : a.Calm c) : (c.next a).Ordered := by
  cases a with
  | skip => exact hc
  | pass =>
    exact { hc with
      stored_lt := fun v hv => Nat.lt_succ_of_lt (hc.stored_lt v hv)
      flight_lt := fun g v hv => Nat.lt_succ_of_lt (hc.flight_lt g v hv)
      latest_lt := fun v hv => Nat.lt_succ_of_lt (hc.latest_lt v hv) }
  | accept v => exact hc.accept v
  | take g => exact hc.take hen hcalm
  | commit g => exact hc.commit g
  | putBack g => exact hc.putBack g
  | write v => exact hc.write v hcalm
  | remove => exact hc.remove hcalm

/-! ## What only grows -/

theorem Ordered.atLeast_stored {i : ℕ} (hremove : a ≠ .remove) (h : AtLeast i c.stored) :
    AtLeast i (c.next a).stored := by
  obtain ⟨v, hv, hle⟩ := h
  cases a with
  | commit g =>
    -- what is in flight is newer than what is stored
    cases hg : c.flight g with
    | none => exact ⟨v, by simp [Cell.next, hg, hv], hle⟩
    | some w =>
      refine ⟨w, by simp [Cell.next, hg], ?_⟩
      exact Nat.le_of_lt (Nat.lt_of_le_of_lt hle (hc.stored_lt_flight v g w hv hg))
  | write w => exact ⟨_, rfl, Nat.le_of_lt (Nat.lt_of_le_of_lt hle (hc.stored_lt v hv))⟩
  | remove => exact absurd rfl hremove
  | skip | pass | accept _ | take _ | putBack _ => exact ⟨v, hv, hle⟩

theorem Ordered.atLeast_latest {i : ℕ} (hremove : a ≠ .remove) (h : AtLeast i c.latest) :
    AtLeast i (c.next a).latest := by
  obtain ⟨v, hv, hle⟩ := h
  have hnew : i ≤ c.clock := Nat.le_of_lt (Nat.lt_of_le_of_lt hle (hc.latest_lt v hv))
  cases a with
  | accept w | write w => exact ⟨_, rfl, hnew⟩
  | remove => exact absurd rfl hremove
  | skip | pass | take _ | commit _ | putBack _ => exact ⟨v, hv, hle⟩

omit [DecidableEq G] in
theorem Ordered.latest_eq (hflight : ∀ g, c.flight g = none) : c.latest = c.buf.or c.stored := by
  cases hbuf : c.buf with
  | some v => rw [hc.latest_buf v hbuf, some_or]
  | none => rw [hc.latest_stored ⟨hbuf, hflight⟩, none_or]

end

/-! ## What stays empty -/

theorem update_none_of_none {h : G} (g : G) (hh : f h = none) :
    Function.update f g none h = none := by
  by_cases hg : h = g
  · rw [hg, Function.update_self]
  · rw [Function.update_of_ne hg, hh]

theorem Settled.next (hc : c.Settled) (haccept : ∀ v, a ≠ .accept v) : (c.next a).Settled := by
  obtain ⟨hbuf, hflight⟩ := hc
  cases a with
  | accept v => exact absurd rfl (haccept v)
  | take g =>
    refine ⟨rfl, ?_⟩
    simp only [Cell.next, hbuf]
    exact fun h => update_none_of_none g (hflight h)
  | commit g => exact ⟨hbuf, fun h => update_none_of_none g (hflight h)⟩
  | putBack g =>
    exact ⟨by simp [Cell.next, hflight, hbuf], fun h => update_none_of_none g (hflight h)⟩
  | skip | pass | write _ | remove => exact ⟨hbuf, hflight⟩

def OnlyIn (g : G) (c : Cell G V) : Prop := c.buf = none ∧ ∀ h, h ≠ g → c.flight h = none

theorem onlyIn_take (hflight : ∀ h, c.flight h = none) : (c.next (.take g)).OnlyIn g :=
  ⟨rfl, fun h hg => (Function.update_of_ne hg _ _).trans (hflight h)⟩

theorem OnlyIn.next (hc : c.OnlyIn g) (haccept : ∀ v, a ≠ .accept v) (hback : a ≠ .putBack g) :
    (c.next a).OnlyIn g := by
  obtain ⟨hbuf, hflight⟩ := hc
  cases a with
  | accept v => exact absurd rfl (haccept v)
  | take h =>
    refine ⟨rfl, ?_⟩
    simp only [Cell.next, hbuf]
    exact fun h' hne => update_none_of_none h (hflight h' hne)
  | commit h => exact ⟨hbuf, fun h' hne => update_none_of_none h (hflight h' hne)⟩
  | putBack h =>
    have hne : h ≠ g := fun heq => hback (by rw [heq])
    exact ⟨by simp [Cell.next, hflight h hne, hbuf],
      fun h' hne => update_none_of_none h (hflight h' hne)⟩
  | skip | pass | write _ | remove => exact ⟨hbuf, hflight⟩

theorem OnlyIn.commit (hc : c.OnlyIn g) : (c.next (.commit g)).Settled := by
  refine ⟨hc.1, fun h => ?_⟩
  by_cases hg : h = g
  · rw [hg]
    exact Function.update_self _ _ _
  · exact update_none_of_none g (hc.2 h hg)

def Empty (c : Cell G V) : Prop := c.Settled ∧ c.stored = none

theorem Empty.next (hc : c.Empty) (haccept : ∀ v, a ≠ .accept v) (hwrite : ∀ v, a ≠ .write v) :
    (c.next a).Empty := by
  refine ⟨hc.1.next haccept, ?_⟩
  cases a with
  | write v => exact absurd rfl (hwrite v)
  | commit g => simp [Cell.next, hc.1.2 g, hc.2]
  | remove => rfl
  | skip | pass | accept _ | take _ | putBack _ => exact hc.2

theorem latest_next (haccept : ∀ v, a ≠ .accept v) (hwrite : ∀ v, a ≠ .write v) :
    (c.next a).latest = c.latest ∨ (c.next a).latest = none := by
  cases a with
  | accept v => exact absurd rfl (haccept v)
  | write v => exact absurd rfl (hwrite v)
  | remove => exact Or.inr rfl
  | skip | pass | take _ | commit _ | putBack _ => exact Or.inl rfl

end Cell

end WriteBehind
