import Mathlib.Tactic.LinearCombination
import GolangCollector.Accountant.Held

/-! # The time that a match is charged for

A match counts in full from the last tick on, and the bucket takes back the time before it began;
when it ends, the bucket gets the time since the last tick, or since the match began if that is
later (`accountant/usage.go`). A match that sees no tick loses the time from the last tick to its
beginning, although it was never charged.

The books are compared with a ledger of the matches themselves: for each the time it began, and for
a removed one the time it ended. -/

namespace GolangCollector.Accountant

open GoStrings Negotiator List Store

/-! ## The ledger -/

inductive UsageCall where
  | addMatch (submitter : Text) (slot : ClassAd) (now : ℤ)
  | removeMatch (res : Text) (now : ℤ)
  | updatePriorities (now : ℤ)

namespace UsageCall

def time : UsageCall → ℤ
  | addMatch _ _ now => now
  | removeMatch _ now => now
  | updatePriorities now => now

def toCall {F : Type} : UsageCall → Call F
  | addMatch submitter slot now => .addMatch submitter slot now
  | removeMatch res now => .removeMatch res now
  | updatePriorities now => .updatePriorities now

end UsageCall

/-- A match: who it is for, and since when. -/
structure Lease (F : Type) where
  customer : Text
  res : Text
  weight : F
  began : ℤ
  deriving DecidableEq

structure Removal (F : Type) where
  lease : Lease F
  ended : ℤ
  clock : ℤ

/-- The matches of a run: on each resource, not removed, and removed. -/
structure Ledger (F : Type) where
  on : GoMap Text (Lease F)
  running : List (Lease F)
  removed : List (Removal F)

/-- How long a match has run at a time. -/
def Lease.elapsed {F : Type} (m : Lease F) (t : ℤ) : ℤ := max 0 (t - m.began)

@[inherit_doc Lease.elapsed]
def Removal.elapsed {F : Type} (r : Removal F) (t : ℤ) : ℤ := max 0 (min r.ended t - r.lease.began)

def Removal.shortfall {F : Type} (r : Removal F) : ℤ := max 0 (r.lease.began - r.clock)

variable {F : Type} {t : ℤ}

theorem Lease.elapsed_of_le {m : Lease F} (h : t ≤ m.began) : m.elapsed t = 0 :=
  max_eq_left (by omega)

theorem Lease.elapsed_of_ge {m : Lease F} (h : m.began ≤ t) : m.elapsed t = t - m.began :=
  max_eq_right (by omega)

variable {r : Removal F}

theorem Removal.elapsed_of_ended (h : r.ended ≤ t) (hbegan : r.lease.began ≤ r.ended) :
    r.elapsed t = r.ended - r.lease.began := by
  rw [elapsed, min_eq_left h, max_eq_right (by omega)]

theorem Removal.elapsed_of_running (h : t ≤ r.ended) : r.elapsed t = r.lease.elapsed t := by
  rw [elapsed, min_eq_right h, Lease.elapsed]

theorem Lease.elapsed_mono (m : Lease F) {t t' : ℤ} (h : t ≤ t') : m.elapsed t ≤ m.elapsed t' :=
  max_le_max_left 0 (by omega)

theorem Removal.elapsed_mono (r : Removal F) {t t' : ℤ} (h : t ≤ t') : r.elapsed t ≤ r.elapsed t' :=
  max_le_max_left 0 (by omega)

theorem Removal.charged_eq (ht : r.ended ≤ t) (hbegan : r.lease.began ≤ r.ended) :
    r.ended - max r.lease.began r.clock =
      t - r.clock - r.lease.elapsed t + r.elapsed t - r.shortfall := by
  rw [elapsed_of_ended ht hbegan, Lease.elapsed_of_ge (hbegan.trans ht), shortfall]
  rcases le_total r.lease.began r.clock with hle | hle
  · rw [max_eq_right hle, max_eq_left (by omega)]
    ring
  · rw [max_eq_left hle, max_eq_right (by omega)]
    ring

namespace Ledger

section

variable {F : Type} (l : Ledger F)

def add (m : Lease F) : Ledger F := { l with on := l.on.insert m.res m, running := m :: l.running }

def remove [DecidableEq F] (m : Lease F) (now clock : ℤ) : Ledger F where
  on := l.on.erase m.res
  running := l.running.erase m
  removed := ⟨m, now, clock⟩ :: l.removed

def next [Zero F] [One F] [LE F] [DecidableLE F] [DecidableEq F] (lib : Library F)
    (a : Accountant F) : UsageCall → Ledger F
  | .addMatch submitter slot now =>
    match getResourceName lib slot with
    | none => l
    | some res => l.add ⟨submitter, res, a.getSlotWeight lib slot, now⟩
  | .removeMatch res now =>
    match l.on.lookup res with
    | none => l
    | some m => l.remove m now a.lastUpdate
  | .updatePriorities _ => l

end

variable {K : Type} [CommRing K] (l : Ledger K)

def elapsed (f : Lease K → K) (t : ℤ) : K :=
  (l.running.map fun m => f m * (m.elapsed t : K)).sum +
    (l.removed.map fun r => f r.lease * (r.elapsed t : K)).sum

def shortfall (f : Lease K → K) : K := (l.removed.map fun r => f r.lease * (r.shortfall : K)).sum

def timed (e : Lease K → ℤ) (e' : Removal K → ℤ) : List (Lease K × ℤ) :=
  l.running.map (fun m => (m, e m)) ++ l.removed.map fun r => (r.lease, e' r)

theorem elapsed_eq_sum (f : Lease K → K) (t : ℤ) :
    l.elapsed f t =
      ((l.timed (·.elapsed t) (·.elapsed t)).map fun x => f x.1 * (x.2 : K)).sum := by
  simp only [elapsed, timed, map_append, sum_append, map_map, Function.comp_def]

theorem elapsed_eq_add (f : Lease K → K) (t t' : ℤ) :
    l.elapsed f t' = l.elapsed f t + ((l.timed (fun m => m.elapsed t' - m.elapsed t)
      fun r => r.elapsed t' - r.elapsed t).map fun x => f x.1 * (x.2 : K)).sum := by
  have hsplit : ∀ {β : Type} (xs : List β) (g e e' : β → K), (xs.map fun x => g x * e' x).sum =
      (xs.map fun x => g x * e x).sum + (xs.map fun x => g x * (e' x - e x)).sum := by
    intro β xs g e e'
    rw [← sum_map_add]
    congr 2
    funext x
    ring
  simp only [elapsed, timed, map_append, sum_append, map_map, Function.comp_def,
    Int.cast_sub]
  rw [hsplit l.running f (fun m => (m.elapsed t : K)),
    hsplit l.removed (fun r => f r.lease) (fun r => (r.elapsed t : K))]
  ring

variable {l} {f : Lease K → K} {t : ℤ}

theorem elapsed_add (m : Lease K) :
    (l.add m).elapsed f t = l.elapsed f t + f m * (m.elapsed t : K) := by
  rw [elapsed, elapsed, add, map_cons, sum_cons]
  ring

variable {m : Lease K}

theorem elapsed_remove [DecidableEq K] (h : m ∈ l.running) (now clock : ℤ) :
    (l.remove m now clock).elapsed f t = l.elapsed f t +
      f m * ((Removal.elapsed ⟨m, now, clock⟩ t : K) - (m.elapsed t : K)) := by
  have herase := sum_map_erase (fun m => f m * (m.elapsed t : K)) h
  rw [elapsed, elapsed, remove, map_cons, sum_cons, ← herase]
  ring

theorem shortfall_remove [DecidableEq K] (m : Lease K) (now clock : ℤ) :
    (l.remove m now clock).shortfall f =
      l.shortfall f + f m * (Removal.shortfall ⟨m, now, clock⟩ : K) := by
  rw [shortfall, shortfall, remove, map_cons, sum_cons]
  ring

end Ledger

section

variable {K : Type} [Field K] [LinearOrder K] (lib : Library K)

def tally (p : Accountant K × Ledger K) (call : UsageCall) : Accountant K × Ledger K :=
  (p.1.perform lib call.toCall, p.2.next lib p.1 call)

def tallies (a : Accountant K) (calls : List UsageCall) : Accountant K × Ledger K :=
  calls.foldl (tally lib) (a, ⟨∅, [], []⟩)

def Store.weightedAccum (s : Store K) (c : Text) : K :=
  (s.getFloat .customer c .weightedAccumulatedUsage).getD (s.floatOf c .accumulatedUsage)

structure Idle (a : Accountant K) : Prop where
  free : ∀ res, a.store.remoteUser? res = none
  unused : ∀ c, a.store.intOf lib.truncate c .resourcesUsed = 0
  weightedUnused : ∀ c, a.store.floatOf c .weightedResourcesUsed = 0
  settled : ∀ c, Settled lib a c
  accumulated_nonneg : ∀ c, 0 ≤ a.store.floatOf c .accumulatedUsage
  weighted_of_accumulated : ∀ c, a.store.floatOf c .accumulatedUsage = 0 →
    a.store.weightedAccum c = 0

end

/-! ## Ticks -/

section

variable {K : Type} [Field K] [LinearOrder K] {lib : Library K}

namespace Record

variable {r r' : Record K} {T : ℤ} {timePassed aging : K}

theorem weightedAccum_tick (h : r.tick lib T timePassed aging = some r')
    (hsame : r.newWeightedAccum timePassed = r.weightedAccum →
      r.newAccum lib timePassed = r.floatOf .accumulatedUsage) :
    r'.weightedAccum = r.newWeightedAccum timePassed := by
  have hattr := attr?_tick_weightedAccumulated h
  rw [weightedAccum, getFloat, hattr]
  split
  · next hkept => rw [hkept, accumulated_tick h, hsame hkept, weightedAccum, getFloat]
  · rfl

theorem weightedUsed_tick (h : r.tick lib T timePassed aging = some r') :
    r'.floatOf .weightedResourcesUsed = r.floatOf .weightedResourcesUsed := by
  rw [floatOf, getFloat, attr?_tick h _ (by simp)]
  simp [floatOf, getFloat]

end Record

variable {a : Accountant K} {T : ℤ} {u : Text}

omit [LinearOrder K] in
theorem Store.weightedAccum_of_some {s : Store K} {r : Record K}
    (h : s.record? .customer u = some r) : s.weightedAccum u = r.weightedAccum := by
  rw [weightedAccum, getFloat, attr?, h, Option.bind_some, floatOf_of_some _ h,
    Record.weightedAccum, Record.getFloat]

omit [LinearOrder K] in
theorem Store.weightedAccum_of_none {s : Store K} (h : s.record? .customer u = none) :
    s.weightedAccum u = 0 := by
  rw [weightedAccum, getFloat, attr?, h, floatOf_of_none _ h]
  rfl

theorem weightedUsed_updatePriorities
    (hidle : a.store.intOf lib.truncate u .resourcesUsed = 0 →
      a.store.floatOf u .weightedResourcesUsed = 0) :
    (a.updatePriorities lib T).store.floatOf u .weightedResourcesUsed =
      a.store.floatOf u .weightedResourcesUsed := by
  by_cases hlt : a.lastUpdate < T
  · obtain ⟨hrec, htick⟩ | ⟨r, hrec, ⟨hpurged, htick⟩ | ⟨r', hticked, htick⟩⟩ :=
      updatePriorities_cases lib hlt u
    · rw [floatOf_of_none _ htick, floatOf_of_none _ hrec]
    · rw [floatOf_of_none _ htick, hidle]
      rw [intOf_of_some _ _ hrec, (Record.of_purged hpurged).1]
    · rw [floatOf_of_some _ htick, floatOf_of_some _ hrec, Record.weightedUsed_tick hticked]
  · exact floatOf_congr (attr?_updatePriorities_of_le lib (not_lt.mp hlt) u _)

theorem weightedAccum_updatePriorities (hlt : a.lastUpdate < T)
    (hsame : a.store.floatOf u .weightedResourcesUsed * ((T - a.lastUpdate : ℤ) : K) +
        a.store.floatOf u .weightedUnchargedTime = 0 →
      (a.store.intOf lib.truncate u .resourcesUsed : K) * ((T - a.lastUpdate : ℤ) : K) +
        (a.store.intOf lib.truncate u .unchargedTime : K) = 0)
    (hnone : (a.updatePriorities lib T).store.floatOf u .accumulatedUsage = 0 →
      a.store.weightedAccum u +
        a.store.floatOf u .weightedResourcesUsed * ((T - a.lastUpdate : ℤ) : K) +
        a.store.floatOf u .weightedUnchargedTime = 0) :
    (a.updatePriorities lib T).store.weightedAccum u = a.store.weightedAccum u +
      a.store.floatOf u .weightedResourcesUsed * ((T - a.lastUpdate : ℤ) : K) +
      a.store.floatOf u .weightedUnchargedTime := by
  obtain ⟨hrec, htick⟩ | ⟨r, hrec, ⟨-, htick⟩ | ⟨r', hticked, htick⟩⟩ :=
    updatePriorities_cases lib hlt u
  · simp [weightedAccum_of_none htick, weightedAccum_of_none hrec, floatOf_of_none _ hrec]
  · rw [weightedAccum_of_none htick, hnone (floatOf_of_none _ htick)]
  · rw [intOf_of_some _ _ hrec, intOf_of_some _ _ hrec,
      floatOf_of_some _ hrec, floatOf_of_some _ hrec] at hsame
    rw [weightedAccum_of_some htick, weightedAccum_of_some hrec,
      floatOf_of_some _ hrec, floatOf_of_some _ hrec]
    refine Record.weightedAccum_tick hticked fun hkept => ?_
    have hzero := hsame (by
      rw [Record.newWeightedAccum, add_assoc] at hkept
      exact add_eq_left.mp hkept)
    rw [Record.newAccum, add_assoc, hzero, add_zero]

end

/-! ## The books follow the ledger -/

def Lease.bookings {F : Type} [NatCast F] (c : Text) (m : Lease F) : F :=
  (Accountant.bookings m.customer c : F)

def Lease.weightOn {F : Type} [NatCast F] [Mul F] (c : Text) (m : Lease F) : F :=
  m.bookings c * m.weight

section

variable {K : Type} [Field K] [LinearOrder K] {lib : Library K}
  {a₀ : Accountant K} {now : ℤ} {p : Accountant K × Ledger K}

/-- **The books follow the ledger.** -/
structure Tallied (lib : Library K) (a₀ : Accountant K) (now : ℤ) (p : Accountant K × Ledger K) :
    Prop where
  clock_le : p.1.lastUpdate ≤ now
  on_eq : ∀ res, p.2.on.lookup res = (p.1.store.holding? lib.truncate res).map fun m =>
    ⟨m.customer, res, m.weight, m.began⟩
  mem_running : ∀ res m, p.2.on.lookup res = some m → m ∈ p.2.running
  running_le : ∀ m ∈ p.2.running, m.began ≤ now ∧ 0 ≤ m.weight
  removed_le : ∀ r ∈ p.2.removed, r.lease.began ≤ r.ended ∧ r.ended ≤ now ∧ 0 ≤ r.lease.weight
  used_eq : ∀ c, p.1.store.intOf lib.truncate c .resourcesUsed =
    (p.2.running.map fun m => (bookings m.customer c : ℤ)).sum
  weightedUsed_eq : ∀ c, p.1.store.floatOf c .weightedResourcesUsed =
    (p.2.running.map (Lease.weightOn c)).sum
  charged_eq : ∀ c T, now ≤ T → p.1.store.floatOf c .accumulatedUsage +
      (p.1.store.intOf lib.truncate c .resourcesUsed : K) * ((T - p.1.lastUpdate : ℤ) : K) +
      (p.1.store.intOf lib.truncate c .unchargedTime : K) =
    a₀.store.floatOf c .accumulatedUsage + p.2.elapsed (Lease.bookings c) T -
      p.2.shortfall (Lease.bookings c)

theorem one_le_bookings (customer : Text) : 1 ≤ bookings customer customer := by
  rw [bookings, if_pos rfl]
  omega

theorem Idle.tallied (h : Idle lib a₀) : Tallied lib a₀ a₀.lastUpdate (a₀, ⟨∅, [], []⟩) where
  clock_le := le_rfl
  on_eq res := by
    rw [holding?, h.free res]
    rfl
  mem_running res m hm := by cases hm
  running_le m hm := by cases hm
  removed_le r hr := by cases hr
  used_eq c := h.unused c
  weightedUsed_eq c := h.weightedUnused c
  charged_eq c T _ := by
    rw [h.unused c, (h.settled c).1]
    simp [Ledger.elapsed, Ledger.shortfall]

variable {T : ℤ}

theorem Tallied.later (h : Tallied lib a₀ now p) (hnow : now ≤ T) : Tallied lib a₀ T p :=
  { h with
    clock_le := h.clock_le.trans hnow
    running_le := fun m hm => ⟨(h.running_le m hm).1.trans hnow, (h.running_le m hm).2⟩
    removed_le := fun r hr => by
      obtain ⟨hended, hle, hpos⟩ := h.removed_le r hr
      exact ⟨hended, hle.trans hnow, hpos⟩
    charged_eq := fun c t ht => h.charged_eq c t (hnow.trans ht) }

variable {res : Text}

theorem Tallied.of_eq (h : Tallied lib a₀ T p) {a : Accountant K}
    (hclock : a.lastUpdate = p.1.lastUpdate)
    (hattr : ∀ c attr, a.store.attr? .customer c attr = p.1.store.attr? .customer c attr)
    (hheld : ∀ res, a.store.holding? lib.truncate res = p.1.store.holding? lib.truncate res) :
    Tallied lib a₀ T (a, p.2) := by
  have hint : ∀ c attr, a.store.intOf lib.truncate c attr = p.1.store.intOf lib.truncate c attr :=
    fun c attr => intOf_congr (hattr c attr)
  have hfloat : ∀ c attr, a.store.floatOf c attr = p.1.store.floatOf c attr :=
    fun c attr => floatOf_congr (hattr c attr)
  refine ⟨hclock ▸ h.clock_le, fun res => by rw [hheld, h.on_eq], h.mem_running, h.running_le,
    h.removed_le, fun c => by rw [hint, h.used_eq], fun c => by rw [hfloat, h.weightedUsed_eq],
    fun c t ht => ?_⟩
  rw [hfloat, hint, hint, hclock]
  exact h.charged_eq c t ht

theorem Tallied.removeMatch_of_none (h : Tallied lib a₀ now p) (T : ℤ)
    (hon : p.2.on.lookup res = none) :
    (p.1.removeMatch lib res T).lastUpdate = p.1.lastUpdate ∧
      (∀ c attr, (p.1.removeMatch lib res T).store.attr? .customer c attr =
        p.1.store.attr? .customer c attr) ∧
      ∀ r, (p.1.removeMatch lib res T).store.holding? lib.truncate r =
        p.1.store.holding? lib.truncate r := by
  rw [h.on_eq, Option.map_eq_none_iff] at hon
  refine ⟨removeMatch_lastUpdate T, fun c attr => ?_, fun r => ?_⟩
  · rw [attr?_removeMatch_of_none T hon, if_neg (by simp)]
  · rw [holding?_removeMatch]
    split
    · next hr => rw [hr, hon]
    · rfl

theorem updatePriorities_of_eq (a : Accountant K) (h : T = a.lastUpdate) :
    a.updatePriorities lib T = a := by
  rw [updatePriorities, if_pos (by omega)]

/-! ## Exact books -/

/-- **The books are exact.** -/
structure Exact (lib : Library K) (a₀ : Accountant K) (now : ℤ) (p : Accountant K × Ledger K) :
    Prop extends Tallied lib a₀ now p where
  running_pos : ∀ m ∈ p.2.running, 0 < m.weight
  removed_pos : ∀ r ∈ p.2.removed, 0 < r.lease.weight ∧ r.lease.began ≤ r.clock
  accumulated_eq : ∀ c, p.1.store.floatOf c .accumulatedUsage =
    a₀.store.floatOf c .accumulatedUsage + p.2.elapsed (Lease.bookings c) p.1.lastUpdate
  weightedAccum_eq : ∀ c, p.1.store.weightedAccum c =
    a₀.store.weightedAccum c + p.2.elapsed (Lease.weightOn c) p.1.lastUpdate
  weightedCharged_eq : ∀ c T, now ≤ T → p.1.store.weightedAccum c +
      p.1.store.floatOf c .weightedResourcesUsed * ((T - p.1.lastUpdate : ℤ) : K) +
      p.1.store.floatOf c .weightedUnchargedTime =
    a₀.store.weightedAccum c + p.2.elapsed (Lease.weightOn c) T

omit [LinearOrder K] in
theorem accumulated_congr {s s' : Store K}
    (h : ∀ c attr, attr ∉ [Attr.resourcesUsed, .weightedResourcesUsed, .unchargedTime,
        .weightedUnchargedTime, .hierWeightedResourcesUsed] →
      s'.attr? .customer c attr = s.attr? .customer c attr) :
    (∀ c, s'.floatOf c .accumulatedUsage = s.floatOf c .accumulatedUsage) ∧
      ∀ c, s'.weightedAccum c = s.weightedAccum c := by
  have haccum : ∀ c, s'.floatOf c .accumulatedUsage = s.floatOf c .accumulatedUsage := fun c =>
    floatOf_congr (h c _ (by simp))
  refine ⟨haccum, fun c => ?_⟩
  rw [weightedAccum, getFloat, h c _ (by simp), haccum, weightedAccum,
    getFloat]

theorem Exact.shortfall_eq (h : Exact lib a₀ now p) (f : Lease K → K) : p.2.shortfall f = 0 := by
  refine sum_eq_zero fun x hx => ?_
  obtain ⟨r, hr, rfl⟩ := mem_map.mp hx
  have hseen := (h.removed_pos r hr).2
  rw [Removal.shortfall, max_eq_left (by omega), Int.cast_zero, mul_zero]

theorem Idle.exact (h : Idle lib a₀) : Exact lib a₀ a₀.lastUpdate (a₀, ⟨∅, [], []⟩) where
  toTallied := h.tallied
  running_pos m hm := by cases hm
  removed_pos r hr := by cases hr
  accumulated_eq c := by simp [Ledger.elapsed]
  weightedAccum_eq c := by simp [Ledger.elapsed]
  weightedCharged_eq c T _ := by
    rw [h.weightedUnused c, (h.settled c).2]
    simp [Ledger.elapsed]

theorem Exact.later (h : Exact lib a₀ now p) (hnow : now ≤ T) : Exact lib a₀ T p :=
  { h with
    toTallied := h.toTallied.later hnow
    weightedCharged_eq := fun c t ht => h.weightedCharged_eq c t (hnow.trans ht) }

theorem Exact.of_eq (h : Exact lib a₀ T p) {a : Accountant K}
    (hclock : a.lastUpdate = p.1.lastUpdate)
    (hattr : ∀ c attr, a.store.attr? .customer c attr = p.1.store.attr? .customer c attr)
    (hheld : ∀ res, a.store.holding? lib.truncate res = p.1.store.holding? lib.truncate res) :
    Exact lib a₀ T (a, p.2) := by
  obtain ⟨haccum, hweighted⟩ := accumulated_congr (s := p.1.store) fun c attr _ => hattr c attr
  have hfloat : ∀ c attr, a.store.floatOf c attr = p.1.store.floatOf c attr :=
    fun c attr => floatOf_congr (hattr c attr)
  refine ⟨h.toTallied.of_eq hclock hattr hheld, h.running_pos, h.removed_pos, fun c => ?_,
    fun c => ?_, fun c t ht => ?_⟩
  · rw [haccum, hclock, h.accumulated_eq]
  · rw [hweighted, hclock, h.weightedAccum_eq]
  · rw [hweighted, hfloat, hfloat, hclock]
    exact h.weightedCharged_eq c t ht

theorem Exact.forall_timed (h : Exact lib a₀ now p) (e : Lease K → ℤ) (e' : Removal K → ℤ)
    (he : ∀ m, 0 ≤ e m) (he' : ∀ r, 0 ≤ e' r) :
    ∀ x ∈ p.2.timed e e', 0 < x.1.weight ∧ 0 ≤ x.2 := by
  intro x hx
  rcases mem_append.mp hx with hx | hx
  · obtain ⟨m, hm, rfl⟩ := mem_map.mp hx
    exact ⟨h.running_pos m hm, he m⟩
  · obtain ⟨r, hr, rfl⟩ := mem_map.mp hx
    exact ⟨(h.removed_pos r hr).1, he' r⟩

theorem removed_suffix_foldl (calls : List UsageCall) (p : Accountant K × Ledger K) :
    p.2.removed <:+ (calls.foldl (tally lib) p).2.removed := by
  induction calls generalizing p with
  | nil => exact suffix_rfl
  | cons call calls ih =>
    refine IsSuffix.trans ?_ (ih _)
    cases call with
    | addMatch submitter slot T =>
      simp only [tally, Ledger.next]
      split <;> exact suffix_rfl
    | removeMatch res T =>
      simp only [tally, Ledger.next]
      split
      · exact suffix_rfl
      · exact suffix_cons _ _
    | updatePriorities T => exact suffix_rfl

theorem tally_cfg (p : Accountant K × Ledger K) (call : UsageCall) :
    (tally lib p call).1.cfg = p.1.cfg := by
  cases call with
  | addMatch submitter slot T => exact (addMatch_frame lib p.1 ⟨submitter, slot, T⟩).2
  | removeMatch res T => exact removeMatch_cfg T
  | updatePriorities T => exact updatePriorities_cfg lib p.1 T

theorem idle_new (cfg : Config K) : Idle lib (new lib cfg .empty) := by
  have hint : ∀ c attr, attr ∉ [Attr.priority, .priorityFactor] →
      (new lib cfg .empty).store.intOf lib.truncate c attr = 0 := fun c attr h => by
    rw [intOf, getInt, attr?_new_empty cfg h]
    rfl
  refine ⟨fun res => ?_, fun c => hint c _ (by simp), floatOf_new_empty cfg (by simp),
    fun c => ⟨hint c _ (by simp), floatOf_new_empty cfg (by simp) c⟩,
    fun c => (floatOf_new_empty cfg (by simp) c).ge, fun c _ => ?_⟩
  · rw [remoteUser?, getString, attr?_new_empty cfg (by simp)]
    rfl
  · rw [weightedAccum, getFloat, attr?_new_empty cfg (by simp), floatOf_new_empty cfg (by simp)]
    rfl

/-! ## Calls -/

variable [IsStrictOrderedRing K]

theorem Tallied.le_used (h : Tallied lib a₀ now p) (hm : m ∈ p.2.running) (c : Text) :
    (bookings m.customer c : ℤ) ≤ p.1.store.intOf lib.truncate c .resourcesUsed ∧
      bookings m.customer c * m.weight ≤ p.1.store.floatOf c .weightedResourcesUsed := by
  rw [h.used_eq, h.weightedUsed_eq]
  constructor
  · refine single_le_sum ?_ _ (mem_map_of_mem hm)
    intro x hx
    obtain ⟨m', -, rfl⟩ := mem_map.mp hx
    positivity
  · refine single_le_sum ?_ _ (mem_map_of_mem (f := Lease.weightOn c) hm)
    intro x hx
    obtain ⟨m', hm', rfl⟩ := mem_map.mp hx
    exact mul_nonneg (Nat.cast_nonneg _) (h.running_le m' hm').2

theorem Tallied.addMatchLocked (h : Tallied lib a₀ T p) (hbegan : m.began = T)
    (hweight : 0 ≤ m.weight) (limits : Text) :
    Tallied lib a₀ T (p.1.addMatchLocked lib m.customer m.res m.weight limits T, p.2.add m) where
  clock_le := h.clock_le
  on_eq res := by
    rw [holding?_addMatchLocked, Ledger.add]
    by_cases hres : res = m.res
    · rw [if_pos hres, hres, AList.lookup_insert, Option.map_some, ← hbegan]
    · rw [if_neg hres, AList.lookup_insert_ne hres, h.on_eq]
  mem_running res m' hm' := by
    rw [Ledger.add] at hm'
    by_cases hres : res = m.res
    · rw [hres, AList.lookup_insert] at hm'
      cases hm'
      exact mem_cons_self
    · rw [AList.lookup_insert_ne hres] at hm'
      exact mem_cons_of_mem _ (h.mem_running res m' hm')
  running_le := by
    rw [Ledger.add, forall_mem_cons]
    exact ⟨⟨hbegan.le, hweight⟩, h.running_le⟩
  removed_le := h.removed_le
  used_eq c := by
    rw [used_addMatchLocked, h.used_eq, Ledger.add, map_cons, sum_cons, add_comm]
  weightedUsed_eq c := by
    rw [weightedUsed_addMatchLocked, h.weightedUsed_eq, Ledger.add, map_cons, sum_cons,
      add_comm]
    rfl
  charged_eq c t ht := by
    have helapsed : m.elapsed t = t - T := by
      rw [Lease.elapsed_of_ge (hbegan.trans_le ht), hbegan]
    have hbefore := h.charged_eq c t ht
    have hsettings : (p.1.addMatchLocked lib m.customer m.res m.weight limits T).store.floatOf c
        .accumulatedUsage = p.1.store.floatOf c .accumulatedUsage :=
      floatOf_congr (attr?_addMatchLocked_of_notMem (by simp))
    rw [hsettings, used_addMatchLocked, uncharged_addMatchLocked, addMatchLocked_lastUpdate,
      Ledger.elapsed_add, helapsed]
    change _ = _ - p.2.shortfall (Lease.bookings c)
    rw [Lease.bookings]
    push_cast at hbefore ⊢
    linear_combination hbefore

theorem Tallied.removeMatch (h : Tallied lib a₀ T p) (hon : p.2.on.lookup res = some m) :
    Tallied lib a₀ T (p.1.removeMatch lib res T, p.2.remove m T p.1.lastUpdate) := by
  have hrunning := h.mem_running res m hon
  obtain ⟨hbegan, hweight⟩ := h.running_le m hrunning
  rw [h.on_eq, Option.map_eq_some_iff] at hon
  obtain ⟨held, hheld, rfl⟩ := hon
  have hbooked := h.le_used hrunning
  refine ⟨?_, fun r => ?_, fun r m' hm' => ?_, fun m' hm' => h.running_le m' (mem_of_mem_erase hm'),
    ?_, fun c => ?_, fun c => ?_, fun c t ht => ?_⟩
  · rw [removeMatch_lastUpdate]
    exact h.clock_le
  · rw [holding?_removeMatch, Ledger.remove]
    by_cases hr : r = res
    · rw [if_pos hr, hr, AList.lookup_erase]
      rfl
    · rw [if_neg hr, AList.lookup_erase_ne hr, h.on_eq]
  · rw [Ledger.remove] at hm'
    by_cases hr : r = res
    · rw [hr, AList.lookup_erase] at hm'
      cases hm'
    · rw [AList.lookup_erase_ne hr] at hm'
      -- matches on different resources differ
      have hne : m' ≠ ⟨held.customer, res, held.weight, held.began⟩ := by
        rintro rfl
        rw [h.on_eq, Option.map_eq_some_iff] at hm'
        obtain ⟨_, -, heq⟩ := hm'
        exact hr (congrArg Lease.res heq)
      exact (mem_erase_of_ne hne).mpr (h.mem_running r m' hm')
  · rw [Ledger.remove, forall_mem_cons]
    exact ⟨⟨hbegan, le_rfl, hweight⟩, h.removed_le⟩
  · have herase := sum_map_erase (fun m : Lease K => (bookings m.customer c : ℤ)) hrunning
    rw [intOf_removeMatch T hheld, used_settle _ (hbooked c).1, h.used_eq, Ledger.remove, ← herase]
    ring
  · have herase := sum_map_erase (Lease.weightOn (F := K) c) hrunning
    rw [floatOf_removeMatch T hheld, weightedUsed_settle _ hweight (hbooked c).2, h.weightedUsed_eq,
      Ledger.remove, ← herase, Lease.weightOn, Lease.bookings]
    ring
  · have hbefore := h.charged_eq c t ht
    have hsettings : (p.1.removeMatch lib res T).store.floatOf c .accumulatedUsage =
        p.1.store.floatOf c .accumulatedUsage := by
      rw [floatOf_removeMatch T hheld]
      exact floatOf_congr (attr?_settle_of_notMem _ (by simp))
    have hcharged := Removal.charged_eq
      (r := ⟨⟨held.customer, res, held.weight, held.began⟩, T, p.1.lastUpdate⟩) ht hbegan
    dsimp only at hcharged
    rw [hsettings, removeMatch_lastUpdate, intOf_removeMatch T hheld, used_settle _ (hbooked c).1,
      intOf_removeMatch T hheld, uncharged_settle, hcharged, Ledger.elapsed_remove hrunning,
      Ledger.shortfall_remove, Lease.bookings]
    push_cast at hbefore ⊢
    linear_combination hbefore

theorem Tallied.weightedUsed_of_used (h : Tallied lib a₀ now p) {c : Text}
    (hzero : p.1.store.intOf lib.truncate c .resourcesUsed = 0) :
    p.1.store.floatOf c .weightedResourcesUsed = 0 := by
  rw [h.weightedUsed_eq]
  refine sum_eq_zero fun x hx => ?_
  obtain ⟨m, hm, rfl⟩ := mem_map.mp hx
  have hle := (h.le_used hm c).1
  have hnone : bookings m.customer c = 0 := by omega
  rw [Lease.weightOn, Lease.bookings, hnone, Nat.cast_zero, zero_mul]

theorem Tallied.updatePriorities (h : Tallied lib a₀ T p) :
    Tallied lib a₀ T (p.1.updatePriorities lib T, p.2) where
  clock_le := (updatePriorities_lastUpdate lib p.1 T).le
  on_eq res := by
    rw [holding?_congr (attr?_updatePriorities_resource T res), h.on_eq]
  mem_running := h.mem_running
  running_le := h.running_le
  removed_le := h.removed_le
  used_eq c := by rw [used_updatePriorities, h.used_eq]
  weightedUsed_eq c := by
    rw [weightedUsed_updatePriorities h.weightedUsed_of_used, h.weightedUsed_eq]
  charged_eq c t ht := by
    have hbefore := h.charged_eq c t ht
    rcases h.clock_le.lt_or_eq with hlt | heq
    · have hsettled := settled_updatePriorities (u := c) (Or.inl hlt : _ ∨ Settled lib p.1 c)
      rw [accumulated_updatePriorities hlt, used_updatePriorities, updatePriorities_lastUpdate,
        hsettled.1]
      push_cast at hbefore ⊢
      linear_combination hbefore
    · rw [updatePriorities_of_eq p.1 heq.symm]
      exact hbefore

theorem Tallied.tally (h : Tallied lib a₀ now p) {call : UsageCall} (hnow : now ≤ call.time) :
    Tallied lib a₀ call.time (tally lib p call) := by
  replace h := h.later hnow
  cases call with
  | addMatch submitter slot T =>
    simp only [Accountant.tally, UsageCall.toCall, perform, addMatch, Ledger.next]
    cases getResourceName lib slot with
    | none => exact h
    | some res =>
      exact h.addMatchLocked (m := ⟨submitter, res, p.1.getSlotWeight lib slot, T⟩) rfl
        (getSlotWeight_nonneg lib p.1 slot) _
  | removeMatch res T =>
    simp only [Accountant.tally, UsageCall.toCall, perform, Ledger.next]
    cases hon : p.2.on.lookup res with
    | none =>
      obtain ⟨hclock, hattr, hheld⟩ := h.removeMatch_of_none T hon
      exact h.of_eq hclock hattr hheld
    | some m => exact h.removeMatch hon
  | updatePriorities T => exact h.updatePriorities

theorem sum_timed {xs : List (Lease K × ℤ)} (h : ∀ x ∈ xs, 0 < x.1.weight ∧ 0 ≤ x.2) (c : Text) :
    0 ≤ (xs.map fun x => x.1.bookings c * (x.2 : K)).sum ∧
      0 ≤ (xs.map fun x => x.1.weightOn c * (x.2 : K)).sum ∧
      ((xs.map fun x => x.1.weightOn c * (x.2 : K)).sum = 0 ↔
        (xs.map fun x => x.1.bookings c * (x.2 : K)).sum = 0) := by
  induction xs with
  | nil => simp
  | cons x xs ih =>
    rw [forall_mem_cons] at h
    obtain ⟨hplain, hweighted, hiff⟩ := ih h.2
    have hspan : (0 : K) ≤ (x.2 : K) := Int.cast_nonneg h.1.2
    have hhead : 0 ≤ x.1.bookings c * (x.2 : K) := mul_nonneg (Nat.cast_nonneg _) hspan
    have hfactor : x.1.weightOn c * (x.2 : K) = x.1.weight * (x.1.bookings c * (x.2 : K)) := by
      rw [Lease.weightOn]
      ring
    have hhead' : 0 ≤ x.1.weightOn c * (x.2 : K) := hfactor ▸ mul_nonneg h.1.1.le hhead
    simp only [map_cons, sum_cons]
    refine ⟨add_nonneg hhead hplain, add_nonneg hhead' hweighted, ?_⟩
    rw [add_eq_zero_iff_of_nonneg hhead' hweighted, add_eq_zero_iff_of_nonneg hhead hplain, hiff,
      hfactor, mul_eq_zero, or_iff_right h.1.1.ne']

theorem Exact.addMatchLocked (h : Exact lib a₀ T p) (hbegan : m.began = T)
    (hweight : 0 < m.weight) (limits : Text) :
    Exact lib a₀ T (p.1.addMatchLocked lib m.customer m.res m.weight limits T, p.2.add m) := by
  have hnew : m.elapsed p.1.lastUpdate = 0 := Lease.elapsed_of_le (h.clock_le.trans hbegan.ge)
  obtain ⟨haccum, hweighted⟩ : (∀ c, (p.1.addMatchLocked lib m.customer m.res m.weight limits
      T).store.floatOf c .accumulatedUsage = p.1.store.floatOf c .accumulatedUsage) ∧ _ :=
    accumulated_congr fun c attr hattr => attr?_addMatchLocked_of_notMem hattr
  refine ⟨h.toTallied.addMatchLocked hbegan hweight.le limits, ?_, h.removed_pos, fun c => ?_,
    fun c => ?_, fun c t ht => ?_⟩
  · rw [Ledger.add, forall_mem_cons]
    exact ⟨hweight, h.running_pos⟩
  · rw [haccum, addMatchLocked_lastUpdate, Ledger.elapsed_add, hnew, h.accumulated_eq,
      Int.cast_zero, mul_zero, add_zero]
  · rw [hweighted, addMatchLocked_lastUpdate, Ledger.elapsed_add, hnew, h.weightedAccum_eq,
      Int.cast_zero, mul_zero, add_zero]
  · have hran : m.elapsed t = t - T := by rw [Lease.elapsed_of_ge (hbegan.trans_le ht), hbegan]
    have hbefore := h.weightedCharged_eq c t ht
    rw [hweighted, weightedUsed_addMatchLocked, weightedUncharged_addMatchLocked,
      addMatchLocked_lastUpdate, Ledger.elapsed_add, hran, Lease.weightOn, Lease.bookings]
    push_cast at hbefore ⊢
    linear_combination hbefore

theorem Exact.removeMatch (h : Exact lib a₀ T p) (hon : p.2.on.lookup res = some m)
    (hseen : m.began ≤ p.1.lastUpdate) :
    Exact lib a₀ T (p.1.removeMatch lib res T, p.2.remove m T p.1.lastUpdate) := by
  have htallied := h.toTallied.removeMatch hon
  have hrunning := h.mem_running res m hon
  have hweight := h.running_pos m hrunning
  have hbegan := (h.running_le m hrunning).1
  -- at the last tick the match was still running
  have hsame : ∀ (f : Lease K → K), (p.2.remove m T p.1.lastUpdate).elapsed f p.1.lastUpdate =
      p.2.elapsed f p.1.lastUpdate := by
    intro f
    rw [Ledger.elapsed_remove hrunning, Removal.elapsed_of_running h.clock_le, sub_self, mul_zero,
      add_zero]
  have hbooked := h.le_used hrunning
  rw [h.on_eq, Option.map_eq_some_iff] at hon
  obtain ⟨held, hheld, rfl⟩ := hon
  obtain ⟨haccum, hweighted⟩ := accumulated_congr (s := p.1.store) fun c attr hattr =>
    (attr?_removeMatch_customer T hheld c attr).trans (attr?_settle_of_notMem _ hattr)
  refine ⟨htallied, fun m' hm' => h.running_pos m' (mem_of_mem_erase hm'), ?_, fun c => ?_,
    fun c => ?_, fun c t ht => ?_⟩
  · rw [Ledger.remove, forall_mem_cons]
    exact ⟨⟨hweight, hseen⟩, h.removed_pos⟩
  · rw [haccum, removeMatch_lastUpdate, hsame, h.accumulated_eq]
  · rw [hweighted, removeMatch_lastUpdate, hsame, h.weightedAccum_eq]
  · have hbefore := h.weightedCharged_eq c t ht
    have hcharged := Removal.charged_eq
      (r := ⟨⟨held.customer, res, held.weight, held.began⟩, T, p.1.lastUpdate⟩) ht hbegan
    have hnone : Removal.shortfall ⟨⟨held.customer, res, held.weight, held.began⟩, T,
        p.1.lastUpdate⟩ = 0 := max_eq_left (by simpa using hseen)
    dsimp only at hcharged
    rw [hweighted, removeMatch_lastUpdate, floatOf_removeMatch T hheld,
      weightedUsed_settle _ hweight.le (hbooked c).2, floatOf_removeMatch T hheld,
      weightedUncharged_settle, hcharged, hnone, Ledger.elapsed_remove hrunning, Lease.weightOn,
      Lease.bookings]
    push_cast at hbefore ⊢
    linear_combination hbefore

theorem Exact.updatePriorities (h : Exact lib a₀ T p) (h₀ : Idle lib a₀) :
    Exact lib a₀ T (p.1.updatePriorities lib T, p.2) ∧
      ∀ c, p.1.store.floatOf c .accumulatedUsage ≤
          (p.1.updatePriorities lib T).store.floatOf c .accumulatedUsage ∧
        p.1.store.weightedAccum c ≤ (p.1.updatePriorities lib T).store.weightedAccum c := by
  rcases h.clock_le.lt_or_eq with hlt | heq
  · -- what runs between the ticks, plain and weighted
    have hspans := h.forall_timed (fun m => m.elapsed T - m.elapsed p.1.lastUpdate) _
      (fun m => sub_nonneg.mpr (m.elapsed_mono hlt.le))
      (fun r => sub_nonneg.mpr (r.elapsed_mono hlt.le))
    have hplain : ∀ c, (p.1.updatePriorities lib T).store.floatOf c .accumulatedUsage =
        a₀.store.floatOf c .accumulatedUsage + p.2.elapsed (Lease.bookings c) T := by
      intro c
      rw [accumulated_updatePriorities hlt, h.charged_eq c T le_rfl, h.shortfall_eq, sub_zero]
    have hweighted : ∀ c, (p.1.updatePriorities lib T).store.weightedAccum c =
        a₀.store.weightedAccum c + p.2.elapsed (Lease.weightOn c) T := by
      intro c
      have hcharged := h.charged_eq c T le_rfl
      have hweightedCharged := h.weightedCharged_eq c T le_rfl
      rw [← hweightedCharged]
      refine weightedAccum_updatePriorities hlt (fun hzero => ?_) fun hzero => ?_
      · -- the weighted usage moves with the plain one
        rw [h.weightedAccum_eq, p.2.elapsed_eq_add _ p.1.lastUpdate T] at hweightedCharged
        rw [h.accumulated_eq, p.2.elapsed_eq_add _ p.1.lastUpdate T, h.shortfall_eq] at hcharged
        have hnone := (sum_timed hspans c).2.2.mp (by linear_combination hzero - hweightedCharged)
        linear_combination hcharged + hnone
      · -- no usage at all, so no match has run
        have hruns := sum_timed (h.forall_timed (·.elapsed T) (·.elapsed T)
          (fun m => le_max_left 0 _) fun r => le_max_left 0 _) c
        rw [← p.2.elapsed_eq_sum, ← p.2.elapsed_eq_sum] at hruns
        rw [hplain, add_eq_zero_iff_of_nonneg (h₀.accumulated_nonneg c) hruns.1] at hzero
        rw [hweightedCharged, h₀.weighted_of_accumulated c hzero.1, hruns.2.2.mpr hzero.2, add_zero]
    refine ⟨⟨h.toTallied.updatePriorities, h.running_pos, h.removed_pos, fun c => ?_,
      fun c => ?_, fun c t ht => ?_⟩, fun c => ⟨?_, ?_⟩⟩
    · rw [hplain, updatePriorities_lastUpdate]
    · rw [hweighted, updatePriorities_lastUpdate]
    · have hbefore := h.weightedCharged_eq c t ht
      have hnow' := h.weightedCharged_eq c T le_rfl
      have hsettled := settled_updatePriorities (u := c) (Or.inl hlt : _ ∨ Settled lib p.1 c)
      rw [hweighted, weightedUsed_updatePriorities h.weightedUsed_of_used,
        updatePriorities_lastUpdate, hsettled.2]
      push_cast at hbefore hnow' ⊢
      linear_combination hbefore - hnow'
    · rw [hplain, h.accumulated_eq, p.2.elapsed_eq_add _ p.1.lastUpdate T, ← add_assoc]
      exact le_add_of_nonneg_right (sum_timed hspans c).1
    · rw [hweighted, h.weightedAccum_eq, p.2.elapsed_eq_add _ p.1.lastUpdate T, ← add_assoc]
      exact le_add_of_nonneg_right (sum_timed hspans c).2.1
  · rw [updatePriorities_of_eq p.1 heq.symm]
    exact ⟨h, fun c => ⟨le_rfl, le_rfl⟩⟩

theorem Exact.tally (h : Exact lib a₀ now p) (h₀ : Idle lib a₀) {call : UsageCall}
    (hnow : now ≤ call.time)
    (hweighs : ∀ submitter slot T, call = .addMatch submitter slot T →
      0 < p.1.getSlotWeight lib slot)
    (hseen : ∀ r ∈ (tally lib p call).2.removed, r.lease.began ≤ r.clock) :
    Exact lib a₀ call.time (tally lib p call) := by
  replace h := h.later hnow
  cases call with
  | addMatch submitter slot T =>
    have hweight := hweighs submitter slot T rfl
    simp only [Accountant.tally, UsageCall.toCall, perform, addMatch, Ledger.next]
    cases getResourceName lib slot with
    | none => exact h
    | some res =>
      exact h.addMatchLocked (m := ⟨submitter, res, p.1.getSlotWeight lib slot, T⟩) rfl hweight _
  | removeMatch res T =>
    simp only [Accountant.tally, UsageCall.toCall, perform, Ledger.next] at hseen ⊢
    cases hon : p.2.on.lookup res with
    | none =>
      obtain ⟨hclock, hattr, hheld⟩ := h.removeMatch_of_none T hon
      exact h.of_eq hclock hattr hheld
    | some m =>
      rw [hon] at hseen
      exact h.removeMatch hon (hseen _ mem_cons_self)
  | updatePriorities T => exact (h.updatePriorities h₀).1

/-! ## Runs -/

theorem Tallied.foldl {calls : List UsageCall} (h : Tallied lib a₀ now p)
    (htimes : (now :: calls.map UsageCall.time ++ [T]).Pairwise (· ≤ ·)) :
    Tallied lib a₀ T (calls.foldl (Accountant.tally lib) p) := by
  induction calls generalizing now p with
  | nil => exact h.later (by simpa using htimes)
  | cons call calls ih =>
    rw [map_cons, cons_append, pairwise_cons] at htimes
    exact ih (h.tally (htimes.1 _ (by simp))) htimes.2

theorem Exact.foldl {calls : List UsageCall} (h : Exact lib a₀ now p) (h₀ : Idle lib a₀)
    (htimes : (now :: calls.map UsageCall.time ++ [T]).Pairwise (· ≤ ·))
    (hweighs : ∀ submitter slot T, .addMatch submitter slot T ∈ calls →
      0 < p.1.getSlotWeight lib slot)
    (hseen : ∀ r ∈ (calls.foldl (Accountant.tally lib) p).2.removed, r.lease.began ≤ r.clock) :
    Exact lib a₀ T (calls.foldl (Accountant.tally lib) p) := by
  induction calls generalizing now p with
  | nil => exact h.later (by simpa using htimes)
  | cons call calls ih =>
    rw [map_cons, cons_append, pairwise_cons] at htimes
    have hstep : Exact lib a₀ call.time (Accountant.tally lib p call) := by
      refine h.tally h₀ (htimes.1 _ (by simp)) (fun submitter slot T hcall => ?_) fun r hr => ?_
      · exact hweighs submitter slot T (hcall ▸ mem_cons_self)
      · exact hseen r ((removed_suffix_foldl calls _).subset hr)
    refine ih hstep htimes.2 (fun submitter slot T hmem => ?_) hseen
    rw [getSlotWeight, tally_cfg, ← getSlotWeight]
    exact hweighs submitter slot T (mem_cons_of_mem _ hmem)

theorem Ledger.began_le_clock {l : Ledger K} {r : Removal K} (hr : r ∈ l.removed)
    (h : l.shortfall (Lease.bookings r.lease.customer) = 0) : r.lease.began ≤ r.clock := by
  have hterm : r.lease.bookings r.lease.customer * (r.shortfall : K) ≤
      l.shortfall (Lease.bookings r.lease.customer) := by
    refine single_le_sum (fun x hx => ?_) _ (mem_map_of_mem hr)
    obtain ⟨r', -, rfl⟩ := mem_map.mp hx
    exact mul_nonneg (Nat.cast_nonneg _) (Int.cast_nonneg (le_max_left 0 _))
  have hone : (1 : K) ≤ r.lease.bookings r.lease.customer :=
    Nat.one_le_cast.mpr (one_le_bookings r.lease.customer)
  by_contra hlt
  have hshort : (0 : K) < (r.shortfall : K) := Int.cast_pos.mpr (lt_max_of_lt_right (by omega))
  exact absurd (h ▸ hterm) (not_le.mpr (mul_pos (zero_lt_one.trans_le hone) hshort))

/-- **Time is conserved**: the usage grows by the time that matches run, only if every removed match
has seen a tick, and then if every slot weighs something. -/
theorem usage_is_conserved (h₀ : Idle lib a₀) {calls : List UsageCall}
    (htimes : (a₀.lastUpdate :: calls.map UsageCall.time ++ [T]).Pairwise (· ≤ ·))
    (hlast : (tallies lib a₀ calls).1.lastUpdate < T) :
    let p := tallies lib a₀ calls
    let a := p.1.updatePriorities lib T
    let conserved := (∀ u, a.store.floatOf u .accumulatedUsage =
          a₀.store.floatOf u .accumulatedUsage + p.2.elapsed (Lease.bookings u) T) ∧
        (∀ u, a.store.weightedAccum u =
          a₀.store.weightedAccum u + p.2.elapsed (Lease.weightOn u) T) ∧
        ∀ before now after,
          calls ++ [.updatePriorities T] = before ++ .updatePriorities now :: after →
          ∀ u, (tallies lib a₀ before).1.store.floatOf u .accumulatedUsage ≤
              ((tallies lib a₀ before).1.updatePriorities lib now).store.floatOf u
                .accumulatedUsage ∧
            (tallies lib a₀ before).1.store.weightedAccum u ≤
              ((tallies lib a₀ before).1.updatePriorities lib now).store.weightedAccum u
    let seen := ∀ r ∈ p.2.removed, r.lease.began ≤ r.clock
    (conserved → seen) ∧
      ((∀ submitter slot now, .addMatch submitter slot now ∈ calls →
          0 < a₀.getSlotWeight lib slot) →
        seen → conserved) := by
  intro p a conserved seen
  refine ⟨fun hconserved r hr => ?_, fun hweighs hseen => ?_⟩
  · -- the plain usage of the customer misses what the matches fall short of
    refine Ledger.began_le_clock hr ?_
    have htallied : Tallied lib a₀ T p := h₀.tallied.foldl htimes
    have hplain := hconserved.1 r.lease.customer
    rw [accumulated_updatePriorities hlast, htallied.charged_eq _ T le_rfl] at hplain
    linear_combination -hplain
  · have hexact : Exact lib a₀ T p := h₀.exact.foldl h₀ htimes hweighs hseen
    have hticked := hexact.updatePriorities h₀
    refine ⟨fun u => ?_, fun u => ?_, fun before now after hsplit u => ?_⟩
    · rw [hticked.1.accumulated_eq u, updatePriorities_lastUpdate]
    · rw [hticked.1.weightedAccum_eq u, updatePriorities_lastUpdate]
    · rcases eq_nil_or_concat after with rfl | ⟨after', call, rfl⟩
      · -- the last tick
        obtain ⟨rfl, hcall⟩ := append_inj' hsplit rfl
        cases hcall
        exact hticked.2 u
      · have hsplit' : calls = before ++ .updatePriorities now :: after' := by
          rw [concat_eq_append, ← cons_append, ← append_assoc] at hsplit
          exact (append_inj' hsplit rfl).1
        subst hsplit'
        have htimes' : (a₀.lastUpdate :: before.map UsageCall.time ++ [now]).Pairwise (· ≤ ·) := by
          refine htimes.sublist ?_
          simp [UsageCall.time]
        have hbefore : Exact lib a₀ now (tallies lib a₀ before) := by
          refine h₀.exact.foldl h₀ htimes' (fun submitter slot T hmem => ?_) fun r hr => ?_
          · exact hweighs submitter slot T (mem_append_left _ hmem)
          · refine hseen r ?_
            change r ∈ (foldl (Accountant.tally lib) _ (before ++ _)).2.removed
            rw [foldl_append]
            exact (removed_suffix_foldl _ _).subset hr
        exact (hbefore.updatePriorities h₀).2 u

end

theorem usage_is_conserved_two_matches :
    let u := "u@d".toList
    let calls : List UsageCall := [.addMatch u (claimedSlot "slot1" "u@d") 10,
      .addMatch u (claimedSlot "slot2" "u@d") 12, .updatePriorities 15,
      .removeMatch "slot1@" 20]
    let a := (tallies literalLibrary fresh calls).1.updatePriorities literalLibrary 30
    a.store.floatOf u .accumulatedUsage = 28 ∧ a.store.weightedAccum u = 56 := by
  intro u calls a
  have htimes : (fresh.lastUpdate :: calls.map UsageCall.time ++ [30]).Pairwise (· ≤ ·) := by
    decide +kernel
  obtain ⟨-, hconserved⟩ := usage_is_conserved (idle_new plainConfig : Idle literalLibrary fresh)
    htimes (by decide +kernel)
  have hweighs : ∀ submitter slot now, .addMatch submitter slot now ∈ calls →
      0 < fresh.getSlotWeight literalLibrary slot := by
    intro submitter slot now hmem
    simp only [calls, mem_cons, UsageCall.addMatch.injEq, not_mem_nil, or_false] at hmem
    rcases hmem with ⟨-, rfl, -⟩ | ⟨-, rfl, -⟩ | hmem | hmem
    · decide +kernel
    · decide +kernel
    · cases hmem
    · cases hmem
  obtain ⟨hplain, hweighted, -⟩ := hconserved hweighs (by decide +kernel)
  refine ⟨(hplain u).trans ?_, (hweighted u).trans ?_⟩
  · decide +kernel
  · decide +kernel

theorem usage_misses_short_match :
    let u := "u@d".toList
    let calls : List UsageCall := [.addMatch u (claimedSlot "slot1" "u@d") 10,
      .removeMatch "slot1@" 20]
    let p := tallies literalLibrary fresh calls
    let a := p.1.updatePriorities literalLibrary 30
    a.store.floatOf u .accumulatedUsage = 0 ∧ p.2.elapsed (Lease.bookings u) 30 = 10 := by
  decide +kernel

end GolangCollector.Accountant
