import GolangCollector.Negotiator.WarmConns

/-! # Who owns a connection

Every connection is in one place: with the dialler of a later time, in the cache under one key, with
one session, or on its way to be closed and there for good. The abstract state is just that, a place
for every number; a factory refines it when its cache, its sessions and its lists of connections
agree with the places. What a session does to its connection is one of six effects, and each of them
moves at most two connections. -/

namespace GolangCollector.Negotiator.Protocol

open GoStrings Runs List Option

/-! ## Sessions -/

namespace Pc

def inFlight : Pc → List (ℕ × Request)
  | .asking f | .replying f | .reading f => f.out
  | _ => []

def unread : Pc → Bool
  | .unused | .warmHeader | .dialing _ | .header _ | .evicting _ | .evicted _ _ => true
  | _ => false

def unbound : Pc → Bool
  | .unused | .dialing _ => true
  | _ => false

def working : Pc → Bool
  | .warmHeader | .header _ | .asking _ | .replying _ | .reading _ | .ending => true
  | _ => false

def redials : Pc → Bool
  | .evicting _ | .evicted _ _ | .dialing (.fetches _) | .header (.fetches _) => true
  | _ => false

theorem unread_of_redials {pc : Pc} (h : pc.redials = true) : pc.unread = true := by
  cases pc <;> first | rfl | cases h

end Pc

/-- **The invariant of a session.** -/
structure Sound (x : Session) : Prop where
  unbound : x.pc.unbound = true → x.conn = none
  bound : x.pc.working = true → x.conn.isSome = true
  unread : x.pc.unread = true → x.replies = 0
  progress : x.progressed = false → x.replies = 0
  count : x.read.length ≤ x.replies
  flows : x.delivered ++ x.pc.inFlight = x.read
  source : ∀ p ∈ x.read, ∀ q ∈ x.read, p.1 = q.1
  current : ∀ p ∈ x.read, ∀ c ∈ x.conn, p.1 = c

def Effect.Moves (s : Factory) (x x' : Session) : Effect → Prop
  | .keep | .evict _ => x'.conn = x.conn
  | .take key => x.conn = none ∧ ∃ c, s.warm.lookup key = some c ∧ x'.conn = some c
  | .dial => x.conn = none ∧ x'.conn = some s.dialled
  | .drop => x'.conn = none
  | .put _ => x.conn.isSome = true ∧ x'.conn = none

structure SoundMove (s : Factory) (x : Session) (r : Session × Effect) : Prop where
  sound : Sound r.1
  moves : r.2.Moves s x r.1

theorem sound_new (addr : Text) : Sound (.new addr) where
  unbound _ := rfl
  bound h := by cases h
  unread _ := rfl
  progress _ := rfl
  count := le_rfl
  flows := rfl
  source p hp := by cases hp
  current p hp := by cases hp

variable {s : Factory} {x : Session}

theorem Sound.read_eq_nil (h : Sound x) (hnone : x.replies = 0) : x.read = [] :=
  length_eq_zero_iff.mp (Nat.le_zero.mp (hnone ▸ h.count))

theorem Sound.delivered_eq_nil (h : Sound x) (hnone : x.replies = 0) : x.delivered = [] :=
  (append_eq_nil_iff.mp (h.flows.trans (h.read_eq_nil hnone))).1

namespace Session

section

variable (h : Sound x)
include h

theorem sound_goesTo (pc : Pc) (hbound : pc.working = true → x.conn.isSome = true)
    (hunbound : pc.unbound = true → x.conn = none) (hunread : pc.unread = true → x.replies = 0)
    (hflight : pc.inFlight = x.pc.inFlight) : Sound { x with pc := pc } :=
  { h with
    unbound := hunbound
    bound := hbound
    unread := hunread
    flows := by
      rw [← h.flows]
      exact congrArg _ hflight }

theorem sound_returns (hflight : x.pc.inFlight = []) (err : Option NetError) :
    Sound (x.returns err) := by
  have hidle := sound_goesTo h .idle nofun nofun nofun hflight.symm
  exact { hidle with }

theorem sound_fetched {f : Fetch} (hflight : x.pc.inFlight = f.out) (err : Option NetError) :
    Sound (x.fetched f err) :=
  { h with
    unbound := nofun
    bound := nofun
    unread := nofun
    flows := by
      refine Eq.trans (append_nil _) (Eq.trans ?_ h.flows)
      rw [hflight]
      rfl }

theorem sound_fetchFails {f : Fetch} (hflight : x.pc.inFlight = f.out) (err : NetError) :
    Sound (x.fetchFails f err) := by
  rw [fetchFails]
  split
  · next hdropped =>
    have hprogress : x.progressed = false := by
      simp only [Bool.and_eq_true, Bool.not_eq_true'] at hdropped
      exact hdropped.1.2
    have hnone := h.progress hprogress
    have hempty : x.pc.inFlight = [] :=
      (append_eq_nil_iff.mp (h.flows.trans (h.read_eq_nil hnone))).2
    exact sound_goesTo h (.evicting f.n) nofun nofun (fun _ => hnone) hempty.symm
  · exact sound_fetched h hflight (some err)

theorem sound_fetchOnce (hflight : x.pc.inFlight = []) (n : ℤ) (again : Bool)
    (hconn : 0 < n → x.conn.isSome = true) : Sound (x.fetchOnce n again) := by
  rw [fetchOnce]
  split
  · exact sound_returns h hflight none
  · next hn =>
    exact sound_goesTo h (.asking ⟨n, again, []⟩) (fun _ => hconn (not_le.mp hn)) nofun nofun
      hflight.symm

theorem sound_hears {f : Fetch} (hpc : x.pc = .replying f) (op : Opcode) :
    Sound (x.hears f op) := by
  have hconn := h.bound (by rw [hpc]; rfl)
  have hflight : x.pc.inFlight = f.out := by rw [hpc]; rfl
  have hheard : Sound { x with heard := x.heard + 1 } := { h with }
  cases op with
  | noMoreJobs =>
    have hreply : Sound { x with
        heard := x.heard + 1, exhausted := true, progressed := true, replies := x.replies + 1 } :=
      { h with
        unread := fun hunread => by simp [hpc, Pc.unread] at hunread
        progress := nofun
        count := h.count.trans (Nat.le_succ _) }
    exact sound_fetched hreply hflight none
  | jobInfo =>
    exact sound_goesTo hheard (.reading f) (fun _ => hconn) nofun nofun hflight.symm
  | other op name => exact sound_fetchFails hheard hflight _

theorem sound_reads {f : Fetch} (hpc : x.pc = .reading f) (legacy : Bool) {c : ℕ}
    (hconn : x.conn = some c) (req : Request) : Sound (x.reads legacy f c req) := by
  have hflows : x.delivered ++ (f.out ++ [(c, req)]) = x.read ++ [(c, req)] := by
    rw [← h.flows, hpc, append_assoc]
    rfl
  have hall : ∀ p ∈ x.read ++ [(c, req)], p.1 = c := by
    intro p hp
    rcases mem_append.mp hp with hp | hp
    · exact h.current p hp c hconn
    · rw [mem_singleton.mp hp]
  -- the books after the reply, at any place of the loop
  have hread : ∀ pc : Pc, pc.unread = false → pc.unbound = false →
      pc.inFlight = f.out ++ [(c, req)] → Sound { x with
        progressed := true, replies := x.replies + 1, read := x.read ++ [(c, req)], pc := pc } := by
    intro pc hunread hunbound hflight
    refine ⟨?_, ?_, ?_, nofun, ?_, ?_, ?_, ?_⟩
    · intro h
      simp [hunbound] at h
    · intro _
      rw [hconn]
      rfl
    · intro h
      simp [hunread] at h
    · simpa using h.count
    · rw [← hflows]
      exact congrArg _ hflight
    · exact fun p hp q hq => (hall p hp).trans (hall q hq).symm
    · rintro p hp c' hc'
      obtain rfl : c = c' := some.inj (hconn.symm.trans hc')
      exact hall p hp
  rw [reads]
  dsimp only
  split
  · cases legacy
    · exact hread (.replying { f with out := f.out ++ [(c, req)] }) rfl rfl rfl
    · exact hread (.asking { f with out := f.out ++ [(c, req)] }) rfl rfl rfl
  · exact sound_fetched (hread (.replying { f with out := f.out ++ [(c, req)] }) rfl rfl rfl) rfl
      none

end

end Session

variable {F : Type} {lib : MatchLibrary F} {r : Session × Effect}

theorem SoundMove.keep {x' : Session} (h : Sound x') (hconn : x'.conn = x.conn) :
    SoundMove s x (x', .keep) := ⟨h, hconn⟩

theorem conn_fetchFails (f : Fetch) (err : NetError) : (x.fetchFails f err).conn = x.conn := by
  rw [Session.fetchFails]
  split <;> rfl

theorem conn_fetchOnce (n : ℤ) (again : Bool) : (x.fetchOnce n again).conn = x.conn := by
  rw [Session.fetchOnce]
  split <;> rfl

theorem conn_hears (f : Fetch) (op : Opcode) : (x.hears f op).conn = x.conn := by
  cases op with
  | noMoreJobs => rfl
  | jobInfo => rfl
  | other op name => exact conn_fetchFails f _

theorem conn_reads (legacy : Bool) (f : Fetch) (c : ℕ) (req : Request) :
    (x.reads legacy f c req).conn = x.conn := by
  rw [Session.reads]
  dsimp only
  split <;> rfl

section

variable (h : Sound x)
include h

theorem Sound.unbind (pc : Pc) (err : Option NetError) (hworking : pc.working = false)
    (hunread : pc.unread = true → x.replies = 0) (hflight : pc.inFlight = x.pc.inFlight) :
    Sound { x with pc := pc, conn := none, returned := err } :=
  { h with
    unbound := fun _ => rfl
    bound := fun hwork => by simp [hworking] at hwork
    unread := hunread
    flows := by
      rw [← h.flows]
      exact congrArg _ hflight
    current := fun p _ c hc => by cases hc }

theorem soundMove_begins (hpc : x.pc = .unused) (tag : Text) :
    SoundMove s x (x.begins tag (s.warm.lookup ⟨x.scheddAddr, tag⟩)) := by
  have hnone := h.unread (by rw [hpc]; rfl)
  have hconn := h.unbound (by rw [hpc]; rfl)
  have hflows : x.delivered ++ [] = x.read := by
    rw [← h.flows, hpc]
    rfl
  cases hcached : s.warm.lookup ⟨x.scheddAddr, tag⟩ with
  | none =>
    exact .keep { h with
      unbound := fun _ => hconn, bound := nofun, unread := fun _ => hnone, flows := hflows } rfl
  | some wc =>
    refine ⟨{ h with
      unbound := nofun, bound := fun _ => rfl, unread := fun _ => hnone
      progress := fun _ => hnone, flows := hflows, current := ?_ }, hconn, wc, hcached, rfl⟩
    intro p hp
    rw [Session.begins, h.read_eq_nil hnone] at hp
    cases hp

theorem soundMove_dialled {why : Why} (hpc : x.pc = .dialing why) (err : Option NetError) :
    SoundMove s x (x.dialled s.dialled why err) := by
  have hnone := h.unread (by rw [hpc]; rfl)
  have hflight : x.pc.inFlight = [] := by rw [hpc]; rfl
  cases err with
  | some err => exact .keep (Session.sound_returns h hflight _) rfl
  | none =>
    refine ⟨{ h with
      unbound := nofun, bound := fun _ => rfl, unread := fun _ => hnone
      progress := fun _ => hnone, flows := ?_, current := ?_ },
      h.unbound (by rw [hpc]; rfl), rfl⟩
    · refine Eq.trans ?_ h.flows
      rw [hflight]
      rfl
    · intro p hp
      rw [Session.dialled, h.read_eq_nil hnone] at hp
      cases hp

theorem soundMove_sent (legacy : Bool) (res : Sent) (hr : x.sent legacy res = some r) :
    SoundMove s x r := by
  rw [Session.sent] at hr
  split at hr
  · next hpc =>
    have hflight : x.pc.inFlight = [] := by rw [hpc]; rfl
    split at hr <;> obtain rfl := some.inj hr
    · exact .keep (Session.sound_returns h hflight none) rfl
    · exact ⟨h.unbind (.dialing .begins) x.returned rfl
        (fun _ => h.unread (by rw [hpc]; rfl)) hflight.symm, rfl⟩
  · next why hpc =>
    have hflight : x.pc.inFlight = [] := by rw [hpc]; rfl
    split at hr <;> obtain rfl := some.inj hr
    · exact .keep (Session.sound_returns h hflight _) rfl
    · exact .keep (Session.sound_returns h hflight none) rfl
    · exact .keep (Session.sound_fetchOnce h hflight _ true
        fun _ => h.bound (by rw [hpc]; rfl)) (conn_fetchOnce _ _)
  · next f hpc =>
    have hflight : x.pc.inFlight = f.out := by rw [hpc]; rfl
    split at hr <;> obtain rfl := some.inj hr
    · exact .keep (Session.sound_goesTo h (.replying f) (fun _ => h.bound (by rw [hpc]; rfl)) nofun
        nofun hflight.symm) rfl
    · exact .keep (Session.sound_fetchFails h hflight _) (conn_fetchFails _ _)
  · next hpc =>
    have hflight : x.pc.inFlight = [] := by rw [hpc]; rfl
    split at hr <;> obtain rfl := some.inj hr
    · exact ⟨h.unbind .finished none rfl nofun hflight.symm, h.bound (by rw [hpc]; rfl), rfl⟩
    · exact ⟨h.unbind .finished _ rfl nofun hflight.symm, rfl⟩
  · cases hr

theorem soundMove_called (hpc : x.pc = .idle) (a : Act) (hr : x.called a = some r) :
    SoundMove s x r := by
  have hflight : x.pc.inFlight = [] := by rw [hpc]; rfl
  cases a with
  | fetches n =>
    rw [Session.called] at hr
    split at hr
    · obtain rfl := some.inj hr
      exact .keep (Session.sound_returns h hflight none) rfl
    · split at hr
      · next hready =>
        obtain rfl := some.inj hr
        refine .keep (Session.sound_fetchOnce h hflight n false fun hn => ?_) (conn_fetchOnce _ _)
        simpa [not_le.mpr hn] using hready
      · cases hr
  | sendMatch res | reject res =>
    rw [Session.called] at hr
    split at hr <;> obtain rfl := some.inj hr <;>
      exact .keep (Session.sound_returns h hflight _) rfl
  | ends =>
    rw [Session.called] at hr
    split at hr <;> obtain rfl := some.inj hr
    · have hover := Session.sound_goesTo h .finished nofun nofun nofun hflight.symm
      exact .keep { hover with } rfl
    · next c hc =>
      exact .keep (Session.sound_goesTo h .ending (fun _ => by rw [hc]; rfl) nofun nofun
        hflight.symm) rfl
  | close =>
    obtain rfl := some.inj hr
    exact ⟨h.unbind .finished none rfl nofun hflight.symm, rfl⟩
  | _ => cases hr

theorem soundMove_of_react (a : Act) (hr : s.react lib x a = some r) : SoundMove s x r := by
  unfold Factory.react at hr
  split at hr
  · next tag hpc =>
    obtain rfl := some.inj hr
    exact soundMove_begins h hpc tag
  · exact soundMove_sent h _ _ hr
  · next err why hpc =>
    obtain rfl := some.inj hr
    exact soundMove_dialled h hpc err
  · next err f hpc =>
    obtain rfl := some.inj hr
    exact .keep (Session.sound_fetchFails h (by rw [hpc]; rfl) _) (conn_fetchFails _ _)
  · next op f hpc =>
    obtain rfl := some.inj hr
    exact .keep (Session.sound_hears h hpc op) (conn_hears _ _)
  · next err f hpc =>
    obtain rfl := some.inj hr
    exact .keep (Session.sound_fetchFails h (by rw [hpc]; rfl) _) (conn_fetchFails _ _)
  · next ad f hpc =>
    obtain ⟨c, hc, rfl⟩ := map_eq_some_iff.mp hr
    exact .keep (Session.sound_reads h hpc _ hc _) (conn_reads _ _ _ _)
  · next n hpc =>
    obtain rfl := some.inj hr
    exact ⟨Session.sound_goesTo h (.evicted n _) nofun nofun
      (fun _ => h.unread (by rw [hpc]; rfl)) (by rw [hpc]; rfl), rfl⟩
  · next n wc hpc =>
    split at hr
    · obtain rfl := some.inj hr
      exact ⟨h.unbind (.dialing (.fetches n)) x.returned rfl
        (fun _ => h.unread (by rw [hpc]; rfl)) (by rw [hpc]; rfl), rfl⟩
    · cases hr
  · next hpc => exact soundMove_called h hpc _ hr
  · cases hr

end

/-! ## Places -/

theorem Factory.sessions_perform (conn : Option ℕ) (e : Effect) :
    (s.perform conn e).sessions = s.sessions := by
  cases e with
  | put key => cases conn <;> rfl
  | _ => rfl

inductive Place where
  | unborn
  | cached (key : CacheKey)
  | held (i : ℕ)
  /-- Taken out of the cache by a call that closes it next. -/
  | closing
  | closed
  deriving DecidableEq

def Place.gone : Place → Bool
  | .closing | .closed => true
  | _ => false

def Factory.At (s : Factory) (c : ℕ) : Place → Prop
  | .unborn => s.dialled ≤ c
  | .cached key => s.warm.lookup key = some c
  | .held i => (s.sessions i).conn = some c
  | .closing => c ∈ s.closing
  | .closed => c ∈ s.closed

def Refines (s : Factory) (loc : ℕ → Place) : Prop := ∀ c p, s.At c p ↔ loc c = p

def StaysGone (loc loc' : ℕ → Place) : Prop := ∀ c, (loc c).gone = true → (loc' c).gone = true

theorem lookup_erase_eq (m : GoMap CacheKey ℕ) (key k : CacheKey) :
    (m.erase key).lookup k = if k = key then none else m.lookup k := by
  split
  · next h => rw [h, AList.lookup_erase]
  · next h => exact AList.lookup_erase_ne h

theorem lookup_insert_eq (m : GoMap CacheKey ℕ) (key k : CacheKey) (c : ℕ) :
    (m.insert key c).lookup k = if k = key then some c else m.lookup k := by
  split
  · next h => rw [h, AList.lookup_insert]
  · next h => exact AList.lookup_insert_ne h

theorem conn_set (s : Factory) (i j : ℕ) (x : Session) :
    ((s.set i x).sessions j).conn = if j = i then x.conn else (s.sessions j).conn := by
  simp only [Factory.set]
  split <;> rfl

namespace Refines

variable {loc : ℕ → Place} {i : ℕ} {x' : Session}

theorem new (legacy : Bool) (addrs : ℕ → Text) :
    Refines (.new legacy addrs) fun _ => .unborn := by
  intro c p
  cases p <;> simp [Factory.At, Factory.new, Session.new]

section

variable (h : Refines s loc)
include h

theorem set (hconn : x'.conn = (s.sessions i).conn) : Refines (s.set i x') loc := by
  intro c p
  rw [← h c p]
  cases p with
  | held j =>
    rw [Factory.At, conn_set]
    split
    · next hj => rw [hconn, ← hj, Factory.At]
    · rfl
  | _ => rfl

theorem take {key : CacheKey} {c : ℕ} (hcached : s.warm.lookup key = some c)
    (hnone : (s.sessions i).conn = none) (hx : x'.conn = some c) :
    Refines ((s.take key).set i x') (Function.update loc c (.held i)) := by
  have hc := (h c (.cached key)).mp hcached
  intro c' p
  have hp := h c' p
  have hmine := h c' (.held i)
  cases p <;>
    simp only [Factory.At, Factory.set, Factory.take, lookup_erase_eq, Function.update_apply]
      at hp hmine ⊢ <;> grind

theorem dial (hnone : (s.sessions i).conn = none) (hx : x'.conn = some s.dialled) :
    Refines ({ s with dialled := s.dialled + 1 }.set i x')
      (Function.update loc s.dialled (.held i)) := by
  have hc := (h s.dialled .unborn).mp (le_refl s.dialled)
  intro c' p
  have hp := h c' p
  have hmine := h c' (.held i)
  cases p <;> simp only [Factory.At, Factory.set, Function.update_apply] at hp hmine ⊢ <;> grind

theorem drop (hx : x'.conn = none) :
    Refines ((s.close (s.sessions i).conn).set i x')
      fun c => if (s.sessions i).conn = some c then .closed else loc c := by
  intro c' p
  have hp := h c' p
  have hmine := h c' (.held i)
  cases p <;>
    simp only [Factory.At, Factory.set, Factory.close, mem_append, mem_toList]
      at hp hmine ⊢ <;> grind

theorem put {key : CacheKey} {c : ℕ} (hconn : (s.sessions i).conn = some c) (hx : x'.conn = none) :
    Refines ((s.put key c).set i x') fun c' =>
      if c' = c then .cached key else if s.warm.lookup key = some c' then .closed else loc c' := by
  have hc := (h c (.held i)).mp hconn
  intro c' p
  have hp := h c' p
  have hmine := h c' (.held i)
  have hold := h c' (.cached key)
  cases p <;>
    simp only [Factory.At, Factory.set, Factory.put, lookup_insert_eq, mem_append,
      mem_toList, filter_eq_some_iff, decide_eq_true_eq]
      at hp hmine hold ⊢ <;> grind

theorem evict (key : CacheKey) :
    Refines (s.evict key) fun c => if s.warm.lookup key = some c then .closing else loc c := by
  intro c' p
  have hp := h c' p
  have hold := h c' (.cached key)
  cases p <;>
    simp only [Factory.At, Factory.evict, lookup_erase_eq, mem_append, mem_toList]
      at hp hold ⊢ <;> grind

theorem closeAll :
    Refines s.closeAll fun c => match loc c with
      | .cached _ => .closing
      | p => p := by
  intro c' p
  have hp := h c' p
  have hall : c' ∈ s.warm.pairs.map Prod.snd ↔ ∃ key, loc c' = .cached key := by
    simp only [List.mem_map, Prod.exists, exists_eq_right, GoMap.mem_pairs_iff]
    exact exists_congr fun key => h c' (.cached key)
  cases p <;>
    simp only [Factory.At, Factory.closeAll, AList.lookup_empty, mem_append, hall]
      at hp ⊢ <;> grind

theorem closes {c : ℕ} (hclosing : c ∈ s.closing) :
    Refines { s with closing := s.closing.filter (· ≠ c), closed := c :: s.closed }
      (Function.update loc c .closed) := by
  have hc := (h c .closing).mp hclosing
  intro c' p
  have hp := h c' p
  cases p <;>
    simp only [Factory.At, mem_filter, mem_cons, decide_eq_true_eq,
      Function.update_apply] at hp ⊢ <;> grind

theorem perform {e : Effect} (hmoves : e.Moves s (s.sessions i) x') :
    ∃ loc', Refines ((s.perform (s.sessions i).conn e).set i x') loc' ∧ StaysGone loc loc' := by
  cases e with
  | keep => exact ⟨loc, h.set hmoves, fun _ hgone => hgone⟩
  | take key =>
    obtain ⟨hnone, c, hcached, hx⟩ := hmoves
    have hc := (h c (.cached key)).mp hcached
    exact ⟨_, h.take hcached hnone hx, fun c' hgone => by grind [Place.gone]⟩
  | dial =>
    have hc := (h s.dialled .unborn).mp (le_refl s.dialled)
    exact ⟨_, h.dial hmoves.1 hmoves.2, fun c' hgone => by grind [Place.gone]⟩
  | drop => exact ⟨_, h.drop hmoves, fun c' hgone => by grind [Place.gone]⟩
  | put key =>
    obtain ⟨hsome, hx⟩ := hmoves
    obtain ⟨c, hconn⟩ := isSome_iff_exists.mp hsome
    have hc := (h c (.held i)).mp hconn
    simp only [Factory.perform, hconn]
    exact ⟨_, h.put hconn hx, fun c' hgone => by grind [Place.gone]⟩
  | evict key => exact ⟨_, (h.evict key).set hmoves, fun c' hgone => by grind [Place.gone]⟩

end

end Refines

/-- **The invariant of the factory.** -/
structure Owned (s : Factory) (loc : ℕ → Place) : Prop where
  refines : Refines s loc
  sound : ∀ i, Sound (s.sessions i)

theorem owned_new (legacy : Bool) (addrs : ℕ → Text) :
    Owned (.new legacy addrs) fun _ => .unborn := ⟨.new legacy addrs, fun _ => sound_new _⟩

theorem Owned.of_step {loc : ℕ → Place} {l : Factory.Label} {s' : Factory} (h : Owned s loc)
    (hstep : s.step lib l = some s') : ∃ loc', Owned s' loc' ∧ StaysGone loc loc' := by
  cases l with
  | act i a =>
    obtain ⟨r, hr, rfl⟩ := map_eq_some_iff.mp hstep
    have hmove := soundMove_of_react (h.sound i) a hr
    obtain ⟨loc', hrefines, hgone⟩ := h.refines.perform hmove.moves
    refine ⟨loc', ⟨hrefines, fun j => ?_⟩, hgone⟩
    rw [Factory.set]
    dsimp only
    split
    · exact hmove.sound
    · rw [Factory.sessions_perform]
      exact h.sound j
  | evict key =>
    obtain rfl := some.inj hstep
    exact ⟨_, ⟨h.refines.evict key, h.sound⟩, fun c hgone => by grind [Place.gone]⟩
  | closeAll =>
    obtain rfl := some.inj hstep
    exact ⟨_, ⟨h.refines.closeAll, h.sound⟩, fun c hgone => by grind [Place.gone]⟩
  | closes c =>
    rw [Factory.step] at hstep
    split at hstep
    · next hc =>
      obtain rfl := some.inj hstep
      exact ⟨_, ⟨h.refines.closes hc, h.sound⟩, fun c hgone => by grind [Place.gone]⟩
    · cases hstep

theorem Owned.of_exec {loc : ℕ → Place} {ls : List Factory.Label} {s' : Factory} (h : Owned s loc)
    (hexec : exec (fun s => s.step lib) s ls = some s') :
    ∃ loc', Owned s' loc' ∧ StaysGone loc loc' := by
  induction ls generalizing s loc with
  | nil =>
    obtain rfl := some.inj hexec
    exact ⟨loc, h, fun _ hgone => hgone⟩
  | cons l ls ih =>
    obtain ⟨s₁, hstep, hrest⟩ := bind_eq_some_iff.mp hexec
    obtain ⟨loc₁, h₁, hgone₁⟩ := h.of_step hstep
    obtain ⟨loc', h', hgone'⟩ := ih h₁ hrest
    exact ⟨loc', h', fun c hgone => hgone' c (hgone₁ c hgone)⟩

/-- **Warm connections have one owner**, in every interleaving and whatever fails. -/
theorem warm_connections_owned {F : Type} (lib : MatchLibrary F) (legacy : Bool)
    (addrs : ℕ → Text) (ls : List Factory.Label) (s : Factory)
    (h : exec (fun s => Factory.step s lib) (.new legacy addrs) ls = some s) :
    (∀ c < s.dialled, ∃! p, p ≠ .unborn ∧ s.At c p) ∧
    (∀ i j c, (s.sessions i).conn = some c → (s.sessions j).conn = some c → i = j) ∧
    (∀ c, s.At c .closing ∨ s.At c .closed → ∀ ls' s',
      exec (fun s => Factory.step s lib) s ls' = some s' → ∀ key, ¬ s'.At c (.cached key)) ∧
    ∀ i, ((s.sessions i).pc.redials = true →
        (s.sessions i).replies = 0 ∧ (s.sessions i).delivered = []) ∧
      (s.sessions i).delivered <+: (s.sessions i).read ∧
      ∀ p ∈ (s.sessions i).delivered, ∀ q ∈ (s.sessions i).delivered, p.1 = q.1 := by
  obtain ⟨loc, howned, -⟩ := (owned_new legacy addrs).of_exec h
  have hat := howned.refines
  refine ⟨fun c hc => ⟨loc c, ⟨fun hunborn => ?_, (hat c _).mpr rfl⟩, fun p hp => ?_⟩,
    fun i j c hi hj => ?_, fun c hgone ls' s' hexec key hcached => ?_, fun i => ?_⟩
  · exact absurd ((hat c .unborn).mpr hunborn) (not_le.mpr hc)
  · exact ((hat c p).mp hp.2).symm
  · have hplace := ((hat c (.held i)).mp hi).symm.trans ((hat c (.held j)).mp hj)
    exact Place.held.inj hplace
  · obtain ⟨loc', howned', hstays⟩ := howned.of_exec hexec
    have hplace := (howned'.refines c (.cached key)).mp hcached
    have hthere : (loc c).gone = true := by
      rcases hgone with hgone | hgone <;> rw [(hat c _).mp hgone] <;> rfl
    have hstill := hstays c hthere
    rw [hplace] at hstill
    cases hstill
  · have hsound := howned.sound i
    have hfirst : (s.sessions i).delivered <+: (s.sessions i).read := ⟨_, hsound.flows⟩
    refine ⟨fun hredials => ?_, hfirst, fun p hp q hq => ?_⟩
    · have hnone := hsound.unread (Pc.unread_of_redials hredials)
      exact ⟨hnone, hsound.delivered_eq_nil hnone⟩
    · exact hsound.source p (hfirst.subset hp) q (hfirst.subset hq)

def literalLib : MatchLibrary ℚ := literalMatchLibrary id 0

def oneSchedd : Factory := .new false fun _ => "addr"

def shortRound (i : ℕ) : List Factory.Label :=
  [.act i (.begins []), .act i (.dialled none), .act i (.sent none), .act i .ends,
    .act i (.sent none)]

def droppedReply : List Factory.Label :=
  shortRound 0 ++ [.act 1 (.begins []), .act 1 (.sent none), .act 1 (.fetches 5),
    .act 1 (.sent none), .act 1 (.opcode (.ok .jobInfo))] ++ shortRound 2 ++
    [.act 1 (.ad (.error ⟨some .eof, "EOF"⟩)), .act 1 .goesOn]

def dialsAnew : List Factory.Label :=
  [.closes 1, .act 1 .goesOn, .act 1 (.dialled none)]

theorem warm_connections_owned_droppedReply :
    ∃ s, exec (fun s => Factory.step s literalLib) oneSchedd
        droppedReply = some s ∧
      s.dialled = 2 ∧ (∃! p, p ≠ .unborn ∧ s.At 1 p) ∧ (s.sessions 1).pc.redials = true ∧
      (s.sessions 1).replies = 0 := by
  obtain ⟨s, hs, hview⟩ := map_eq_some_iff.mp (by decide +kernel :
    (exec (fun s => Factory.step s literalLib) oneSchedd
      droppedReply).map (fun s => decide (s.dialled = 2 ∧ (s.sessions 1).pc.redials = true)) =
      some true)
  obtain ⟨hdialled, hredials⟩ := of_decide_eq_true hview
  obtain ⟨hplaces, -, -, hrounds⟩ := warm_connections_owned _ false _ droppedReply s hs
  exact ⟨s, hs, hdialled, hplaces 1 (by rw [hdialled]; decide), hredials,
    ((hrounds 1).1 hredials).1⟩

theorem between_cache_and_close :
    ∃ s s', exec (fun s => Factory.step s literalLib) oneSchedd
        droppedReply = some s ∧
      exec (fun s => Factory.step s literalLib) s dialsAnew = some s' ∧
      1 < s.dialled ∧ (∀ key, ¬ s.At 1 (.cached key)) ∧ (∀ i, ¬ s.At 1 (.held i)) ∧
      ¬ s.At 1 .closed ∧
      (s.sessions 1).reused = true ∧ (s.sessions 1).conn = some 0 ∧ (s.sessions 1).heard = 1 ∧
      (s'.sessions 1).conn = some 2 := by
  obtain ⟨s, hs, hnext⟩ := bind_eq_some_iff.mp (by decide +kernel :
    (exec (fun s => Factory.step s literalLib) oneSchedd
      droppedReply).bind (fun s =>
        (exec (fun s => Factory.step s literalLib) s dialsAnew).map
          fun s' => decide (1 < s.dialled ∧ 1 ∈ s.closing ∧ (s.sessions 1).reused = true ∧
            (s.sessions 1).conn = some 0 ∧ (s.sessions 1).heard = 1 ∧
            (s'.sessions 1).conn = some 2)) = some true)
  obtain ⟨s', hs', hview⟩ := map_eq_some_iff.mp hnext
  obtain ⟨hdialled, hclosing, hreused, hconn, hheard, hanew⟩ := of_decide_eq_true hview
  obtain ⟨loc, howned, -⟩ := (owned_new false fun _ => "addr").of_exec hs
  have hplace : loc 1 = .closing := (howned.refines 1 .closing).mp hclosing
  have helsewhere : ∀ p, p ≠ .closing → ¬ s.At 1 p := fun p hp hat =>
    hp (((howned.refines 1 p).mp hat).symm.trans hplace)
  exact ⟨s, s', hs, hs', hdialled, fun key => helsewhere _ nofun, fun i => helsewhere _ nofun,
    helsewhere _ nofun, hreused, hconn, hheard, hanew⟩

end GolangCollector.Negotiator.Protocol
