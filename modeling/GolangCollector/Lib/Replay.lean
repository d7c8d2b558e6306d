import Mathlib.Data.List.Pairwise
import Mathlib.Data.List.Perm.Basic
import Mathlib.Logic.Function.Conjugate

/-! # A copy kept by replaying operations

Operations act on a state. They are performed on a primary and later, by way of a queue, on a copy;
an operation that was performed and is not yet in the queue is pending, and pending operations enter
the queue in any order. As long as pending operations commute, replaying the queue and what is
pending on the copy gives the primary (`Consistent`), and once nothing is left the two are equal. -/

namespace Replay

open List

variable {S O : Type} (act : O → S → S)

def replay (ops : List O) (s : S) : S := ops.foldl (fun s o => act o s) s

/-- **The copy lags behind the primary** by what is queued or pending. -/
structure Consistent (primary copy : S) (queue pending : List O) : Prop where
  replay_eq : replay act (queue ++ pending) copy = primary
  commute : pending.Pairwise fun a b => Function.Commute (act a) (act b)

variable {act} {primary copy : S} {queue pending rest : List O} {o : O}

theorem replay_append (ops ops' : List O) (s : S) :
    replay act (ops ++ ops') s = replay act ops' (replay act ops s) :=
  foldl_append ..

theorem replay_perm {ops ops' : List O} (hperm : ops.Perm ops')
    (hcomm : ops.Pairwise fun a b => Function.Commute (act a) (act b)) (s : S) :
    replay act ops s = replay act ops' s := by
  refine hperm.foldl_eq' (fun a ha b hb z => ?_) s
  have : Std.Symm fun a b => Function.Commute (act a) (act b) := ⟨fun _ _ h => h.symm⟩
  obtain rfl | hne := eq_or_ne a b
  · rfl
  · exact (hcomm.forall ha hb hne z).symm

theorem Consistent.refl (s : S) : Consistent act s s [] [] := ⟨rfl, .nil⟩

theorem Consistent.perform (h : Consistent act primary copy queue pending)
    (hcomm : ∀ a ∈ pending, Function.Commute (act a) (act o)) :
    Consistent act (act o primary) copy queue (pending ++ [o]) where
  replay_eq := by
    rw [← append_assoc, replay_append, h.replay_eq]
    rfl
  commute := pairwise_append.mpr ⟨h.commute, pairwise_singleton _ _, by simpa using hcomm⟩

theorem Consistent.enqueue (h : Consistent act primary copy queue pending)
    (hperm : pending.Perm (o :: rest)) : Consistent act primary copy (queue ++ [o]) rest where
  replay_eq := by
    rw [← h.replay_eq, append_assoc, replay_append queue, replay_append queue]
    exact (replay_perm hperm h.commute _).symm
  commute := ((hperm.pairwise_iff fun h => h.symm).mp h.commute).of_cons

theorem Consistent.deliver (h : Consistent act primary copy (o :: queue) pending) :
    Consistent act primary (act o copy) queue pending :=
  ⟨h.replay_eq, h.commute⟩

theorem Consistent.eq_of_drained (h : Consistent act primary copy [] []) : primary = copy :=
  h.replay_eq.symm

end Replay
