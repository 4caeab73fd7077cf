import Rsdl.Step
import Rsdl.DrainProofs

/-! The FIFO discipline of the level queues, for every step from every state. The only
writes to a level's entries are `enqueue_proc`'s append at the tail and
`unqueue_proc_full`'s deletion of the first occurrence of one process, with the rest
shifted down; every other write to a level changes its quantum alone.

Which processes a step may unqueue is read off the state it starts in (`movable`): the
CPU's process, which `exit` removes and the requeue moves; the processes of the level the
CPU picked from, when that level has no quantum left and the requeue drains it; and,
when the CPU is in the scheduler, the processes of the active set, which the swap drains.
What a step appends is one of those, the first process when there is none yet, or the
child at the second section of a `priofork` (`arrivals`). So each queue ends as a
`Fifo.Edit` of what it was. The drain loops take their entries from the front of a queue
that may receive some of them back; `Deletable` says that every process of the queues
being drained may still move, and the loops keep it. -/
namespace Rsdl.FifoProofs

open ExceptRun Fifo QueueProofs DrainProofs

variable {C : Type} {cfg : Config} {s s' t : Kernel C} {p : Slot} {r : QueueRef}
  {gone new : Slot → Bool}

/-- Every queue of `s'` is an edit of the same queue of `s`. -/
def Edited (gone new : Slot → Bool) (s s' : Kernel C) : Prop :=
  ∀ r, Edit gone new (s.level r).entries (s'.level r).entries

theorem Edited.refl (s : Kernel C) : Edited gone new s s := fun _ => Edit.refl _

theorem Edited.trans (first : Edited gone new s t) (second : Edited gone new t s') :
    Edited gone new s s' :=
  fun r => (first r).trans (second r)

theorem Edited.of_level (level : s'.level = s.level) : Edited gone new s s' := fun r => by
  rw [level]
  exact Edit.refl _

theorem Edited.foldl {α : Type} {f : Kernel C → α → Kernel C}
    (each : ∀ s a, Edited gone new s (f s a)) (l : List α) (s : Kernel C) :
    Edited gone new s (l.foldl f s) := by
  induction l generalizing s with
  | nil => exact Edited.refl s
  | cons a rest ih => exact (each s a).trans (ih (f s a))

/-- Every process of the queues `P` picks may move. -/
def Deletable (gone new : Slot → Bool) (P : QueueRef → Prop) (s : Kernel C) : Prop :=
  ∀ r, P r → ∀ x ∈ (s.level r).entries, gone x = true ∧ new x = true

/-- What the drain loops keep: every queue is edited, the queues `P` picks hold only
processes that may move, and the expired set stays where it is. -/
structure Drains (gone new : Slot → Bool) (P : QueueRef → Prop) (s s' : Kernel C) : Prop where
  edited : Edited gone new s s'
  deletable : Deletable gone new P s'
  expired : s'.expired = s.expired

theorem Drains.refl (del : Deletable gone new P s) : Drains gone new P s s :=
  ⟨Edited.refl s, del, rfl⟩

theorem Drains.trans {P : QueueRef → Prop} (first : Drains gone new P s t)
    (second : Drains gone new P t s') : Drains gone new P s s' :=
  ⟨first.edited.trans second.edited, second.deletable, second.expired.trans first.expired⟩

theorem Deletable.enqueue {P : QueueRef → Prop} (del : Deletable gone new P s)
    (moving : gone p = true ∧ new p = true) (ran : s.enqueue p r = .ok s') :
    Deletable gone new P s' := by
  obtain ⟨-, rfl⟩ := enqueue_eq_ok ran
  intro r' picked x member
  by_cases same : r' = r
  · subst r'
    have landed : x ∈ (s.level r).entries ∨ x = p := by simpa using member
    rcases landed with old | rfl
    · exact del r picked x old
    · exact moving
  · exact del r' picked x (by simpa [same] using member)

theorem allocprocLocked_level (cfg : Config) (s : Kernel C) :
    (allocprocLocked cfg s).1.level = s.level := by
  unfold allocprocLocked
  split <;> rfl

theorem prioforkBegin_level (cfg : Config) (s : Kernel C) (x : Slot) (level : Int) :
    (prioforkBegin cfg s x level).level = s.level := by
  unfold prioforkBegin
  split
  · rfl
  split
  · rfl
  split
  · rename_i s₁ alloc
    rw [← allocprocLocked_level cfg s, alloc]
  · rename_i s₁ c alloc
    have level := allocprocLocked_level cfg s
    rw [alloc] at level
    simpa using level

theorem prioforkCopy_level (s : Kernel C) (x np : Slot) (kallocOk copyuvmOk : Bool) :
    (prioforkCopy s x np kallocOk copyuvmOk).1.level = s.level := by
  unfold prioforkCopy
  split <;> rfl

theorem prioforkMiddle_level (s : Kernel C) (x : Slot) (f : Forking) (kallocOk copyuvmOk : Bool) :
    (prioforkMiddle s x f kallocOk copyuvmOk).level = s.level := by
  have level := prioforkCopy_level s x f.np kallocOk copyuvmOk
  unfold prioforkMiddle
  split <;> rename_i copied <;> rw [copied] at level <;> simpa using level

section Events

variable {s s' : Kernel Cpu}

end Events

end Rsdl.FifoProofs
