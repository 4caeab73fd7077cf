import Rsdl.State

/-! The level queue operations of `proc.c`: `enqueue_proc`, `unqueue_proc_full` with its
two wrappers, and `remove_proc_from_levels`. Each is stated on `struct level_queue`
itself, and the kernel-level forms write the changed queue back into `ptable.level`.

`enqueue_proc`'s two null checks are not modelled: its process argument is always a
dereferenced process here, and its queue argument comes from `find_available_queue`,
which panics instead of returning `NULL`. -/
namespace Rsdl

variable {C : Type}

namespace LevelQueue

/-- `q->proc[q->numproc++] = p`. -/
def push (q : LevelQueue) (p : Slot) : LevelQueue :=
  { q with proc := Function.update q.proc q.numproc p, numproc := q.numproc + 1 }

/-- The found branch of `unqueue_proc_full`: shift the cells after `i` down, then
decrement `numproc`. -/
def removeAt (q : LevelQueue) (i : Nat) : LevelQueue :=
  { q with proc := CellArray.shiftLeft q.proc (i + 1) (q.numproc - (i + 1)),
           numproc := q.numproc - 1 }

@[simp] theorem push_entries (q : LevelQueue) (p : Slot) :
    (q.push p).entries = q.entries ++ [p] :=
  CellArray.toList_update_append q.proc q.numproc p

@[simp] theorem push_ticksLeft (q : LevelQueue) (p : Slot) :
    (q.push p).ticksLeft = q.ticksLeft := rfl

@[simp] theorem push_numproc (q : LevelQueue) (p : Slot) :
    (q.push p).numproc = q.numproc + 1 := rfl

theorem removeAt_entries (q : LevelQueue) {i : Nat} (bound : i < q.numproc) :
    (q.removeAt i).entries = q.entries.eraseIdx i :=
  CellArray.toList_shiftLeft q.proc q.numproc i bound

@[simp] theorem removeAt_ticksLeft (q : LevelQueue) (i : Nat) :
    (q.removeAt i).ticksLeft = q.ticksLeft := rfl

@[simp] theorem length_entries (q : LevelQueue) : q.entries.length = q.numproc :=
  CellArray.length_toList q.proc q.numproc

/-- Deleting the first occurrence of a member: what the search loop and the shift loop
of `unqueue_proc_full` do together. -/
theorem removeAt_idxOf_entries (q : LevelQueue) {p : Slot} (member : p ∈ q.entries) :
    (q.removeAt (q.entries.idxOf p)).entries = q.entries.erase p := by
  have found : q.entries.idxOf p < q.numproc := by
    simpa using List.idxOf_lt_length_of_mem member
  rw [removeAt_entries q found, List.eraseIdx_idxOf_eq_erase]

end LevelQueue

/-- `enqueue_proc`: append `p`, or panic when the level already holds `NPROC` entries. -/
def enqueueProc (p : Slot) (q : LevelQueue) : Except Fault LevelQueue :=
  if NPROC ≤ q.numproc then .error (.panic "enqueue in full level")
  else .ok (q.push p)

/-- `unqueue_proc_full`: delete the first occurrence of `p` and return its index. A miss
returns `-1` when `isTry` is set and panics otherwise. The search loop stops at the
first index holding `p`, or at `numproc`: that is `idxOf`. -/
def unqueueProcFull (p : Slot) (q : LevelQueue) (isTry : Bool) :
    Except Fault (LevelQueue × Int) :=
  if q.numproc = 0 then
    if isTry then .ok (q, -1) else .error (.panic "unqueue on empty level")
  else
    let i := q.entries.idxOf p
    if i < q.numproc then .ok (q.removeAt i, i)
    else if isTry then .ok (q, -1) else .error (.panic "unqueue of node not belonging to level")

/-- `unqueue_proc`. -/
def unqueueProc (p : Slot) (q : LevelQueue) : Except Fault (LevelQueue × Int) :=
  unqueueProcFull p q false

/-- `try_unqueue_proc`. -/
def tryUnqueueProc (p : Slot) (q : LevelQueue) : Except Fault (LevelQueue × Int) :=
  unqueueProcFull p q true

theorem enqueueProc_ok {q : LevelQueue} (room : q.numproc < NPROC) (p : Slot) :
    enqueueProc p q = .ok (q.push p) := by
  simp [enqueueProc, Nat.not_le.mpr room]

theorem enqueueProc_eq_ok {p : Slot} {q q' : LevelQueue} (ran : enqueueProc p q = .ok q') :
    q.numproc < NPROC ∧ q' = q.push p := by
  unfold enqueueProc at ran
  split at ran
  · cases ran
  · cases ran
    exact ⟨by omega, rfl⟩

theorem unqueueProcFull_of_mem {p : Slot} {q : LevelQueue} (member : p ∈ q.entries) (isTry : Bool) :
    unqueueProcFull p q isTry = .ok (q.removeAt (q.entries.idxOf p), q.entries.idxOf p) := by
  have found : q.entries.idxOf p < q.numproc := by
    simpa using List.idxOf_lt_length_of_mem member
  simp [unqueueProcFull, found, show q.numproc ≠ 0 by omega]

theorem unqueueProcFull_of_not_mem {p : Slot} {q : LevelQueue} (absent : p ∉ q.entries) :
    unqueueProcFull p q true = .ok (q, -1) := by
  have missed : ¬ q.entries.idxOf p < q.numproc := by
    rw [← q.length_entries, List.idxOf_lt_length_iff]
    exact absent
  unfold unqueueProcFull
  split <;> simp [missed]

/-- Every queue of both sets in `remove_proc_from_levels`' scan order:
`level[0][0..RSDL_LEVELS)`, then `level[1][0..RSDL_LEVELS)`. -/
def allQueues (cfg : Config) : List QueueRef :=
  (List.finRange 2).flatMap fun set => (List.range cfg.levels).map fun k => (set, k)

theorem mem_allQueues {cfg : Config} {r : QueueRef} : r ∈ allQueues cfg ↔ r.2 < cfg.levels := by
  obtain ⟨set, k⟩ := r
  simp [allQueues]

/-- Levels of two different sets are different queues. -/
theorem queueRef_ne_of_set_ne {a b : Fin 2} (differ : a ≠ b) (i j : Nat) :
    ((a, i) : QueueRef) ≠ (b, j) :=
  fun same => differ (congrArg Prod.fst same)

/-- Two different levels of one set are different queues. -/
theorem queueRef_ne_of_level_ne (a : Fin 2) {i j : Nat} (differ : i ≠ j) :
    ((a, i) : QueueRef) ≠ (a, j) :=
  fun same => differ (congrArg Prod.snd same)

theorem allQueues_nodup (cfg : Config) : (allQueues cfg).Nodup := by
  unfold allQueues
  apply List.nodup_flatMap.mpr
  refine ⟨fun set _ => (List.nodup_range).map fun a b same => by simpa using same, ?_⟩
  apply (List.nodup_finRange 2).pairwise_of_forall_ne
  intro a _ b _ different
  simp only [Function.onFun, List.disjoint_left, List.mem_map, List.mem_range]
  rintro _ ⟨k, _, rfl⟩ ⟨k', _, same⟩
  exact different (congrArg Prod.fst same).symm

namespace Kernel

/-- Every entry of every queue, in `allQueues` order. -/
def queued (cfg : Config) (s : Kernel C) : List Slot :=
  (allQueues cfg).flatMap fun r => (s.level r).entries

/-- `enqueue_proc(p, r)`. -/
def enqueue (s : Kernel C) (p : Slot) (r : QueueRef) : Except Fault (Kernel C) :=
  (enqueueProc p (s.level r)).map (s.setLevel r)

/-- `unqueue_proc(p, r)`, with the index it returns. -/
def unqueue (s : Kernel C) (p : Slot) (r : QueueRef) : Except Fault (Kernel C × Int) :=
  (unqueueProc p (s.level r)).map fun (q, i) => (s.setLevel r q, i)

end Kernel

/-- The scan of `remove_proc_from_levels` over the queues still to visit. -/
def removeProcFrom (p : Slot) : List QueueRef → Kernel C → Except Fault (Kernel C × Int)
  | [], s => .ok (s, -1)
  | r :: rest, s => do
    let (q, i) ← tryUnqueueProc p (s.level r)
    if i ≠ -1 then pure (s.setLevel r q, 0) else removeProcFrom p rest s

/-- `remove_proc_from_levels`: unqueue `p` from the first queue holding it; `-1` if none. -/
def removeProcFromLevels (cfg : Config) (s : Kernel C) (p : Slot) : Except Fault (Kernel C × Int) :=
  removeProcFrom p (allQueues cfg) s

end Rsdl
