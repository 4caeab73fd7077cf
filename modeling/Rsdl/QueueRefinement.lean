import Rsdl.QueueProofs

/-! The array-backed `struct level_queue` refines a FIFO list. The abstraction is
`LevelQueue.entries`, the list `proc[0..numproc)`. Under it `enqueue_proc` appends,
`unqueue_proc_full` deletes the first occurrence of its process and returns that
occurrence's index, and `remove_proc_from_levels` does so in the first queue of its
scan that holds the process.

`unqueue_proc_full` finds the index with one loop and shifts the cells after it with a
second: the first stops where `idxOf` says (`search_eq_idxOf`), the second runs from
that index on and deletes it (`LevelQueue.removeAt_entries`), at every queue length. -/
namespace Rsdl.QueueRefinement

open QueueProofs

variable {C : Type}

/-- The search loop of `unqueue_proc_full`,
`for (i = 0; i < q->numproc; ++i) if (q->proc[i] == p) break;`, stops at `idxOf`. -/
theorem search_eq_idxOf (q : LevelQueue) (p : Slot) :
    CellArray.search q.proc p 0 q.numproc = q.entries.idxOf p :=
  CellArray.search_zero_eq_idxOf q.proc p q.numproc

/-- `enqueue_proc(p, q)` with room appends `p`. -/
theorem enqueueProc_append {q : LevelQueue} (room : q.numproc < NPROC) (p : Slot) :
    ∃ q', enqueueProc p q = .ok q' ∧ q'.entries = q.entries ++ [p] ∧
      q'.numproc = q.numproc + 1 ∧ q'.ticksLeft = q.ticksLeft :=
  ⟨q.push p, enqueueProc_ok room p, LevelQueue.push_entries q p, rfl, rfl⟩

/-- `unqueue_proc_full(p, q, isTry)` with `p` in `q` returns the index `i` of the first
occurrence of `p` and deletes that occurrence. -/
theorem unqueueProcFull_erase {q : LevelQueue} {p : Slot} (inside : p ∈ q.entries) (isTry : Bool) :
    ∃ q', ∃ i : Nat, unqueueProcFull p q isTry = .ok (q', i) ∧
      q.entries[i]? = some p ∧ (∀ j < i, q.entries[j]? ≠ some p) ∧
      q'.entries = q.entries.eraseIdx i ∧ q'.numproc = q.entries.length - 1 ∧
      q'.ticksLeft = q.ticksLeft := by
  obtain ⟨found, before⟩ := Fifo.idxOf_first inside
  have bound : q.entries.idxOf p < q.numproc := by
    simpa using List.idxOf_lt_length_of_mem inside
  refine ⟨_, _, unqueueProcFull_of_mem inside isTry, found, before,
    LevelQueue.removeAt_entries q bound, ?_, rfl⟩
  rw [LevelQueue.length_entries]
  rfl

/-! ### The scan of `remove_proc_from_levels` -/

/-- `(set, k)` comes before `(set', k')` in the scan of `remove_proc_from_levels`: a lower
row of `ptable.level`, or the same row and a lower level. -/
def ScannedBefore (r r' : QueueRef) : Prop := r.1 < r'.1 ∨ (r.1 = r'.1 ∧ r.2 < r'.2)

/-- `allQueues` lists the queues in scan order. -/
theorem allQueues_pairwise (cfg : Config) : (allQueues cfg).Pairwise ScannedBefore := by
  unfold allQueues
  refine List.pairwise_flatMap.mpr ⟨fun set _ => ?_, ?_⟩
  · exact List.pairwise_map.mpr (List.pairwise_lt_range.imp fun lower => .inr ⟨rfl, lower⟩)
  · refine (List.pairwise_lt_finRange 2).imp fun lower => ?_
    simp only [List.mem_map, List.mem_range]
    rintro _ ⟨k, -, rfl⟩ _ ⟨k', -, rfl⟩
    exact .inl lower

/-- The queues the scan visits before `r` are scanned before it. -/
theorem scannedBefore_of_split {cfg : Config} {before after : List QueueRef} {r x : QueueRef}
    (split : allQueues cfg = before ++ r :: after) (inside : x ∈ before) : ScannedBefore x r := by
  have ordered := allQueues_pairwise cfg
  rw [split] at ordered
  exact (List.pairwise_append.mp ordered).2.2 x inside r List.mem_cons_self

/-- `remove_proc_from_levels(p)` with `p` in `r` and in no queue scanned before `r`
deletes the first occurrence of `p` in `r` and returns `0`. -/
theorem removeProcFromLevels_of_first {cfg : Config} {s : Kernel C} {p : Slot} {r : QueueRef}
    (bound : r.2 < cfg.levels) (inside : p ∈ (s.level r).entries)
    (first : ∀ r', r'.2 < cfg.levels → ScannedBefore r' r → p ∉ (s.level r').entries) :
    removeProcFromLevels cfg s p =
      .ok (s.setLevel r ((s.level r).removeAt ((s.level r).entries.idxOf p)), 0) := by
  obtain ⟨before, after, split⟩ := List.append_of_mem (mem_allQueues.mpr bound)
  have missed : ∀ x ∈ before, p ∉ (s.level x).entries := by
    intro x member
    have scanned : x ∈ allQueues cfg := by
      rw [split]
      exact List.mem_append_left _ member
    exact first x (mem_allQueues.mp scanned) (scannedBefore_of_split split member)
  rw [removeProcFromLevels, split, removeProcFrom_append before missed,
    removeProcFrom_cons_of_mem inside]

theorem removeProcFromLevels_of_absent {cfg : Config} {s : Kernel C} {p : Slot}
    (absent : ∀ r, r.2 < cfg.levels → p ∉ (s.level r).entries) :
    removeProcFromLevels cfg s p = .ok (s, -1) :=
  removeProcFrom_of_not_mem fun r member => absent r (mem_allQueues.mp member)

/-! ### The refinement -/

theorem level_queue_refinement (q : LevelQueue) (p : Slot) :
    (q.numproc < NPROC → ∃ q', enqueueProc p q = .ok q' ∧ q'.entries = q.entries ++ [p]) ∧
    (p ∈ q.entries → ∀ isTry : Bool, ∃ q', ∃ i : Nat, unqueueProcFull p q isTry = .ok (q', i) ∧
      q.entries[i]? = some p ∧ (∀ j < i, q.entries[j]? ≠ some p) ∧
      q'.entries = q.entries.eraseIdx i ∧ q'.numproc = q.entries.length - 1) ∧
    (p ∉ q.entries → unqueueProcFull p q true = .ok (q, -1)) ∧
    ∀ {C : Type} (cfg : Config) (s : Kernel C),
      (∀ r, r.2 < cfg.levels → p ∈ (s.level r).entries →
        (∀ r', r'.2 < cfg.levels → ScannedBefore r' r → p ∉ (s.level r').entries) →
        ∃ q', removeProcFromLevels cfg s p = .ok (s.setLevel r q', 0) ∧
          q'.entries = (s.level r).entries.erase p) ∧
      ((∀ r, r.2 < cfg.levels → p ∉ (s.level r).entries) →
        removeProcFromLevels cfg s p = .ok (s, -1)) := by
  refine ⟨fun room => ?_, fun inside isTry => ?_, unqueueProcFull_of_not_mem,
    fun cfg s => ⟨fun r bound inside first => ?_, removeProcFromLevels_of_absent⟩⟩
  · obtain ⟨q', ran, appended, -⟩ := enqueueProc_append room p
    exact ⟨q', ran, appended⟩
  · obtain ⟨q', i, ran, found, before, erased, count, -⟩ := unqueueProcFull_erase inside isTry
    exact ⟨q', i, ran, found, before, erased, count⟩
  · exact ⟨_, removeProcFromLevels_of_first bound inside first,
      LevelQueue.removeAt_idxOf_entries _ inside⟩

end Rsdl.QueueRefinement
