import Rsdl.Levels
import Rsdl.Lib.Fifo
import Rsdl.Lib.ExceptRun

/-! What the kernel-level queue operations do to the concatenation `queued` of all
queues, and where `find_available_queue` points. Two facts carry the scheduler's
capacity argument: a process missing from duplicate-free queues leaves room in every
level (`numproc_lt_of_not_mem`), and with room everywhere the search depends on the
level quanta alone (`findAvailableQueue_congr`). -/
namespace Rsdl.QueueProofs
open ExceptRun

variable {C : Type} {cfg : Config} {s s' : Kernel C} {p : Slot} {r : QueueRef}

/-- Every level of both sets has room for one more process. -/
def Roomy (cfg : Config) (s : Kernel C) : Prop :=
  ∀ r ∈ allQueues cfg, (s.level r).numproc < NPROC

/-- The same two set pointers and the same quantum in every level. -/
def SameQuanta (s s' : Kernel C) : Prop :=
  s'.active = s.active ∧ s'.expired = s.expired ∧
    ∀ r, (s'.level r).ticksLeft = (s.level r).ticksLeft

theorem SameQuanta.refl (s : Kernel C) : SameQuanta s s := ⟨rfl, rfl, fun _ => rfl⟩

theorem SameQuanta.trans {s₁ s₂ s₃ : Kernel C} (first : SameQuanta s₁ s₂)
    (second : SameQuanta s₂ s₃) : SameQuanta s₁ s₃ :=
  ⟨second.1.trans first.1, second.2.1.trans first.2.1,
    fun r => (second.2.2 r).trans (first.2.2 r)⟩

theorem sameQuanta_setLevel (s : Kernel C) (r : QueueRef) {q : LevelQueue}
    (ticks : q.ticksLeft = (s.level r).ticksLeft) : SameQuanta s (s.setLevel r q) := by
  refine ⟨rfl, rfl, fun x => ?_⟩
  by_cases same : x = r
  · subst x
    simpa using ticks
  · simp [same]

theorem sameQuanta_modifyProc (s : Kernel C) (p : Slot) (f : Proc → Proc) :
    SameQuanta s (s.modifyProc p f) := ⟨rfl, rfl, fun _ => rfl⟩

@[simp] theorem queued_modifyProc (s : Kernel C) (p : Slot) (f : Proc → Proc) :
    (s.modifyProc p f).queued cfg = s.queued cfg := rfl

theorem entries_sublist_queued (member : r ∈ allQueues cfg) :
    (s.level r).entries.Sublist (s.queued cfg) :=
  List.sublist_flatten_of_mem (List.mem_map.mpr ⟨r, member, rfl⟩)

theorem mem_queued {x : Slot} : x ∈ s.queued cfg ↔ ∃ r ∈ allQueues cfg, x ∈ (s.level r).entries := by
  simp [Kernel.queued]

/-- Replacing one queue: the general permutation, at the kernel. -/
theorem queued_setLevel_perm (member : r ∈ allQueues cfg) (q : LevelQueue) :
    ((s.setLevel r q).queued cfg ++ (s.level r).entries).Perm (s.queued cfg ++ q.entries) := by
  unfold Kernel.queued
  have agree : ∀ x, x ≠ r → ((s.setLevel r q).level x).entries = (s.level x).entries := by
    intro x different
    simp [different]
  simpa using Fifo.perm_flatMap_of_agree (allQueues_nodup cfg) member agree

theorem queued_push_perm (member : r ∈ allQueues cfg) (p : Slot) :
    ((s.setLevel r ((s.level r).push p)).queued cfg).Perm (s.queued cfg ++ [p]) := by
  have moved := queued_setLevel_perm (s := s) member ((s.level r).push p)
  rw [LevelQueue.push_entries] at moved
  exact (List.perm_append_right_iff (s.level r).entries).mp (moved.trans
    (by rw [List.append_assoc]; exact List.perm_append_comm.append_left _))

theorem mem_queued_push (member : r ∈ allQueues cfg) {x : Slot} :
    x ∈ (s.setLevel r ((s.level r).push p)).queued cfg ↔ x ∈ s.queued cfg ∨ x = p := by
  rw [(queued_push_perm member p).mem_iff, List.mem_append, List.mem_singleton]

/-- Appending a process that is in no queue keeps the queues duplicate-free. -/
theorem queued_push_nodup (member : r ∈ allQueues cfg) (nodup : (s.queued cfg).Nodup)
    (absent : p ∉ s.queued cfg) : ((s.setLevel r ((s.level r).push p)).queued cfg).Nodup :=
  (queued_push_perm member p).nodup_iff.mpr (List.nodup_append.mpr ⟨nodup, List.nodup_singleton p,
    fun a inside b last => by
      rw [List.mem_singleton] at last
      exact last ▸ fun same => absent (same ▸ inside)⟩)

theorem queued_remove_perm (member : r ∈ allQueues cfg) (inside : p ∈ (s.level r).entries) :
    ((s.setLevel r ((s.level r).removeAt ((s.level r).entries.idxOf p))).queued cfg).Perm
      ((s.queued cfg).erase p) := by
  have moved := queued_setLevel_perm (s := s) member
    ((s.level r).removeAt ((s.level r).entries.idxOf p))
  rw [LevelQueue.removeAt_idxOf_entries _ inside] at moved
  -- bring `p` to the front on both sides, drop it, and cancel the rest of its queue
  have left := ((List.perm_cons_erase inside).append_left
    ((s.setLevel r ((s.level r).removeAt ((s.level r).entries.idxOf p))).queued cfg)).trans
      List.perm_middle
  have right := (List.perm_cons_erase ((entries_sublist_queued member).subset inside)).append_right
    ((s.level r).entries.erase p)
  exact (List.perm_append_right_iff _).mp (left.symm.trans (moved.trans right)).cons_inv

/-- A process that is in no queue leaves room in every queue: duplicate-free queues of
slots hold at most `NPROC` entries together, and it is not among them. -/
theorem numproc_lt_of_not_mem (nodup : (s.queued cfg).Nodup) (absent : p ∉ s.queued cfg)
    (member : r ∈ allQueues cfg) : (s.level r).numproc < NPROC := by
  have total : (p :: s.queued cfg).length ≤ NPROC := by
    simpa using (List.nodup_cons.mpr ⟨absent, nodup⟩).length_le_card
  have part := (entries_sublist_queued (s := s) member).length_le
  rw [LevelQueue.length_entries] at part
  simp only [List.length_cons] at total
  omega

theorem roomy_of_not_mem (nodup : (s.queued cfg).Nodup) (absent : p ∉ s.queued cfg) :
    Roomy cfg s := fun _ member => numproc_lt_of_not_mem nodup absent member

theorem enqueue_ok (room : (s.level r).numproc < NPROC) (p : Slot) :
    s.enqueue p r = .ok (s.setLevel r ((s.level r).push p)) := by
  simp [Kernel.enqueue, enqueueProc_ok room, Except.map]

theorem enqueue_eq_ok (ran : s.enqueue p r = .ok s') :
    (s.level r).numproc < NPROC ∧ s' = s.setLevel r ((s.level r).push p) := by
  unfold Kernel.enqueue at ran
  cases queue : enqueueProc p (s.level r) with
  | error fault => simp [queue, Except.map] at ran
  | ok q =>
    obtain ⟨room, rfl⟩ := enqueueProc_eq_ok queue
    simp only [queue, Except.map, Except.ok.injEq] at ran
    exact ⟨room, ran.symm⟩

theorem unqueue_of_mem (inside : p ∈ (s.level r).entries) :
    s.unqueue p r = .ok (s.setLevel r ((s.level r).removeAt ((s.level r).entries.idxOf p)),
      (s.level r).entries.idxOf p) := by
  simp [Kernel.unqueue, unqueueProc, unqueueProcFull_of_mem inside, Except.map]

/-- `try_unqueue_proc` never panics: a miss returns `-1`. -/
theorem tryUnqueueProc_ok (p : Slot) (q : LevelQueue) : ∃ r, tryUnqueueProc p q = .ok r := by
  unfold tryUnqueueProc unqueueProcFull
  split
  · exact ⟨_, rfl⟩
  · dsimp only
    split
    · exact ⟨_, rfl⟩
    · exact ⟨_, rfl⟩

/-- `remove_proc_from_levels`' scan only tries to unqueue, so it never panics. -/
theorem removeProcFrom_ok (p : Slot) (rs : List QueueRef) (s : Kernel C) :
    ∃ r, removeProcFrom p rs s = .ok r := by
  induction rs with
  | nil => exact ⟨_, rfl⟩
  | cons r rest ih =>
    obtain ⟨⟨q, i⟩, tried⟩ := tryUnqueueProc_ok p (s.level r)
    simp only [removeProcFrom, tried, ok_bind]
    split
    · exact ⟨_, rfl⟩
    · exact ih

/-- The scan of `remove_proc_from_levels` passes over queues that do not hold `p`. -/
theorem removeProcFrom_append (before : List QueueRef)
    (missed : ∀ r ∈ before, p ∉ (s.level r).entries) (rest : List QueueRef) :
    removeProcFrom p (before ++ rest) s = removeProcFrom p rest s := by
  induction before with
  | nil => rfl
  | cons r before ih =>
    have absent := unqueueProcFull_of_not_mem (missed r List.mem_cons_self)
    simp only [List.cons_append, removeProcFrom, tryUnqueueProc, absent]
    exact ih fun x member => missed x (List.mem_cons_of_mem r member)

/-- The scan stops at a queue holding `p` and deletes its first occurrence there. -/
theorem removeProcFrom_cons_of_mem (inside : p ∈ (s.level r).entries) (rest : List QueueRef) :
    removeProcFrom p (r :: rest) s =
      .ok (s.setLevel r ((s.level r).removeAt ((s.level r).entries.idxOf p)), 0) := by
  simp only [removeProcFrom, tryUnqueueProc, unqueueProcFull_of_mem inside, ok_bind]
  rw [if_pos (by omega)]
  rfl

theorem removeProcFrom_of_not_mem {rs : List QueueRef}
    (absent : ∀ r ∈ rs, p ∉ (s.level r).entries) : removeProcFrom p rs s = .ok (s, -1) := by
  have skipped := removeProcFrom_append rs absent []
  rw [List.append_nil] at skipped
  exact skipped

/-- `remove_proc_from_levels`' scan stops at the first queue holding `p` and deletes
`p` there. -/
theorem removeProcFrom_of_mem {rs : List QueueRef} (found : ∃ r ∈ rs, p ∈ (s.level r).entries) :
    ∃ r ∈ rs, p ∈ (s.level r).entries ∧
      removeProcFrom p rs s =
        .ok (s.setLevel r ((s.level r).removeAt ((s.level r).entries.idxOf p)), 0) := by
  induction rs with
  | nil => simp at found
  | cons r rest ih =>
    by_cases here : p ∈ (s.level r).entries
    · exact ⟨r, List.mem_cons_self, here, removeProcFrom_cons_of_mem here rest⟩
    · have later : ∃ r ∈ rest, p ∈ (s.level r).entries := by
        obtain ⟨x, member, inside⟩ := found
        rcases List.mem_cons.mp member with rfl | member
        · exact absurd inside here
        · exact ⟨x, member, inside⟩
      obtain ⟨x, member, inside, ran⟩ := ih later
      refine ⟨x, List.mem_cons_of_mem r member, inside, ?_⟩
      rw [← ran]
      exact removeProcFrom_append [r] (by simpa using here) rest

/-- With room everywhere, a level is available exactly when it has quantum left. -/
theorem available_of_roomy (room : Roomy cfg s) {set : Fin 2} {k : Nat} (bound : k < cfg.levels) :
    s.available set k = decide (0 < (s.level (set, k)).ticksLeft) := by
  have inside := room (set, k) (mem_allQueues.mpr bound)
  simp [Kernel.available, inside]

/-- With room everywhere in both states, `find_available_queue` reads only the set
pointers and the level quanta. -/
theorem findAvailableQueue_congr (same : SameQuanta s s') (room : Roomy cfg s)
    (room' : Roomy cfg s') (a e : Int) :
    findAvailableQueue cfg s' a e = findAvailableQueue cfg s a e := by
  obtain ⟨active, expired, ticks⟩ := same
  have search : ∀ (start : Int) (useExpired : Bool),
      nextLevel cfg s' start useExpired = nextLevel cfg s start useExpired := by
    intro start useExpired
    by_cases negative : start < 0
    · simp [nextLevel, negative]
    · simp only [nextLevel, negative, ↓reduceIte, active, expired]
      apply Search.first_congr
      intro j _ bound
      rw [available_of_roomy room' bound, available_of_roomy room bound, ticks]
  simp only [findAvailableQueue, nextActiveLevel, nextExpiredLevel, search, active, expired]

/-- With room everywhere, the search stops at the first active level from `a` that has
quantum left. -/
theorem findAvailableQueue_active (room : Roomy cfg s) {a : Int} (nonneg : 0 ≤ a) (e : Int)
    {j : Nat} (low : a.toNat ≤ j) (bound : j < cfg.levels)
    (quantum : 0 < (s.level (s.active, j)).ticksLeft)
    (below : ∀ i, a.toNat ≤ i → i < j → (s.level (s.active, i)).ticksLeft ≤ 0) :
    findAvailableQueue cfg s a e = .ok (s.active, j) := by
  have found : nextActiveLevel cfg s a = some j := by
    refine nextLevel_eq_some.mpr ⟨nonneg, low, bound, ?_, fun i ilow ihigh => ?_⟩
    · simp [available_of_roomy room bound, quantum]
    · simp [available_of_roomy room (by omega : i < cfg.levels), below i ilow ihigh]
  simp [findAvailableQueue, found]

/-- With room everywhere and no active level from `a` with quantum left, the search
falls back to the expired level `e` when that one has quantum left. -/
theorem findAvailableQueue_expired (room : Roomy cfg s) {a e : Int} (nonneg : 0 ≤ a)
    (depleted : ∀ i, a.toNat ≤ i → i < cfg.levels → (s.level (s.active, i)).ticksLeft ≤ 0)
    (start : 0 ≤ e) (bound : e.toNat < cfg.levels)
    (quantum : 0 < (s.level (s.expired, e.toNat)).ticksLeft) :
    findAvailableQueue cfg s a e = .ok (s.expired, e.toNat) := by
  have missed : nextActiveLevel cfg s a = none := by
    refine (nextLevel_eq_none nonneg).mpr fun i low high => ?_
    simp [available_of_roomy room high, depleted i low high]
  have found : nextExpiredLevel cfg s e = some e.toNat := by
    unfold nextExpiredLevel nextLevel
    rw [if_neg (by omega)]
    exact Search.first_of_test bound (by simp [available_of_roomy room bound, quantum])
  simp [findAvailableQueue, missed, found]

/-- Where `find_available_queue(a, e)` points when every level has room and the expired
level `e` has quantum left: the first active level from `a` with quantum left, else `e`
in the expired set. -/
def firstAvailable (cfg : Config) (s : Kernel C) (a e : Nat) : QueueRef :=
  match Search.first (fun j => decide (0 < (s.level (s.active, j)).ticksLeft)) a cfg.levels with
  | some j => (s.active, j)
  | none => (s.expired, e)

theorem findAvailableQueue_eq_firstAvailable (room : Roomy cfg s) {a e : Int} (nonneg : 0 ≤ a)
    (start : 0 ≤ e) (bound : e.toNat < cfg.levels)
    (quantum : 0 < (s.level (s.expired, e.toNat)).ticksLeft) :
    findAvailableQueue cfg s a e = .ok (firstAvailable cfg s a.toNat e.toNat) := by
  unfold firstAvailable
  cases found : Search.first (fun j => decide (0 < (s.level (s.active, j)).ticksLeft))
      a.toNat cfg.levels with
  | some j =>
    obtain ⟨low, high, hit, before⟩ := Search.first_eq_some_iff.mp found
    exact findAvailableQueue_active room nonneg e low high (by simpa using hit)
      fun i ilow ihigh => by simpa using before i ilow ihigh
  | none =>
    have missed := Search.first_eq_none_iff.mp found
    exact findAvailableQueue_expired room nonneg (fun i ilow ihigh => by simpa using missed i ilow ihigh)
      start bound quantum

theorem firstAvailable_congr (same : SameQuanta s s') (a e : Nat) :
    firstAvailable cfg s' a e = firstAvailable cfg s a e := by
  obtain ⟨active, expired, ticks⟩ := same
  simp only [firstAvailable, active, expired, ticks]

/-- The two outcomes of the search, with what each says about the active levels. -/
theorem firstAvailable_cases (cfg : Config) (s : Kernel C) (a e : Nat) :
    (∃ j, firstAvailable cfg s a e = (s.active, j) ∧ a ≤ j ∧ j < cfg.levels ∧
      0 < (s.level (s.active, j)).ticksLeft ∧
      ∀ i, a ≤ i → i < j → (s.level (s.active, i)).ticksLeft ≤ 0) ∨
    (firstAvailable cfg s a e = (s.expired, e) ∧
      ∀ i, a ≤ i → i < cfg.levels → (s.level (s.active, i)).ticksLeft ≤ 0) := by
  unfold firstAvailable
  cases found : Search.first (fun j => decide (0 < (s.level (s.active, j)).ticksLeft))
      a cfg.levels with
  | some j =>
    obtain ⟨low, high, hit, before⟩ := Search.first_eq_some_iff.mp found
    exact .inl ⟨j, rfl, low, high, by simpa using hit, fun i ilow ihigh => by
      simpa using before i ilow ihigh⟩
  | none =>
    have missed := Search.first_eq_none_iff.mp found
    exact .inr ⟨rfl, fun i ilow ihigh => by simpa using missed i ilow ihigh⟩

/-- The search from a level with quantum left stops there. -/
theorem firstAvailable_of_quantum {a : Nat} (bound : a < cfg.levels)
    (quantum : 0 < (s.level (s.active, a)).ticksLeft) (e : Nat) :
    firstAvailable cfg s a e = (s.active, a) := by
  unfold firstAvailable
  rw [Search.first_of_test bound (by simpa using quantum)]

/-- With `j` the least active level from `a` with quantum left, the search stops at `j`,
whatever the expired start. -/
theorem firstAvailable_of_least {a j : Nat} (low : a ≤ j) (bound : j < cfg.levels)
    (quantum : 0 < (s.level (s.active, j)).ticksLeft)
    (before : ∀ i, a ≤ i → i < j → (s.level (s.active, i)).ticksLeft ≤ 0) (e : Nat) :
    firstAvailable cfg s a e = (s.active, j) := by
  rcases firstAvailable_cases cfg s a e with ⟨j', found, low', -, quantum', before'⟩ | ⟨-, none⟩
  · rw [found]
    -- both `j` and `j'` are the least level with quantum left
    have same : j' = j := by
      rcases Nat.lt_trichotomy j' j with lt | same | gt
      · exact absurd (before j' low' lt) (not_le.mpr quantum')
      · exact same
      · exact absurd (before' j low gt) (not_le.mpr quantum)
    rw [same]
  · exact absurd (none j low bound) (not_le.mpr quantum)

/-- With no active level from `a` on holding quantum, the search falls back to the
expired set. -/
theorem firstAvailable_of_depleted {a : Nat}
    (depleted : ∀ i, a ≤ i → i < cfg.levels → (s.level (s.active, i)).ticksLeft ≤ 0) (e : Nat) :
    firstAvailable cfg s a e = (s.expired, e) := by
  rcases firstAvailable_cases cfg s a e with ⟨j, -, low, bound, quantum, -⟩ | ⟨found, -⟩
  · exact absurd (depleted j low bound) (not_le.mpr quantum)
  · exact found

end Rsdl.QueueProofs
