import Rsdl.DrainProofs

/-! The requeue after the picked process `p` of `active[k]` gave the CPU back, in both
of its cases, as the effect on the queues and the quanta.

With the level depleted (`requeueDepleted_spec`), every process of the level is sent to
`depletedTarget`: the first active level below `k` with quantum left, else its own level
of the expired set. This is one target for all of them when such a level exists, since
the search from `k + 1` does not depend on the process then. With quantum left
(`requeueLevel_spec`), `p` alone moves, to `levelTarget`.

Both rest on `Pending`, the part of the kernel invariant the requeue reads. -/
namespace Rsdl.RequeueProofs
open ExceptRun QueueProofs DrainProofs

variable {C : Type} {cfg : Config} {s s' : Kernel C} {p : Slot} {k : Nat}

/-- What the requeue of `p`, picked from `active[k]`, relies on. -/
structure Pending (cfg : Config) (s : Kernel C) (p : Slot) (k : Nat) : Prop where
  level : k < cfg.levels
  sets : s.active ≠ s.expired
  nodup : (s.queued cfg).Nodup
  inside : (s.proc p).state ≠ .zombie → p ∈ (s.level (s.active, k)).entries
  absent : (s.proc p).state = .zombie → p ∉ s.queued cfg
  zombieQuantum : (s.proc p).state = .zombie → 0 < (s.proc p).ticksLeft
  defaultRange : ∀ x, 0 ≤ (s.proc x).defaultLevel ∧ (s.proc x).defaultLevel < cfg.levels
  expiredQuantum : ∀ j < cfg.levels, 0 < (s.level (s.expired, j)).ticksLeft

/-- The expired level of any process's priority keeps its quantum across a change that
keeps the quanta. -/
theorem Pending.defaultQuantum (pending : Pending cfg s p k) (same : SameQuanta s s') (x : Slot) :
    0 < (s'.level (s'.expired, (s.proc x).defaultLevel.toNat)).ticksLeft := by
  obtain ⟨nonneg, bound⟩ := pending.defaultRange x
  rw [same.2.2, same.2.1]
  exact pending.expiredQuantum _ (by omega)

/-- An exited `p` is in no queue, so not in its level either. -/
theorem Pending.outside_of_zombie (pending : Pending cfg s p k)
    (zombie : (s.proc p).state = .zombie) : p ∉ (s.level (s.active, k)).entries := fun inside =>
  pending.absent zombie ((entries_sublist_queued (mem_allQueues.mpr pending.level)).subset inside)

/-- Where the requeue of the depleted level `k` sends a process. -/
def depletedTarget (cfg : Config) (s : Kernel C) (k : Nat) (x : Slot) : QueueRef :=
  firstAvailable cfg s (k + 1) (s.proc x).defaultLevel.toNat

section Depleted

variable (pending : Pending cfg s p k)
include pending

theorem depletedTarget_ne (x : Slot) : depletedTarget cfg s k x ≠ (s.active, k) := by
  rcases firstAvailable_cases cfg s (k + 1) (s.proc x).defaultLevel.toNat with
    ⟨j, found, low, -⟩ | ⟨found, -⟩
  · rw [depletedTarget, found]
    exact queueRef_ne_of_level_ne _ (by omega)
  · rw [depletedTarget, found]
    exact queueRef_ne_of_set_ne pending.sets.symm _ k

theorem depletedTarget_mem (x : Slot) : depletedTarget cfg s k x ∈ allQueues cfg := by
  have range := pending.defaultRange x
  rcases firstAvailable_cases cfg s (k + 1) (s.proc x).defaultLevel.toNat with
    ⟨j, found, -, high, -⟩ | ⟨found, -⟩
  · rw [depletedTarget, found]
    exact mem_allQueues.mpr high
  · rw [depletedTarget, found]
    exact mem_allQueues.mpr (by simp only; omega)

/-- With room everywhere and the same quanta, the search from `k + 1` finds the target. -/
theorem depletedTarget_found (x : Slot) (same : SameQuanta s s') (room : Roomy cfg s') :
    findAvailableQueue cfg s' ((k : Int) + 1) (s.proc x).defaultLevel =
      .ok (depletedTarget cfg s k x) := by
  obtain ⟨nonneg, bound⟩ := pending.defaultRange x
  have quantum := pending.defaultQuantum same x
  have start : ((k : Int) + 1).toNat = k + 1 := by omega
  rw [findAvailableQueue_eq_firstAvailable room (by omega) nonneg (by omega) quantum,
    firstAvailable_congr same, start, depletedTarget]

theorem depletedTargets :
    Targets cfg s (s.active, k) (some p) (fun _ => (k : Int) + 1) (depletedTarget cfg s k) := by
  intro x _ _
  refine ⟨depletedTarget_ne pending x, depletedTarget_mem pending x, fun s' same room => ?_⟩
  exact depletedTarget_found pending x same room

end Depleted

/-- The effect of the requeue of a depleted level `active[k]`: the level is emptied,
each of its processes other than `p` goes to its target in its order, `p` goes last
unless it exited, and every process of the level has its quantum refilled. -/
structure DepletedRequeue (cfg : Config) (s : Kernel C) (p : Slot) (k : Nat) (s' : Kernel C) :
    Prop where
  quanta : SameQuanta s s'
  entries : ∀ r, (s'.level r).entries = if r = (s.active, k) then [] else
    (s.level r).entries ++
      (s.level (s.active, k)).entries.filter (fun x => decide (¬p = x ∧ depletedTarget cfg s k x = r)) ++
      if (s.proc p).state ≠ .zombie ∧ depletedTarget cfg s k p = r then [p] else []
  proc : ∀ x, s'.proc x = if x ∈ (s.level (s.active, k)).entries then
    { s.proc x with ticksLeft := cfg.procQuantum } else s.proc x
  cpu : s'.cpu = s.cpu
  nextpid : s'.nextpid = s.nextpid
  initproc : s'.initproc = s.initproc
  nodup : (s'.queued cfg).Nodup
  member : ∀ x, x ∈ s'.queued cfg ↔ x ∈ s.queued cfg

/-- `Drained` with `p` held back filters on `some p ≠ some x`; `DepletedRequeue` on
`p ≠ x`. -/
theorem filter_held (l : List Slot) (r : QueueRef) :
    l.filter (fun x => decide (some p ≠ some x ∧ depletedTarget cfg s k x = r)) =
      l.filter (fun x => decide (¬p = x ∧ depletedTarget cfg s k x = r)) := by
  simp only [ne_eq, Option.some.injEq]

/-- An exited `p` was in no queue, and stays out: the drain is the whole requeue. -/
theorem depletedRequeue_of_zombie (pending : Pending cfg s p k) (zombie : (s.proc p).state = .zombie)
    {s₁ : Kernel C} (drained : Drained cfg s (s.active, k) (some p) (depletedTarget cfg s k) s₁) :
    DepletedRequeue cfg s p k s₁ := by
  refine ⟨drained.quanta, fun r => ?_, drained.proc, drained.cpu, drained.nextpid,
    drained.initproc, drained.nodup, fun x => ?_⟩
  · rw [drained.entries r, filter_held]
    simp [zombie]
  · rw [drained.member]
    constructor
    · exact fun ⟨queued, _⟩ => queued
    · intro queued
      refine ⟨queued, fun same => ?_⟩
      cases same
      exact pending.outside_of_zombie zombie

/-- A live `p`, held back by the drain, is enqueued last at its own target
(lines 675-678). -/
theorem depletedRequeue_of_live (pending : Pending cfg s p k) (live : (s.proc p).state ≠ .zombie)
    {s₁ : Kernel C} (drained : Drained cfg s (s.active, k) (some p) (depletedTarget cfg s k) s₁) :
    ∃ s', (findAvailableQueue cfg s₁ ((k : Int) + 1) (s₁.proc p).defaultLevel >>= s₁.enqueue p) =
      .ok s' ∧ DepletedRequeue cfg s p k s' := by
  have member : (s.active, k) ∈ allQueues cfg := mem_allQueues.mpr pending.level
  have inside := pending.inside live
  have refilled : s₁.proc p = { s.proc p with ticksLeft := cfg.procQuantum } := by
    rw [drained.proc, if_pos inside]
  have absent : p ∉ s₁.queued cfg := by
    rw [drained.member]
    simp [inside]
  have room := roomy_of_not_mem drained.nodup absent
  have target := depletedTarget_mem pending p
  have found : findAvailableQueue cfg s₁ ((k : Int) + 1) (s₁.proc p).defaultLevel =
      .ok (depletedTarget cfg s k p) := by
    rw [refilled]
    exact depletedTarget_found pending p drained.quanta room
  rw [found, ok_bind, enqueue_ok (room _ target)]
  refine ⟨_, rfl, drained.quanta.trans (sameQuanta_setLevel _ _ (LevelQueue.push_ticksLeft _ p)),
    fun r => ?_, fun x => ?_, drained.cpu, drained.nextpid, drained.initproc,
    queued_push_nodup target drained.nodup absent, fun x => ?_⟩
  · rw [Kernel.setLevel_level]
    by_cases last : r = depletedTarget cfg s k p
    · subst r
      rw [if_pos rfl, LevelQueue.push_entries, drained.entries, filter_held]
      simp [live, depletedTarget_ne pending p]
    · rw [if_neg last, drained.entries, filter_held]
      simp [live, Ne.symm last]
  · rw [Kernel.setLevel_proc]
    exact drained.proc x
  · rw [mem_queued_push target, drained.member]
    by_cases same : x = p
    · subst x
      simp [(entries_sublist_queued member).subset inside]
    · simp [same, Ne.symm same]

/-- The requeue of a depleted level: the drain holding `p` back, then `p` itself. -/
theorem requeueDepleted_spec (pending : Pending cfg s p k) :
    ∃ s', requeueDepleted cfg s p (s.active, k) = .ok s' ∧ DepletedRequeue cfg s p k s' := by
  have member : (s.active, k) ∈ allQueues cfg := mem_allQueues.mpr pending.level
  obtain ⟨s₁, ran, drained⟩ := drain_spec member _ s (s.level (s.active, k)).numproc rfl
    pending.nodup (by rw [LevelQueue.length_entries]) (depletedTargets pending)
  unfold requeueDepleted
  rw [ran, ok_bind]
  -- the branch on `p->state != ZOMBIE`, read after the drain, which left the state alone
  by_cases zombie : (s.proc p).state = .zombie
  · have stays : (s₁.proc p).state = .zombie := by
      rw [drained.proc, if_neg (pending.outside_of_zombie zombie)]
      exact zombie
    rw [if_neg (not_not.mpr stays)]
    exact ⟨s₁, rfl, depletedRequeue_of_zombie pending zombie drained⟩
  · have refilled : s₁.proc p = { s.proc p with ticksLeft := cfg.procQuantum } := by
      rw [drained.proc, if_pos (pending.inside zombie)]
    rw [if_pos (by rw [refilled]; exact zombie)]
    exact depletedRequeue_of_live pending zombie drained

/-- The effect of moving a queued `p` from `q` to the tail of `T`. -/
structure Reenqueued (cfg : Config) (s : Kernel C) (p : Slot) (q T : QueueRef) (s' : Kernel C) :
    Prop where
  quanta : SameQuanta s s'
  entries : ∀ r, (s'.level r).entries =
    (if r = q then (s.level r).entries.erase p else (s.level r).entries) ++ if T = r then [p] else []
  proc : ∀ x, s'.proc x = if x = p ∧ isExpiredSet cfg s T = true then
    { s.proc p with ticksLeft := cfg.procQuantum } else s.proc x
  cpu : s'.cpu = s.cpu
  nextpid : s'.nextpid = s.nextpid
  initproc : s'.initproc = s.initproc
  nodup : (s'.queued cfg).Nodup
  member : ∀ x, x ∈ s'.queued cfg ↔ x ∈ s.queued cfg

/-- The re-enqueue of a queued `p`, where the search finds `T` whenever there is room. -/
theorem reenqueue_spec {q T : QueueRef} (nk : Int) (member : q ∈ allQueues cfg)
    (nodup : (s.queued cfg).Nodup) (inside : p ∈ (s.level q).entries)
    (targetMember : T ∈ allQueues cfg)
    (found : ∀ s', SameQuanta s s' → Roomy cfg s' →
      findAvailableQueue cfg s' nk (s.proc p).defaultLevel = .ok T) :
    ∃ s', reenqueue cfg s p q nk = .ok s' ∧ Reenqueued cfg s p q T s' := by
  have removed := queued_remove_perm member inside
  have absent : p ∉ (s.setLevel q ((s.level q).removeAt ((s.level q).entries.idxOf p))).queued cfg :=
    fun inside' => nodup.not_mem_erase (removed.mem_iff.mp inside')
  have nodup₁ := removed.nodup_iff.mpr (nodup.erase p)
  have same₁ := sameQuanta_setLevel s q (LevelQueue.removeAt_ticksLeft (s.level q) ((s.level q).entries.idxOf p))
  have room := roomy_of_not_mem nodup₁ absent
  unfold reenqueue
  -- `prevIdx` is an index, never `-1`
  have index : (((s.level q).entries.idxOf p : Nat) : Int) ≠ -1 := by omega
  rw [unqueue_of_mem inside, ok_bind]
  simp only [index, ↓reduceIte, Kernel.setLevel_proc]
  rw [found _ same₁ room, ok_bind, isExpiredSet_congr (Kernel.setLevel_active s q _),
    Kernel.ite_modifyProc, enqueue_ok]
  swap
  · exact room T targetMember
  refine ⟨_, rfl, (same₁.trans (sameQuanta_modifyProc _ p _)).trans
      (sameQuanta_setLevel _ T (LevelQueue.push_ticksLeft _ p)), fun r => ?_, fun x => ?_, rfl, rfl,
    rfl, queued_push_nodup targetMember nodup₁ absent, fun x => ?_⟩
  · simp only [Kernel.setLevel_level, Kernel.modifyProc_level]
    by_cases last : r = T
    · subst r
      by_cases here : T = q
      · subst T
        simp [LevelQueue.removeAt_idxOf_entries _ inside]
      · simp [here]
    · by_cases here : r = q
      · subst r
        simp [last, Ne.symm last, LevelQueue.removeAt_idxOf_entries _ inside]
      · simp [last, here, Ne.symm last]
  · simp only [Kernel.setLevel_proc, Kernel.modifyProc_proc]
    by_cases same : x = p
    · subst x
      by_cases expired : isExpiredSet cfg s T = true <;> simp [expired]
    · simp [same]
  · rw [mem_queued_push targetMember, queued_modifyProc, removed.mem_iff, nodup.mem_erase_iff]
    by_cases same : x = p
    · subst x
      simp [(entries_sublist_queued member).subset inside]
    · simp [same]

/-- Where the requeue with level quantum left sends `p`: back to its own level while its
process quantum lasts, else where the depleted requeue would. -/
def levelTarget (cfg : Config) (s : Kernel C) (p : Slot) (k : Nat) : QueueRef :=
  if 0 < (s.proc p).ticksLeft then (s.active, k) else depletedTarget cfg s k p

/-- The effect of the requeue of `p` into `active[k]` with quantum left: nothing for an
exited `p`; otherwise `p` moves from its place in the level to the tail of its target,
with a refilled quantum if it had none left. -/
structure LevelRequeue (cfg : Config) (s : Kernel C) (p : Slot) (k : Nat) (s' : Kernel C) :
    Prop where
  quanta : SameQuanta s s'
  entries : ∀ r, (s'.level r).entries = if (s.proc p).state = .zombie then (s.level r).entries else
    (if r = (s.active, k) then (s.level r).entries.erase p else (s.level r).entries) ++
      if levelTarget cfg s p k = r then [p] else []
  proc : ∀ x, s'.proc x = if x = p ∧ (s.proc p).ticksLeft ≤ 0 then
    { s.proc p with ticksLeft := cfg.procQuantum } else s.proc x
  cpu : s'.cpu = s.cpu
  nextpid : s'.nextpid = s.nextpid
  initproc : s'.initproc = s.initproc
  nodup : (s'.queued cfg).Nodup
  member : ∀ x, x ∈ s'.queued cfg ↔ x ∈ s.queued cfg

/-- The requeue of a level with quantum left. -/
theorem requeueLevel_spec (pending : Pending cfg s p k)
    (quantum : 0 < (s.level (s.active, k)).ticksLeft) :
    ∃ s', requeueLevel cfg s p (s.active, k) = .ok s' ∧ LevelRequeue cfg s p k s' := by
  have member : (s.active, k) ∈ allQueues cfg := mem_allQueues.mpr pending.level
  unfold requeueLevel
  by_cases zombie : (s.proc p).state = .zombie
  · -- an exited `p` keeps its quantum, and nothing moves
    have positive : ¬ (s.proc p).ticksLeft ≤ 0 := not_le.mpr (pending.zombieQuantum zombie)
    rw [if_neg positive]
    simp only [zombie, ne_eq, not_true_eq_false, and_false, ↓reduceIte, pure_eq_ok]
    exact ⟨s, rfl, SameQuanta.refl s, fun r => by simp [zombie], fun x => by simp [positive], rfl,
      rfl, rfl, pending.nodup, fun x => Iff.rfl⟩
  have inside := pending.inside zombie
  have busy : 0 < (s.level (s.active, k)).numproc := by
    rw [← LevelQueue.length_entries]
    exact List.length_pos_of_mem inside
  obtain ⟨nonneg, bound⟩ := pending.defaultRange p
  by_cases fresh : 0 < (s.proc p).ticksLeft
  · -- `p` goes back to the tail of its level
    rw [if_neg (not_le.mpr fresh)]
    simp only [busy, zombie, ne_eq, not_false_eq_true, and_self, ↓reduceIte]
    obtain ⟨s', ran, moved⟩ := reenqueue_spec k member pending.nodup inside member
      fun s' same room => by
        rw [findAvailableQueue_eq_firstAvailable room (by omega) nonneg (by omega)
          (pending.defaultQuantum same p),
          firstAvailable_congr same, Int.toNat_natCast,
          firstAvailable_of_quantum pending.level quantum]
    refine ⟨s', ran, moved.quanta, fun r => ?_, fun x => ?_, moved.cpu, moved.nextpid,
      moved.initproc, moved.nodup, moved.member⟩
    · rw [moved.entries]
      simp [zombie, levelTarget, fresh]
    · rw [moved.proc]
      simp [isExpiredSet_active pending.level, not_le.mpr fresh]
  · -- with its quantum used up, `p` is refilled and moves on
    have used : (s.proc p).ticksLeft ≤ 0 := by omega
    rw [if_pos used]
    simp only [Kernel.modifyProc_level, Kernel.modifyProc_proc, ↓reduceIte, busy, zombie, ne_eq,
      not_false_eq_true, and_self]
    have target := depletedTarget_mem pending p
    obtain ⟨s', ran, moved⟩ := reenqueue_spec (s := s.modifyProc p fun pr =>
        { pr with ticksLeft := cfg.procQuantum }) ((k : Int) + 1) member pending.nodup inside target
      fun s' same room => by
        simpa using depletedTarget_found pending p ((sameQuanta_modifyProc s p _).trans same) room
    refine ⟨s', ran, (sameQuanta_modifyProc s p _).trans moved.quanta, fun r => ?_, fun x => ?_,
      moved.cpu, moved.nextpid, moved.initproc, moved.nodup, fun x => ?_⟩
    · rw [moved.entries]
      simp [zombie, levelTarget, fresh]
    · rw [moved.proc]
      by_cases same : x = p
      · subst x
        simp [used]
      · simp [same]
    · rw [moved.member, queued_modifyProc]

end Rsdl.RequeueProofs
