import Rsdl.Safety

/-! The three paths of a scheduler iteration from a reachable state, each as the effect
the source's comments describe. The requeue after a depleted level (lines 654-679) moves
every process of that level, in order and with a full quantum, to the next active level
that has quantum left, or, when none has, each to the expired level of its priority;
`p` comes last. The requeue into a level with quantum left (lines 680-710) moves `p` to
the tail of its level, or one level on once its own quantum is spent. The set swap
(lines 716-740) exchanges the sets and drains the old active set into the new one by
priority, in level and queue order. -/
namespace Rsdl.Iteration

open ExceptRun Invariant Preservation Forks QueueProofs RequeueProofs RequeueInv SwapProofs Safety

variable {cfg : Config} {s s' : Kernel Cpu} {p : Slot} {k : Nat}

theorem exec_requeue (back : s.returned = some p) (queue : s.cpu.queue = some (s.active, k)) :
    exec cfg s .requeue = some (requeue cfg s p (s.active, k)) := by
  rw [exec_requeue_eq, back, queue]

/-- A target every process shares: the processes of `l` it sends to `r` other than `p`. -/
theorem filter_const_target (l : List Slot) {target : Slot → QueueRef} {t : QueueRef}
    (const : ∀ x, target x = t) (r : QueueRef) :
    l.filter (fun x => decide (¬p = x ∧ target x = r)) =
      if t = r then l.filter (fun x => x ≠ p) else [] := by
  split
  · rename_i same
    exact List.filter_congr fun x _ => by simp [const, same, eq_comm]
  · rename_i other
    exact List.filter_eq_nil_iff.mpr fun x _ => by simp [const, other]

/-- The expired level of a priority in range. -/
theorem expired_eq_iff {z : Int} (nonneg : 0 ≤ z) (d : Nat) :
    ((s.expired, z.toNat) : QueueRef) = (s.expired, d) ↔ z = d := by
  rw [Prod.mk.injEq]
  omega

/-! ### A depleted level -/

/-- The requeue after the level `active[k]` ran out of quantum. -/
def DepletionMigration (cfg : Config) (s : Kernel Cpu) (p : Slot) (k : Nat) (s' : Kernel Cpu) :
    Prop :=
  (s'.level (s.active, k)).entries = [] ∧
  (∀ x ∈ (s.level (s.active, k)).entries, (s'.proc x).ticksLeft = cfg.procQuantum) ∧
  (∀ j, k < j → j < cfg.levels → 0 < (s.level (s.active, j)).ticksLeft →
    (∀ i, k < i → i < j → (s.level (s.active, i)).ticksLeft ≤ 0) →
    (s'.level (s.active, j)).entries = (s.level (s.active, j)).entries ++
      (s.level (s.active, k)).entries.filter (fun x => x ≠ p) ++
      (if (s.proc p).state ≠ .zombie then [p] else []) ∧
    ∀ r, r ≠ (s.active, k) → r ≠ (s.active, j) → (s'.level r).entries = (s.level r).entries) ∧
  ((∀ j, k < j → j < cfg.levels → (s.level (s.active, j)).ticksLeft ≤ 0) →
    (∀ d : Nat, (s'.level (s.expired, d)).entries = (s.level (s.expired, d)).entries ++
      (s.level (s.active, k)).entries.filter (fun x => x ≠ p ∧ (s.proc x).defaultLevel = d) ++
      (if (s.proc p).state ≠ .zombie ∧ (s.proc p).defaultLevel = d then [p] else [])) ∧
    ∀ j, j ≠ k → (s'.level (s.active, j)).entries = (s.level (s.active, j)).entries) ∧
  ∀ r, (s'.level r).ticksLeft = (s.level r).ticksLeft

/-- With a next active level holding quantum, the whole depleted level moves there. -/
theorem DepletedRequeue.to_active (req : DepletedRequeue cfg s p k s') {j : Nat} (low : k < j)
    (bound : j < cfg.levels) (quantum : 0 < (s.level (s.active, j)).ticksLeft)
    (before : ∀ i, k < i → i < j → (s.level (s.active, i)).ticksLeft ≤ 0) :
    (s'.level (s.active, j)).entries = (s.level (s.active, j)).entries ++
      (s.level (s.active, k)).entries.filter (fun x => x ≠ p) ++
      (if (s.proc p).state ≠ .zombie then [p] else []) ∧
    ∀ r, r ≠ (s.active, k) → r ≠ (s.active, j) → (s'.level r).entries = (s.level r).entries := by
  have target : ∀ x, depletedTarget cfg s k x = (s.active, j) := fun x =>
    firstAvailable_of_least low bound quantum (fun i low' high => before i low' high) _
  have moved : (s.active, j) ≠ (s.active, k) := queueRef_ne_of_level_ne _ (by omega)
  refine ⟨?_, fun r other notTarget => ?_⟩
  · rw [req.entries, if_neg moved, filter_const_target _ target, if_pos rfl, target p]
    simp
  · have missed : (s.active, j) ≠ r := Ne.symm notTarget
    rw [req.entries, if_neg other, filter_const_target _ target, if_neg missed, target p]
    simp [missed]

/-- With no next active level holding quantum, each process moves to the expired level
of its priority. -/
theorem DepletedRequeue.to_expired (pending : Pending cfg s p k)
    (req : DepletedRequeue cfg s p k s')
    (none : ∀ j, k < j → j < cfg.levels → (s.level (s.active, j)).ticksLeft ≤ 0) :
    (∀ d : Nat, (s'.level (s.expired, d)).entries = (s.level (s.expired, d)).entries ++
      (s.level (s.active, k)).entries.filter (fun x => x ≠ p ∧ (s.proc x).defaultLevel = d) ++
      (if (s.proc p).state ≠ .zombie ∧ (s.proc p).defaultLevel = d then [p] else [])) ∧
    ∀ j, j ≠ k → (s'.level (s.active, j)).entries = (s.level (s.active, j)).entries := by
  have target : ∀ x, depletedTarget cfg s k x = (s.expired, (s.proc x).defaultLevel.toNat) :=
    fun x => firstAvailable_of_depleted (fun i low high => none i low high) _
  have hit : ∀ x (d : Nat), depletedTarget cfg s k x = (s.expired, d) ↔ (s.proc x).defaultLevel = d :=
    fun x d => by rw [target x, expired_eq_iff (pending.defaultRange x).1]
  refine ⟨fun d => ?_, fun j other => ?_⟩
  · have outside : ((s.expired, d) : QueueRef) ≠ (s.active, k) :=
      queueRef_ne_of_set_ne pending.sets.symm d k
    rw [req.entries, if_neg outside]
    simp only [hit]
    congr 2
    exact List.filter_congr fun x _ => by simp [eq_comm]
  · have active : (s.active, j) ≠ (s.active, k) := queueRef_ne_of_level_ne _ other
    have away : ∀ x, depletedTarget cfg s k x ≠ (s.active, j) := fun x => by
      rw [target x]
      exact queueRef_ne_of_set_ne pending.sets.symm _ j
    rw [req.entries, if_neg active, List.filter_eq_nil_iff.mpr fun x _ => by simp [away x]]
    simp [away p]

theorem DepletedRequeue.migration (pending : Pending cfg s p k)
    (req : DepletedRequeue cfg s p k s') :
    DepletionMigration cfg s p k s' := by
  refine ⟨?_, fun x inside => ?_, fun j low bound quantum before =>
    DepletedRequeue.to_active req low bound quantum before,
    fun none => DepletedRequeue.to_expired pending req none, req.quanta.2.2⟩
  · rw [req.entries, if_pos rfl]
  · rw [req.proc x, if_pos inside]

theorem level_depletion_migration (reach : Reachable cfg s) (back : s.returned = some p)
    (queue : s.cpu.queue = some (s.active, k)) (depleted : (s.level (s.active, k)).ticksLeft ≤ 0) :
    ∃ s', exec cfg s .requeue = some (.ok s') ∧ DepletionMigration cfg s p k s' := by
  have pending := Inv.pending (inv_reachable reach) back queue
  obtain ⟨s₁, ran, req⟩ := requeueDepleted_spec pending
  -- the requeue only sets the CPU idle after the drain, which no part of the effect reads
  have migrated : DepletionMigration cfg s p k s₁ := DepletedRequeue.migration pending req
  refine ⟨{ s₁ with cpu := Cpu.idle }, ?_, migrated⟩
  rw [exec_requeue back queue]
  unfold requeue
  rw [if_pos depleted, ran, ok_bind]
  rfl

/-- A configuration whose levels run out after one tick, so that the first timer
interrupt depletes the level a process runs from. -/
def oneTick : Config where
  levels := 2
  startingLevel := 0
  procQuantum := 2
  levelQuantum := 1
  levels_pos := by decide
  startingLevel_lt := by decide
  procQuantum_pos := by decide
  levelQuantum_pos := by decide

/-- `initproc` under `oneTick` has forked a child, which waits behind it, and has taken its
first tick: it is back in the scheduler with its level depleted. -/
def depletedRun : Kernel Cpu :=
  afterEvents oneTick [.userinit, .scheduler, .fork, .forkCopy true true, .forkEnqueue, .timer]

theorem level_depletion_migration_depletedRun :
    Reachable oneTick depletedRun ∧ depletedRun.returned = some 0 ∧
      depletedRun.cpu.queue = some (depletedRun.active, 0) ∧
      (depletedRun.level (depletedRun.active, 0)).ticksLeft ≤ 0 ∧
      (depletedRun.level (depletedRun.active, 0)).entries = [0, 1] ∧
      ∃ s', exec oneTick depletedRun .requeue = some (.ok s') ∧
        DepletionMigration oneTick depletedRun 0 0 s' := by
  have reach : Reachable oneTick depletedRun := reachable_afterEvents (by decide +kernel)
  have back : depletedRun.returned = some 0 := by decide +kernel
  have queue : depletedRun.cpu.queue = some (depletedRun.active, 0) := by decide +kernel
  have depleted : (depletedRun.level (depletedRun.active, 0)).ticksLeft ≤ 0 := by decide +kernel
  have entries : (depletedRun.level (depletedRun.active, 0)).entries = [0, 1] := by decide +kernel
  exact ⟨reach, back, queue, depleted, entries, level_depletion_migration reach back queue depleted⟩

/-! ### A level with quantum left -/

/-- The requeue of `p` into `active[k]`, which has quantum left. -/
def DeadlineRequeue (cfg : Config) (s : Kernel Cpu) (p : Slot) (k : Nat) (s' : Kernel Cpu) :
    Prop :=
  ((s.proc p).state = .zombie → ∀ r, (s'.level r).entries = (s.level r).entries) ∧
  ((s.proc p).state ≠ .zombie → 0 < (s.proc p).ticksLeft →
    (s'.level (s.active, k)).entries = (s.level (s.active, k)).entries.erase p ++ [p] ∧
    (s'.proc p).ticksLeft = (s.proc p).ticksLeft ∧
    ∀ r, r ≠ (s.active, k) → (s'.level r).entries = (s.level r).entries) ∧
  ((s.proc p).state ≠ .zombie → (s.proc p).ticksLeft ≤ 0 →
    (s'.proc p).ticksLeft = cfg.procQuantum ∧
    (s'.level (s.active, k)).entries = (s.level (s.active, k)).entries.erase p ∧
    (∀ j, k < j → j < cfg.levels → 0 < (s.level (s.active, j)).ticksLeft →
      (∀ i, k < i → i < j → (s.level (s.active, i)).ticksLeft ≤ 0) →
      (s'.level (s.active, j)).entries = (s.level (s.active, j)).entries ++ [p] ∧
      ∀ r, r ≠ (s.active, k) → r ≠ (s.active, j) → (s'.level r).entries = (s.level r).entries) ∧
    ((∀ j, k < j → j < cfg.levels → (s.level (s.active, j)).ticksLeft ≤ 0) →
      let e : QueueRef := (s.expired, (s.proc p).defaultLevel.toNat)
      (s'.level e).entries = (s.level e).entries ++ [p] ∧
      ∀ r, r ≠ (s.active, k) → r ≠ e → (s'.level r).entries = (s.level r).entries)) ∧
  (∀ x, x ≠ p → (s'.proc x).ticksLeft = (s.proc x).ticksLeft) ∧
  ∀ r, (s'.level r).ticksLeft = (s.level r).ticksLeft

/-- A live `p` leaves its level and is appended where `levelTarget` points. -/
theorem LevelRequeue.moved (req : LevelRequeue cfg s p k s') (alive : (s.proc p).state ≠ .zombie)
    {t : QueueRef} (target : levelTarget cfg s p k = t) (r : QueueRef) :
    (s'.level r).entries =
      (if r = (s.active, k) then (s.level r).entries.erase p else (s.level r).entries) ++
        if t = r then [p] else [] := by
  rw [req.entries, if_neg alive, target]

theorem LevelRequeue.deadline (pending : Pending cfg s p k) (req : LevelRequeue cfg s p k s') :
    DeadlineRequeue cfg s p k s' := by
  refine ⟨fun zombie r => by rw [req.entries, if_pos zombie], fun alive positive => ?_,
    fun alive spent => ?_, fun x other => ?_, req.quanta.2.2⟩
  · -- `p` keeps its quantum and goes to the tail of its own level
    have target : levelTarget cfg s p k = (s.active, k) := if_pos positive
    refine ⟨by rw [LevelRequeue.moved req alive target, if_pos rfl, if_pos rfl], ?_, fun r other => ?_⟩
    · rw [req.proc p, if_neg fun used => absurd used.2 (not_le.mpr positive)]
    · rw [LevelRequeue.moved req alive target, if_neg other, if_neg (Ne.symm other), List.append_nil]
  · -- `p` gets a full quantum and goes where the depleted requeue would send it
    have target : levelTarget cfg s p k = depletedTarget cfg s k p := if_neg (not_lt.mpr spent)
    have away := depletedTarget_ne pending p
    refine ⟨by rw [req.proc p, if_pos ⟨rfl, spent⟩], ?_, fun j low bound quantum before => ?_,
      fun none => ?_⟩
    · rw [LevelRequeue.moved req alive target, if_pos rfl, if_neg away, List.append_nil]
    · have found : depletedTarget cfg s k p = (s.active, j) :=
        firstAvailable_of_least low bound quantum (fun i low' high => before i low' high) _
      have moved : (s.active, j) ≠ (s.active, k) := queueRef_ne_of_level_ne _ (by omega)
      refine ⟨by rw [LevelRequeue.moved req alive (target.trans found), if_neg moved, if_pos rfl],
        fun r other notTarget => ?_⟩
      rw [LevelRequeue.moved req alive (target.trans found), if_neg other, if_neg (Ne.symm notTarget),
        List.append_nil]
    · have found : depletedTarget cfg s k p = (s.expired, (s.proc p).defaultLevel.toNat) :=
        firstAvailable_of_depleted (fun i low high => none i low high) _
      have outside : ((s.expired, (s.proc p).defaultLevel.toNat) : QueueRef) ≠ (s.active, k) :=
        queueRef_ne_of_set_ne pending.sets.symm _ k
      refine ⟨by rw [LevelRequeue.moved req alive (target.trans found), if_neg outside, if_pos rfl],
        fun r other notTarget => ?_⟩
      rw [LevelRequeue.moved req alive (target.trans found), if_neg other, if_neg (Ne.symm notTarget),
        List.append_nil]
  · rw [req.proc x, if_neg fun used => other used.1]

theorem deadline_requeue (reach : Reachable cfg s) (back : s.returned = some p)
    (queue : s.cpu.queue = some (s.active, k)) (quantum : 0 < (s.level (s.active, k)).ticksLeft) :
    ∃ s', exec cfg s .requeue = some (.ok s') ∧ DeadlineRequeue cfg s p k s' := by
  have pending := Inv.pending (inv_reachable reach) back queue
  obtain ⟨s₁, ran, req⟩ := requeueLevel_spec pending quantum
  have requeued : DeadlineRequeue cfg s p k s₁ := LevelRequeue.deadline pending req
  refine ⟨{ s₁ with cpu := Cpu.idle }, ?_, requeued⟩
  rw [exec_requeue back queue]
  unfold requeue
  rw [if_neg (not_le.mpr quantum), ran, ok_bind]
  rfl

/-- A configuration whose processes run out before their level does. -/
def quickProc : Config where
  levels := 2
  startingLevel := 0
  procQuantum := 1
  levelQuantum := 2
  levels_pos := by decide
  startingLevel_lt := by decide
  procQuantum_pos := by decide
  levelQuantum_pos := by decide

/-- `initproc` under `quickProc` has forked a child, which waits behind it, and has used up
its own quantum in one tick while its level has one left. -/
def spentRun : Kernel Cpu :=
  afterEvents quickProc [.userinit, .scheduler, .fork, .forkCopy true true, .forkEnqueue, .timer]

theorem deadline_requeue_spentRun :
    Reachable quickProc spentRun ∧ spentRun.returned = some 0 ∧
      spentRun.cpu.queue = some (spentRun.active, 0) ∧
      0 < (spentRun.level (spentRun.active, 0)).ticksLeft ∧
      (spentRun.proc 0).ticksLeft ≤ 0 ∧ (spentRun.level (spentRun.active, 0)).entries = [0, 1] ∧
      ∃ s', exec quickProc spentRun .requeue = some (.ok s') ∧ DeadlineRequeue quickProc spentRun 0 0 s' := by
  have reach : Reachable quickProc spentRun := reachable_afterEvents (by decide +kernel)
  have back : spentRun.returned = some 0 := by decide +kernel
  have queue : spentRun.cpu.queue = some (spentRun.active, 0) := by decide +kernel
  have quantum : 0 < (spentRun.level (spentRun.active, 0)).ticksLeft := by decide +kernel
  have spent : (spentRun.proc 0).ticksLeft ≤ 0 := by decide +kernel
  have entries : (spentRun.level (spentRun.active, 0)).entries = [0, 1] := by decide +kernel
  exact ⟨reach, back, queue, quantum, spent, entries, deadline_requeue reach back queue quantum⟩

/-! ### The set swap -/

theorem exec_scheduler (idle : s.cpu.proc = none) (started : s.initproc ≠ none) :
    exec cfg s .scheduler = some (scheduler cfg s) :=
  if_pos ⟨idle, started⟩

/-- The set swap, from `s` to `t`. -/
def SetRotation (cfg : Config) (s t : Kernel Cpu) : Prop :=
  t.active = s.expired ∧ t.expired = s.active ∧
  (∀ j < cfg.levels, (t.level (t.expired, j)).entries = [] ∧
    (t.level (t.expired, j)).ticksLeft = cfg.levelQuantum) ∧
  (∀ j < cfg.levels, (t.level (t.active, j)).ticksLeft = (s.level (s.expired, j)).ticksLeft ∧
    (t.level (t.active, j)).ticksLeft = cfg.levelQuantum) ∧
  (∀ j < cfg.levels, (t.level (t.active, j)).entries = (s.level (s.expired, j)).entries ++
    (List.range cfg.levels).flatMap fun i =>
      (s.level (s.active, i)).entries.filter fun x => (s.proc x).defaultLevel = j) ∧
  (∀ i < cfg.levels, ∀ x ∈ (s.level (s.active, i)).entries,
    x ∈ (t.level (t.active, (s.proc x).defaultLevel.toNat)).entries ∧
      (t.proc x).ticksLeft = cfg.procQuantum) ∧
  ∀ x, x ∈ t.queued cfg ↔ x ∈ s.queued cfg

/-- The processes the swap drains into level `j`, with the priority compared as stored. -/
theorem swept_eq (inv : Inv cfg s) (j : Nat) :
    swept s cfg.levels j = (List.range cfg.levels).flatMap fun i =>
      (s.level (s.active, i)).entries.filter fun x => (s.proc x).defaultLevel = j := by
  refine List.flatMap_congr fun i _ => List.filter_congr fun x _ => ?_
  have nonneg := (inv.defaultRange x).1
  simp only [decide_eq_decide]
  omega

theorem SweptTo.rotation (inv : Inv cfg s) (sw : SweptTo cfg s cfg.levels t) :
    SetRotation cfg s t := by
  refine ⟨sw.active, sw.expired, fun j bound => ?_, fun j bound => ?_, fun j bound => ?_,
    fun i bound x inside => ?_, sw.member⟩
  · rw [sw.expired, sw.drained, sw.drainedTicks, if_pos bound, if_pos bound]
    exact ⟨rfl, rfl⟩
  · rw [sw.active, sw.filledTicks]
    exact ⟨rfl, inv.expiredQuantum j bound⟩
  · rw [sw.active, sw.filled, swept_eq inv]
  · have moved : x ∈ swept s cfg.levels (s.proc x).defaultLevel.toNat :=
      mem_swept.mpr ⟨i, bound, inside, rfl⟩
    have drained : x ∈ sweptAll s cfg.levels := by
      simp only [sweptAll, List.mem_flatMap, List.mem_range]
      exact ⟨i, bound, inside⟩
    rw [sw.active, sw.filled, sw.proc, if_pos drained]
    exact ⟨List.mem_append_right _ moved, rfl⟩

theorem set_rotation (reach : Reachable cfg s) (idle : s.cpu.proc = none)
    (started : s.initproc ≠ none) (missed : pick cfg s = none) :
    ∃ t, exec cfg s .scheduler = some (.ok t) ∧ SetRotation cfg s t := by
  have inv := inv_reachable reach
  obtain ⟨t, ran, sw⟩ := swapSets_spec (Inv.swappable inv)
  refine ⟨t, ?_, SweptTo.rotation inv sw⟩
  rw [exec_scheduler idle started]
  unfold scheduler
  rw [missed, ran]

/-- `initproc` under `oneTick` after it has used up both active levels: the CPU is idle
and the pick finds nothing. -/
def idleRun : Kernel Cpu :=
  afterEvents oneTick [.userinit, .scheduler, .timer, .requeue, .scheduler, .timer, .requeue]

theorem reachable_idleRun : Reachable oneTick idleRun := reachable_afterEvents (by decide)

/-- `initproc` and its child both asleep in the first level, under the shipped
configuration: the pick finds nobody ready. -/
def sleptRun : Kernel Cpu :=
  afterEvents rsdl [.userinit, .scheduler, .fork, .forkCopy true true, .forkEnqueue, .sleep (.other 0),
    .requeue, .scheduler, .sleep (.other 0), .requeue]

theorem set_rotation_sleptRun :
    Reachable rsdl sleptRun ∧ sleptRun.cpu.proc = none ∧ sleptRun.initproc ≠ none ∧
      pick rsdl sleptRun = none ∧ (sleptRun.level (sleptRun.active, 0)).entries = [0, 1] ∧
      ∃ t, exec rsdl sleptRun .scheduler = some (.ok t) ∧ SetRotation rsdl sleptRun t := by
  have reach : Reachable rsdl sleptRun := reachable_afterEvents (by decide +kernel)
  have idle : sleptRun.cpu.proc = none := by decide +kernel
  have started : sleptRun.initproc ≠ none := by decide +kernel
  have missed : pick rsdl sleptRun = none := by decide +kernel
  have entries : (sleptRun.level (sleptRun.active, 0)).entries = [0, 1] := by decide +kernel
  exact ⟨reach, idle, started, missed, entries, set_rotation reach idle started missed⟩

end Rsdl.Iteration
