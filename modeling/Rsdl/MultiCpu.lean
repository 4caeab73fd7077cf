import Rsdl.Iteration

/-! The kernel with `n` CPUs. Each CPU runs the single-CPU events on its own view of the
shared state, `ptable` with `nextpid`, `initproc`, the stacks of the processes inside a
`priofork`, and its own `cpus[i]`. An event is one
`ptable.lock` section of one CPU or one of its timer ticks. A CPU whose process has
called `sched()` holds `ptable.lock` until its requeue is done, and meanwhile no other
CPU takes a step.

With one CPU this is the single-CPU kernel (`view_reachable`), so its queue-membership
invariant and the consistency of `cpus[0].queue` carry over. With two CPUs both fail:
a set swap on one CPU moves the process another CPU runs, out of the level that CPU's
`queue` points to and which is now in the expired set, and the requeue after that
process's run enqueues it a second time. -/
namespace Rsdl.MultiCpu

open Invariant Preservation Forks Safety Iteration

variable {n : Nat} {cfg : Config}

/-- The kernel state with `cpus[0..n)`. -/
abbrev MultiKernel (n : Nat) := Kernel (Fin n → Cpu)

/-- The state as CPU `i` sees it. -/
def view (s : MultiKernel n) (i : Fin n) : Kernel Cpu :=
  ⟨s.proc, s.active, s.expired, s.level, s.nextpid, s.initproc, s.forks, s.cpu i⟩

/-- The state after a section of CPU `i` left its view as `t`. -/
def commit (s : MultiKernel n) (i : Fin n) (t : Kernel Cpu) : MultiKernel n :=
  ⟨t.proc, t.active, t.expired, t.level, t.nextpid, t.initproc, t.forks, Function.update s.cpu i t.cpu⟩

/-- No CPU other than `i` holds `ptable.lock` across a `sched()`. -/
def Unlocked (s : MultiKernel n) (i : Fin n) : Prop := ∀ j, j ≠ i → (view s j).returned = none

instance (s : MultiKernel n) (i : Fin n) : Decidable (Unlocked s i) := by
  unfold Unlocked
  infer_instance

/-- The event `e` on CPU `i`, or `none` when it cannot happen. -/
def execMulti (cfg : Config) (s : MultiKernel n) (i : Fin n) (e : Event) :
    Option (Except Fault (MultiKernel n)) :=
  if Unlocked s i then (execOn cfg i (view s i) e).map fun r => r.map (commit s i) else none

def MultiStep (cfg : Config) (s s' : MultiKernel n) : Prop :=
  ∃ i e, execMulti cfg s i e = some (.ok s')

/-- The kernel after `pinit`, with no CPU running anything. -/
def initialMulti (cfg : Config) (n : Nat) : MultiKernel n := boot cfg fun _ => Cpu.idle

def MultiReachable (cfg : Config) (s : MultiKernel n) : Prop :=
  Relation.ReflTransGen (MultiStep cfg) (initialMulti cfg n) s

/-- The state after the events `es`, each on its CPU, when each can happen and returns. -/
def runMulti (cfg : Config) : MultiKernel n → List (Fin n × Event) → Option (MultiKernel n)
  | s, [] => some s
  | s, (i, e) :: es =>
    match execMulti cfg s i e with
    | some (.ok s') => runMulti cfg s' es
    | _ => none

def afterMulti (cfg : Config) (n : Nat) (es : List (Fin n × Event)) : MultiKernel n :=
  (runMulti cfg (initialMulti cfg n) es).getD (initialMulti cfg n)

theorem multiReachable_runMulti {s t : MultiKernel n} {es : List (Fin n × Event)}
    (reach : MultiReachable cfg s) (ran : runMulti cfg s es = some t) : MultiReachable cfg t := by
  induction es generalizing s with
  | nil =>
    cases ran
    exact reach
  | cons step es ih =>
    obtain ⟨i, e⟩ := step
    unfold runMulti at ran
    split at ran
    · rename_i s' ran'
      exact ih (reach.tail ⟨i, e, ran'⟩) ran
    · cases ran

theorem multiReachable_afterMulti {es : List (Fin n × Event)}
    (ran : (runMulti cfg (initialMulti cfg n) es).isSome = true) :
    MultiReachable cfg (afterMulti cfg n es) := by
  obtain ⟨t, ran⟩ := Option.isSome_iff_exists.mp ran
  rw [afterMulti, ran]
  exact multiReachable_runMulti Relation.ReflTransGen.refl ran

/-! ### One CPU -/

theorem view_commit (s : MultiKernel n) (i : Fin n) (t : Kernel Cpu) : view (commit s i t) i = t := by
  simp [view, commit]

theorem view_initialMulti (cfg : Config) : view (initialMulti cfg 1) 0 = initial cfg := rfl

/-- With one CPU nothing else can hold the lock, and CPU `0` takes the single-CPU step. -/
theorem execMulti_one (s : MultiKernel 1) (e : Event) :
    execMulti cfg s 0 e = (exec cfg (view s 0) e).map fun r => r.map (commit s 0) :=
  if_pos fun j other => absurd (Subsingleton.elim j 0) other

theorem view_step {s s' : MultiKernel 1} (step : MultiStep cfg s s') :
    Step cfg (view s 0) (view s' 0) := by
  obtain ⟨i, e, ran⟩ := step
  obtain rfl : i = 0 := Subsingleton.elim i 0
  rw [execMulti_one] at ran
  obtain ⟨r, single, committed⟩ := Option.map_eq_some_iff.mp ran
  obtain ⟨t, rfl, rfl⟩ := ExceptRun.map_eq_ok committed
  exact ⟨e, by rw [view_commit]; exact single⟩

/-- The one-CPU kernel simulates the single-CPU one. -/
theorem view_reachable {s : MultiKernel 1} (reach : MultiReachable cfg s) :
    Reachable cfg (view s 0) := by
  induction reach with
  | refl => exact view_initialMulti cfg ▸ Relation.ReflTransGen.refl
  | tail _ step ih => exact ih.tail (view_step step)

/-- A CPU's live process is in the level it was picked from, a level of the active set.
A `ZOMBIE` is left out only because `exit` and the requeue after its `sched()` are two
events here; in the code they are one hold of `ptable.lock`. -/
def CpuQueues (cfg : Config) (s : MultiKernel n) : Prop :=
  ∀ i p, (s.cpu i).proc = some p → (s.proc p).state ≠ .zombie →
    ∃ k < cfg.levels, (s.cpu i).queue = some (s.active, k) ∧ p ∈ (s.level (s.active, k)).entries

theorem single_cpu_consistency {s : MultiKernel 1} (reach : MultiReachable cfg s) :
    QueueMembership cfg s ∧ CpuQueues cfg s := by
  have single := view_reachable reach
  have inv := inv_reachable single
  refine ⟨queue_membership single, fun i p onCpu alive => ?_⟩
  obtain rfl : i = 0 := Subsingleton.elim i 0
  obtain ⟨k, bound, queue, inside, notUnused, notEmbryo⟩ := inv.cpuQueue p onCpu
  have queued : ((view s 0).proc p).state.queued = true := by
    change ((view s 0).proc p).state ≠ .zombie at alive
    cases state : ((view s 0).proc p).state <;> simp_all [ProcState.queued]
  exact ⟨k, bound, queue, inside queued⟩

/-! ### Two CPUs -/

/-- CPU 0 runs `initproc`, picked from `active[0]`; CPU 1 then finds nothing to pick and
swaps the sets, draining `initproc` into the new active set. -/
def swappedRun : MultiKernel 2 :=
  afterMulti oneTick 2 [(0, .userinit), (0, .scheduler), (1, .scheduler)]

/-- Then CPU 0's tick depletes the level its `queue` points to, and its requeue enqueues
`initproc` again. -/
def duplicateRun : MultiKernel 2 :=
  afterMulti oneTick 2 [(0, .userinit), (0, .scheduler), (1, .scheduler), (0, .timer), (0, .requeue)]

theorem two_cpus_duplicate :
    MultiReachable oneTick swappedRun ∧ (swappedRun.cpu 0).proc = some 0 ∧
      (swappedRun.proc 0).state = .running ∧ (swappedRun.cpu 0).queue = some (swappedRun.expired, 0) ∧
      0 ∉ (swappedRun.level (swappedRun.expired, 0)).entries ∧
    MultiReachable oneTick duplicateRun ∧ (duplicateRun.proc 0).state = .runnable ∧
      (duplicateRun.queued oneTick).count 0 = 2 := by
  refine ⟨multiReachable_afterMulti (by decide), by decide +kernel, by decide +kernel,
    by decide +kernel, by decide +kernel, multiReachable_afterMulti (by decide), by decide +kernel,
    by decide +kernel⟩

end Rsdl.MultiCpu
