import Rsdl.Forks
import Rsdl.Lib.Budget

/-! The safety properties of the single-CPU kernel, each read off the invariant `Inv`
that every reachable state has: queue membership with no process lost or duplicated, the
absence of every scheduler panic, the staircase placement of processes over the levels,
and the quantum accounting. Its consequence along a run comes from `Ticked`, what every
step does to a quantum: between two refills a level or a process is charged at most the
quantum it holds, and so at most `RSDL_LEVEL_QUANTUM` or `RSDL_PROC_QUANTUM` ticks. -/
namespace Rsdl.Safety

open Invariant Preservation Forks QueueProofs SwapProofs Budget

variable {cfg : Config} {s : Kernel Cpu}

/-! ### Queue membership -/

theorem pair_eq_univ : ∀ a b : Fin 2, a ≠ b → ({a, b} : Finset (Fin 2)) = Finset.univ := by
  decide

/-- A level holds at most `NPROC` entries, because no process is queued twice. -/
theorem numproc_le (nodup : (s.queued cfg).Nodup) {r : QueueRef} (member : r ∈ allQueues cfg) :
    (s.level r).numproc ≤ NPROC := by
  have bound := (nodup.sublist (entries_sublist_queued member)).length_le_card
  rw [LevelQueue.length_entries, Fintype.card_fin] at bound
  exact bound

/-- The two set pointers name both rows of `ptable.level`, no level is over capacity,
every `RUNNABLE`, `RUNNING` or `SLEEPING` process is queued exactly once over the
`2 * RSDL_LEVELS` queues, and no `UNUSED`, `EMBRYO` or `ZOMBIE` one is queued at all. -/
def QueueMembership {C : Type} (cfg : Config) (s : Kernel C) : Prop :=
  ({s.active, s.expired} : Finset (Fin 2)) = Finset.univ ∧
  (∀ r ∈ allQueues cfg, (s.level r).numproc ≤ NPROC) ∧
  (∀ p, (s.proc p).state = .runnable ∨ (s.proc p).state = .running ∨
    (s.proc p).state = .sleeping → (s.queued cfg).count p = 1) ∧
  (∀ p, (s.proc p).state = .unused ∨ (s.proc p).state = .embryo ∨
    (s.proc p).state = .zombie → ∀ r ∈ allQueues cfg, p ∉ (s.level r).entries)

theorem queue_membership (reach : Reachable cfg s) : QueueMembership cfg s := by
  have inv := inv_reachable reach
  refine ⟨pair_eq_univ _ _ inv.sets, fun r member => numproc_le inv.nodup member,
    fun p live => ?_, fun p dead r member inside => ?_⟩
  · have queued : (s.proc p).state.queued = true := by
      rcases live with state | state | state <;> rw [state] <;> rfl
    exact List.count_eq_one_of_mem inv.nodup ((inv.member p).mpr queued)
  · have queued := (inv.member p).mp (mem_queued.mpr ⟨r, member, inside⟩)
    rcases dead with state | state | state <;> rw [state] at queued <;> cases queued

/-- `initproc` created and dispatched by the shipped configuration. -/
def initRunning : Kernel Cpu := afterEvents rsdl [.userinit, .scheduler]

theorem reachable_initRunning : Reachable rsdl initRunning := reachable_afterEvents (by decide)

theorem queue_membership_initRunning : Reachable rsdl initRunning ∧ QueueMembership rsdl initRunning :=
  ⟨reachable_initRunning, queue_membership reachable_initRunning⟩

/-! ### Panic freedom -/

/-- The only fault an event of a reachable state can end in is `initproc` calling
`exit`: no queue operation, level search or timer charge ever panics. -/
theorem no_scheduler_panic {e : Event} {f : Fault} (reach : Reachable cfg s)
    (ran : exec cfg s e = some (.error f)) : f = .panic "init exiting" := by
  rcases inv_exec (inv_reachable reach) (forkSlots_reachable reach) ran with ⟨_, failed, -⟩ | panicked
  · cases failed
  · injection panicked

/-- `initproc` calling `exit` right after its first dispatch. -/
theorem init_exit_panics :
    Reachable rsdl initRunning ∧ exec rsdl initRunning .exit = some (.error (.panic "init exiting")) ∧
      Fault.panic "init exiting" = .panic "init exiting" := by
  have ran : exec rsdl initRunning .exit = some (.error (.panic "init exiting")) := rfl
  exact ⟨reachable_initRunning, ran, no_scheduler_panic reachable_initRunning ran⟩

/-! ### Staircase placement -/

/-- Every process has a priority in range, none is queued in the active set above its
priority, each waits at its priority in the expired set, and so none runs above it. -/
def StaircasePlacement (cfg : Config) (s : Kernel Cpu) : Prop :=
  (∀ p, 0 ≤ (s.proc p).defaultLevel ∧ (s.proc p).defaultLevel < cfg.levels) ∧
  (∀ j < cfg.levels, ∀ p ∈ (s.level (s.active, j)).entries, (s.proc p).defaultLevel ≤ j) ∧
  (∀ j < cfg.levels, ∀ p ∈ (s.level (s.expired, j)).entries, (s.proc p).defaultLevel = j) ∧
  (∀ p, (s.proc p).state = .running →
    ∃ k, s.cpu.queue = some (s.active, k) ∧ (s.proc p).defaultLevel ≤ k)

theorem staircase_placement (reach : Reachable cfg s) : StaircasePlacement cfg s := by
  have inv := inv_reachable reach
  refine ⟨inv.defaultRange, inv.activePlace, inv.expiredPlace, fun p running => ?_⟩
  obtain ⟨k, bound, queue, inside, -⟩ := inv.cpuQueue p (inv.running p running)
  have queued : (s.proc p).state.queued = true := by rw [running]; rfl
  exact ⟨k, queue, inv.activePlace k bound p (inside queued)⟩

theorem staircase_placement_initRunning :
    Reachable rsdl initRunning ∧ StaircasePlacement rsdl initRunning :=
  ⟨reachable_initRunning, staircase_placement reachable_initRunning⟩

/-! ### Quantum accounting -/

/-- The quantum of a level, and of a process, as a function of the state. -/
def levelTicks (r : QueueRef) (t : Kernel Cpu) : Int := (t.level r).ticksLeft

def procTicks (p : Slot) (t : Kernel Cpu) : Int := (t.proc p).ticksLeft

/-- Every level of both sets holds between no quantum and a full one. -/
theorem Inv.levelQuantum_range (inv : Inv cfg s) {r : QueueRef} (member : r ∈ allQueues cfg) :
    0 ≤ (s.level r).ticksLeft ∧ (s.level r).ticksLeft ≤ cfg.levelQuantum := by
  have bound := mem_allQueues.mp member
  rcases queueRef_cases inv.sets r with same | same <;> rw [same]
  · exact inv.activeQuantum r.2 bound
  · rw [inv.expiredQuantum r.2 bound]
    exact ⟨cfg.levelQuantum_int_pos.le, le_refl _⟩

theorem reachable_of_mem_run (reach : Reachable cfg s) {l : List (Kernel Cpu)}
    (run : (s :: l).IsChain (Step cfg)) : ∀ t ∈ s :: l, Reachable cfg t :=
  run.induction _ _ (fun _ _ step reached => reached.tail step) fun _ => reach

/-- Every step of a run from a reachable state is `Ticked`. -/
theorem run_ticked (reach : Reachable cfg s) {l : List (Kernel Cpu)}
    (run : (s :: l).IsChain (Step cfg)) : (s :: l).IsChain Ticked :=
  run.imp_of_mem_imp fun a _ inside _ step =>
    step_ticked (inv_reachable (reachable_of_mem_run reach run a inside))
      (forkSlots_reachable (reachable_of_mem_run reach run a inside)) step

/-- A quantum that every step charges one tick, keeps or refills, and that the invariant
keeps between `0` and `bound`, is charged at most `bound` ticks along a run from a
reachable state that does not refill it. -/
theorem charges_le_of_run (reach : Reachable cfg s) {l : List (Kernel Cpu)}
    (run : (s :: l).IsChain (Step cfg)) {f : Kernel Cpu → Int} {bound : Int}
    (ticked : ∀ a b, Ticked a b → f b = f a - 1 ∨ f a ≤ f b)
    (range : ∀ t, Inv cfg t → 0 ≤ f t ∧ f t ≤ bound) (kept : NoRefill f (s :: l)) :
    (charges f (s :: l) : Int) ≤ bound := by
  have reached := reachable_of_mem_run reach run
  have spends := isChain_spends ticked (run_ticked reach run) kept
  calc (charges f (s :: l) : Int)
      ≤ f s := charges_le spends fun t inside => (range t (inv_reachable (reached t inside))).1
    _ ≤ bound := (range s (inv_reachable reach)).2

/-- The quanta of the state, and along every run from it: between two refills, no level
of either set is charged more than `RSDL_LEVEL_QUANTUM` ticks and no process more than
`RSDL_PROC_QUANTUM`. -/
def QuantumAccounting (cfg : Config) (s : Kernel Cpu) : Prop :=
  (∀ k < cfg.levels, (s.level (s.expired, k)).ticksLeft = cfg.levelQuantum) ∧
  (∀ k < cfg.levels, 0 ≤ (s.level (s.active, k)).ticksLeft ∧
    (s.level (s.active, k)).ticksLeft ≤ cfg.levelQuantum) ∧
  (s.cpu.proc = none → ∀ k < cfg.levels, (s.level (s.active, k)).ticksLeft = 0 →
    (s.level (s.active, k)).entries = []) ∧
  (∀ p ∈ s.queued cfg, s.cpu.proc ≠ some p →
    1 ≤ (s.proc p).ticksLeft ∧ (s.proc p).ticksLeft ≤ cfg.procQuantum) ∧
  (∀ p, s.cpu.proc = some p → 0 ≤ (s.proc p).ticksLeft ∧ (s.proc p).ticksLeft ≤ cfg.procQuantum) ∧
  (∀ p, (s.proc p).state = .running → ∃ k < cfg.levels,
    s.cpu.queue = some (s.active, k) ∧ p ∈ (s.level (s.active, k)).entries) ∧
  ∀ l, (s :: l).IsChain (Step cfg) →
    (∀ r ∈ allQueues cfg, NoRefill (levelTicks r) (s :: l) →
      charges (levelTicks r) (s :: l) ≤ cfg.levelQuantum) ∧
    (∀ p, NoRefill (procTicks p) (s :: l) → charges (procTicks p) (s :: l) ≤ cfg.procQuantum)

theorem quantum_accounting (reach : Reachable cfg s) : QuantumAccounting cfg s := by
  have inv := inv_reachable reach
  refine ⟨inv.expiredQuantum, inv.activeQuantum, fun idle k bound empty => ?_,
    fun p queued other => ?_, fun p _ => inv.procQuantum p, fun p running => ?_,
    fun l run => ⟨fun r member kept => ?_, fun p kept => ?_⟩⟩
  · -- with the CPU idle no requeue is pending, so a depleted level is empty
    have pending := inv.idle idle
    rcases inv.depleted k bound (le_of_eq empty) with none | onQueue
    · exact none
    · rw [pending] at onQueue
      cases onQueue
  · exact ⟨inv.queuedQuantum p queued other, (inv.procQuantum p).2⟩
  · obtain ⟨k, bound, queue, inside, -⟩ := inv.cpuQueue p (inv.running p running)
    exact ⟨k, bound, queue, inside (by rw [running]; rfl)⟩
  · have charged := charges_le_of_run reach run (fun a b ticked => ticked.1 r)
      (fun t invT => Inv.levelQuantum_range invT member) kept
    exact_mod_cast charged
  · have charged := charges_le_of_run reach run (fun a b ticked => ticked.2 p)
      (fun t invT => invT.procQuantum p) kept
    exact_mod_cast charged

theorem quantum_accounting_initRunning :
    Reachable rsdl initRunning ∧ QuantumAccounting rsdl initRunning :=
  ⟨reachable_initRunning, quantum_accounting reachable_initRunning⟩

end Rsdl.Safety
