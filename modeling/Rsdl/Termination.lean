import Rsdl.Iteration

/-! The two `while (q->numproc > 0)` loops of `scheduler()` end. From every reachable
state each runs exactly as many iterations as `q` has entries when it starts, each
iteration returns, and so does the loop. An iteration unqueues `q->proc[0]` and enqueues
it, if at all, into a queue other than `q` (`DrainProofs.Targets`), so `q->numproc`
drops by one each time.

In the swap loop `q` is a level of the new expired set with its quantum just refilled,
so it is one `find_available_queue(d, d)` could fall back to. It never does: the level
`d` of the new active set, the old expired set, has quantum by `Inv.expiredQuantum`,
and room because the process being moved is in no queue (`SweptTo.targets`). -/
namespace Rsdl.Termination

open ExceptRun Invariant Preservation Forks QueueProofs DrainProofs RequeueProofs RequeueInv SwapProofs
  Iteration

variable {cfg : Config} {s : Kernel Cpu}

/-- The loop of the requeue after `p`, from `q`, when `q` is depleted (lines 656-672);
it ends whether or not the requeue takes that branch. -/
theorem depleted_drain_runs (inv : Inv cfg s) {p : Slot} {q : QueueRef}
    (back : s.returned = some p) (queue : s.cpu.queue = some q) :
    ∃ t, Runs (drainCond q) (drainBody cfg q (some p) fun _ => q.2 + 1) (s.level q).numproc s t ∧
      drain cfg q (some p) (fun _ => q.2 + 1) (s.level q).numproc s = .ok t := by
  obtain ⟨onCpu, -⟩ := Kernel.returned_eq_some.mp back
  obtain ⟨k, -, queue', -⟩ := inv.cpuQueue p onCpu
  rw [queue, Option.some.injEq] at queue'
  subst queue'
  have pending := Inv.pending inv back queue
  obtain ⟨t, runs, -⟩ := drain_runs (mem_allQueues.mpr pending.level) _ s rfl pending.nodup
    (depletedTargets pending)
  rw [LevelQueue.length_entries] at runs
  refine ⟨t, runs, ?_⟩
  rw [drain_eq_loop]
  exact runs.loop_eq .loops (Nat.le_refl _)

/-- The loop of the set swap's iteration `k` (lines 727-738), after the first `k`
iterations have returned. -/
theorem swap_drain_runs (inv : Inv cfg s) {k : Nat} (bound : k < cfg.levels) :
    ∃ t, (List.range k).foldlM (refillAndDrain cfg)
        { s with active := s.expired, expired := s.active } = .ok t ∧
      ∃ t', Runs (drainCond (t.expired, k)) (drainBody cfg (t.expired, k) none fun pr => pr.defaultLevel)
          ((refilled cfg t k).level (t.expired, k)).numproc (refilled cfg t k) t' ∧
        refillAndDrain cfg t k = .ok t' := by
  have swap := Inv.swappable inv
  obtain ⟨t, ran, swept⟩ := sweptTo_range swap k (by omega)
  obtain ⟨t', runs, -⟩ := swept.iteration_runs swap bound
  refine ⟨t, ran, t', runs, ?_⟩
  rw [refillAndDrain_eq, drain_eq_loop]
  exact runs.loop_eq .loops (Nat.le_refl _)

theorem drain_loops_terminate (reach : Reachable cfg s) :
    (∀ p q, s.returned = some p → s.cpu.queue = some q →
      ∃ t, Runs (drainCond q) (drainBody cfg q (some p) fun _ => q.2 + 1) (s.level q).numproc s t ∧
        drain cfg q (some p) (fun _ => q.2 + 1) (s.level q).numproc s = .ok t) ∧
    ∀ k < cfg.levels, ∃ t, (List.range k).foldlM (refillAndDrain cfg)
        { s with active := s.expired, expired := s.active } = .ok t ∧
      ∃ t', Runs (drainCond (t.expired, k)) (drainBody cfg (t.expired, k) none fun pr => pr.defaultLevel)
          ((refilled cfg t k).level (t.expired, k)).numproc (refilled cfg t k) t' ∧
        refillAndDrain cfg t k = .ok t' := by
  have inv := inv_reachable reach
  exact ⟨fun p q back queue => depleted_drain_runs inv back queue,
    fun k bound => swap_drain_runs inv bound⟩

/-- `initproc` back from a tick that depleted its level, under `oneTick`: the requeue
enters the loop of lines 656-672. -/
theorem drain_loops_terminate_depletedRun :
    Reachable oneTick depletedRun ∧ depletedRun.returned = some 0 ∧
      depletedRun.cpu.queue = some (depletedRun.active, 0) ∧
      (depletedRun.level (depletedRun.active, 0)).ticksLeft ≤ 0 ∧
      ((∀ p q, depletedRun.returned = some p → depletedRun.cpu.queue = some q →
        ∃ t, Runs (drainCond q) (drainBody oneTick q (some p) fun _ => q.2 + 1)
            (depletedRun.level q).numproc depletedRun t ∧
          drain oneTick q (some p) (fun _ => q.2 + 1) (depletedRun.level q).numproc depletedRun = .ok t) ∧
      ∀ k < oneTick.levels, ∃ t, (List.range k).foldlM (refillAndDrain oneTick)
          { depletedRun with active := depletedRun.expired, expired := depletedRun.active } = .ok t ∧
        ∃ t', Runs (drainCond (t.expired, k))
            (drainBody oneTick (t.expired, k) none fun pr => pr.defaultLevel)
            ((refilled oneTick t k).level (t.expired, k)).numproc (refilled oneTick t k) t' ∧
          refillAndDrain oneTick t k = .ok t') := by
  have reach : Reachable oneTick depletedRun := reachable_afterEvents (by decide)
  have back : depletedRun.returned = some 0 := by decide
  have queue : depletedRun.cpu.queue = some (depletedRun.active, 0) := by decide
  have depleted : (depletedRun.level (depletedRun.active, 0)).ticksLeft ≤ 0 := by decide
  exact ⟨reach, back, queue, depleted, drain_loops_terminate reach⟩

end Rsdl.Termination
