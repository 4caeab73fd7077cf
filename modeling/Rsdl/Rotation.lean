import Rsdl.Staircase
import Mathlib.Algebra.Order.BigOperators.Group.Finset

/-! The length of a rotation. Between two swaps of the sets, the processes together are
charged at most the quanta that the levels of the active set held when the rotation began,
and so at most `RSDL_LEVELS * RSDL_LEVEL_QUANTUM` ticks (`rotation_length`).

Every event within a rotation makes one of two changes to the quanta (`Charge`). Most charge
nobody (`Uncharged`): no level quantum changes, and a process only gains ticks, when
`allocproc` or a requeue gives it a full quantum. The timer charges the running process one
tick and its level of the active set one tick (`trap`, lines 103-117 of `trap.c`). No event
but the swap refills a level, so the quanta of the active set (`activeQuantum`) pay for
every tick, one process at a time (`charge_step`), and `Budget.sum_charges_le` bounds the
charges of all processes by what they held.

A process in the expired set is charged nothing before the swap (`Staircase.rotation_share`);
while it waits there, the others run at most `RSDL_LEVELS * RSDL_LEVEL_QUANTUM` ticks. -/
namespace Rsdl.Rotation

open ExceptRun QueueProofs RequeueProofs Invariant ProcInv Preservation Lifecycle Forks Safety Budget
  Staircase

variable {cfg : Config} {s t t' : Kernel Cpu}

/-- The quanta left in the levels of the active set. -/
def activeQuantum (cfg : Config) (t : Kernel Cpu) : Int :=
  ∑ k ∈ Finset.range cfg.levels, (t.level (t.active, k)).ticksLeft

theorem activeQuantum_nonneg (inv : Inv cfg t) : 0 ≤ activeQuantum cfg t :=
  Finset.sum_nonneg fun k inside => (inv.activeQuantum k (Finset.mem_range.mp inside)).1

theorem activeQuantum_le (inv : Inv cfg t) :
    activeQuantum cfg t ≤ cfg.levels * cfg.levelQuantum := by
  have each : ∀ k ∈ Finset.range cfg.levels,
      (t.level (t.active, k)).ticksLeft ≤ cfg.levelQuantum :=
    fun k inside => (inv.activeQuantum k (Finset.mem_range.mp inside)).2
  have bound := Finset.sum_le_card_nsmul _ _ _ each
  rw [Finset.card_range, Int.nsmul_eq_mul] at bound
  exact bound

/-! ### Changes that charge nobody -/

/-- No level quantum changes, and no process loses ticks. -/
structure Uncharged (t t' : Kernel Cpu) : Prop where
  quanta : ∀ r, (t'.level r).ticksLeft = (t.level r).ticksLeft
  procs : ∀ x, (t.proc x).ticksLeft ≤ (t'.proc x).ticksLeft

theorem Uncharged.refl (t : Kernel Cpu) : Uncharged t t := ⟨fun _ => rfl, fun _ => le_refl _⟩

theorem Uncharged.trans {u : Kernel Cpu} (first : Uncharged t u) (second : Uncharged u t') :
    Uncharged t t' :=
  ⟨fun r => (second.quanta r).trans (first.quanta r), fun x => (first.procs x).trans (second.procs x)⟩

theorem Uncharged.of_relabel (rel : Relabel t t') : Uncharged t t' :=
  ⟨fun r => by rw [rel.level], fun x => (rel.ticks x).ge⟩

theorem uncharged_modifyProc (t : Kernel Cpu) (x : Slot) {f : Proc → Proc}
    (ticks : (f (t.proc x)).ticksLeft = (t.proc x).ticksLeft) : Uncharged t (t.modifyProc x f) := by
  refine ⟨fun _ => rfl, fun y => ?_⟩
  by_cases same : y = x
  · subst y
    simp [ticks]
  · simp [same]

theorem enqueue_uncharged {p : Slot} {r : QueueRef} (ran : t.enqueue p r = .ok t') :
    Uncharged t t' := by
  obtain ⟨-, rfl⟩ := enqueue_eq_ok ran
  exact ⟨(sameQuanta_setLevel t r (LevelQueue.push_ticksLeft _ p)).2.2, fun _ => le_refl _⟩

/-- `allocproc` gives the slot it takes a full quantum, which is at least what it held. -/
theorem uncharged_taken (inv : Inv cfg t) (c : Slot) : Uncharged t (taken cfg t c) := by
  refine ⟨fun _ => rfl, fun y => ?_⟩
  by_cases same : y = c
  · subst y
    simpa [taken] using (inv.procQuantum c).2
  · simp [taken, same]

/-- Dropping or writing the record of a `priofork` charges nobody. -/
theorem Uncharged.setFork {u : Kernel Cpu} (uncharged : Uncharged t u) (x : Slot) (f : Option Forking) :
    Uncharged t (u.setFork x f) :=
  ⟨uncharged.quanta, uncharged.procs⟩

theorem userinit_uncharged (inv : Inv cfg t) (ran : userinit cfg t = .ok t') : Uncharged t t' := by
  unfold userinit at ran
  split at ran
  · cases ran
  · rename_i s₁ c alloc
    obtain ⟨-, rfl⟩ := allocproc_true_some alloc
    obtain ⟨q, -, enqueued⟩ := bind_eq_ok ran
    have started : Uncharged (taken cfg t c) ({ taken cfg t c with initproc := some c }.modifyProc c
        fun pr => { pr with state := .runnable }) := by
      refine ⟨fun _ => rfl, fun y => ?_⟩
      by_cases same : y = c <;> simp [same]
    exact (uncharged_taken inv c).trans (started.trans (enqueue_uncharged enqueued))

/-- The first section of `priofork` gives the slot it takes a full quantum. -/
theorem prioforkBegin_uncharged (inv : Inv cfg t) (x : Slot) (level : Int) :
    Uncharged t (prioforkBegin cfg t x level) := by
  unfold prioforkBegin
  split
  · exact .refl t
  split
  · exact .refl t
  split
  · rename_i s₁ alloc
    rw [(allocprocLocked_none alloc).1]
    exact .refl t
  · rename_i s₁ c alloc
    obtain ⟨-, rfl⟩ := allocprocLocked_some alloc
    exact (uncharged_taken inv c).setFork x _

theorem prioforkMiddle_uncharged (x : Slot) (f : Forking) (kallocOk copyuvmOk : Bool) :
    Uncharged t (prioforkMiddle t x f kallocOk copyuvmOk) := by
  unfold prioforkMiddle prioforkCopy
  split <;> rename_i copied <;> split at copied <;> cases copied <;>
    exact (uncharged_modifyProc t f.np rfl).setFork x _

theorem prioforkEnd_uncharged {x : Slot} {f : Forking} (ran : prioforkEnd cfg t x f = .ok t') :
    Uncharged t t' := by
  obtain ⟨s₁, enqueued, rfl⟩ := map_eq_ok ran
  unfold prioforkEnqueue at enqueued
  obtain ⟨q, -, enqueued⟩ := bind_eq_ok enqueued
  exact ((uncharged_modifyProc t f.np rfl).trans (enqueue_uncharged enqueued)).setFork x none

theorem exit_uncharged (inv : Inv cfg t) {x : Slot} (running : (t.proc x).state = .running)
    (ran : exit cfg t x = .ok t') : Uncharged t t' := by
  obtain ⟨u, r, -, rel, -, rfl⟩ := exit_cases inv running ran
  exact (Uncharged.of_relabel rel).trans ⟨afterExit_ticks, fun y => (afterExit_proc_ticks y).ge⟩

theorem dispatch_uncharged (k : Nat) (p : Slot) : Uncharged t (dispatch t k p) :=
  ⟨fun _ => rfl, fun y => (dispatch_ticks t k p y).ge⟩

/-- The requeue keeps every level quantum and refills the quanta of the processes it moves
down. -/
theorem requeue_uncharged (inv : Inv cfg t) {p : Slot} (back : t.returned = some p)
    {q : QueueRef} (queue : t.cpu.queue = some q) (ran : requeue cfg t p q = .ok t') :
    Uncharged t t' := by
  obtain ⟨k, u, -, req | req, rfl⟩ := requeue_cases inv back queue ran
  -- both requeues keep the level quanta, and give a process a full quantum or leave it
  all_goals
    refine ⟨req.quanta.2.2, fun x => ?_⟩
    show _ ≤ (u.proc x).ticksLeft
    rw [req.proc x]
    split
    · exact (inv.procQuantum x).2
    · exact le_refl _

/-! ### One event -/

/-- What one event within a rotation does to the quanta: it charges nobody, or the timer
charges one tick to the running `p` and one to its level `active[k]`. -/
inductive Charge (cfg : Config) (t t' : Kernel Cpu) : Prop
  | nobody (uncharged : Uncharged t t')
  | one {p : Slot} {k : Nat} (bound : k < cfg.levels)
      (quanta : ∀ r, (t'.level r).ticksLeft =
        if r = (t.active, k) then (t.level (t.active, k)).ticksLeft - 1 else (t.level r).ticksLeft)
      (charged : (t'.proc p).ticksLeft = (t.proc p).ticksLeft - 1)
      (others : ∀ y, y ≠ p → (t'.proc y).ticksLeft = (t.proc y).ticksLeft)

theorem timer_charge (inv : Inv cfg t) {cpuid : Nat} (ran : timer cpuid t = .ok t') :
    Charge cfg t t' := by
  obtain ⟨u, -, woken, rfl | ⟨p, k, -, -, bound, charged⟩⟩ := timer_cases inv ran
  · exact .nobody (.of_relabel woken)
  · refine .one (p := p) bound (fun r => ?_) ?_ fun y other => ?_
    · rw [charged.ticks, woken.level, woken.active]
    · rw [charged.procTicks, woken.ticks]
    · rw [charged.others y other, woken.ticks]

theorem exec_charge (inv : Inv cfg t) {e : Event} (ran : exec cfg t e = some (.ok t'))
    (same : t'.active = t.active) : Charge cfg t t' :=
  exec_within inv ran same (fun rel => .nobody (.of_relabel rel))
    (fun _ initialized => .nobody (userinit_uncharged inv initialized))
    (fun x level _ _ begun => begun ▸ .nobody (prioforkBegin_uncharged inv x level))
    (fun x f kallocOk copyuvmOk _ _ copied =>
      copied ▸ .nobody (prioforkMiddle_uncharged x f kallocOk copyuvmOk))
    (fun _ _ _ _ enqueued => .nobody (prioforkEnd_uncharged enqueued))
    (fun _ running exited => .nobody (exit_uncharged inv running exited)) (timer_charge inv)
    (fun k p picked => picked ▸ .nobody (dispatch_uncharged k p))
    (fun _ _ back queue requeued => .nobody (requeue_uncharged inv back queue requeued))

/-- Within a rotation an event lowers the quanta of the active set by at least the number of
processes it charges. -/
theorem charge_step (charge : Charge cfg t t') (same : t'.active = t.active) :
    activeQuantum cfg t' + ((Finset.univ.filter fun x => procTicks x t' < procTicks x t).card : Int) ≤
      activeQuantum cfg t := by
  cases charge with
  | nobody uncharged =>
    have nobody : (Finset.univ.filter fun x => procTicks x t' < procTicks x t) = ∅ :=
      Finset.filter_false_of_mem fun x _ => not_lt.mpr (uncharged.procs x)
    have kept : activeQuantum cfg t' = activeQuantum cfg t := by
      unfold activeQuantum
      rw [same]
      exact Finset.sum_congr rfl fun k _ => uncharged.quanta _
    rw [nobody, Finset.card_empty, kept]
    omega
  | @one p k bound quanta charged others =>
    -- only `p` is charged, and `active[k]` pays for it
    have onlyP : (Finset.univ.filter fun x => procTicks x t' < procTicks x t) ⊆ {p} := by
      intro x inside
      rw [Finset.mem_singleton]
      by_contra other
      have lower := (Finset.mem_filter.mp inside).2
      unfold procTicks at lower
      rw [others x other] at lower
      exact lt_irrefl _ lower
    have each : ∀ j ∈ Finset.range cfg.levels, (t'.level (t.active, j)).ticksLeft =
        (t.level (t.active, j)).ticksLeft - if k = j then 1 else 0 := fun j _ => by
      rw [quanta]
      by_cases here : k = j
      · subst here
        simp
      · simp [here, Ne.symm here]
    have paid : activeQuantum cfg t' = activeQuantum cfg t - 1 := by
      unfold activeQuantum
      rw [same, Finset.sum_congr rfl each, Finset.sum_sub_distrib, Finset.sum_ite_eq,
        if_pos (Finset.mem_range.mpr bound)]
    have card := Finset.card_le_card onlyP
    rw [Finset.card_singleton] at card
    omega

/-! ### A rotation -/

/-- A step that leaves the sets where they are. -/
def WithinRotation (cfg : Config) (t t' : Kernel Cpu) : Prop :=
  Step cfg t t' ∧ t'.active = t.active

/-- The length of a rotation: between two swaps of the sets, all processes together are
charged at most the quanta left in the levels of the active set when the rotation began,
which is at most `RSDL_LEVELS * RSDL_LEVEL_QUANTUM` ticks. -/
theorem rotation_length (reach : Reachable cfg s) {l : List (Kernel Cpu)}
    (run : (s :: l).IsChain (WithinRotation cfg)) :
    ((∑ x : Slot, charges (procTicks x) (s :: l) : Nat) : Int) ≤ activeQuantum cfg s ∧
      activeQuantum cfg s ≤ cfg.levels * cfg.levelQuantum := by
  have reached := reachable_of_mem_run reach (run.imp fun _ _ step => step.1)
  -- the quanta of the active set are the potential that pays for every charge
  have paid : (s :: l).IsChain fun b c => activeQuantum cfg c +
      ((Finset.univ.filter fun x => procTicks x c < procTicks x b).card : Int) ≤
        activeQuantum cfg b :=
    run.imp_of_mem_imp fun b c inB _ step => by
      obtain ⟨⟨e, ran⟩, same⟩ := step
      exact charge_step (exec_charge (inv_reachable (reached b inB)) ran same) same
  exact ⟨sum_charges_le Finset.univ paid fun t inside =>
      activeQuantum_nonneg (inv_reachable (reached t inside)),
    activeQuantum_le (inv_reachable reach)⟩

/-- The rotation of `Staircase.descended` charges its one tick within the two level quanta. -/
theorem rotation_length_descended :
    Reachable Iteration.oneTick (afterEvents Iteration.oneTick [.userinit]) ∧
      [afterEvents Iteration.oneTick [.userinit],
        afterEvents Iteration.oneTick [.userinit, .scheduler],
        afterEvents Iteration.oneTick [.userinit, .scheduler, .timer], descended].IsChain
          (WithinRotation Iteration.oneTick) ∧
      (((∑ x : Slot, charges (procTicks x) [afterEvents Iteration.oneTick [.userinit],
          afterEvents Iteration.oneTick [.userinit, .scheduler],
          afterEvents Iteration.oneTick [.userinit, .scheduler, .timer], descended] : Nat) : Int) ≤
        activeQuantum Iteration.oneTick (afterEvents Iteration.oneTick [.userinit]) ∧
        activeQuantum Iteration.oneTick (afterEvents Iteration.oneTick [.userinit]) ≤
          Iteration.oneTick.levels * Iteration.oneTick.levelQuantum) := by
  have reach : Reachable Iteration.oneTick (afterEvents Iteration.oneTick [.userinit]) :=
    reachable_afterEvents (by decide)
  obtain ⟨picked, ticked, requeued⟩ := descended_steps
  have run : [afterEvents Iteration.oneTick [.userinit],
      afterEvents Iteration.oneTick [.userinit, .scheduler],
      afterEvents Iteration.oneTick [.userinit, .scheduler, .timer], descended].IsChain
        (WithinRotation Iteration.oneTick) :=
    .cons_cons ⟨picked.1, picked.2.1⟩ (.cons_cons ⟨ticked.1, ticked.2.1⟩
      (.cons_cons ⟨requeued.1, requeued.2.1⟩ (.singleton _)))
  exact ⟨reach, run, rotation_length reach run⟩

end Rsdl.Rotation
