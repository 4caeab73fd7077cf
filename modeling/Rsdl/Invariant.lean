import Rsdl.Step
import Rsdl.DrainProofs

/-! The invariant of the single-CPU kernel, `Inv`. Its fields are the facts about
queue membership, placement and quanta, and what the scheduler needs to keep them: no
single field is preserved by every event on its own. `inv_initial` starts it.

The events that only relabel processes (`wakeup`, `kill`, `sleep`, `yield`, `wait` and
the first half of `exit`) touch neither a queue nor a quantum and move every process
within the queued states or out of them only as a zombie being freed; `Relabel` says
that once, and `Inv.relabel` keeps the invariant across all of them. -/
namespace Rsdl.Invariant
open QueueProofs

variable {cfg : Config} {s s' : Kernel Cpu}

/-- The invariant of every reachable state. -/
structure Inv (cfg : Config) (s : Kernel Cpu) : Prop where
  sets : s.active ≠ s.expired
  nodup : (s.queued cfg).Nodup
  /-- Exactly the `SLEEPING`, `RUNNABLE` and `RUNNING` processes are queued. -/
  member : ∀ p, p ∈ s.queued cfg ↔ (s.proc p).state.queued = true
  defaultRange : ∀ p, 0 ≤ (s.proc p).defaultLevel ∧ (s.proc p).defaultLevel < cfg.levels
  /-- No process is queued above its priority in the active set... -/
  activePlace : ∀ k < cfg.levels, ∀ p ∈ (s.level (s.active, k)).entries,
    (s.proc p).defaultLevel ≤ k
  /-- ...and each waits at its own priority in the expired set. -/
  expiredPlace : ∀ k < cfg.levels, ∀ p ∈ (s.level (s.expired, k)).entries,
    (s.proc p).defaultLevel = k
  expiredQuantum : ∀ k < cfg.levels, (s.level (s.expired, k)).ticksLeft = cfg.levelQuantum
  activeQuantum : ∀ k < cfg.levels,
    0 ≤ (s.level (s.active, k)).ticksLeft ∧ (s.level (s.active, k)).ticksLeft ≤ cfg.levelQuantum
  /-- A depleted active level is empty, unless its process is still to be requeued. -/
  depleted : ∀ k < cfg.levels, (s.level (s.active, k)).ticksLeft ≤ 0 →
    (s.level (s.active, k)).entries = [] ∨ s.cpu.queue = some (s.active, k)
  procQuantum : ∀ p, 0 ≤ (s.proc p).ticksLeft ∧ (s.proc p).ticksLeft ≤ cfg.procQuantum
  queuedQuantum : ∀ p ∈ s.queued cfg, s.cpu.proc ≠ some p → 0 < (s.proc p).ticksLeft
  zombieQuantum : ∀ p, (s.proc p).state = .zombie → 0 < (s.proc p).ticksLeft
  /-- A child that `priofork` has not yet enqueued keeps the quantum `allocproc` gave it. -/
  embryoQuantum : ∀ p, (s.proc p).state = .embryo → (s.proc p).ticksLeft = cfg.procQuantum
  idle : s.cpu.proc = none → s.cpu.queue = none
  /-- The CPU's process came from an active level, where it still is unless it exited. -/
  cpuQueue : ∀ p, s.cpu.proc = some p → ∃ k < cfg.levels, s.cpu.queue = some (s.active, k) ∧
    ((s.proc p).state.queued = true → p ∈ (s.level (s.active, k)).entries) ∧
    (s.proc p).state ≠ .unused ∧ (s.proc p).state ≠ .embryo
  running : ∀ p, (s.proc p).state = .running → s.cpu.proc = some p
  runningQuantum : ∀ p, (s.proc p).state = .running →
    0 < (s.proc p).ticksLeft ∧ ∀ q, s.cpu.queue = some q → 0 < (s.level q).ticksLeft
  boot : s.initproc = none → s.cpu.proc = none ∧ ∀ p, (s.proc p).state = .unused

/-- What the `priofork`s under way keep on their callers' stacks: each names a child slot
of its own that is still an `EMBRYO`, at a level in range, and its caller is alive. Every
`EMBRYO` is such a child. -/
structure ForkSlots (cfg : Config) (s : Kernel Cpu) : Prop where
  embryo : ∀ p f, s.forks p = some f → (s.proc f.np).state = .embryo
  range : ∀ p f, s.forks p = some f → 0 ≤ f.defaultLevel ∧ f.defaultLevel < cfg.levels
  unique : ∀ p q f g, s.forks p = some f → s.forks q = some g → f.np = g.np → p = q
  owner : ∀ p f, s.forks p = some f → (s.proc p).state.queued = true
  owned : ∀ x, (s.proc x).state = .embryo → ∃ p f, s.forks p = some f ∧ f.np = x

@[simp] theorem entries_boot {C : Type} (cpu : C) (r : QueueRef) :
    ((boot cfg cpu).level r).entries = [] := rfl

theorem queued_boot {C : Type} (cpu : C) : (boot cfg cpu).queued cfg = [] := by
  simp [Kernel.queued]

theorem forkSlots_initial (cfg : Config) : ForkSlots cfg (initial cfg) where
  embryo _ _ forking := by cases forking
  range _ _ forking := by cases forking
  unique _ _ _ _ forking := by cases forking
  owner _ _ forking := by cases forking
  owned _ embryo := by cases embryo

theorem inv_initial (cfg : Config) : Inv cfg (initial cfg) where
  sets := by simp [initial, boot]
  nodup := by simp [initial, queued_boot]
  member := fun p => by
    rw [initial, queued_boot]
    simp [boot, Proc.zero, ProcState.queued]
  defaultRange := fun _ => ⟨le_refl _, by simpa [initial, boot, Proc.zero] using cfg.levels_pos⟩
  activePlace := by simp [initial]
  expiredPlace := by simp [initial]
  expiredQuantum := fun _ _ => rfl
  activeQuantum := fun _ _ => ⟨by simp [initial, boot], le_refl _⟩
  depleted := fun _ _ _ => .inl rfl
  procQuantum := fun _ => ⟨le_refl _, by simp [initial, boot, Proc.zero]⟩
  queuedQuantum := by simp [initial, queued_boot]
  zombieQuantum := by simp [initial, boot, Proc.zero]
  embryoQuantum := by simp [initial, boot, Proc.zero]
  idle := fun _ => rfl
  cpuQueue := by simp [initial, boot, Cpu.idle]
  running := by simp [initial, boot, Proc.zero]
  runningQuantum := by simp [initial, boot, Proc.zero]
  boot := fun _ => ⟨rfl, fun _ => rfl⟩

/-- On an idle CPU no process is running. -/
theorem Inv.not_running (inv : Inv cfg s) (idle : s.cpu.proc = none) (p : Slot) :
    (s.proc p).state ≠ .running := fun running => by
  have onCpu := inv.running p running
  rw [idle] at onCpu
  cases onCpu

/-- A CPU runs a process only once `userinit` has run. -/
theorem Inv.started_of_onCpu (inv : Inv cfg s) {p : Slot} (onCpu : s.cpu.proc = some p) :
    s.initproc ≠ none := fun noInit => by
  have idle := (inv.boot noInit).1
  rw [onCpu] at idle
  cases idle

/-- A slot is in use only once `userinit` has run. -/
theorem Inv.started_of_used (inv : Inv cfg s) {p : Slot} (used : (s.proc p).state ≠ .unused) :
    s.initproc ≠ none :=
  fun noInit => used ((inv.boot noInit).2 p)

/-! ### Events that only relabel processes -/

/-- The state changes a relabelling event may make to one process: a wakeup, a process
giving up the CPU, or `wait` freeing a zombie other than the CPU's. -/
def StateMove (cpu : Cpu) (p : Slot) (before after : ProcState) : Prop :=
  after = before ∨ (before = .sleeping ∧ after = .runnable) ∨
    (before = .running ∧ (after = .runnable ∨ after = .sleeping)) ∨
    (before = .zombie ∧ after = .unused ∧ cpu.proc ≠ some p)

theorem StateMove.trans {cpu : Cpu} {p : Slot} {a b c : ProcState} (first : StateMove cpu p a b)
    (second : StateMove cpu p b c) : StateMove cpu p a c := by
  unfold StateMove at *
  rcases first with rfl | ⟨rfl, rfl⟩ | ⟨rfl, rfl | rfl⟩ | ⟨rfl, rfl, other⟩ <;>
    rcases second with rfl | ⟨hb, rfl⟩ | ⟨hb, rfl | rfl⟩ | ⟨hb, rfl, other'⟩ <;>
    simp_all

theorem StateMove.queued {cpu : Cpu} {p : Slot} {a b : ProcState} (move : StateMove cpu p a b) :
    b.queued = a.queued := by
  rcases move with rfl | ⟨rfl, rfl⟩ | ⟨rfl, rfl | rfl⟩ | ⟨rfl, rfl, -⟩ <;> rfl

/-- `s'` is `s` with the processes relabelled: no queue, quantum, level or CPU field
changes, and every process moves as `StateMove` allows. -/
structure Relabel (s s' : Kernel Cpu) : Prop where
  level : s'.level = s.level
  active : s'.active = s.active
  expired : s'.expired = s.expired
  cpu : s'.cpu = s.cpu
  initproc : s'.initproc = s.initproc
  ticks : ∀ p, (s'.proc p).ticksLeft = (s.proc p).ticksLeft
  defaultLevel : ∀ p, (s'.proc p).defaultLevel = (s.proc p).defaultLevel
  states : ∀ p, StateMove s.cpu p (s.proc p).state (s'.proc p).state

theorem Relabel.refl (s : Kernel Cpu) : Relabel s s :=
  ⟨rfl, rfl, rfl, rfl, rfl, fun _ => rfl, fun _ => rfl, fun _ => .inl rfl⟩

theorem Relabel.trans {s₁ s₂ s₃ : Kernel Cpu} (first : Relabel s₁ s₂) (second : Relabel s₂ s₃) :
    Relabel s₁ s₃ :=
  ⟨second.level.trans first.level, second.active.trans first.active,
    second.expired.trans first.expired, second.cpu.trans first.cpu,
    second.initproc.trans first.initproc, fun p => (second.ticks p).trans (first.ticks p),
    fun p => (second.defaultLevel p).trans (first.defaultLevel p),
    fun p => (first.states p).trans (first.cpu ▸ second.states p)⟩

theorem queued_eq_of_level (cfg : Config) {s₁ s₂ : Kernel Cpu} (level : s₂.level = s₁.level) :
    s₂.queued cfg = s₁.queued cfg := by
  simp [Kernel.queued, level]

/-- Relabelling keeps the invariant. -/
theorem Inv.relabel (inv : Inv cfg s) (rel : Relabel s s') : Inv cfg s' := by
  have queued := queued_eq_of_level cfg rel.level
  refine
    { sets := by rw [rel.active, rel.expired]; exact inv.sets
      nodup := queued ▸ inv.nodup
      member := fun p => by rw [queued, inv.member, (rel.states p).queued]
      defaultRange := fun p => rel.defaultLevel p ▸ inv.defaultRange p
      activePlace := fun k bound p inside => by
        rw [rel.level, rel.active] at inside
        exact rel.defaultLevel p ▸ inv.activePlace k bound p inside
      expiredPlace := fun k bound p inside => by
        rw [rel.level, rel.expired] at inside
        exact rel.defaultLevel p ▸ inv.expiredPlace k bound p inside
      expiredQuantum := fun k bound => by
        rw [rel.level, rel.expired]; exact inv.expiredQuantum k bound
      activeQuantum := fun k bound => by
        rw [rel.level, rel.active]; exact inv.activeQuantum k bound
      depleted := fun k bound => by
        rw [rel.level, rel.active, rel.cpu]; exact inv.depleted k bound
      procQuantum := fun p => rel.ticks p ▸ inv.procQuantum p
      queuedQuantum := fun p inside other => by
        rw [queued] at inside
        rw [rel.cpu] at other
        exact rel.ticks p ▸ inv.queuedQuantum p inside other
      zombieQuantum := fun p zombie => ?_
      embryoQuantum := fun p embryo => ?_
      idle := fun none => by rw [rel.cpu] at none ⊢; exact inv.idle none
      cpuQueue := fun p onCpu => ?_
      running := fun p running => ?_
      runningQuantum := fun p running => ?_
      boot := fun none => ?_ }
  · have before : (s.proc p).state = .zombie := by
      rcases rel.states p with same | ⟨-, after⟩ | ⟨-, after | after⟩ | ⟨-, after, -⟩ <;>
        simp_all
    exact rel.ticks p ▸ inv.zombieQuantum p before
  · have before : (s.proc p).state = .embryo := by
      rcases rel.states p with same | ⟨-, after⟩ | ⟨-, after | after⟩ | ⟨-, after, -⟩ <;>
        simp_all
    exact rel.ticks p ▸ inv.embryoQuantum p before
  · rw [rel.cpu] at onCpu
    obtain ⟨k, bound, queue, inside, notUnused, notEmbryo⟩ := inv.cpuQueue p onCpu
    refine ⟨k, bound, by rw [rel.cpu, rel.active]; exact queue, fun queuedNow => ?_, ?_, ?_⟩
    · rw [rel.level, rel.active]
      exact inside (by rwa [← (rel.states p).queued])
    · rcases rel.states p with same | ⟨-, after⟩ | ⟨-, after | after⟩ | ⟨-, -, other⟩ <;>
        simp_all
    · rcases rel.states p with same | ⟨-, after⟩ | ⟨-, after | after⟩ | ⟨-, after, -⟩ <;>
        simp_all
  · have before : (s.proc p).state = .running := by
      rcases rel.states p with same | ⟨-, after⟩ | ⟨-, after | after⟩ | ⟨-, after, -⟩ <;>
        simp_all
    rw [rel.cpu]
    exact inv.running p before
  · have before : (s.proc p).state = .running := by
      rcases rel.states p with same | ⟨-, after⟩ | ⟨-, after | after⟩ | ⟨-, after, -⟩ <;>
        simp_all
    obtain ⟨positive, levels⟩ := inv.runningQuantum p before
    refine ⟨rel.ticks p ▸ positive, fun q queue => ?_⟩
    rw [rel.cpu] at queue
    rw [rel.level]
    exact levels q queue
  · rw [rel.initproc] at none
    obtain ⟨idleCpu, unused⟩ := inv.boot none
    refine ⟨rel.cpu ▸ idleCpu, fun p => ?_⟩
    rcases rel.states p with same | ⟨before, -⟩ | ⟨before, -⟩ | ⟨before, -⟩ <;>
      simp_all

/-! ### What an event does to the quanta -/

/-- Each quantum loses one tick, or ends no lower than it was. -/
def Ticked (s s' : Kernel Cpu) : Prop :=
  (∀ r, (s'.level r).ticksLeft = (s.level r).ticksLeft - 1 ∨
    (s.level r).ticksLeft ≤ (s'.level r).ticksLeft) ∧
  ∀ x, (s'.proc x).ticksLeft = (s.proc x).ticksLeft - 1 ∨
    (s.proc x).ticksLeft ≤ (s'.proc x).ticksLeft

theorem Ticked.of_le {s s' : Kernel Cpu}
    (level : ∀ r, (s.level r).ticksLeft ≤ (s'.level r).ticksLeft)
    (proc : ∀ x, (s.proc x).ticksLeft ≤ (s'.proc x).ticksLeft) : Ticked s s' :=
  ⟨fun r => .inr (level r), fun x => .inr (proc x)⟩

theorem Relabel.ticked (rel : Relabel s s') : Ticked s s' :=
  Ticked.of_le (fun r => by rw [rel.level]) (fun x => by rw [rel.ticks])

theorem Ticked.relabel_left {s₁ : Kernel Cpu} (rel : Relabel s s₁) (ticked : Ticked s₁ s') :
    Ticked s s' :=
  ⟨fun r => by rw [← rel.level]; exact ticked.1 r, fun x => by rw [← rel.ticks]; exact ticked.2 x⟩

end Rsdl.Invariant
