import Rsdl.Scheduler
import Mathlib.Logic.Relation

/-! The single-CPU kernel (`CPUS=1`, the `Makefile` default) as a labelled transition
system. An event is one critical section: a process call of the process the CPU runs,
an interrupt's `wakeup`, the timer case of `trap()`, a scheduler pick (with the swap
when nothing is picked), or the requeue after the picked process gave the CPU back.
`priofork` is three events: its section in `allocproc`, its middle outside the lock, and
its second section; a process inside it makes no other call, but may be preempted.

Which of these can happen is read off the state itself. With `c->proc = 0` the CPU is
in `scheduler()`; with `c->proc = p` and `p` `RUNNING` it runs `p`; with `c->proc = p`
and `p` no longer `RUNNING`, `p` has called `sched()` and the scheduler holds
`ptable.lock` until its requeue is done, so nothing else can happen. -/
namespace Rsdl

/-- The timer case of `trap()` (`trap.c` lines 50-58 and 103-117): CPU 0 wakes the
sleepers on `&ticks`; a running process and the level it was picked from are charged one
tick, and the process yields when either has none left. -/
def timer (cpuid : Nat) (s : Kernel Cpu) : Except Fault (Kernel Cpu) :=
  let s := if cpuid = 0 then wakeup s .ticks else s
  match s.cpu.proc with
  | none => .ok s
  | some p =>
    if (s.proc p).state ≠ .running then .ok s
    else match s.cpu.queue with
      | none => .error (.panic "Running process located outside active/expired set.")
      | some q =>
        let s := s.modifyProc p fun pr => { pr with ticksLeft := pr.ticksLeft - 1 }
        let s := s.setLevel q { s.level q with ticksLeft := (s.level q).ticksLeft - 1 }
        if (s.proc p).ticksLeft ≤ 0 ∨ (s.level q).ticksLeft ≤ 0 then .ok (yield s p) else .ok s

/-- One critical section of the kernel. The process calls carry the arguments of their
system calls, and the middle of `priofork` the outcome of the allocations it makes. -/
inductive Event where
  | userinit
  /-- `priofork(default_level)` up to the end of `allocproc`'s locked section. -/
  | priofork (defaultLevel : Int)
  /-- `fork()`, which is `priofork(RSDL_STARTING_LEVEL)`, as far. -/
  | fork
  /-- The middle of a `priofork`, outside `ptable.lock`. -/
  | forkCopy (kallocOk copyuvmOk : Bool)
  /-- The second section of a `priofork`. -/
  | forkEnqueue
  | exit
  | wait
  | sleep (chan : Chan)
  | kill (pid : Int)
  | yield
  | wakeup (chan : Chan)
  | timer
  | scheduler
  | requeue
  deriving DecidableEq, Repr

namespace Kernel

/-- `myproc()` while it runs: the CPU's process, when it is `RUNNING`. -/
def current (s : Kernel Cpu) : Option Slot :=
  s.cpu.proc.filter fun p => (s.proc p).state = .running

/-- The process that has just called `sched()`, whose requeue is pending. -/
def returned (s : Kernel Cpu) : Option Slot :=
  s.cpu.proc.filter fun p => (s.proc p).state ≠ .running

/-- The running process when it makes a system call: it is not inside a `priofork`. -/
def caller (s : Kernel Cpu) : Option Slot := s.current.filter fun p => s.forks p = none

/-- The running process inside a `priofork`, and where that stands, when `np->parent` is
written (`copied`) or not. -/
def forking (s : Kernel Cpu) (copied : Bool) : Option (Slot × Forking) :=
  s.current.bind fun p => (s.forks p).bind fun f => if f.copied = copied then some (p, f) else none

theorem current_eq_some {s : Kernel Cpu} {p : Slot} :
    s.current = some p ↔ s.cpu.proc = some p ∧ (s.proc p).state = .running := by
  simp [current]

theorem caller_eq_some {s : Kernel Cpu} {p : Slot} :
    s.caller = some p ↔ s.current = some p ∧ s.forks p = none := by
  simp [caller]

/-- A system call happens only while a process runs on the CPU, outside any `priofork`. -/
theorem caller_map_eq_some {β : Type} {s : Kernel Cpu} {f : Slot → β} {b : β}
    (ran : s.caller.map f = some b) :
    ∃ p, s.current = some p ∧ (s.proc p).state = .running ∧ s.forks p = none ∧ f p = b := by
  obtain ⟨p, caller, called⟩ := Option.map_eq_some_iff.mp ran
  obtain ⟨current, idle⟩ := caller_eq_some.mp caller
  exact ⟨p, current, (current_eq_some.mp current).2, idle, called⟩

/-- The parts of a `priofork` after its first run only in the process that is inside it. -/
theorem forking_map_eq_some {β : Type} {s : Kernel Cpu} {copied : Bool}
    {g : Slot × Forking → β} {b : β} (ran : (s.forking copied).map g = some b) :
    ∃ p f, s.current = some p ∧ (s.proc p).state = .running ∧ s.forks p = some f ∧
      f.copied = copied ∧ g (p, f) = b := by
  obtain ⟨⟨p, f⟩, found, called⟩ := Option.map_eq_some_iff.mp ran
  obtain ⟨p', current, inside⟩ := Option.bind_eq_some_iff.mp found
  obtain ⟨f', held, stage⟩ := Option.bind_eq_some_iff.mp inside
  split at stage
  · rename_i same
    cases stage
    exact ⟨p, f, current, (current_eq_some.mp current).2, held, same, called⟩
  · cases stage

/-- A step that keeps the CPU and the state of its process keeps that process running. -/
theorem current_of_same {s t : Kernel Cpu} {p : Slot} (current : s.current = some p)
    (cpu : t.cpu = s.cpu) (state : (t.proc p).state = (s.proc p).state) : t.current = some p := by
  obtain ⟨onCpu, running⟩ := current_eq_some.mp current
  exact current_eq_some.mpr ⟨by rw [cpu]; exact onCpu, state.trans running⟩

/-- The running process inside a `priofork` is where the next part of that `priofork` runs. -/
theorem forking_of_current {s : Kernel Cpu} {p : Slot} {f : Forking} (current : s.current = some p)
    (held : s.forks p = some f) : s.forking f.copied = some (p, f) := by
  simp [forking, current, held]

theorem returned_eq_some {s : Kernel Cpu} {p : Slot} :
    s.returned = some p ↔ s.cpu.proc = some p ∧ (s.proc p).state ≠ .running := by
  simp [returned]

end Kernel

/-- The effect of an event on the CPU `cpuid`, or `none` when it cannot happen. -/
def execOn (cfg : Config) (cpuid : Nat) (s : Kernel Cpu) : Event → Option (Except Fault (Kernel Cpu))
  | .userinit => if s.initproc = none then some (userinit cfg s) else none
  | .priofork level => s.caller.map fun p => .ok (prioforkBegin cfg s p level)
  | .fork => s.caller.map fun p => .ok (prioforkBegin cfg s p cfg.startingLevel)
  | .forkCopy kallocOk copyuvmOk =>
    (s.forking false).map fun (p, f) => .ok (prioforkMiddle s p f kallocOk copyuvmOk)
  | .forkEnqueue => (s.forking true).map fun (p, f) => prioforkEnd cfg s p f
  | .exit => s.caller.map (exit cfg s)
  | .wait => s.caller.map fun p => .ok (wait s p).1
  | .sleep chan => s.caller.map fun p => .ok (sleep s p chan)
  | .kill pid => s.caller.map fun _ => .ok (kill s pid).1
  | .yield => s.caller.map fun p => .ok (yield s p)
  | .wakeup chan => if s.returned = none then some (.ok (wakeup s chan)) else none
  | .timer => if s.returned = none then some (timer cpuid s) else none
  | .scheduler => if s.cpu.proc = none ∧ s.initproc ≠ none then some (scheduler cfg s) else none
  | .requeue =>
    match s.returned, s.cpu.queue with
    | some p, some q => some (requeue cfg s p q)
    | _, _ => none

/-- The single-CPU kernel: every event runs on CPU 0. -/
def exec (cfg : Config) (s : Kernel Cpu) (e : Event) : Option (Except Fault (Kernel Cpu)) :=
  execOn cfg 0 s e

section ExecEquations

variable {cfg : Config} {s : Kernel Cpu}

theorem exec_userinit_eq :
    exec cfg s .userinit = if s.initproc = none then some (userinit cfg s) else none := rfl

theorem exec_wakeup_eq (chan : Chan) :
    exec cfg s (.wakeup chan) = if s.returned = none then some (.ok (wakeup s chan)) else none := rfl

theorem exec_timer_eq : exec cfg s .timer = if s.returned = none then some (timer 0 s) else none :=
  rfl

theorem exec_scheduler_eq :
    exec cfg s .scheduler =
      if s.cpu.proc = none ∧ s.initproc ≠ none then some (scheduler cfg s) else none := rfl

theorem exec_requeue_eq :
    exec cfg s .requeue =
      match s.returned, s.cpu.queue with
      | some p, some q => some (requeue cfg s p q)
      | _, _ => none := rfl

end ExecEquations

/-- The kernel after `pinit`, with `cpus[0]` not yet running anything. -/
def initial (cfg : Config) : Kernel Cpu := boot cfg Cpu.idle

/-- One event that returns normally. -/
def Step (cfg : Config) (s s' : Kernel Cpu) : Prop := ∃ e, exec cfg s e = some (.ok s')

/-- The states some run of the kernel reaches from `initial`. -/
def Reachable (cfg : Config) (s : Kernel Cpu) : Prop :=
  Relation.ReflTransGen (Step cfg) (initial cfg) s

/-- The state after the events `es`, one after another from `s`, when each can happen and
returns normally. -/
def runEvents (cfg : Config) : Kernel Cpu → List Event → Option (Kernel Cpu)
  | s, [] => some s
  | s, e :: es =>
    match exec cfg s e with
    | some (.ok s') => runEvents cfg s' es
    | _ => none

/-- The state the events `es` lead to from `initial`, when they all return. -/
def afterEvents (cfg : Config) (es : List Event) : Kernel Cpu :=
  (runEvents cfg (initial cfg) es).getD (initial cfg)

theorem reachable_runEvents {cfg : Config} {s t : Kernel Cpu} {es : List Event}
    (reach : Reachable cfg s) (ran : runEvents cfg s es = some t) : Reachable cfg t := by
  induction es generalizing s with
  | nil =>
    cases ran
    exact reach
  | cons e es ih =>
    unfold runEvents at ran
    split at ran
    · rename_i s' step
      exact ih (reach.tail ⟨e, step⟩) ran
    · cases ran

/-- The events `es`, each returning, are a run from `s`. -/
theorem run_of_runEvents {cfg : Config} {s t : Kernel Cpu} {es : List Event}
    (ran : runEvents cfg s es = some t) : Relation.ReflTransGen (Step cfg) s t := by
  induction es generalizing s with
  | nil =>
    cases ran
    exact .refl
  | cons e es ih =>
    unfold runEvents at ran
    split at ran
    · rename_i s' step
      exact .head ⟨e, step⟩ (ih ran)
    · cases ran

/-- A run of one event is that event returning. -/
theorem exec_of_runEvents {cfg : Config} {s t : Kernel Cpu} {e : Event}
    (ran : runEvents cfg s [e] = some t) : exec cfg s e = some (.ok t) := by
  unfold runEvents at ran
  split at ran
  · rename_i s' step
    cases ran
    exact step
  · cases ran

theorem runEvents_append (cfg : Config) (s : Kernel Cpu) (es fs : List Event) :
    runEvents cfg s (es ++ fs) = (runEvents cfg s es).bind fun t => runEvents cfg t fs := by
  induction es generalizing s with
  | nil => rfl
  | cons e es ih =>
    simp only [List.cons_append, runEvents]
    split
    · exact ih _
    · rfl

/-- A run of `es ++ fs` from `initial` passes through the state after `es`. -/
theorem runEvents_afterEvents {cfg : Config} {es fs : List Event}
    (ran : (runEvents cfg (initial cfg) (es ++ fs)).isSome = true) :
    runEvents cfg (afterEvents cfg es) fs = some (afterEvents cfg (es ++ fs)) := by
  rw [runEvents_append] at ran
  obtain ⟨t, first⟩ := Option.isSome_iff_exists.mp (Option.isSome_of_isSome_bind ran)
  rw [first, Option.bind_some] at ran
  obtain ⟨u, rest⟩ := Option.isSome_iff_exists.mp ran
  rw [afterEvents, afterEvents, runEvents_append, first, Option.getD_some, Option.bind_some, rest,
    Option.getD_some]

theorem reachable_afterEvents {cfg : Config} {es : List Event}
    (ran : (runEvents cfg (initial cfg) es).isSome = true) : Reachable cfg (afterEvents cfg es) := by
  obtain ⟨t, ran⟩ := Option.isSome_iff_exists.mp ran
  rw [afterEvents, ran]
  exact reachable_runEvents Relation.ReflTransGen.refl ran

end Rsdl
