import Rsdl.Pids
import Rsdl.ProcTree

/-! The contracts of the process calls that end, reap and signal processes, from the
states the kernel reaches.

`exit` by any process but `initproc` returns normally, since `remove_proc_from_levels`
only tries to unqueue: its caller is then a zombie in no level queue, with its children
passed to `initproc` and its parent awake (`exit_contract`). `wait` returns `-1` and
changes nothing, or the positive pid of a zombie child it frees, which then is in no
queue and whose pid nobody holds; when it sleeps instead, its caller has a live child to
wake it (`wait_contract`). `kill(pid)` for a positive pid marks the one process with
that pid (`kill_unique_target`). For `pid ≤ 0` it marks no process, though for 0 it
finds the first free slot whose pid `wait` or boot left at 0, marks that slot killed
and returns 0 (`kill_nonpositive_spares_processes`). No call clears `killed` when it
puts a process into a free slot (`born_keeps_killed`), so after `kill(0)` the next
process forked into that slot starts out killed.

The pids are those of runs on which `nextpid` does not wrap (`NoWrapReachable`): past
`INT_MAX`, `allocproc` hands out negative pids and, in the end, 0 and the pids of live
processes again. -/
namespace Rsdl.ProcCalls

open Relation ExceptRun QueueProofs Invariant Lifecycle Pids Preservation ProcInv Forks ProcTree

variable {cfg : Config} {s s' : Kernel Cpu}

/-! ### `exit` -/

/-- `exit` returns normally unless its caller is `initproc`. -/
theorem exit_ok (cfg : Config) {x : Slot} (notInit : s.initproc ≠ some x) :
    ∃ s', exit cfg s x = .ok s' := by
  obtain ⟨⟨s₃, i⟩, removed⟩ := removeProcFrom_ok x (allQueues cfg)
    (reparent (wakeup1 s ((s.proc x).parent.map .proc)) x)
  refine ⟨s₃.modifyProc x fun pr => { pr with state := .zombie }, ?_⟩
  unfold exit
  rw [if_neg notInit]
  simp only [removeProcFromLevels, removed, ok_bind, pure_eq_ok]

/-- From a reachable state, `exit` by the calling process `c`, if `c` is not `initproc`,
returns normally: `c` is a zombie in no level queue, its children are `initproc`'s, and
nobody sleeps on its parent, nor on `initproc` if it was handed a zombie. -/
theorem exit_contract (reach : Reachable cfg s) {c : Slot} (caller : s.caller = some c)
    (notInit : s.initproc ≠ some c) :
    ∃ s', exec cfg s .exit = some (.ok s') ∧ Exited s s' c ∧ c ∉ s'.queued cfg := by
  obtain ⟨current, idle⟩ := Kernel.caller_eq_some.mp caller
  obtain ⟨-, running⟩ := Kernel.current_eq_some.mp current
  obtain ⟨s', ran⟩ := exit_ok cfg notInit
  have exec_eq : exec cfg s .exit = some (.ok s') := by
    show s.caller.map (exit cfg s) = _
    rw [caller, Option.map_some, ran]
  have exited := exit_exited running idle ran
  -- the invariant of the state after places exactly the queued states in the queues
  have inv' := inv_step (inv_reachable reach) (forkSlots_reachable reach) ⟨.exit, exec_eq⟩
  refine ⟨s', exec_eq, exited, fun queued => ?_⟩
  have live := (inv'.member c).mp queued
  rw [exited.zombie] at live
  cases live

/-- `initproc` sleeps in `wait` for its child, which runs and has a zombie child of its own. -/
def parentWaiting : Kernel Cpu :=
  afterEvents rsdl [.userinit, .scheduler, .fork, .forkCopy true true, .forkEnqueue, .wait,
    .requeue, .scheduler, .fork, .forkCopy true true, .forkEnqueue, .yield, .requeue, .scheduler,
    .exit, .requeue, .scheduler]

theorem exit_contract_parentWaiting :
    Reachable rsdl parentWaiting ∧ parentWaiting.caller = some 1 ∧ parentWaiting.initproc ≠ some 1 ∧
      (parentWaiting.proc 2).parent = some 1 ∧ (parentWaiting.proc 2).state = .zombie ∧
      (parentWaiting.proc 0).state = .sleeping ∧ (parentWaiting.proc 0).chan = some (.proc 0) ∧
      ∃ s', exec rsdl parentWaiting .exit = some (.ok s') ∧ Exited parentWaiting s' 1 ∧
        1 ∉ s'.queued rsdl := by
  have reach : Reachable rsdl parentWaiting := reachable_afterEvents (by decide +kernel)
  have caller : parentWaiting.caller = some 1 := by decide +kernel
  have notInit : parentWaiting.initproc ≠ some 1 := by decide +kernel
  have grandchild : (parentWaiting.proc 2).parent = some 1 ∧ (parentWaiting.proc 2).state = .zombie :=
    by decide +kernel
  have waiting : (parentWaiting.proc 0).state = .sleeping ∧ (parentWaiting.proc 0).chan = some (.proc 0) :=
    by decide +kernel
  exact ⟨reach, caller, notInit, grandchild.1, grandchild.2, waiting.1, waiting.2,
    exit_contract reach caller notInit⟩

/-! ### `wait` -/

/-- The ways one pass of `wait`'s loop by `x` ends: `-1` with no zombie child, the first
zombie child freed and its pid returned, or `x` asleep on itself with children, none of
them a zombie. -/
theorem wait_cases (s : Kernel Cpu) (x : Slot) :
    wait s x = (s, some (-1)) ∨
      (∃ z, (s.proc z).parent = some x ∧ (s.proc z).state = .zombie ∧
        wait s x = (s.modifyProc z fun pr =>
          { pr with pid := 0, parent := none, killed := false, state := .unused },
          some (s.proc z).pid)) ∨
      (wait s x = (sleep s x (.proc x), none) ∧ (∃ y, (s.proc y).parent = some x) ∧
        ∀ y, (s.proc y).parent = some x → (s.proc y).state ≠ .zombie) := by
  cases found : (List.finRange NPROC).find? (fun p =>
      decide ((s.proc p).parent = some x ∧ (s.proc p).state = .zombie)) with
  | some z =>
    have hit := List.find?_some found
    simp only [decide_eq_true_eq] at hit
    refine .inr (.inl ⟨z, hit.1, hit.2, ?_⟩)
    unfold wait
    rw [found]
  | none =>
    by_cases done : ((List.finRange NPROC).all fun p => (s.proc p).parent ≠ some x) = true ∨
        (s.proc x).killed = true
    · refine .inl ?_
      unfold wait
      rw [found]
      exact if_pos done
    · refine .inr (.inr ⟨?_, ?_, fun y child zombie => ?_⟩)
      · unfold wait
        rw [found]
        exact if_neg done
      · simpa [List.all_eq_true] using (not_or.mp done).1
      · have missed := List.find?_eq_none.mp found y (List.mem_finRange y)
        simp [child, zombie] at missed

/-- A child of a process that is inside no `priofork` is neither free nor being created:
unless it is a zombie, it is alive. -/
theorem child_queued (fam : Family s) (forks : ForkSlots cfg s) {x y : Slot}
    (idle : s.forks x = none) (child : (s.proc y).parent = some x)
    (alive : (s.proc y).state ≠ .zombie) : (s.proc y).state.queued = true := by
  have used : (s.proc y).state ≠ .unused := fun free => by
    rw [fam.freeOrphan y free] at child
    cases child
  have born : (s.proc y).state ≠ .embryo := fun embryo => by
    -- an `EMBRYO` with a parent has the caller of its `priofork` as that parent
    obtain ⟨p, f, held, rfl⟩ := forks.owned y embryo
    have linked := fam.forkParent p f held
    rw [child] at linked
    split at linked
    · cases linked
      rw [idle] at held
      cases held
    · cases linked
  cases state : (s.proc y).state <;> simp_all [ProcState.queued]

/-- From a state reached without `nextpid` wrapping, one pass of `wait` by the calling `x`
returns `-1` and changes nothing, or returns the positive pid of a zombie child that it
frees, which then is in no level queue and whose pid no slot holds any more. When `wait`
sleeps instead, `x` has a child that is alive, whose `exit` will wake it. -/
theorem wait_contract (reach : NoWrapReachable cfg s) {x : Slot} (caller : s.caller = some x) :
    (∀ pid, (wait s x).2 = some pid →
      (pid = -1 ∧ (wait s x).1 = s) ∨
      (0 < pid ∧ ∃ z, (s.proc z).pid = pid ∧ (s.proc z).parent = some x ∧
        (s.proc z).state = .zombie ∧ ((wait s x).1.proc z).state = .unused ∧
        z ∉ (wait s x).1.queued cfg ∧ ∀ y, ((wait s x).1.proc y).pid ≠ pid)) ∧
    ((wait s x).2 = none → ∃ y, (s.proc y).parent = some x ∧ (s.proc y).state.queued = true) := by
  have pids := pids_reachable reach
  have reach' := NoWrapReachable.reachable reach
  have idle := (Kernel.caller_eq_some.mp caller).2
  rcases wait_cases s x with ran | ⟨z, child, zombie, ran⟩ | ⟨ran, ⟨y, child⟩, noZombie⟩
  · rw [ran]
    refine ⟨fun pid returned => .inl ⟨(Option.some.inj returned).symm, rfl⟩, fun none => ?_⟩
    cases none
  · rw [ran]
    have positive := pids.live z (by rw [zombie]; decide)
    refine ⟨fun pid returned => .inr ?_, fun none => ?_⟩
    · cases returned
      refine ⟨positive, z, rfl, child, zombie, by simp, fun queued => ?_, fun y same => ?_⟩
      · -- the queues are those of `s`, where a zombie is not
        have member := ((inv_reachable reach').member z).mp (by simpa [Kernel.queued] using queued)
        rw [zombie] at member
        cases member
      · by_cases here : y = z
        · subst y
          simp at same
          omega
        · simp only [Kernel.modifyProc_proc, here, ↓reduceIte] at same
          exact here (pids.unique y z same (by omega))
    · cases none
  · rw [ran]
    refine ⟨fun pid returned => ?_, fun _ => ⟨y, child, ?_⟩⟩
    · cases returned
    · exact child_queued (family_reachable reach') (forkSlots_reachable reach') idle child
        (noZombie y child)

/-- `initproc` runs, and its child has exited. -/
def childZombie : Kernel Cpu :=
  afterEvents rsdl [.userinit, .scheduler, .fork, .forkCopy true true, .forkEnqueue, .yield,
    .requeue, .scheduler, .exit, .requeue, .scheduler]

theorem wait_contract_childZombie :
    NoWrapReachable rsdl childZombie ∧ childZombie.caller = some 0 ∧
      (wait childZombie 0).2 = some 2 ∧
      (∀ pid, (wait childZombie 0).2 = some pid →
        (pid = -1 ∧ (wait childZombie 0).1 = childZombie) ∨
        (0 < pid ∧ ∃ z, (childZombie.proc z).pid = pid ∧ (childZombie.proc z).parent = some 0 ∧
          (childZombie.proc z).state = .zombie ∧ ((wait childZombie 0).1.proc z).state = .unused ∧
          z ∉ (wait childZombie 0).1.queued rsdl ∧ ∀ y, ((wait childZombie 0).1.proc y).pid ≠ pid)) ∧
      ((wait childZombie 0).2 = none →
        ∃ y, (childZombie.proc y).parent = some 0 ∧ (childZombie.proc y).state.queued = true) := by
  have reach : NoWrapReachable rsdl childZombie := noWrapReachable_afterEvents (by decide +kernel) (by decide)
  have caller : childZombie.caller = some 0 := by decide +kernel
  have returned : (wait childZombie 0).2 = some 2 := by decide +kernel
  exact ⟨reach, caller, returned, wait_contract reach caller⟩

/-! ### `kill` -/

/-- From a state reached without `nextpid` wrapping, `kill(pid)` for a positive pid held by
`x` marks `x` killed, wakes it if it sleeps, and returns 0: no other slot holds that pid. -/
theorem kill_unique_target (reach : NoWrapReachable cfg s) {pid : Int} (positive : 0 < pid)
    {x : Slot} (holds : (s.proc x).pid = pid) :
    kill s pid = (s.modifyProc x fun pr =>
      { pr with killed := true, state := if pr.state = .sleeping then .runnable else pr.state }, 0) := by
  have pids := pids_reachable reach
  -- `kill`'s loop stops at the first slot with the pid, and that is `x`
  have found : (List.finRange NPROC).find? (fun p => decide ((s.proc p).pid = pid)) = some x := by
    cases hit : (List.finRange NPROC).find? (fun p => decide ((s.proc p).pid = pid)) with
    | none =>
      have missed := List.find?_eq_none.mp hit x (List.mem_finRange x)
      simp [holds] at missed
    | some y =>
      have atY : (s.proc y).pid = pid := by simpa using (Search.find?_finRange_eq_some hit).1
      rw [pids.unique y x (atY.trans holds.symm) (by omega)]
  unfold kill
  rw [found]

theorem kill_unique_target_childForked :
    NoWrapReachable rsdl childForked ∧ (0 : Int) < 2 ∧ (childForked.proc 1).pid = 2 ∧
      kill childForked 2 = (childForked.modifyProc 1 fun pr =>
        { pr with killed := true,
                  state := if pr.state = .sleeping then .runnable else pr.state }, 0) := by
  have reach : NoWrapReachable rsdl childForked := noWrapReachable_afterEvents (by decide +kernel) (by decide)
  have holds : (childForked.proc 1).pid = 2 := by decide +kernel
  exact ⟨reach, by decide, holds, kill_unique_target reach (by decide) holds⟩

/-- From a state reached without `nextpid` wrapping, `kill(pid)` for `pid ≤ 0` leaves every
process as it was. It returns 0 only when it has marked one free slot that holds `pid`,
as a slot freed by `wait` holds 0, and changed nothing else; otherwise it changes nothing. -/
theorem kill_nonpositive_spares_processes (reach : NoWrapReachable cfg s) {pid : Int}
    (nonpos : pid ≤ 0) :
    (∀ x, (s.proc x).state ≠ .unused → (kill s pid).1.proc x = s.proc x) ∧
      ((kill s pid).2 = 0 → ∃ z, (s.proc z).state = .unused ∧ (s.proc z).pid = pid ∧
        ((kill s pid).1.proc z).killed = true ∧ ∀ x, x ≠ z → (kill s pid).1.proc x = s.proc x) ∧
      ((kill s pid).2 ≠ 0 → (kill s pid).1 = s) := by
  have pids := pids_reachable reach
  unfold kill
  split
  · exact ⟨fun _ _ => rfl, fun minus => absurd minus (by simp), fun _ => rfl⟩
  · rename_i z found
    have atZ : (s.proc z).pid = pid := by simpa using (Search.find?_finRange_eq_some found).1
    -- `z` has no positive pid, so it is free
    have free : (s.proc z).state = .unused := by
      by_contra alive
      have := pids.live z alive
      omega
    refine ⟨fun x used => ?_, fun _ => ⟨z, free, atZ, by simp, fun x other => by simp [other]⟩,
      fun nonzero => absurd rfl nonzero⟩
    have other : x ≠ z := fun same => used (same ▸ free)
    simp [other]

/-- `initproc` has freed its exited child's slot 1, whose pid `wait` set to 0. -/
def childReaped : Kernel Cpu :=
  afterEvents rsdl [.userinit, .scheduler, .fork, .forkCopy true true, .forkEnqueue, .yield,
    .requeue, .scheduler, .exit, .requeue, .scheduler, .wait]

theorem kill_zero_childReaped :
    NoWrapReachable rsdl childReaped ∧ (0 : Int) ≤ 0 ∧ (childReaped.proc 1).state = .unused ∧
      (kill childReaped 0).2 = 0 ∧ ((kill childReaped 0).1.proc 1).killed = true ∧
      ((∀ x, (childReaped.proc x).state ≠ .unused → (kill childReaped 0).1.proc x = childReaped.proc x) ∧
        ((kill childReaped 0).2 = 0 → ∃ z, (childReaped.proc z).state = .unused ∧
          (childReaped.proc z).pid = 0 ∧ ((kill childReaped 0).1.proc z).killed = true ∧
          ∀ x, x ≠ z → (kill childReaped 0).1.proc x = childReaped.proc x) ∧
        ((kill childReaped 0).2 ≠ 0 → (kill childReaped 0).1 = childReaped)) := by
  have reach : NoWrapReachable rsdl childReaped := noWrapReachable_afterEvents (by decide +kernel) (by decide)
  have free : (childReaped.proc 1).state = .unused := by decide +kernel
  have returned : (kill childReaped 0).2 = 0 := by decide +kernel
  have marked : ((kill childReaped 0).1.proc 1).killed = true := by decide +kernel
  exact ⟨reach, le_refl 0, free, returned, marked, kill_nonpositive_spares_processes reach (le_refl 0)⟩

/-! ### A new process keeps its slot's `killed` flag -/

/-- `allocproc` writes no `killed` flag. -/
theorem Taken.killed_eq {c : Slot} (taken : Taken s s' c) (y : Slot) :
    (s'.proc y).killed = (s.proc y).killed := by
  by_cases same : y = c
  · subst y
    exact taken.killed
  · rw [taken.others y same]

/-- No event clears `killed` when it puts a process into a free slot: `allocproc`, `fork`
and `userinit` leave the flag as the slot had it. -/
theorem born_keeps_killed {e : Event} (ran : exec cfg s e = some (.ok s')) {c : Slot}
    (fresh : (s.proc c).state = .unused) (born : (s'.proc c).state ≠ .unused) :
    (s'.proc c).killed = (s.proc c).killed := by
  cases exec_life ran with
  | quiet quiet => exact absurd ((quiet.toSteady.unused_iff c).mpr fresh) born
  | slept running => exact absurd (((steady_sleep running _).unused_iff c).mpr fresh) born
  | waited running _ => exact absurd (((steady_sleep running _).unused_iff c).mpr fresh) born
  | started started => exact Taken.killed_eq started.toTaken c
  | began began => exact Taken.killed_eq began.toTaken c
  -- the later parts of a `priofork` write only the child's parent, state and level
  | copied forked _ => exact forked.field_eq Proc.killed (fun _ => rfl) c
  | undone forked _ => exact forked.field_eq Proc.killed (fun _ => rfl) c
  | released forked _ => exact forked.field_eq Proc.killed (fun _ => rfl) c
  | reaped reaped =>
    -- `wait` frees a zombie, which `c` is not
    rw [reaped.others c (Kernel.ne_of_state_ne reaped.zombie fresh (by decide))]
  | exited exited => exact absurd ((exited.unused_iff c).mpr fresh) born

/-- `kill(0)` right after boot has marked the free slot 1. -/
def killedFree : Kernel Cpu := afterEvents rsdl [.userinit, .scheduler, .kill 0]

/-- ... and `initproc` forks into it. -/
def bornKilled : Kernel Cpu := afterEvents rsdl [.userinit, .scheduler, .kill 0, .fork]

theorem born_keeps_killed_killedFree :
    exec rsdl killedFree .fork = some (.ok bornKilled) ∧
      (killedFree.proc 1).state = .unused ∧ (bornKilled.proc 1).state = .embryo ∧
      (bornKilled.proc 1).killed = (killedFree.proc 1).killed ∧ (killedFree.proc 1).killed = true := by
  have ran : exec rsdl killedFree .fork = some (.ok bornKilled) := rfl
  have fresh : (killedFree.proc 1).state = .unused := by decide +kernel
  have born : (bornKilled.proc 1).state = .embryo := by decide +kernel
  have marked : (killedFree.proc 1).killed = true := by decide +kernel
  exact ⟨ran, fresh, born, born_keeps_killed ran fresh (by rw [born]; decide), marked⟩

end Rsdl.ProcCalls
