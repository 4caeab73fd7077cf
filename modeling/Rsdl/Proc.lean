import Rsdl.Levels

/-! The process calls of `proc.c` that reach the scheduler's state: `allocproc`,
`userinit`, `priofork` and `fork`, `exit`, `wait`, `sleep`, `wakeup1` and `wakeup`,
`kill` and `yield`. Each is one critical section under `ptable.lock`, but for
`priofork`, which has two with a stretch outside the lock between them; `curproc` is
`myproc()`. The memory, file and trap-frame work around them is not modelled: of it,
only whether `kalloc` and `copyuvm` succeed matters here, and that is an argument.

`sleep`, `yield` and `exit` end in `sched()`, which switches to the scheduler with
`ptable.lock` held; here they end with the caller no longer `RUNNING`, and the
scheduler's requeue (`Scheduler.lean`) is the next step of the same critical section. -/
namespace Rsdl

variable {C : Type}

/-- `wakeup1`: every process sleeping on `chan` becomes `RUNNABLE`. -/
def wakeup1 (s : Kernel C) (chan : Option Chan) : Kernel C :=
  { s with proc := fun p =>
      if (s.proc p).state = .sleeping ∧ (s.proc p).chan = chan then
        { s.proc p with state := .runnable }
      else s.proc p }

/-- `wakeup`. -/
def wakeup (s : Kernel C) (chan : Chan) : Kernel C := wakeup1 s (some chan)

/-- The locked section of `allocproc` (lines 322-338): the first `UNUSED` slot becomes
`EMBRYO` with the pid `nextpid++`, a full process quantum and `RSDL_STARTING_LEVEL`. -/
def allocprocLocked (cfg : Config) (s : Kernel C) : Kernel C × Option Slot :=
  match (List.finRange NPROC).find? fun p => (s.proc p).state = .unused with
  | none => (s, none)
  | some p =>
    ({ s with nextpid := wrapInt (s.nextpid + 1) }.modifyProc p fun pr =>
      { pr with state := .embryo, pid := s.nextpid, ticksLeft := cfg.procQuantum,
                defaultLevel := cfg.startingLevel }, some p)

/-- The slot `c` as the locked section of `allocproc` leaves it. -/
def taken (cfg : Config) (s : Kernel C) (c : Slot) : Kernel C :=
  { s with nextpid := wrapInt (s.nextpid + 1) }.modifyProc c fun pr =>
    { pr with state := .embryo, pid := s.nextpid, ticksLeft := cfg.procQuantum,
              defaultLevel := cfg.startingLevel }

section Taken

variable {cfg : Config} {s : Kernel C} {c : Slot}

@[simp] theorem taken_level : (taken cfg s c).level = s.level := rfl

@[simp] theorem taken_active : (taken cfg s c).active = s.active := rfl

@[simp] theorem taken_expired : (taken cfg s c).expired = s.expired := rfl

@[simp] theorem taken_cpu : (taken cfg s c).cpu = s.cpu := rfl

@[simp] theorem taken_initproc : (taken cfg s c).initproc = s.initproc := rfl

@[simp] theorem taken_forks : (taken cfg s c).forks = s.forks := rfl

@[simp] theorem taken_nextpid : (taken cfg s c).nextpid = wrapInt (s.nextpid + 1) := rfl

theorem taken_proc (y : Slot) :
    (taken cfg s c).proc y =
      if y = c then { s.proc c with state := .embryo, pid := s.nextpid, ticksLeft := cfg.procQuantum,
                                    defaultLevel := cfg.startingLevel }
      else s.proc y := by
  simp [taken]

end Taken

theorem exists_find_unused {s : Kernel C} (unused : ∃ x, (s.proc x).state = .unused) :
    ∃ c, (List.finRange NPROC).find? (fun x => decide ((s.proc x).state = .unused)) = some c := by
  obtain ⟨x, free⟩ := unused
  cases found : (List.finRange NPROC).find? (fun x => decide ((s.proc x).state = .unused)) with
  | none =>
    have missed := List.find?_eq_none.mp found x (List.mem_finRange x)
    simp [free] at missed
  | some c => exact ⟨c, rfl⟩

theorem unused_of_find {s : Kernel C} {c : Slot}
    (found : (List.finRange NPROC).find? (fun x => decide ((s.proc x).state = .unused)) = some c) :
    (s.proc c).state = .unused := by
  simpa using List.find?_some found

/-- The locked section of `allocproc` finds no slot only in a full table, and changes
nothing then. -/
theorem allocprocLocked_none {cfg : Config} {s s₁ : Kernel C}
    (alloc : allocprocLocked cfg s = (s₁, none)) : s₁ = s ∧ ∀ x, (s.proc x).state ≠ .unused := by
  unfold allocprocLocked at alloc
  split at alloc
  · rename_i missed
    refine ⟨(Prod.mk.inj alloc).1.symm, fun x free => ?_⟩
    have := List.find?_eq_none.mp missed x (List.mem_finRange x)
    simp [free] at this
  · cases alloc

/-- The locked section of `allocproc` takes a free slot. -/
theorem allocprocLocked_some {cfg : Config} {s s₁ : Kernel C} {c : Slot}
    (alloc : allocprocLocked cfg s = (s₁, some c)) :
    (s.proc c).state = .unused ∧ s₁ = taken cfg s c := by
  unfold allocprocLocked at alloc
  split at alloc
  · cases alloc
  · rename_i c' found
    obtain ⟨rfl, same⟩ := Prod.mk.inj alloc
    cases same
    exact ⟨unused_of_find found, rfl⟩

theorem allocprocLocked_of_find {cfg : Config} {s : Kernel C} {c : Slot}
    (found : (List.finRange NPROC).find? (fun x => decide ((s.proc x).state = .unused)) = some c) :
    allocprocLocked cfg s = (taken cfg s c, some c) := by
  simp only [allocprocLocked, found]
  rfl

/-- `allocproc`: its locked section, then the kernel stack. When `kalloc` finds none the
slot is `UNUSED` again, keeping the other fields, and there is no process. -/
def allocproc (cfg : Config) (s : Kernel C) (kallocOk : Bool) : Kernel C × Option Slot :=
  match allocprocLocked cfg s with
  | (s, none) => (s, none)
  | (s, some p) =>
    if kallocOk then (s, some p) else (s.modifyProc p fun pr => { pr with state := .unused }, none)

/-- The `allocproc` of boot, whose `kalloc` succeeds, takes a free slot when it returns one. -/
theorem allocproc_true_some {cfg : Config} {s s₁ : Kernel C} {c : Slot}
    (alloc : allocproc cfg s true = (s₁, some c)) : (s.proc c).state = .unused ∧ s₁ = taken cfg s c := by
  unfold allocproc at alloc
  split at alloc
  · cases alloc
  · rename_i s₂ c' locked
    simp only [↓reduceIte, Prod.mk.injEq, Option.some.injEq] at alloc
    obtain ⟨rfl, rfl⟩ := alloc
    exact allocprocLocked_some locked

/-- `userinit`: the first process, `RUNNABLE` and enqueued where `find_available_queue`
puts its starting level. With no free slot `allocproc` returns `0`, which `userinit`
dereferences. Boot-time allocations are taken to succeed, and nothing else runs yet. -/
def userinit (cfg : Config) (s : Kernel C) : Except Fault (Kernel C) :=
  match allocproc cfg s true with
  | (_, none) => .error .nullDereference
  | (s, some p) => do
    let s := { s with initproc := some p }.modifyProc p fun pr => { pr with state := .runnable }
    let q ← findAvailableQueue cfg s (s.proc p).defaultLevel (s.proc p).defaultLevel
    s.enqueue p q

/-- The middle of `priofork`, outside `ptable.lock`: `allocproc`'s kernel stack (lines
340-344), `copyuvm` (448-453) and `np->parent = curproc` (460). When `kalloc` or `copyuvm`
fails, `np->state = UNUSED` and the call returns `-1`; `true` when it goes on. -/
def prioforkCopy (s : Kernel C) (curproc np : Slot) (kallocOk copyuvmOk : Bool) : Kernel C × Bool :=
  if kallocOk && copyuvmOk then (s.modifyProc np fun pr => { pr with parent := some curproc }, true)
  else (s.modifyProc np fun pr => { pr with state := .unused }, false)

/-- The second section of `priofork` (lines 473-483): the child at `default_level`,
`RUNNABLE`, and enqueued where `find_available_queue` puts it. -/
def prioforkEnqueue (cfg : Config) (s : Kernel C) (np : Slot) (defaultLevel : Int) :
    Except Fault (Kernel C) := do
  let s := s.modifyProc np fun pr => { pr with defaultLevel := defaultLevel, state := .runnable }
  let q ← findAvailableQueue cfg s (s.proc np).defaultLevel (s.proc np).defaultLevel
  s.enqueue np q

/-- `priofork(default_level)`, its parts run one after another: `-1` for a level outside
`[0, RSDL_LEVELS)`, for a full process table, and when `kalloc` or `copyuvm` fails;
otherwise the child's pid, with the child `RUNNABLE` at `default_level` and enqueued by
`find_available_queue`. -/
def priofork (cfg : Config) (s : Kernel C) (curproc : Slot) (defaultLevel : Int)
    (kallocOk copyuvmOk : Bool) : Except Fault (Kernel C × Int) :=
  if (cfg.levels : Int) ≤ defaultLevel then .ok (s, -1)
  else if defaultLevel < 0 then .ok (s, -1)
  else
    match allocprocLocked cfg s with
    | (s, none) => .ok (s, -1)
    | (s, some np) =>
      match prioforkCopy s curproc np kallocOk copyuvmOk with
      | (s, false) => .ok (s, -1)
      | (s, true) => do
        let s' ← prioforkEnqueue cfg s np defaultLevel
        pure (s', (s.proc np).pid)

/-- `fork`: `priofork(RSDL_STARTING_LEVEL)`. -/
def fork (cfg : Config) (s : Kernel C) (curproc : Slot) (kallocOk copyuvmOk : Bool) :
    Except Fault (Kernel C × Int) :=
  priofork cfg s curproc cfg.startingLevel kallocOk copyuvmOk

/-! Between the two sections of `priofork` other processes run, so each part is an event
of its own, and the caller keeps `np` and `default_level` on its stack (`forks`). -/

/-- `priofork` by `curproc` up to the end of `allocproc`'s locked section. -/
def prioforkBegin (cfg : Config) (s : Kernel C) (curproc : Slot) (defaultLevel : Int) : Kernel C :=
  if (cfg.levels : Int) ≤ defaultLevel then s
  else if defaultLevel < 0 then s
  else
    match allocprocLocked cfg s with
    | (s, none) => s
    | (s, some np) => s.setFork curproc (some ⟨np, defaultLevel, false⟩)

/-- The middle of the `priofork` of `curproc`, which stands at `f`. -/
def prioforkMiddle (s : Kernel C) (curproc : Slot) (f : Forking) (kallocOk copyuvmOk : Bool) :
    Kernel C :=
  match prioforkCopy s curproc f.np kallocOk copyuvmOk with
  | (s, true) => s.setFork curproc (some { f with copied := true })
  | (s, false) => s.setFork curproc none

/-- The second section of the `priofork` of `curproc`, which stands at `f`, and its
return. -/
def prioforkEnd (cfg : Config) (s : Kernel C) (curproc : Slot) (f : Forking) :
    Except Fault (Kernel C) :=
  (prioforkEnqueue cfg s f.np f.defaultLevel).map fun s => s.setFork curproc none

/-- The loop of `exit` that passes the children of `curproc` to `initproc`, waking
`initproc` for each child that is already a zombie. -/
def reparent (s : Kernel C) (curproc : Slot) : Kernel C :=
  (List.finRange NPROC).foldl (fun s p =>
    if (s.proc p).parent = some curproc then
      let s := s.modifyProc p fun pr => { pr with parent := s.initproc }
      if (s.proc p).state = .zombie then wakeup1 s (s.initproc.map .proc) else s
    else s) s

/-- `exit`: wake the parent, pass the children on, leave the level queues and become a
`ZOMBIE`. `initproc` may not exit. -/
def exit (cfg : Config) (s : Kernel C) (curproc : Slot) : Except Fault (Kernel C) :=
  if s.initproc = some curproc then .error (.panic "init exiting")
  else do
    let s := wakeup1 s ((s.proc curproc).parent.map .proc)
    let s := reparent s curproc
    let (s, _) ← removeProcFromLevels cfg s curproc
    pure (s.modifyProc curproc fun pr => { pr with state := .zombie })

/-- `sleep(chan, lk)` up to its `sched()`. -/
def sleep (s : Kernel C) (p : Slot) (chan : Chan) : Kernel C :=
  s.modifyProc p fun pr => { pr with chan := some chan, state := .sleeping }

/-- One pass of `wait`'s loop: free the first zombie child in slot order and return its
pid; return `-1` with no children or when killed; otherwise sleep on the caller itself,
which is `none` here, as the call has not returned. -/
def wait (s : Kernel C) (curproc : Slot) : Kernel C × Option Int :=
  match (List.finRange NPROC).find? fun p =>
      (s.proc p).parent = some curproc ∧ (s.proc p).state = .zombie with
  | some p =>
    (s.modifyProc p fun pr => { pr with pid := 0, parent := none, killed := false, state := .unused },
      some (s.proc p).pid)
  | none =>
    if (List.finRange NPROC).all (fun p => (s.proc p).parent ≠ some curproc) ∨ (s.proc curproc).killed then
      (s, some (-1))
    else (sleep s curproc (.proc curproc), none)

/-- `kill(pid)`: mark the first process with that pid killed, waking it if it sleeps. -/
def kill (s : Kernel C) (pid : Int) : Kernel C × Int :=
  match (List.finRange NPROC).find? fun p => (s.proc p).pid = pid with
  | none => (s, -1)
  | some p =>
    (s.modifyProc p fun pr =>
      { pr with killed := true, state := if pr.state = .sleeping then .runnable else pr.state }, 0)

/-- `yield` up to its `sched()`. -/
def yield (s : Kernel C) (p : Slot) : Kernel C :=
  s.modifyProc p fun pr => { pr with state := .runnable }

end Rsdl
