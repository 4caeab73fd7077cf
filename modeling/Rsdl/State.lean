import Mathlib.Data.Fintype.Card
import Mathlib.Algebra.GroupWithZero.Nat
import Mathlib.Algebra.Group.Int.Defs
import Rsdl.Lib.CellArray

/-! The state the RSDL scheduler of this xv6 kernel works on: the four macros of
`rsdl.h`, the process table `ptable` of `proc.c` with its two sets of level queues
(`proc.h`'s `struct level_queue`), and the `proc` and `queue` fields of `struct cpu`.

Pointers are indices: a `struct proc *` into `ptable.proc` is a `Slot`, and a
`struct level_queue *` into `ptable.level` is a `QueueRef`, the set and the level.
`ptable.active` and `ptable.expired` point at whole rows of `ptable.level`, so each is
a row index. Only what the scheduler, `allocproc`, `fork`, `exit`, `wait`, `sleep`,
`wakeup`, `kill` and the timer path of `trap` read or write is kept; memory, files and
the trap frame are left out. The state is generic in its CPU part: the single-CPU
kernel keeps `cpus[0]`, the multi-CPU one every `cpus[i]`. -/
namespace Rsdl

/-- `param.h`: the number of process slots, which is also the capacity of every level. -/
def NPROC : Nat := 64

instance : NeZero NPROC := ⟨Nat.succ_ne_zero 63⟩

/-- A `struct proc *`: an index into `ptable.proc`. -/
abbrev Slot := Fin NPROC

/-- The four macros of `rsdl.h`, with the ranges its comments ask for. -/
structure Config where
  /-- `RSDL_LEVELS`: how many levels each of the two sets has. -/
  levels : Nat
  /-- `RSDL_STARTING_LEVEL`: the level `allocproc` gives every new process. -/
  startingLevel : Nat
  /-- `RSDL_PROC_QUANTUM`: the ticks a process may run before it moves down. -/
  procQuantum : Nat
  /-- `RSDL_LEVEL_QUANTUM`: the ticks a level may be charged before it is emptied. -/
  levelQuantum : Nat
  levels_pos : 0 < levels
  startingLevel_lt : startingLevel < levels
  procQuantum_pos : 0 < procQuantum
  levelQuantum_pos : 0 < levelQuantum

/-- The quanta as the `int` fields they are stored in. -/
theorem Config.procQuantum_int_pos (cfg : Config) : (0 : Int) < cfg.procQuantum := by
  exact_mod_cast cfg.procQuantum_pos

theorem Config.levelQuantum_int_pos (cfg : Config) : (0 : Int) < cfg.levelQuantum := by
  exact_mod_cast cfg.levelQuantum_pos

/-- The configuration `rsdl.h` ships with. -/
def rsdl : Config where
  levels := 3
  startingLevel := 0
  procQuantum := 20
  levelQuantum := 100
  levels_pos := by decide
  startingLevel_lt := by decide
  procQuantum_pos := by decide
  levelQuantum_pos := by decide

/-- `enum procstate`. -/
inductive ProcState where
  | unused | embryo | sleeping | runnable | running | zombie
  deriving DecidableEq, Repr

/-- The states whose processes belong in exactly one level queue. -/
def ProcState.queued : ProcState → Bool
  | .sleeping | .runnable | .running => true
  | _ => false

/-- A sleep channel, the `void *` that `sleep` records and `wakeup1` compares. `wait`
sleeps on the waiting process itself and `sys_sleep` on `&ticks`; every other kernel
object is an address. -/
inductive Chan where
  | proc (slot : Slot)
  | ticks
  | other (address : Nat)
  deriving DecidableEq, Repr

/-- The fields of `struct proc` the scheduler and the process calls use. -/
structure Proc where
  state : ProcState
  pid : Int
  /-- `parent`; `none` is the null pointer. -/
  parent : Option Slot
  /-- `chan`; `none` is the null pointer. -/
  chan : Option Chan
  killed : Bool
  ticksLeft : Int
  defaultLevel : Int
  deriving DecidableEq, Repr

/-- `struct level_queue`. Only `proc[0..numproc)` is ever read: `enqueue_proc` writes at
`numproc` after checking it against `NPROC`, so the array is a function on indices. The
cells `pinit` sets to `NULL` are never read, and the model leaves them at slot 0. -/
structure LevelQueue where
  numproc : Nat
  ticksLeft : Int
  proc : Nat → Slot

/-- The queue's entries `proc[0..numproc)`, in order. -/
def LevelQueue.entries (q : LevelQueue) : List Slot := CellArray.toList q.proc q.numproc

/-- A `struct level_queue *` into `ptable.level`: the row (set) and the level. -/
abbrev QueueRef := Fin 2 × Nat

/-- `ptable.level` has two rows, so `0` and `1` name its sets. -/
instance instNeZeroLevelRows : NeZero (2 : Nat) := ⟨Nat.succ_ne_zero 1⟩

/-- The two fields of `struct cpu` the scheduler uses. -/
structure Cpu where
  /-- `proc`: the process this CPU runs, or `none`. -/
  proc : Option Slot
  /-- `queue`: the level `proc` was picked from, or `none`. -/
  queue : Option QueueRef
  deriving DecidableEq, Repr

/-- The CPU as `scheduler()` leaves it between two runs. -/
def Cpu.idle : Cpu := ⟨none, none⟩

/-- The locals of a `priofork` between its two `ptable.lock` sections, on the kernel stack
of the process that calls it: the slot `np` that `allocproc` took, the `default_level` it
was called with, and whether `np->parent` is written yet. -/
structure Forking where
  np : Slot
  defaultLevel : Int
  copied : Bool
  deriving DecidableEq, Repr

/-- `x` as a 32-bit `int`, as the kernel is built (`-m32`): `INT_MAX + 1` wraps to
`INT_MIN`. -/
def wrapInt (x : Int) : Int := (x + 2 ^ 31) % 2 ^ 32 - 2 ^ 31

theorem wrapInt_lt (x : Int) : wrapInt x < 2 ^ 31 := by
  unfold wrapInt
  omega

/-- Below `INT_MAX`, `nextpid++` counts up. -/
theorem wrapInt_succ {n : Int} (nonneg : 0 ≤ n) (small : n + 1 < 2 ^ 31) :
    wrapInt (n + 1) = n + 1 := by
  unfold wrapInt
  omega

/-- A positive `int` that `nextpid++` keeps positive did not wrap. -/
theorem wrapInt_succ_of_pos {n : Int} (nonneg : 0 ≤ n) (fits : n < 2 ^ 31)
    (positive : 0 < wrapInt (n + 1)) : wrapInt (n + 1) = n + 1 := by
  unfold wrapInt at positive ⊢
  omega

/-- `ptable` with the globals `nextpid` and `initproc`, the CPU part `cpu`, and, for each
process, where its `priofork` stands (`forks`). -/
structure Kernel (C : Type) where
  proc : Slot → Proc
  /-- `ptable.active = ptable.level[active]`. -/
  active : Fin 2
  /-- `ptable.expired = ptable.level[expired]`. -/
  expired : Fin 2
  level : QueueRef → LevelQueue
  nextpid : Int
  initproc : Option Slot
  /-- `forks p`: the locals of the `priofork` that `p` is in, between its two sections. -/
  forks : Slot → Option Forking
  cpu : C

/-- What a kernel path ends in when it does not return normally: a `panic` with its
message, a dereference of the null pointer, or a `while` loop of `scheduler()` that
keeps re-enqueueing into the level it drains. -/
inductive Fault where
  | panic (message : String)
  | nullDereference
  | loops
  deriving DecidableEq, Repr

variable {C : Type}

namespace Kernel

/-- Apply `f` to the process in slot `p`. -/
def modifyProc (s : Kernel C) (p : Slot) (f : Proc → Proc) : Kernel C :=
  { s with proc := Function.update s.proc p (f (s.proc p)) }

/-- Replace the level queue `r`. -/
def setLevel (s : Kernel C) (r : QueueRef) (q : LevelQueue) : Kernel C :=
  { s with level := Function.update s.level r q }

/-- Record where the `priofork` of `p` stands. -/
def setFork (s : Kernel C) (p : Slot) (f : Option Forking) : Kernel C :=
  { s with forks := Function.update s.forks p f }

@[simp] theorem modifyProc_proc (s : Kernel C) (p : Slot) (f : Proc → Proc) (x : Slot) :
    (s.modifyProc p f).proc x = if x = p then f (s.proc p) else s.proc x := by
  by_cases same : x = p
  · subst x
    simp [modifyProc]
  · simp [modifyProc, same]

@[simp] theorem modifyProc_level (s : Kernel C) (p : Slot) (f : Proc → Proc) :
    (s.modifyProc p f).level = s.level := rfl

@[simp] theorem modifyProc_active (s : Kernel C) (p : Slot) (f : Proc → Proc) :
    (s.modifyProc p f).active = s.active := rfl

@[simp] theorem modifyProc_expired (s : Kernel C) (p : Slot) (f : Proc → Proc) :
    (s.modifyProc p f).expired = s.expired := rfl

@[simp] theorem modifyProc_cpu (s : Kernel C) (p : Slot) (f : Proc → Proc) :
    (s.modifyProc p f).cpu = s.cpu := rfl

@[simp] theorem modifyProc_nextpid (s : Kernel C) (p : Slot) (f : Proc → Proc) :
    (s.modifyProc p f).nextpid = s.nextpid := rfl

@[simp] theorem modifyProc_initproc (s : Kernel C) (p : Slot) (f : Proc → Proc) :
    (s.modifyProc p f).initproc = s.initproc := rfl

@[simp] theorem modifyProc_forks (s : Kernel C) (p : Slot) (f : Proc → Proc) :
    (s.modifyProc p f).forks = s.forks := rfl

@[simp] theorem setLevel_level (s : Kernel C) (r : QueueRef) (q : LevelQueue) (x : QueueRef) :
    (s.setLevel r q).level x = if x = r then q else s.level x := by
  by_cases same : x = r
  · subst x
    simp [setLevel]
  · simp [setLevel, same]

@[simp] theorem setLevel_proc (s : Kernel C) (r : QueueRef) (q : LevelQueue) :
    (s.setLevel r q).proc = s.proc := rfl

@[simp] theorem setLevel_active (s : Kernel C) (r : QueueRef) (q : LevelQueue) :
    (s.setLevel r q).active = s.active := rfl

@[simp] theorem setLevel_expired (s : Kernel C) (r : QueueRef) (q : LevelQueue) :
    (s.setLevel r q).expired = s.expired := rfl

@[simp] theorem setLevel_cpu (s : Kernel C) (r : QueueRef) (q : LevelQueue) :
    (s.setLevel r q).cpu = s.cpu := rfl

@[simp] theorem setLevel_nextpid (s : Kernel C) (r : QueueRef) (q : LevelQueue) :
    (s.setLevel r q).nextpid = s.nextpid := rfl

@[simp] theorem setLevel_initproc (s : Kernel C) (r : QueueRef) (q : LevelQueue) :
    (s.setLevel r q).initproc = s.initproc := rfl

@[simp] theorem setLevel_forks (s : Kernel C) (r : QueueRef) (q : LevelQueue) :
    (s.setLevel r q).forks = s.forks := rfl

@[simp] theorem setFork_forks (s : Kernel C) (p : Slot) (f : Option Forking) (x : Slot) :
    (s.setFork p f).forks x = if x = p then f else s.forks x := by
  by_cases same : x = p
  · subst x
    simp [setFork]
  · simp [setFork, same]

@[simp] theorem setFork_proc (s : Kernel C) (p : Slot) (f : Option Forking) :
    (s.setFork p f).proc = s.proc := rfl

@[simp] theorem setFork_level (s : Kernel C) (p : Slot) (f : Option Forking) :
    (s.setFork p f).level = s.level := rfl

@[simp] theorem setFork_active (s : Kernel C) (p : Slot) (f : Option Forking) :
    (s.setFork p f).active = s.active := rfl

@[simp] theorem setFork_expired (s : Kernel C) (p : Slot) (f : Option Forking) :
    (s.setFork p f).expired = s.expired := rfl

@[simp] theorem setFork_cpu (s : Kernel C) (p : Slot) (f : Option Forking) :
    (s.setFork p f).cpu = s.cpu := rfl

@[simp] theorem setFork_nextpid (s : Kernel C) (p : Slot) (f : Option Forking) :
    (s.setFork p f).nextpid = s.nextpid := rfl

@[simp] theorem setFork_initproc (s : Kernel C) (p : Slot) (f : Option Forking) :
    (s.setFork p f).initproc = s.initproc := rfl

@[simp] theorem modifyProc_modifyProc (s : Kernel C) (p : Slot) (f g : Proc → Proc) :
    (s.modifyProc p f).modifyProc p g = s.modifyProc p (g ∘ f) := by
  simp [modifyProc, Function.update_idem]

theorem modifyProc_setFork (s : Kernel C) (p q : Slot) (f : Option Forking) (g : Proc → Proc) :
    (s.setFork p f).modifyProc q g = (s.modifyProc q g).setFork p f := rfl

theorem setFork_setFork (s : Kernel C) (p : Slot) (f g : Option Forking) :
    (s.setFork p f).setFork p g = s.setFork p g := by
  simp [setFork, Function.update_idem]

/-- Writing back the record a process already has changes nothing. -/
theorem setFork_of_forks {s : Kernel C} {p : Slot} {f : Option Forking} (same : s.forks p = f) :
    s.setFork p f = s := by
  unfold setFork
  rw [← same, Function.update_eq_self]

/-- Slots in different states are different slots. -/
theorem ne_of_state_ne {s : Kernel C} {x y : Slot} {a b : ProcState} (atX : (s.proc x).state = a)
    (atY : (s.proc y).state = b) (differ : a ≠ b) : y ≠ x := fun same => by
  subst y
  exact differ (atX.symm.trans atY)

/-- A conditional update of one slot is an update by a conditional function. -/
theorem ite_modifyProc (c : Prop) [Decidable c] (s : Kernel C) (p : Slot) (f : Proc → Proc) :
    (if c then s.modifyProc p f else s) = s.modifyProc p fun pr => if c then f pr else pr := by
  by_cases holds : c
  · simp [holds]
  · simp [holds, modifyProc]

end Kernel

/-- A slot as static storage and `wait` leave it: all fields zero. -/
def Proc.zero : Proc := ⟨.unused, 0, none, none, false, 0, 0⟩

/-- The kernel after `pinit`: every slot unused, every level empty with a full quantum,
`active = level[0]`, `expired = level[1]`, `nextpid = 1`, no `initproc` yet, and no
`priofork` under way. -/
def boot (cfg : Config) (cpu : C) : Kernel C where
  proc := fun _ => Proc.zero
  active := 0
  expired := 1
  level := fun _ => ⟨0, cfg.levelQuantum, fun _ => 0⟩
  nextpid := 1
  initproc := none
  forks := fun _ => none
  cpu := cpu

end Rsdl
