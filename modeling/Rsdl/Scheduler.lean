import Rsdl.Proc

/-! One iteration of `scheduler()` in `proc.c`, in its three parts: the pick (lines
615-631 with the found branch at 641-644), the requeue after the picked process gives
the CPU back (654-715), and the set swap when nothing was picked (719-739).

The scheduler's locals `q` and `k` are `c->queue` and its level: `q` is only ever
`&ptable.active[k]` for the `k` the pick stopped at, and `c->queue` is set to `q` and
cleared by the scheduler alone. -/
namespace Rsdl

variable {C : Type}

/-- The test of the pick's inner loop: `RUNNABLE` with process quantum left. -/
def Kernel.ready (s : Kernel C) (p : Slot) : Bool :=
  decide ((s.proc p).state = .runnable) && decide (0 < (s.proc p).ticksLeft)

/-- The pick: the first level `k` of the active set with level quantum left that holds
a ready process, and the first such process in it. -/
def pick (cfg : Config) (s : Kernel C) : Option (Nat × Slot) :=
  (List.range cfg.levels).findSome? fun k =>
    if (s.level (s.active, k)).ticksLeft ≤ 0 then none
    else ((s.level (s.active, k)).entries.find? s.ready).map (k, ·)

/-- The found branch: `c->proc = p`, `c->queue = &ptable.active[k]`, `p->state = RUNNING`. -/
def dispatch (s : Kernel Cpu) (k : Nat) (p : Slot) : Kernel Cpu :=
  ({ s with cpu := ⟨some p, some (s.active, k)⟩ } : Kernel Cpu).modifyProc p fun pr =>
    { pr with state := .running }

/-- The two `while (q->numproc > 0)` loops: take `q->proc[0]`, refill its process quantum,
unqueue it and, unless it is `held`, enqueue it where
`find_available_queue(activeStart, default_level)` points. The loop gets one iteration
per entry `q` has when it starts (`fuel`): one that needs more has re-enqueued into `q`,
and that is reported as `loops`. -/
def drain (cfg : Config) (q : QueueRef) (held : Option Slot) (activeStart : Proc → Int) :
    Nat → Kernel C → Except Fault (Kernel C)
  | 0, s => if 0 < (s.level q).numproc then .error .loops else .ok s
  | fuel + 1, s =>
    if 0 < (s.level q).numproc then do
      let np := (s.level q).proc 0
      let s := s.modifyProc np fun pr => { pr with ticksLeft := cfg.procQuantum }
      let (s, _) ← s.unqueue np q
      if held = some np then drain cfg q held activeStart fuel s
      else
        let nq ← findAvailableQueue cfg s (activeStart (s.proc np)) (s.proc np).defaultLevel
        let s ← s.enqueue np nq
        drain cfg q held activeStart fuel s
    else .ok s

/-- The requeue when the level `q` of `p` has no quantum left (lines 654-679): every
process of `q` moves to the next active level with quantum, or to its own level of the
expired set, and `p` goes last unless it exited. -/
def requeueDepleted (cfg : Config) (s : Kernel C) (p : Slot) (q : QueueRef) :
    Except Fault (Kernel C) := do
  let s ← drain cfg q (some p) (fun _ => q.2 + 1) (s.level q).numproc s
  if (s.proc p).state ≠ .zombie then
    let nq ← findAvailableQueue cfg s (q.2 + 1) (s.proc p).defaultLevel
    s.enqueue p nq
  else pure s

/-- The re-enqueue of `p` (lines 697-708): out of `q`, and into the queue
`find_available_queue(nk, default_level)` points to, with its quantum refilled if that
is in the expired set. -/
def reenqueue (cfg : Config) (s : Kernel C) (p : Slot) (q : QueueRef) (nk : Int) :
    Except Fault (Kernel C) := do
  let (s, prevIdx) ← s.unqueue p q
  if prevIdx = -1 then throw (.panic "re-enqueue of proc failed")
  let nq ← findAvailableQueue cfg s nk (s.proc p).defaultLevel
  let s := if isExpiredSet cfg s nq then
    s.modifyProc p fun pr => { pr with ticksLeft := cfg.procQuantum } else s
  s.enqueue p nq

/-- The requeue when the level `q` of `p` has quantum left (lines 680-710): `p` goes
to the tail of its own level, or, with its process quantum used up, one level down
with a refilled quantum; it is refilled again if it lands in the expired set. -/
def requeueLevel (cfg : Config) (s : Kernel C) (p : Slot) (q : QueueRef) :
    Except Fault (Kernel C) :=
  let (s, nk) : Kernel C × Int :=
    if (s.proc p).ticksLeft ≤ 0 then
      (s.modifyProc p fun pr => { pr with ticksLeft := cfg.procQuantum }, q.2 + 1)
    else (s, q.2)
  if 0 < (s.level q).numproc ∧ (s.proc p).state ≠ .zombie then reenqueue cfg s p q nk
  else pure s

/-- The requeue after `p`, picked from `q`, gave the CPU back, ending with
`c->proc = 0` and `c->queue = NULL`. -/
def requeue (cfg : Config) (s : Kernel Cpu) (p : Slot) (q : QueueRef) : Except Fault (Kernel Cpu) := do
  let s ← if (s.level q).ticksLeft ≤ 0 then requeueDepleted cfg s p q else requeueLevel cfg s p q
  pure { s with cpu := Cpu.idle }

/-- One level of the swap loop: refill the level quantum of `expired[k]`, then drain it
into the (new) active set. -/
def refillAndDrain (cfg : Config) (s : Kernel C) (k : Nat) : Except Fault (Kernel C) :=
  let q := (s.expired, k)
  let s := s.setLevel q { s.level q with ticksLeft := cfg.levelQuantum }
  drain cfg q none (fun pr => pr.defaultLevel) (s.level q).numproc s

/-- The set swap: exchange `ptable.active` and `ptable.expired`, then refill and drain
every level of the new expired set, lowest first. -/
def swapSets (cfg : Config) (s : Kernel C) : Except Fault (Kernel C) :=
  (List.range cfg.levels).foldlM (refillAndDrain cfg) { s with active := s.expired, expired := s.active }

/-- The pick, and the found branch or the swap. -/
def scheduler (cfg : Config) (s : Kernel Cpu) : Except Fault (Kernel Cpu) :=
  match pick cfg s with
  | some (k, p) => .ok (dispatch s k p)
  | none => swapSets cfg s

end Rsdl
