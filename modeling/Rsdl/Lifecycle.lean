import Rsdl.Preservation

/-! What each event does to the process table as the process calls see it: to the
state, `pid` and `parent` of every slot, to the channel of a sleeper, and to `nextpid`
and `initproc`. The queues and the quanta are the scheduler's, and left to the modules
before this one.

The scheduler's own code (`scheduler()` with its requeue and swap loops, and the
timer case of `trap()`) writes no field of `struct proc` but `state` and `ticks_left`,
and the first only between `RUNNABLE` and `RUNNING` (`TicksOnly`, `Quiet`). The process
calls make the few other kinds of change: a slot taken by `allocproc` and given a
process (`Birth`) or given back (`Undone`), a process exiting (`Exited`), a zombie
freed by `wait` (`Reaped`), and a process going to sleep. `exec_life` sorts every event
that returns into one of these kinds (`Life`); the invariants of the process table
are proved from `Life` alone. -/
namespace Rsdl.Lifecycle

open ExceptRun QueueProofs DrainProofs Preservation ProcInv

variable {C : Type} {cfg : Config}

/-! ### The scheduler's writes -/

/-- `s'` is `s` with at most the queues, the CPU and `ticks_left` changed: every other
field of every process, `nextpid`, `initproc` and the `priofork`s under way are as they
were. -/
structure TicksOnly (s s' : Kernel C) : Prop where
  nextpid : s'.nextpid = s.nextpid
  initproc : s'.initproc = s.initproc
  proc : ∀ x, { s'.proc x with ticksLeft := 0 } = { s.proc x with ticksLeft := 0 }
  forks : s'.forks = s.forks

section TicksOnly

variable {s s' t : Kernel C}

theorem TicksOnly.refl (s : Kernel C) : TicksOnly s s := ⟨rfl, rfl, fun _ => rfl, rfl⟩

theorem TicksOnly.trans (first : TicksOnly s t) (second : TicksOnly t s') : TicksOnly s s' :=
  ⟨second.nextpid.trans first.nextpid, second.initproc.trans first.initproc,
    fun x => (second.proc x).trans (first.proc x), second.forks.trans first.forks⟩

theorem TicksOnly.of_proc (nextpid : s'.nextpid = s.nextpid) (initproc : s'.initproc = s.initproc)
    (proc : s'.proc = s.proc) (forks : s'.forks = s.forks) : TicksOnly s s' :=
  ⟨nextpid, initproc, fun x => by rw [proc], forks⟩

theorem TicksOnly.state (only : TicksOnly s s') (x : Slot) : (s'.proc x).state = (s.proc x).state := by
  simpa using congrArg Proc.state (only.proc x)

theorem TicksOnly.pid (only : TicksOnly s s') (x : Slot) : (s'.proc x).pid = (s.proc x).pid := by
  simpa using congrArg Proc.pid (only.proc x)

theorem TicksOnly.parent (only : TicksOnly s s') (x : Slot) :
    (s'.proc x).parent = (s.proc x).parent := by
  simpa using congrArg Proc.parent (only.proc x)

theorem TicksOnly.chan (only : TicksOnly s s') (x : Slot) : (s'.proc x).chan = (s.proc x).chan := by
  simpa using congrArg Proc.chan (only.proc x)

theorem TicksOnly.killed (only : TicksOnly s s') (x : Slot) :
    (s'.proc x).killed = (s.proc x).killed := by
  simpa using congrArg Proc.killed (only.proc x)

theorem TicksOnly.defaultLevel (only : TicksOnly s s') (x : Slot) :
    (s'.proc x).defaultLevel = (s.proc x).defaultLevel := by
  simpa using congrArg Proc.defaultLevel (only.proc x)

theorem ticksOnly_setLevel (s : Kernel C) (r : QueueRef) (q : LevelQueue) :
    TicksOnly s (s.setLevel r q) :=
  TicksOnly.of_proc rfl rfl rfl rfl

/-- A write of one process's `ticks_left`, as the refills and the timer's charge do. -/
theorem ticksOnly_setTicks (s : Kernel C) (x : Slot) (f : Int → Int) :
    TicksOnly s (s.modifyProc x fun pr => { pr with ticksLeft := f pr.ticksLeft }) := by
  refine ⟨rfl, rfl, fun y => ?_, rfl⟩
  by_cases same : y = x
  · subst y
    simp
  · simp [same]

theorem enqueue_ticksOnly {p : Slot} {r : QueueRef} (ran : s.enqueue p r = .ok s') :
    TicksOnly s s' := by
  obtain ⟨-, rfl⟩ := enqueue_eq_ok ran
  exact ticksOnly_setLevel _ _ _

theorem unqueue_ticksOnly {p : Slot} {r : QueueRef} {i : Int} (ran : s.unqueue p r = .ok (s', i)) :
    TicksOnly s s' := by
  obtain ⟨⟨q, j⟩, -, same⟩ := map_eq_ok ran
  cases same
  exact ticksOnly_setLevel _ _ _

theorem removeProcFrom_ticksOnly {p : Slot} {rs : List QueueRef} {i : Int}
    (ran : removeProcFrom p rs s = .ok (s', i)) : TicksOnly s s' := by
  induction rs with
  | nil =>
    cases ran
    exact TicksOnly.refl s
  | cons r rest ih =>
    unfold removeProcFrom at ran
    obtain ⟨⟨q, j⟩, -, next⟩ := bind_eq_ok ran
    dsimp only at next
    split at next
    · cases next
      exact ticksOnly_setLevel _ _ _
    · exact ih next

/-- One iteration of the drain loops: a refill, an unqueue and maybe an enqueue. -/
theorem drainBody_ticksOnly {q : QueueRef} {held : Option Slot} {activeStart : Proc → Int}
    (ran : drainBody cfg q held activeStart s = .ok s') : TicksOnly s s' := by
  unfold drainBody at ran
  obtain ⟨⟨s₁, i⟩, unqueued, next⟩ := bind_eq_ok ran
  have front := (ticksOnly_setTicks s _ fun _ => cfg.procQuantum).trans (unqueue_ticksOnly unqueued)
  dsimp only at next
  split at next
  · cases next
    exact front
  · obtain ⟨nq, -, enqueued⟩ := bind_eq_ok next
    exact front.trans (enqueue_ticksOnly enqueued)

theorem drain_ticksOnly {q : QueueRef} {held : Option Slot} {activeStart : Proc → Int} {fuel : Nat}
    (ran : drain cfg q held activeStart fuel s = .ok s') : TicksOnly s s' := by
  rw [drain_eq_loop] at ran
  exact loop_rel TicksOnly.refl TicksOnly.trans (fun _ _ _ body => drainBody_ticksOnly body)
    fuel s s' ran

theorem requeueDepleted_ticksOnly {p : Slot} {q : QueueRef} (ran : requeueDepleted cfg s p q = .ok s') :
    TicksOnly s s' := by
  unfold requeueDepleted at ran
  obtain ⟨s₁, drained, next⟩ := bind_eq_ok ran
  have first := drain_ticksOnly drained
  split at next
  · obtain ⟨nq, -, enqueued⟩ := bind_eq_ok next
    exact first.trans (enqueue_ticksOnly enqueued)
  · cases next
    exact first

theorem reenqueue_ticksOnly {p : Slot} {q : QueueRef} {nk : Int} (ran : reenqueue cfg s p q nk = .ok s') :
    TicksOnly s s' := by
  unfold reenqueue at ran
  obtain ⟨⟨s₁, i⟩, unqueued, next⟩ := bind_eq_ok ran
  have first := unqueue_ticksOnly unqueued
  dsimp only at next
  split at next
  · cases next
  · obtain ⟨nq, -, enqueued⟩ := bind_eq_ok next
    have refilled : TicksOnly s₁ (if isExpiredSet cfg s₁ nq then
        s₁.modifyProc p fun pr => { pr with ticksLeft := cfg.procQuantum } else s₁) := by
      split
      · exact ticksOnly_setTicks _ _ fun _ => cfg.procQuantum
      · exact TicksOnly.refl _
    exact first.trans (refilled.trans (enqueue_ticksOnly enqueued))

theorem requeueLevel_ticksOnly {p : Slot} {q : QueueRef} (ran : requeueLevel cfg s p q = .ok s') :
    TicksOnly s s' := by
  unfold requeueLevel at ran
  by_cases spent : (s.proc p).ticksLeft ≤ 0
  · simp only [spent, ↓reduceIte] at ran
    have refill := ticksOnly_setTicks s p fun _ => cfg.procQuantum
    split at ran
    · exact refill.trans (reenqueue_ticksOnly ran)
    · cases ran
      exact refill
  · simp only [spent, ↓reduceIte] at ran
    split at ran
    · exact reenqueue_ticksOnly ran
    · cases ran
      exact TicksOnly.refl s

theorem refillAndDrain_ticksOnly {k : Nat} (ran : refillAndDrain cfg s k = .ok s') : TicksOnly s s' :=
  (ticksOnly_setLevel s _ _).trans (drain_ticksOnly ran)

theorem swapSets_ticksOnly (ran : swapSets cfg s = .ok s') : TicksOnly s s' := by
  unfold swapSets at ran
  -- the pointer swap moves whole rows; no process is touched
  have swapped : TicksOnly s { s with active := s.expired, expired := s.active } :=
    TicksOnly.of_proc rfl rfl rfl rfl
  exact swapped.trans (foldlM_rel TicksOnly.refl TicksOnly.trans _
    (fun _ _ _ _ drained => refillAndDrain_ticksOnly drained) _ _ ran)

end TicksOnly

theorem requeue_ticksOnly {s s' : Kernel Cpu} {p : Slot} {q : QueueRef}
    (ran : requeue cfg s p q = .ok s') : TicksOnly s s' := by
  unfold requeue at ran
  dsimp only at ran
  -- the requeue proper, then `c->proc = 0` and `c->queue = NULL`
  have idle : ∀ s₁ : Kernel Cpu, TicksOnly s₁ { s₁ with cpu := Cpu.idle } := fun s₁ =>
    TicksOnly.of_proc rfl rfl rfl rfl
  split at ran
  · obtain ⟨s₁, requeued, done⟩ := bind_eq_ok ran
    cases done
    exact (requeueDepleted_ticksOnly requeued).trans (idle s₁)
  · obtain ⟨s₁, requeued, done⟩ := bind_eq_ok ran
    cases done
    exact (requeueLevel_ticksOnly requeued).trans (idle s₁)

/-! ### Quiet events -/

/-- No process is created, ends or is freed, and no parent link moves: every process
keeps its pid and its parent, and keeps its state or moves between `SLEEPING`,
`RUNNABLE` and `RUNNING`; no `priofork` moves on. -/
structure Steady (s s' : Kernel Cpu) : Prop where
  nextpid : s'.nextpid = s.nextpid
  initproc : s'.initproc = s.initproc
  pid : ∀ x, (s'.proc x).pid = (s.proc x).pid
  parent : ∀ x, (s'.proc x).parent = (s.proc x).parent
  state : ∀ x, (s'.proc x).state = (s.proc x).state ∨
    ((s.proc x).state.queued = true ∧ (s'.proc x).state.queued = true)
  forks : s'.forks = s.forks

/-- A steady event after which only processes that slept before sleep, each on the
channel it slept on. -/
structure Quiet (s s' : Kernel Cpu) : Prop extends Steady s s' where
  asleep : ∀ x, (s'.proc x).state = .sleeping →
    (s.proc x).state = .sleeping ∧ (s'.proc x).chan = (s.proc x).chan

section Quiet

variable {s s' t : Kernel Cpu}

theorem Steady.queued (steady : Steady s s') (x : Slot) :
    (s'.proc x).state.queued = (s.proc x).state.queued := by
  rcases steady.state x with same | ⟨before, after⟩
  · rw [same]
  · rw [before, after]

/-- A steady event keeps every process in a state outside the queued ones where it was. -/
theorem Steady.state_iff (steady : Steady s s') (x : Slot) {st : ProcState}
    (outside : st.queued = false) : (s'.proc x).state = st ↔ (s.proc x).state = st := by
  rcases steady.state x with same | ⟨before, after⟩
  · rw [same]
  · refine ⟨fun at' => ?_, fun at₀ => ?_⟩
    · rw [← at', after] at outside
      cases outside
    · rw [← at₀, before] at outside
      cases outside

theorem Steady.unused_iff (steady : Steady s s') (x : Slot) :
    (s'.proc x).state = .unused ↔ (s.proc x).state = .unused :=
  steady.state_iff x rfl

theorem Steady.refl (s : Kernel Cpu) : Steady s s :=
  ⟨rfl, rfl, fun _ => rfl, fun _ => rfl, fun _ => .inl rfl, rfl⟩

theorem Steady.trans (first : Steady s t) (second : Steady t s') : Steady s s' := by
  refine ⟨second.nextpid.trans first.nextpid, second.initproc.trans first.initproc,
    fun x => (second.pid x).trans (first.pid x), fun x => (second.parent x).trans (first.parent x),
    fun x => ?_, second.forks.trans first.forks⟩
  rcases first.state x with same | ⟨before, mid⟩ <;> rcases second.state x with same' | ⟨mid', after⟩
  · exact .inl (same'.trans same)
  · exact .inr ⟨same ▸ mid', after⟩
  · exact .inr ⟨before, by rw [same']; exact mid⟩
  · exact .inr ⟨before, after⟩

theorem Quiet.refl (s : Kernel Cpu) : Quiet s s :=
  ⟨Steady.refl s, fun _ asleep => ⟨asleep, rfl⟩⟩

theorem Quiet.trans (first : Quiet s t) (second : Quiet t s') : Quiet s s' := by
  refine ⟨first.toSteady.trans second.toSteady, fun x asleep => ?_⟩
  obtain ⟨mid, chan⟩ := second.asleep x asleep
  obtain ⟨before, chan'⟩ := first.asleep x mid
  exact ⟨before, chan.trans chan'⟩

theorem TicksOnly.quiet (only : TicksOnly s s') : Quiet s s' :=
  ⟨⟨only.nextpid, only.initproc, only.pid, only.parent, fun x => .inl (only.state x), only.forks⟩,
    fun x asleep => ⟨only.state x ▸ asleep, only.chan x⟩⟩

@[simp] theorem wakeup1_proc (s : Kernel C) (ch : Option Chan) (x : Slot) :
    (wakeup1 s ch).proc x = if (s.proc x).state = .sleeping ∧ (s.proc x).chan = ch then
      { s.proc x with state := .runnable } else s.proc x := rfl

@[simp] theorem wakeup1_nextpid (s : Kernel C) (ch : Option Chan) :
    (wakeup1 s ch).nextpid = s.nextpid := rfl

@[simp] theorem wakeup1_initproc (s : Kernel C) (ch : Option Chan) :
    (wakeup1 s ch).initproc = s.initproc := rfl

/-- `wakeup1(chan)` wakes every sleeper on `chan` and nobody else. -/
theorem quiet_wakeup1 (s : Kernel Cpu) (ch : Option Chan) : Quiet s (wakeup1 s ch) := by
  refine ⟨⟨rfl, rfl, fun x => ?_, fun x => ?_, fun x => ?_, rfl⟩, fun x => ?_⟩ <;>
    by_cases asleep : (s.proc x).state = .sleeping ∧ (s.proc x).chan = ch <;>
    simp [asleep, ProcState.queued]

/-- After `wakeup1(chan)` nobody sleeps on `chan`. -/
theorem wakeup1_awake (s : Kernel C) (ch : Option Chan) (x : Slot)
    (asleep : ((wakeup1 s ch).proc x).state = .sleeping) : ((wakeup1 s ch).proc x).chan ≠ ch := by
  by_cases woken : (s.proc x).state = .sleeping ∧ (s.proc x).chan = ch
  · simp [woken] at asleep
  · simp only [wakeup1_proc, woken, ↓reduceIte] at asleep ⊢
    exact fun same => woken ⟨asleep, same⟩

/-- An update of one process that keeps its pid and parent, moves its state within the
queued states or not at all, and puts nobody to sleep. -/
theorem quiet_modifyProc (x : Slot) (f : Proc → Proc) (pid : (f (s.proc x)).pid = (s.proc x).pid)
    (parent : (f (s.proc x)).parent = (s.proc x).parent)
    (state : (f (s.proc x)).state = (s.proc x).state ∨
      ((s.proc x).state.queued = true ∧ (f (s.proc x)).state.queued = true))
    (asleep : (f (s.proc x)).state = .sleeping →
      (s.proc x).state = .sleeping ∧ (f (s.proc x)).chan = (s.proc x).chan) :
    Quiet s (s.modifyProc x f) := by
  refine ⟨⟨rfl, rfl, fun y => ?_, fun y => ?_, fun y => ?_, rfl⟩, fun y => ?_⟩ <;>
    by_cases same : y = x
  -- at `x` the four facts about the update; elsewhere nothing changed
  all_goals first
    | subst same; simpa only [Kernel.modifyProc_proc, ↓reduceIte]
    | simp [same]

theorem quiet_yield {x : Slot} (running : (s.proc x).state = .running) : Quiet s (yield s x) :=
  quiet_modifyProc x _ rfl rfl (.inr ⟨by rw [running]; rfl, rfl⟩) (fun asleep => by cases asleep)

/-- `kill` sets `killed` and wakes its target: a `SLEEPING` one becomes `RUNNABLE`. -/
theorem quiet_kill (s : Kernel Cpu) (pid : Int) : Quiet s (kill s pid).1 := by
  unfold kill
  split
  · exact Quiet.refl s
  · rename_i x _
    dsimp only
    -- a sleeper is woken, anyone else keeps its state
    refine quiet_modifyProc x _ rfl rfl ?_ ?_ <;>
      by_cases slept : (s.proc x).state = .sleeping <;> simp [slept, ProcState.queued]

/-- `sleep(chan)` by the running `x`. -/
theorem steady_sleep {x : Slot} (running : (s.proc x).state = .running) (ch : Chan) :
    Steady s (sleep s x ch) := by
  refine ⟨rfl, rfl, fun y => ?_, fun y => ?_, fun y => ?_, rfl⟩ <;> by_cases same : y = x
  all_goals try subst y
  all_goals simp_all [sleep, ProcState.queued]

end Quiet

/-! ### What the scheduler writes -/

/-- What the scheduler's own code and an interrupt's `wakeup` write in the process table:
a quiet change that also keeps every process's sleep channel, `killed` flag and
`default_level`. Of the fields of `struct proc` only `state` and `ticks_left` change. -/
structure Scheduled (s s' : Kernel Cpu) : Prop extends Quiet s s' where
  chan : ∀ x, (s'.proc x).chan = (s.proc x).chan
  killed : ∀ x, (s'.proc x).killed = (s.proc x).killed
  defaultLevel : ∀ x, (s'.proc x).defaultLevel = (s.proc x).defaultLevel

section Scheduled

variable {s s' t : Kernel Cpu}

theorem Scheduled.refl (s : Kernel Cpu) : Scheduled s s :=
  ⟨Quiet.refl s, fun _ => rfl, fun _ => rfl, fun _ => rfl⟩

theorem Scheduled.trans (first : Scheduled s t) (second : Scheduled t s') : Scheduled s s' :=
  ⟨first.toQuiet.trans second.toQuiet, fun x => (second.chan x).trans (first.chan x),
    fun x => (second.killed x).trans (first.killed x),
    fun x => (second.defaultLevel x).trans (first.defaultLevel x)⟩

theorem TicksOnly.scheduled (only : TicksOnly s s') : Scheduled s s' :=
  ⟨only.quiet, only.chan, only.killed, only.defaultLevel⟩

theorem scheduled_wakeup1 (s : Kernel Cpu) (ch : Option Chan) : Scheduled s (wakeup1 s ch) := by
  refine ⟨quiet_wakeup1 s ch, fun x => ?_, fun x => ?_, fun x => ?_⟩ <;>
    by_cases asleep : (s.proc x).state = .sleeping ∧ (s.proc x).chan = ch <;> simp [asleep]

/-- A move of one process between the queued states that puts nobody to sleep. -/
theorem scheduled_setState (x : Slot) {st : ProcState} (before : (s.proc x).state.queued = true)
    (after : st.queued = true) (awake : st ≠ .sleeping) :
    Scheduled s (s.modifyProc x fun pr => { pr with state := st }) := by
  refine ⟨quiet_modifyProc x _ rfl rfl (.inr ⟨before, after⟩) (fun asleep => absurd asleep awake),
    fun y => ?_, fun y => ?_, fun y => ?_⟩ <;>
    by_cases same : y = x <;> simp [same]

theorem scheduled_yield {x : Slot} (running : (s.proc x).state = .running) :
    Scheduled s (yield s x) :=
  scheduled_setState x (by rw [running]; rfl) rfl (by decide)

theorem scheduled_dispatch {k : Nat} {p : Slot} (runnable : (s.proc p).state = .runnable) :
    Scheduled s (dispatch s k p) := by
  unfold dispatch
  -- `c->proc` and `c->queue` are the CPU's, which `Scheduled` does not read
  refine Scheduled.trans
    (show TicksOnly s { s with cpu := ⟨some p, some (s.active, k)⟩ } from
      TicksOnly.of_proc rfl rfl rfl rfl).scheduled ?_
  exact scheduled_setState p (by show (s.proc p).state.queued = true; rw [runnable]; rfl) rfl
    (by decide)

end Scheduled

/-- The timer case of `trap()`: the wakeup on `&ticks`, the charge of one tick, and the
yield when the process or its level has run out. -/
theorem timer_scheduled {cpuid : Nat} {s s' : Kernel Cpu} (ran : timer cpuid s = .ok s') :
    Scheduled s s' := by
  have woken : Scheduled s (if cpuid = 0 then wakeup s .ticks else s) := by
    split
    · exact scheduled_wakeup1 s _
    · exact Scheduled.refl s
  unfold timer at ran
  generalize (if cpuid = 0 then wakeup s .ticks else s) = s₁ at woken ran
  dsimp only at ran
  cases onCpu : s₁.cpu.proc with
  | none =>
    rw [onCpu] at ran
    cases ran
    exact woken
  | some p =>
    rw [onCpu] at ran
    dsimp only at ran
    split at ran
    · cases ran
      exact woken
    rename_i running
    cases queue : s₁.cpu.queue with
    | none =>
      rw [queue] at ran
      cases ran
    | some q =>
      rw [queue] at ran
      dsimp only at ran
      -- the charge of one tick to `p` and to `q`, and the yield when either runs out
      have charged := (ticksOnly_setTicks s₁ p fun ticks => ticks - 1).trans (ticksOnly_setLevel _ q
        { (s₁.level q) with ticksLeft := (s₁.level q).ticksLeft - 1 })
      split at ran <;> cases ran
      · have stillRunning := charged.state p
        rw [not_not.mp running] at stillRunning
        exact woken.trans (charged.scheduled.trans (scheduled_yield stillRunning))
      · exact woken.trans charged.scheduled

/-- One iteration of `scheduler()` up to its dispatch, or its set swap. -/
theorem scheduler_scheduled {s s' : Kernel Cpu} (ran : scheduler cfg s = .ok s') :
    Scheduled s s' := by
  unfold scheduler at ran
  split at ran
  · rename_i k p found
    cases ran
    have ready := (pick_eq_some found).2.2.2
    simp only [Kernel.ready, Bool.and_eq_true, decide_eq_true_eq] at ready
    exact scheduled_dispatch ready.1
  · exact (swapSets_ticksOnly ran).scheduled

/-! ### `exit`'s hand-over of the children -/

section Reparent

variable {s t u : Kernel C} {c : Slot} {l l₁ l₂ done : List Slot}

/-- The children of `c` among the slots `l` are passed to `initproc`, some sleepers are
woken, and when one of those children is a zombie nobody sleeps on `initproc` any more. -/
structure Reparented (s t : Kernel C) (c : Slot) (l : List Slot) : Prop where
  nextpid : t.nextpid = s.nextpid
  initproc : t.initproc = s.initproc
  pid : ∀ x, (t.proc x).pid = (s.proc x).pid
  chan : ∀ x, (t.proc x).chan = (s.proc x).chan
  state : ∀ x, (t.proc x).state = (s.proc x).state ∨
    ((s.proc x).state = .sleeping ∧ (t.proc x).state = .runnable)
  parent : ∀ x, (t.proc x).parent =
    if (s.proc x).parent = some c ∧ x ∈ l then s.initproc else (s.proc x).parent
  woken : (∃ y ∈ l, (s.proc y).parent = some c ∧ (s.proc y).state = .zombie) →
    ∀ x, (t.proc x).state = .sleeping → (t.proc x).chan ≠ s.initproc.map .proc
  forks : t.forks = s.forks

theorem Reparented.refl (s : Kernel C) (c : Slot) : Reparented s s c [] :=
  ⟨rfl, rfl, fun _ => rfl, fun _ => rfl, fun _ => .inl rfl, fun _ => by simp,
    fun ⟨_, absent, _⟩ => absurd absent List.not_mem_nil, rfl⟩

/-- Whoever sleeps afterwards slept before, on the same channel. -/
theorem Reparented.asleep (handed : Reparented s t c l) (x : Slot)
    (asleep : (t.proc x).state = .sleeping) :
    (s.proc x).state = .sleeping ∧ (t.proc x).chan = (s.proc x).chan := by
  refine ⟨?_, handed.chan x⟩
  rcases handed.state x with same | ⟨-, woken⟩
  · exact same ▸ asleep
  · rw [woken] at asleep
    cases asleep

/-- Only sleepers are woken, so the zombies stay the same. -/
theorem Reparented.zombie_iff (handed : Reparented s t c l) (x : Slot) :
    (t.proc x).state = .zombie ↔ (s.proc x).state = .zombie := by
  rcases handed.state x with same | ⟨asleep, woken⟩
  · rw [same]
  · simp [asleep, woken]

theorem TicksOnly.reparented (only : TicksOnly s t) (c : Slot) : Reparented s t c [] :=
  ⟨only.nextpid, only.initproc, only.pid, only.chan, fun x => .inl (only.state x),
    fun x => by simp [only.parent x], fun ⟨_, absent, _⟩ => absurd absent List.not_mem_nil, only.forks⟩

theorem wakeup1_reparented (s : Kernel C) (ch : Option Chan) (c : Slot) :
    Reparented s (wakeup1 s ch) c [] := by
  refine ⟨rfl, rfl, fun x => ?_, fun x => ?_, fun x => ?_, fun x => ?_,
    fun ⟨_, absent, _⟩ => absurd absent List.not_mem_nil, rfl⟩ <;>
    by_cases asleep : (s.proc x).state = .sleeping ∧ (s.proc x).chan = ch <;>
    simp [wakeup1, asleep]

theorem Reparented.trans (first : Reparented s t c l₁) (second : Reparented t u c l₂) :
    Reparented s u c (l₁ ++ l₂) := by
  refine ⟨second.nextpid.trans first.nextpid, second.initproc.trans first.initproc,
    fun x => (second.pid x).trans (first.pid x), fun x => (second.chan x).trans (first.chan x),
    fun x => ?_, fun x => ?_, ?_, second.forks.trans first.forks⟩
  · rcases first.state x with same | ⟨asleep, woken⟩
    · rw [← same]
      exact second.state x
    · -- a process woken by the first part is not asleep for the second
      have kept : (u.proc x).state = (t.proc x).state := by
        rcases second.state x with same' | ⟨asleep', -⟩
        · exact same'
        · rw [woken] at asleep'
          cases asleep'
      exact .inr ⟨asleep, kept.trans woken⟩
  · -- a child handed over by the first part has `initproc` as its parent from then on,
    -- whether or not the second part hands it over again
    rw [second.parent x, first.parent x, first.initproc]
    by_cases mine : (s.proc x).parent = some c <;> by_cases early : x ∈ l₁ <;>
      by_cases late : x ∈ l₂ <;> simp [mine, early, late]
  · rintro ⟨y, member, child, zombie⟩ x asleep
    rw [List.mem_append] at member
    by_cases early : y ∈ l₁
    · obtain ⟨asleep', chan⟩ := second.asleep x asleep
      rw [chan]
      exact first.woken ⟨y, early, child, zombie⟩ x asleep'
    · have late : y ∈ l₂ := member.resolve_left early
      have child' : (t.proc y).parent = some c := by simp [first.parent y, early, child]
      have zombie' := (first.zombie_iff y).mpr zombie
      rw [← first.initproc]
      exact second.woken ⟨y, late, child', zombie'⟩ x asleep

/-- A loop that hands over the children of `c` among the slot it looks at, one slot at a
time, hands over those among all the slots it looks at. -/
theorem Reparented.foldl {f : Kernel C → Slot → Kernel C} (each : ∀ t p, Reparented t (f t p) c [p])
    (todo : List Slot) (start : Reparented s t c done) :
    Reparented s (todo.foldl f t) c (done ++ todo) := by
  induction todo generalizing t done with
  | nil => simpa using start
  | cons p rest ih => simpa using ih (start.trans (each t p))

/-- `exit`'s loop: every child of `c` gets `initproc` as its parent, and `initproc` is woken
when one of them is a zombie. -/
theorem reparent_reparented (s : Kernel C) (c : Slot) :
    Reparented s (reparent s c) c (List.finRange NPROC) := by
  refine Reparented.foldl (fun t p => ?_) _ (Reparented.refl s c)
  dsimp only
  split
  · rename_i mine
    split
    · -- a zombie child: `wakeup1(initproc)`
      rename_i zombie
      refine ⟨rfl, rfl, fun x => ?_, fun x => ?_, fun x => ?_, fun x => ?_, ?_, rfl⟩
      · by_cases same : x = p <;> simp [wakeup1, same] <;> split <;> rfl
      · by_cases same : x = p <;> simp [wakeup1, same] <;> split <;> rfl
      · by_cases same : x = p <;> simp [wakeup1, same] <;> split <;> simp_all
      · by_cases same : x = p <;> simp [wakeup1, same] <;> split <;> simp_all
      · rintro - x asleep
        exact wakeup1_awake _ _ x asleep
    · rename_i alive
      refine ⟨rfl, rfl, fun x => ?_, fun x => ?_, fun x => .inl ?_, fun x => ?_, ?_, rfl⟩
      · by_cases same : x = p <;> simp [same]
      · by_cases same : x = p <;> simp [same]
      · by_cases same : x = p <;> simp [same]
      · by_cases same : x = p
        · subst x
          simp [mine]
        · simp [same]
      · rintro ⟨y, member, -, zombie⟩
        rw [List.mem_singleton] at member
        subst y
        simp at alive
        exact absurd zombie alive
  · rename_i other
    refine ⟨rfl, rfl, fun _ => rfl, fun _ => rfl, fun _ => .inl rfl, fun x => ?_, ?_, rfl⟩
    · by_cases same : x = p
      · subst x
        simp [other]
      · simp [same]
    · rintro ⟨y, member, child, -⟩
      rw [List.mem_singleton] at member
      subst y
      exact absurd child other

end Reparent

/-! ### The calls that create, end and free processes -/

/-- `allocproc` took the free slot `c` for the next pid, and advanced `nextpid` as the
32-bit `int` it is; `c` keeps its parent and its `killed` flag, which neither `allocproc`
nor `fork` writes, and no other slot changed. -/
structure Taken (s s' : Kernel Cpu) (c : Slot) : Prop where
  fresh : (s.proc c).state = .unused
  nextpid : s'.nextpid = wrapInt (s.nextpid + 1)
  pid : (s'.proc c).pid = s.nextpid
  killed : (s'.proc c).killed = (s.proc c).killed
  parent : (s'.proc c).parent = (s.proc c).parent
  others : ∀ y, y ≠ c → s'.proc y = s.proc y

/-- `userinit`: the first process, `RUNNABLE` in the slot `c`, is `initproc`. -/
structure Started (s s' : Kernel Cpu) (c : Slot) : Prop extends Taken s s' c where
  runnable : (s'.proc c).state = .runnable
  noInit : s.initproc = none
  initproc : s'.initproc = some c
  forks : s'.forks = s.forks

/-- The first section of `priofork(level)` by the running `x`: the slot `c` is an
`EMBRYO`, and `x` keeps it and the level, which passed its range checks, on its stack. -/
structure Began (cfg : Config) (s s' : Kernel Cpu) (x c : Slot) (level : Int) : Prop
    extends Taken s s' c where
  embryo : (s'.proc c).state = .embryo
  running : (s.proc x).state = .running
  idle : s.forks x = none
  range : 0 ≤ level ∧ level < cfg.levels
  initproc : s'.initproc = s.initproc
  forks : s'.forks = Function.update s.forks x (some ⟨c, level, false⟩)

/-- A later part of the `priofork` of the running `x`, which stands at `f`: the child
`f.np` changes by `g`, no other slot changes, and `x` keeps `next` on its stack. -/
structure Forked (s s' : Kernel Cpu) (x : Slot) (f : Forking) (g : Proc → Proc)
    (next : Option Forking) : Prop where
  running : (s.proc x).state = .running
  held : s.forks x = some f
  child : s'.proc f.np = g (s.proc f.np)
  others : ∀ y, y ≠ f.np → s'.proc y = s.proc y
  nextpid : s'.nextpid = s.nextpid
  initproc : s'.initproc = s.initproc
  forks : s'.forks = Function.update s.forks x next

/-- A field that `g` keeps is the same in every slot after a later part of a `priofork`. -/
theorem Forked.field_eq {α : Type} {s s' : Kernel Cpu} {x : Slot} {f : Forking} {g : Proc → Proc}
    {next : Option Forking} (forked : Forked s s' x f g next) (field : Proc → α)
    (keeps : ∀ pr, field (g pr) = field pr) (y : Slot) : field (s'.proc y) = field (s.proc y) := by
  by_cases same : y = f.np
  · subst y
    rw [forked.child, keeps]
  · rw [forked.others y same]

/-- `wait` by the running `p` freed its zombie child `z`, as static storage is. -/
structure Reaped (s s' : Kernel Cpu) (p z : Slot) : Prop where
  running : (s.proc p).state = .running
  child : (s.proc z).parent = some p
  zombie : (s.proc z).state = .zombie
  freed : s'.proc z = { s.proc z with pid := 0, parent := none, killed := false, state := .unused }
  others : ∀ y, y ≠ z → s'.proc y = s.proc y
  nextpid : s'.nextpid = s.nextpid
  initproc : s'.initproc = s.initproc
  forks : s'.forks = s.forks

/-- `exit` by the running `c`, which is not `initproc` and not inside a `priofork`: `c` is
a zombie, its children are `initproc`'s, and nobody sleeps on `c`'s parent, nor on
`initproc` when one of the children was a zombie already. Every other process keeps its
state or is woken. -/
structure Exited (s s' : Kernel Cpu) (c : Slot) : Prop where
  running : (s.proc c).state = .running
  notInit : s.initproc ≠ some c
  idle : s.forks c = none
  nextpid : s'.nextpid = s.nextpid
  initproc : s'.initproc = s.initproc
  pid : ∀ x, (s'.proc x).pid = (s.proc x).pid
  chan : ∀ x, (s'.proc x).chan = (s.proc x).chan
  parent : ∀ x, (s'.proc x).parent =
    if (s.proc x).parent = some c then s.initproc else (s.proc x).parent
  zombie : (s'.proc c).state = .zombie
  state : ∀ x, x ≠ c → (s'.proc x).state = (s.proc x).state ∨
    ((s.proc x).state = .sleeping ∧ (s'.proc x).state = .runnable)
  parentAwake : ∀ x, (s'.proc x).state = .sleeping →
    (s'.proc x).chan ≠ (s.proc c).parent.map .proc
  initAwake : (∃ y, (s.proc y).parent = some c ∧ (s.proc y).state = .zombie) →
    ∀ x, (s'.proc x).state = .sleeping → (s'.proc x).chan ≠ s.initproc.map .proc
  forks : s'.forks = s.forks

theorem Exited.queued {s s' : Kernel Cpu} {c x : Slot} (exited : Exited s s' c) (ne : x ≠ c) :
    (s'.proc x).state.queued = (s.proc x).state.queued := by
  rcases exited.state x ne with same | ⟨asleep, woken⟩
  · rw [same]
  · rw [asleep, woken]
    rfl

/-- `exit` frees no slot: its caller becomes a zombie, and the others at most wake. -/
theorem Exited.unused_iff {s s' : Kernel Cpu} {c : Slot} (exited : Exited s s' c) (x : Slot) :
    (s'.proc x).state = .unused ↔ (s.proc x).state = .unused := by
  by_cases same : x = c
  · subst x
    simp [exited.zombie, exited.running]
  · rcases exited.state x same with same' | ⟨asleep, woken⟩
    · rw [same']
    · simp [asleep, woken]

section Calls

variable {s s' : Kernel Cpu}

theorem taken_taken {c : Slot} (fresh : (s.proc c).state = .unused) : Taken s (taken cfg s c) c :=
  ⟨fresh, rfl, by simp [taken_proc], by simp [taken_proc], by simp [taken_proc],
    fun y other => by simp [taken_proc, other]⟩

/-- `userinit` creates `initproc`, `RUNNABLE`. -/
theorem userinit_started (noInit : s.initproc = none) (ran : userinit cfg s = .ok s') :
    ∃ c, Started s s' c := by
  unfold userinit at ran
  split at ran
  · cases ran
  · rename_i s₁ c alloc
    obtain ⟨fresh, rfl⟩ := allocproc_true_some alloc
    obtain ⟨q, -, enqueued⟩ := bind_eq_ok ran
    obtain ⟨-, rfl⟩ := enqueue_eq_ok enqueued
    have taken : Taken s (taken cfg s c) c := taken_taken fresh
    exact ⟨c, ⟨fresh, taken.nextpid, by simp [taken_proc], by simp [taken_proc], by simp [taken_proc],
      fun y other => by simp [taken_proc, other]⟩, by simp, noInit, rfl, rfl⟩

/-- The first section of `priofork` by the running `x`, outside a `priofork`: nothing, when
the level is out of range or the table is full, or a slot taken for the child. -/
theorem prioforkBegin_life {x : Slot} {level : Int} (running : (s.proc x).state = .running)
    (idle : s.forks x = none) :
    prioforkBegin cfg s x level = s ∨ ∃ c, Began cfg s (prioforkBegin cfg s x level) x c level := by
  unfold prioforkBegin
  split
  · exact .inl rfl
  split
  · exact .inl rfl
  rename_i high low
  split
  · rename_i s₁ alloc
    exact .inl (allocprocLocked_none alloc).1
  · rename_i s₁ c alloc
    obtain ⟨fresh, rfl⟩ := allocprocLocked_some alloc
    have taken : Taken s (taken cfg s c) c := taken_taken fresh
    exact .inr ⟨c, ⟨⟨fresh, taken.nextpid, by simp [taken_proc], by simp [taken_proc],
      by simp [taken_proc], fun y other => by simp [taken_proc, other]⟩, by simp [taken_proc],
      running, idle, ⟨by omega, by omega⟩, rfl, rfl⟩⟩

/-- The middle of the `priofork` of the running `x`: the child gets `x` as its parent, or
its slot is given back. -/
theorem prioforkMiddle_life {x : Slot} {f : Forking} (running : (s.proc x).state = .running)
    (held : s.forks x = some f) (kallocOk copyuvmOk : Bool) :
    Forked s (prioforkMiddle s x f kallocOk copyuvmOk) x f (fun pr => { pr with parent := some x })
        (some { f with copied := true }) ∨
      Forked s (prioforkMiddle s x f kallocOk copyuvmOk) x f (fun pr => { pr with state := .unused })
        none := by
  unfold prioforkMiddle prioforkCopy
  by_cases ok : (kallocOk && copyuvmOk) = true
  · rw [if_pos ok]
    exact .inl ⟨running, held, by simp, fun y other => by simp [other], rfl, rfl, rfl⟩
  · rw [if_neg ok]
    exact .inr ⟨running, held, by simp, fun y other => by simp [other], rfl, rfl, rfl⟩

/-- The second section of the `priofork` of the running `x`: the child is `RUNNABLE` at
its level. -/
theorem prioforkEnd_life {x : Slot} {f : Forking} (running : (s.proc x).state = .running)
    (held : s.forks x = some f) (ran : prioforkEnd cfg s x f = .ok s') :
    Forked s s' x f (fun pr => { pr with defaultLevel := f.defaultLevel, state := .runnable })
      none := by
  obtain ⟨s₁, enqueued, rfl⟩ := map_eq_ok ran
  unfold prioforkEnqueue at enqueued
  obtain ⟨q, -, enqueued⟩ := bind_eq_ok enqueued
  obtain ⟨-, rfl⟩ := enqueue_eq_ok enqueued
  exact ⟨running, held, by simp, fun y other => by simp [other], rfl, rfl, rfl⟩

/-- `exit` by the running `x`, outside a `priofork`. -/
theorem exit_exited {x : Slot} (running : (s.proc x).state = .running) (idle : s.forks x = none)
    (ran : exit cfg s x = .ok s') : Exited s s' x := by
  unfold exit at ran
  split at ran
  · cases ran
  rename_i notInit
  obtain ⟨⟨s₃, i⟩, removed, done⟩ := bind_eq_ok ran
  cases done
  -- waking the parent, the loop over the children and leaving the queues hand over the
  -- children of `x`, in one `Reparented` from `s` to `s₃`
  have woken := wakeup1_reparented s ((s.proc x).parent.map .proc) x
  have handed := woken.trans ((reparent_reparented _ x).trans
    ((removeProcFrom_ticksOnly removed).reparented x))
  have other {y : Slot} (asleep : ((s₃.modifyProc x fun pr => { pr with state := .zombie }).proc y).state
      = .sleeping) : y ≠ x ∧ (s₃.proc y).state = .sleeping := by
    by_cases same : y = x
    · subst y
      simp at asleep
    · simpa [same] using asleep
  refine ⟨running, notInit, idle, handed.nextpid, handed.initproc, fun y => ?_, fun y => ?_,
    fun y => ?_, by simp, fun y ne => ?_, fun y asleep => ?_, fun found y asleep => ?_,
    handed.forks⟩
  · by_cases same : y = x <;> simp [same, handed.pid]
  · by_cases same : y = x <;> simp [same, handed.chan]
  · by_cases same : y = x <;> simp [same, handed.parent]
  · simpa [ne] using handed.state y
  · -- whoever sleeps after `exit` slept after `wakeup1(parent)`, on the same channel
    obtain ⟨ne, asleep₃⟩ := other asleep
    have rest := (reparent_reparented _ x).trans ((removeProcFrom_ticksOnly removed).reparented x)
    obtain ⟨asleep₁, chan⟩ := rest.asleep y asleep₃
    simp only [Kernel.modifyProc_proc, ne, ↓reduceIte, chan]
    exact wakeup1_awake s _ y asleep₁
  · obtain ⟨ne, asleep₃⟩ := other asleep
    obtain ⟨z, child, zombie⟩ := found
    simp only [Kernel.modifyProc_proc, ne, ↓reduceIte]
    exact handed.woken ⟨z, by simp, child, zombie⟩ y asleep₃

/-- What `wait` by the running `x` does to the process table: nothing (it returns `-1`),
it frees a zombie child, or `x` sleeps on itself and has no zombie child. -/
theorem wait_life {x : Slot} (running : (s.proc x).state = .running) :
    (wait s x).1 = s ∨ (∃ z, Reaped s (wait s x).1 x z) ∨
      ((wait s x).1 = sleep s x (.proc x) ∧
        ∀ y, (s.proc y).parent = some x → (s.proc y).state ≠ .zombie) := by
  unfold wait
  split
  · rename_i z found
    have hit := List.find?_some found
    simp only [decide_eq_true_eq] at hit
    refine .inr (.inl ⟨z, running, hit.1, hit.2, by simp, fun y other => by simp [other], rfl, rfl,
      rfl⟩)
  · rename_i missed
    split
    · exact .inl rfl
    · refine .inr (.inr ⟨rfl, fun y child zombie => ?_⟩)
      have miss := List.find?_eq_none.mp missed y (List.mem_finRange y)
      simp [child, zombie] at miss

end Calls

/-! ### Every event -/

/-- The kinds of change an event makes to the process table. -/
inductive Life (cfg : Config) (s : Kernel Cpu) : Event → Kernel Cpu → Prop
  /-- Nobody is created, ends, is freed or goes to sleep. -/
  | quiet {e : Event} {s' : Kernel Cpu} (quiet : Quiet s s') : Life cfg s e s'
  /-- The running `x` calls `sleep(chan)`. -/
  | slept {x : Slot} {chan : Chan} (running : (s.proc x).state = .running) :
      Life cfg s (.sleep chan) (sleep s x chan)
  /-- The running `x` sleeps in `wait`, on itself, with no zombie child. -/
  | waited {x : Slot} (running : (s.proc x).state = .running)
      (noZombie : ∀ y, (s.proc y).parent = some x → (s.proc y).state ≠ .zombie) :
      Life cfg s .wait (sleep s x (.proc x))
  | started {e : Event} {s' : Kernel Cpu} {c : Slot} (started : Started s s' c) : Life cfg s e s'
  | began {e : Event} {s' : Kernel Cpu} {x c : Slot} {level : Int} (began : Began cfg s s' x c level) :
      Life cfg s e s'
  /-- `copyuvm` succeeded and the child `f.np` has its parent. -/
  | copied {e : Event} {s' : Kernel Cpu} {x : Slot} {f : Forking}
      (forked : Forked s s' x f (fun pr => { pr with parent := some x }) (some { f with copied := true }))
      (stage : f.copied = false) : Life cfg s e s'
  /-- `kalloc` or `copyuvm` failed and the child's slot is `UNUSED` again. -/
  | undone {e : Event} {s' : Kernel Cpu} {x : Slot} {f : Forking}
      (forked : Forked s s' x f (fun pr => { pr with state := .unused }) none)
      (stage : f.copied = false) : Life cfg s e s'
  /-- The child is `RUNNABLE` at its level. -/
  | released {e : Event} {s' : Kernel Cpu} {x : Slot} {f : Forking}
      (forked : Forked s s' x f (fun pr => { pr with defaultLevel := f.defaultLevel, state := .runnable })
        none)
      (stage : f.copied = true) : Life cfg s e s'
  | reaped {e : Event} {s' : Kernel Cpu} {p z : Slot} (reaped : Reaped s s' p z) : Life cfg s e s'
  | exited {e : Event} {s' : Kernel Cpu} {c : Slot} (exited : Exited s s' c) : Life cfg s e s'

theorem life_of_prioforkBegin {s : Kernel Cpu} {e : Event} {x : Slot} {level : Int}
    (running : (s.proc x).state = .running) (idle : s.forks x = none) :
    Life cfg s e (prioforkBegin cfg s x level) := by
  have life : prioforkBegin cfg s x level = s ∨
      ∃ c, Began cfg s (prioforkBegin cfg s x level) x c level :=
    prioforkBegin_life running idle
  rcases life with same | ⟨c, began⟩
  · rw [same]
    exact .quiet (Quiet.refl s)
  · exact .began began

/-- Every event that returns on any CPU makes one of the kinds of change of `Life`. -/
theorem execOn_life {cpuid : Nat} {s s' : Kernel Cpu} {e : Event}
    (ran : execOn cfg cpuid s e = some (.ok s')) : Life cfg s e s' := by
  cases e with
  | userinit =>
    simp only [execOn] at ran
    split at ran
    · rename_i noInit
      obtain ⟨c, started⟩ := userinit_started noInit (Option.some.inj ran)
      exact .started started
    · cases ran
  | priofork _ | fork =>
    obtain ⟨x, -, running, idle, forked⟩ := Kernel.caller_map_eq_some ran
    cases forked
    exact life_of_prioforkBegin running idle
  | forkCopy kallocOk copyuvmOk =>
    obtain ⟨x, f, -, running, held, stage, copied⟩ := Kernel.forking_map_eq_some ran
    cases copied
    rcases prioforkMiddle_life running held kallocOk copyuvmOk with forked | forked
    · exact .copied forked stage
    · exact .undone forked stage
  | forkEnqueue =>
    obtain ⟨x, f, -, running, held, stage, enqueued⟩ := Kernel.forking_map_eq_some ran
    exact .released (prioforkEnd_life running held enqueued) stage
  | exit =>
    obtain ⟨x, -, running, idle, exited⟩ := Kernel.caller_map_eq_some ran
    exact .exited (exit_exited running idle exited)
  | wait =>
    obtain ⟨x, -, running, -, waited⟩ := Kernel.caller_map_eq_some ran
    cases waited
    rcases wait_life running with same | ⟨z, reaped⟩ | ⟨slept, noZombie⟩
    · rw [same]
      exact .quiet (Quiet.refl s)
    · exact .reaped reaped
    · rw [slept]
      exact .waited running noZombie
  | sleep chan =>
    obtain ⟨x, -, running, -, slept⟩ := Kernel.caller_map_eq_some ran
    cases slept
    exact .slept running
  | kill pid =>
    obtain ⟨x, -, -, -, killed⟩ := Kernel.caller_map_eq_some ran
    cases killed
    exact .quiet (quiet_kill s pid)
  | yield =>
    obtain ⟨x, -, running, -, yielded⟩ := Kernel.caller_map_eq_some ran
    cases yielded
    exact .quiet (quiet_yield running)
  | wakeup chan =>
    simp only [execOn] at ran
    split at ran
    · cases ran
      exact .quiet (quiet_wakeup1 s _)
    · cases ran
  | timer =>
    simp only [execOn] at ran
    split at ran
    · exact .quiet (timer_scheduled (Option.some.inj ran)).toQuiet
    · cases ran
  | scheduler =>
    simp only [execOn] at ran
    split at ran
    · exact .quiet (scheduler_scheduled (Option.some.inj ran)).toQuiet
    · cases ran
  | requeue =>
    simp only [execOn] at ran
    split at ran
    · exact .quiet (requeue_ticksOnly (Option.some.inj ran)).quiet
    · cases ran

theorem exec_life {s s' : Kernel Cpu} {e : Event} (ran : exec cfg s e = some (.ok s')) :
    Life cfg s e s' :=
  execOn_life ran

/-- The scheduler's events (a timer tick, a pick with its dispatch or its set swap, a
requeue) and an interrupt's `wakeup` write no field of a process but `state` and
`ticks_left`: no pid, parent, sleep channel, `killed` flag or `default_level`, and neither
`nextpid` nor `initproc`. They move processes only between `SLEEPING`, `RUNNABLE` and
`RUNNING`, and put nobody to sleep. -/
theorem scheduler_frame {s s' : Kernel Cpu} {e : Event}
    (sched : e = .timer ∨ e = .scheduler ∨ e = .requeue ∨ ∃ chan, e = .wakeup chan)
    (ran : exec cfg s e = some (.ok s')) : Scheduled s s' := by
  rcases sched with rfl | rfl | rfl | ⟨chan, rfl⟩
  · rw [exec_timer_eq] at ran
    split at ran
    · exact timer_scheduled (Option.some.inj ran)
    · cases ran
  · rw [exec_scheduler_eq] at ran
    split at ran
    · exact scheduler_scheduled (Option.some.inj ran)
    · cases ran
  · rw [exec_requeue_eq] at ran
    split at ran
    · exact (requeue_ticksOnly (Option.some.inj ran)).scheduled
    · cases ran
  · rw [exec_wakeup_eq] at ran
    split at ran
    · cases ran
      exact scheduled_wakeup1 s _
    · cases ran

/-- `initproc` runs and takes a timer tick. -/
def tickedRun : Kernel Cpu := afterEvents rsdl [.userinit, .scheduler, .timer]

theorem scheduler_frame_tickedRun :
    (Event.timer = .timer ∨ Event.timer = .scheduler ∨ Event.timer = .requeue ∨
        ∃ chan, Event.timer = .wakeup chan) ∧
      exec rsdl (afterEvents rsdl [.userinit, .scheduler]) .timer = some (.ok tickedRun) ∧
      Scheduled (afterEvents rsdl [.userinit, .scheduler]) tickedRun := by
  have ran : exec rsdl (afterEvents rsdl [.userinit, .scheduler]) .timer = some (.ok tickedRun) := rfl
  exact ⟨.inl rfl, ran, scheduler_frame (.inl rfl) ran⟩

end Rsdl.Lifecycle
