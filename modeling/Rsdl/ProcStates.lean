import Rsdl.Staircase

/-! The process states of xv6 as a state machine. `Transition e st st'` is an edge of the
state diagram of `struct proc`'s `state`, with the event that takes it: `userinit` makes a
free slot `RUNNABLE`; the first section of `priofork` or `fork` makes one an `EMBRYO`, which
its middle gives back as `UNUSED` when `kalloc` or `copyuvm` fails and its second section
makes `RUNNABLE`; only the scheduler makes a process `RUNNING`; the running process gives
the CPU back by `yield` or the timer, sleeps by `sleep` or `wait`, or exits; `wakeup`, the
timer's `wakeup(&ticks)`, `exit`'s wakeups and `kill` wake sleepers, and only `wait` frees a
`ZOMBIE`. Every event from a reachable state moves every slot along one edge of its own,
or leaves it (`process_state_machine`).

So the kernel never runs a process the scheduler did not pick, never wakes a sleeper but
through `wakeup1` or `kill`, never brings a zombie back, and never puts a process to sleep
that was not running.

The edges out of `SLEEPING` are exact in their channels as well (`no_spurious_wakeup`): a
sleeper wakes only by a `wakeup` on its channel, by the timer when it sleeps on `ticks`, by
`exit` when it sleeps on the exiting process's parent or, through the loop that hands the
children to `initproc` (`InitWoken`), on `initproc` when one of those children is a
zombie, or by a `kill` of its pid. With `Wakeup.no_lost_wakeup` this is the whole contract
of `sleep` and `wakeup` between `wait` and `exit`. -/
namespace Rsdl.ProcStates

open ExceptRun Invariant ProcInv Preservation Lifecycle Forks Staircase

variable {cfg : Config} {t t' : Kernel Cpu}

/-- The edges of the process state machine, each with the events that take it. -/
inductive Transition : Event → ProcState → ProcState → Prop
  | stay {e : Event} {st : ProcState} : Transition e st st
  /-- `userinit` makes a free slot `RUNNABLE`. -/
  | userinit : Transition .userinit .unused .runnable
  /-- The first section of `priofork` or `fork` makes a free slot an `EMBRYO`... -/
  | allocate {level : Int} : Transition (.priofork level) .unused .embryo
  | forkAllocate : Transition .fork .unused .embryo
  /-- ...which the middle gives back when `kalloc` or `copyuvm` fails... -/
  | giveBack {kallocOk copyuvmOk : Bool} : Transition (.forkCopy kallocOk copyuvmOk) .embryo .unused
  /-- ...and the second section makes `RUNNABLE`. -/
  | release : Transition .forkEnqueue .embryo .runnable
  /-- The scheduler runs a `RUNNABLE` process. -/
  | dispatch : Transition .scheduler .runnable .running
  /-- The running process gives the CPU back, itself or on a timer interrupt. -/
  | yield : Transition .yield .running .runnable
  | preempt : Transition .timer .running .runnable
  /-- The running process sleeps, in `sleep` or in `wait`. -/
  | sleep {chan : Chan} : Transition (.sleep chan) .running .sleeping
  | waitSleep : Transition .wait .running .sleeping
  /-- A sleeper wakes: by `wakeup`, by the timer's `wakeup(&ticks)`, by `exit`'s wakeup of
  the parent or of `initproc`, or by `kill`. -/
  | wakeup {chan : Chan} : Transition (.wakeup chan) .sleeping .runnable
  | tickWakeup : Transition .timer .sleeping .runnable
  | exitWakeup : Transition .exit .sleeping .runnable
  | kill {pid : Int} : Transition (.kill pid) .sleeping .runnable
  /-- The running process exits. -/
  | exit : Transition .exit .running .zombie
  /-- `wait` frees a zombie child. -/
  | reap : Transition .wait .zombie .unused

theorem Transition.of_eq {e : Event} {before after : ProcState} (same : after = before) :
    Transition e before after := same ▸ .stay

/-- Only the scheduler makes a process `RUNNING`. -/
theorem Transition.into_running {e : Event} {before : ProcState}
    (edge : Transition e before .running) : before = .running ∨ e = .scheduler := by
  cases edge <;> simp

/-! ### The changes events make -/

/-- Changing the record of one slot along an edge moves that slot along it and no other. -/
theorem modifyProc_transition {e : Event} (t : Kernel Cpu) (x : Slot) {f : Proc → Proc}
    (edge : Transition e (t.proc x).state (f (t.proc x)).state) (y : Slot) :
    Transition e (t.proc y).state ((t.modifyProc x f).proc y).state := by
  by_cases same : y = x
  · subst y
    simpa using edge
  · simp only [Kernel.modifyProc_proc, if_neg same]
    exact .stay

/-- `wakeup1` makes sleepers `RUNNABLE` and touches no one else. -/
theorem wakeup1_transition {e : Event} (edge : Transition e .sleeping .runnable) (t : Kernel Cpu)
    (ch : Option Chan) (y : Slot) : Transition e (t.proc y).state ((wakeup1 t ch).proc y).state := by
  rw [wakeup1_proc]
  split
  · rename_i asleep
    rw [asleep.1]
    exact edge
  · exact .stay

/-- `wakeup1` makes nobody `RUNNING`. -/
theorem wakeup1_running {ch : Option Chan} {p : Slot}
    (running : ((wakeup1 t ch).proc p).state = .running) : (t.proc p).state = .running := by
  have edge := wakeup1_transition .tickWakeup t ch p
  rw [running] at edge
  rcases edge.into_running with same | picked
  · exact same
  · cases picked

theorem ticksOnly_transition {e : Event} (only : TicksOnly t t') (y : Slot) :
    Transition e (t.proc y).state (t'.proc y).state :=
  .of_eq (only.state y)

/-- `allocproc` moves the slot it takes out of `UNUSED`, and nobody else. -/
theorem taken_transition {e : Event} {c : Slot} {after : ProcState} (edge : Transition e .unused after)
    (taken : Taken t t' c) (state : (t'.proc c).state = after) (y : Slot) :
    Transition e (t.proc y).state (t'.proc y).state := by
  by_cases same : y = c
  · subst y
    rw [taken.fresh, state]
    exact edge
  · rw [taken.others y same]
    exact .stay

/-- A later part of a `priofork` moves only the child, along the edge `edge`. -/
theorem forked_transition {e : Event} {x : Slot} {f : Forking} {g : Proc → Proc}
    {next : Option Forking} (forked : Forked t t' x f g next)
    (edge : Transition e (t.proc f.np).state (t'.proc f.np).state) (y : Slot) :
    Transition e (t.proc y).state (t'.proc y).state := by
  by_cases same : y = f.np
  · subst y
    exact edge
  · rw [forked.others y same]
    exact .stay

theorem exit_transition {x : Slot} (running : (t.proc x).state = .running)
    (idle : t.forks x = none) (ran : exit cfg t x = .ok t') (y : Slot) :
    Transition .exit (t.proc y).state (t'.proc y).state := by
  have exited := exit_exited running idle ran
  by_cases same : y = x
  · subst y
    rw [running, exited.zombie]
    exact .exit
  · rcases exited.state y same with kept | ⟨asleep, woken⟩
    · exact .of_eq kept
    · rw [asleep, woken]
      exact .exitWakeup

theorem wait_transition {x : Slot} (running : (t.proc x).state = .running) (y : Slot) :
    Transition .wait (t.proc y).state ((wait t x).1.proc y).state := by
  rcases wait_life running with same | ⟨z, reaped⟩ | ⟨slept, -⟩
  · rw [same]
    exact .stay
  · by_cases freed : y = z
    · subst y
      rw [reaped.zombie, reaped.freed]
      exact .reap
    · rw [reaped.others y freed]
      exact .stay
  · rw [slept]
    exact modifyProc_transition t x (by rw [running]; exact .waitSleep) y

theorem kill_transition (t : Kernel Cpu) (pid : Int) (y : Slot) :
    Transition (.kill pid) (t.proc y).state ((kill t pid).1.proc y).state := by
  unfold kill
  split
  · exact .stay
  · rename_i p _
    dsimp only
    -- the killed process is woken if it sleeps, and keeps its state otherwise
    refine modifyProc_transition t p ?_ y
    split
    · rename_i asleep
      rw [asleep]
      exact .kill
    · exact .stay

/-- The timer wakes the sleepers on `ticks` and may send the running process back to
`RUNNABLE`. -/
theorem timer_transition (inv : Inv cfg t) {cpuid : Nat} (ran : timer cpuid t = .ok t')
    (y : Slot) : Transition .timer (t.proc y).state (t'.proc y).state := by
  have woken (y : Slot) : Transition .timer (t.proc y).state
      ((if cpuid = 0 then wakeup t .ticks else t).proc y).state := by
    split
    · exact wakeup1_transition .tickWakeup t _ y
    · exact .stay
  obtain ⟨u, rfl, -, rfl | ⟨p, k, -, running, -, charged⟩⟩ := timer_cases inv ran
  · exact woken y
  · by_cases same : y = p
    · subst y
      -- nobody the wakeup touches is running, so `p` was running before it
      have before : (t.proc p).state = .running := by
        split at running
        · exact wakeup1_running running
        · exact running
      rw [before]
      rcases charged.state with runnable | ⟨running', -⟩
      · rw [runnable]
        exact .preempt
      · rw [running']
        exact .stay
    · rw [charged.others y same]
      exact woken y

theorem scheduler_transition (ran : scheduler cfg t = .ok t') (y : Slot) :
    Transition .scheduler (t.proc y).state (t'.proc y).state := by
  unfold scheduler at ran
  split at ran
  · rename_i k p picked
    cases ran
    have ready := (pick_eq_some picked).2.2.2
    have runnable : (t.proc p).state = .runnable := by
      simp only [Kernel.ready, Bool.and_eq_true, decide_eq_true_eq] at ready
      exact ready.1
    refine modifyProc_transition { t with cpu := ⟨some p, some (t.active, k)⟩ } p ?_ y
    show Transition .scheduler (t.proc p).state .running
    rw [runnable]
    exact .dispatch
  · -- the swap moves whole rows of queues and no process
    exact ticksOnly_transition (swapSets_ticksOnly ran) y

/-! ### Every event -/

/-- Every event from a state of the invariant moves every slot along an edge that this
event takes. -/
theorem exec_transition (inv : Inv cfg t) (forks : ForkSlots cfg t) {e : Event}
    (ran : exec cfg t e = some (.ok t')) (y : Slot) :
    Transition e (t.proc y).state (t'.proc y).state := by
  cases e with
  | userinit =>
    rw [exec_userinit_eq] at ran
    split at ran
    · rename_i noInit
      obtain ⟨c, started⟩ := userinit_started noInit (Option.some.inj ran)
      exact taken_transition .userinit started.toTaken started.runnable y
    · cases ran
  | priofork level =>
    obtain ⟨x, -, running, idle, begun⟩ := Kernel.caller_map_eq_some ran
    cases begun
    rcases prioforkBegin_life running idle with same | ⟨c, began⟩
    · exact .of_eq (by rw [same])
    · exact taken_transition .allocate began.toTaken began.embryo y
  | fork =>
    obtain ⟨x, -, running, idle, begun⟩ := Kernel.caller_map_eq_some ran
    cases begun
    rcases prioforkBegin_life running idle with same | ⟨c, began⟩
    · exact .of_eq (by rw [same])
    · exact taken_transition .forkAllocate began.toTaken began.embryo y
  | forkCopy kallocOk copyuvmOk =>
    obtain ⟨x, f, -, running, held, -, copied⟩ := Kernel.forking_map_eq_some ran
    cases copied
    -- the child is the `EMBRYO` of the `priofork`, which keeps it or gives it back
    rcases prioforkMiddle_life running held kallocOk copyuvmOk with forked | forked
    · exact forked_transition forked (.of_eq (by rw [forked.child])) y
    · refine forked_transition forked ?_ y
      rw [forks.embryo x f held, forked.child]
      exact .giveBack
  | forkEnqueue =>
    obtain ⟨x, f, -, running, held, -, enqueued⟩ := Kernel.forking_map_eq_some ran
    have forked := prioforkEnd_life running held enqueued
    refine forked_transition forked ?_ y
    rw [forks.embryo x f held, forked.child]
    exact .release
  | exit =>
    obtain ⟨x, -, running, idle, exited⟩ := Kernel.caller_map_eq_some ran
    exact exit_transition running idle exited y
  | wait =>
    obtain ⟨x, -, running, -, waited⟩ := Kernel.caller_map_eq_some ran
    cases waited
    exact wait_transition running y
  | sleep chan =>
    obtain ⟨x, -, running, -, slept⟩ := Kernel.caller_map_eq_some ran
    cases slept
    exact modifyProc_transition t x (by rw [running]; exact .sleep) y
  | kill pid =>
    obtain ⟨x, -, -, -, killed⟩ := Kernel.caller_map_eq_some ran
    cases killed
    exact kill_transition t pid y
  | yield =>
    obtain ⟨x, -, running, -, yielded⟩ := Kernel.caller_map_eq_some ran
    cases yielded
    exact modifyProc_transition t x (by rw [running]; exact .yield) y
  | wakeup chan =>
    rw [exec_wakeup_eq] at ran
    split at ran
    · cases ran
      exact wakeup1_transition .wakeup t _ y
    · cases ran
  | timer =>
    rw [exec_timer_eq] at ran
    split at ran
    · exact timer_transition inv (Option.some.inj ran) y
    · cases ran
  | scheduler =>
    rw [exec_scheduler_eq] at ran
    split at ran
    · exact scheduler_transition (Option.some.inj ran) y
    · cases ran
  | requeue =>
    rw [exec_requeue_eq] at ran
    split at ran
    · exact ticksOnly_transition (requeue_ticksOnly (Option.some.inj ran)) y
    · cases ran

/-- `c` has a child that is a zombie. -/
def ZombieChild (c : Slot) (t : Kernel Cpu) : Prop :=
  ∃ z, (t.proc z).parent = some c ∧ (t.proc z).state = .zombie

instance (c : Slot) (t : Kernel Cpu) : Decidable (ZombieChild c t) := by
  unfold ZombieChild
  infer_instance

/-- Whom an event may wake: for `wakeup(chan)` a sleeper on `chan`, for the timer a sleeper
on `ticks`, for `exit` a sleeper on the exiting process's parent or, when the exiting
process has a zombie child, on `initproc`, and for `kill(pid)` the process with that pid.
No other event wakes anyone. -/
def wakes (t : Kernel Cpu) : Event → Slot → Bool
  | .wakeup chan, y => decide ((t.proc y).chan = some chan)
  | .timer, y => decide ((t.proc y).chan = some .ticks)
  | .exit, y =>
    match t.caller with
    | some x => decide ((t.proc y).chan = (t.proc x).parent.map .proc ∨
        ((t.proc y).chan = t.initproc.map .proc ∧ ZombieChild x t))
    | none => false
  | .kill pid, y => decide ((t.proc y).pid = pid)
  | _, _ => false

/-- Only four edges leave `SLEEPING`, and each is taken by an event that wakes. -/
theorem Transition.from_sleeping {e : Event} {after : ProcState}
    (edge : Transition e .sleeping after) (awake : after ≠ .sleeping) :
    (∃ chan, e = .wakeup chan) ∨ e = .timer ∨ e = .exit ∨ ∃ pid, e = .kill pid := by
  cases edge with
  | stay => exact absurd rfl awake
  | wakeup => exact .inl ⟨_, rfl⟩
  | tickWakeup => exact .inr (.inl rfl)
  | exitWakeup => exact .inr (.inr (.inl rfl))
  | kill => exact .inr (.inr (.inr ⟨_, rfl⟩))

theorem wakeup1_woken {ch : Option Chan} {y : Slot} (asleep : (t.proc y).state = .sleeping)
    (awake : ((wakeup1 t ch).proc y).state ≠ .sleeping) : (t.proc y).chan = ch := by
  rw [wakeup1_proc] at awake
  split at awake
  · rename_i woken
    exact woken.2
  · exact absurd asleep awake

/-- A step that keeps every parent and wakes processes at most keeps the zombie children. -/
theorem ZombieChild.of_steady {c : Slot} (steady : Steady t t') (child : ZombieChild c t') :
    ZombieChild c t := by
  obtain ⟨z, parent, zombie⟩ := child
  exact ⟨z, (steady.parent z).symm.trans parent, (steady.state_iff z rfl).mp zombie⟩

/-- Between `t` and `t'`, `initproc` and every channel stay, and only sleepers on
`initproc` wake, for a zombie child of `c`; every zombie child of `c` afterwards was one
before. -/
structure InitWoken (c : Slot) (t t' : Kernel Cpu) : Prop where
  initproc : t'.initproc = t.initproc
  chan : ∀ y, (t'.proc y).chan = (t.proc y).chan
  woken : ∀ y, (t.proc y).state = .sleeping → (t'.proc y).state ≠ .sleeping →
    (t.proc y).chan = t.initproc.map .proc ∧ ZombieChild c t
  zombie : ZombieChild c t' → ZombieChild c t

theorem InitWoken.refl (c : Slot) (t : Kernel Cpu) : InitWoken c t t :=
  ⟨rfl, fun _ => rfl, fun _ asleep awake => absurd asleep awake, id⟩

theorem InitWoken.trans {c : Slot} {u : Kernel Cpu} (first : InitWoken c t u)
    (second : InitWoken c u t') : InitWoken c t t' := by
  refine ⟨second.initproc.trans first.initproc, fun y => (second.chan y).trans (first.chan y),
    fun y asleep awake => ?_, first.zombie ∘ second.zombie⟩
  by_cases still : (u.proc y).state = .sleeping
  · -- asleep until the second part, which wakes only sleepers on `initproc`
    obtain ⟨chan, child⟩ := second.woken y still awake
    rw [← first.chan y, ← first.initproc]
    exact ⟨chan, first.zombie child⟩
  · exact first.woken y asleep still

theorem InitWoken.foldl {c : Slot} {f : Kernel Cpu → Slot → Kernel Cpu}
    (each : ∀ t p, InitWoken c t (f t p)) (l : List Slot) (t : Kernel Cpu) :
    InitWoken c t (l.foldl f t) := by
  induction l generalizing t with
  | nil => exact .refl c t
  | cons p rest ih => exact (each t p).trans (ih (f t p))

/-- Handing the child `p` of `c` to `initproc` wakes nobody, and makes no zombie child. -/
theorem handed_initWoken {c p : Slot} {u : Kernel Cpu} (mine : (u.proc p).parent = some c) :
    InitWoken c u (u.modifyProc p fun pr => { pr with parent := u.initproc }) := by
  refine ⟨rfl, fun y => ?_, fun y asleep awake => ?_, fun ⟨z, child, zombie⟩ => ⟨z, ?_, ?_⟩⟩
  · by_cases same : y = p <;> simp [same]
  · have kept : ((u.modifyProc p fun pr => { pr with parent := u.initproc }).proc y).state =
        (u.proc y).state := by
      by_cases same : y = p <;> simp [same]
    exact absurd (kept.trans asleep) awake
  · by_cases same : z = p
    · subst z
      exact mine
    · simpa [same] using child
  · by_cases same : z = p <;> simp_all

/-- `exit`'s loop over the children wakes only sleepers on `initproc`, when it hands it a
zombie child. -/
theorem reparent_initWoken (t : Kernel Cpu) (c : Slot) : InitWoken c t (reparent t c) := by
  refine InitWoken.foldl (fun u p => ?_) _ t
  dsimp only
  split
  · rename_i mine
    have handed := handed_initWoken (c := c) mine
    split
    · -- a zombie child: `wakeup1(initproc)`, for the zombie `p` of `u`
      rename_i zombie
      have dead : (u.proc p).state = .zombie := by simpa using zombie
      have steady := (quiet_wakeup1 (u.modifyProc p fun pr => { pr with parent := u.initproc })
        ((u.modifyProc p fun pr => { pr with parent := u.initproc }).initproc.map .proc)).toSteady
      refine ⟨rfl, fun y => ?_, fun y asleep awake => ?_,
        fun child => handed.zombie (ZombieChild.of_steady steady child)⟩
      · refine Eq.trans ?_ (handed.chan y)
        simp only [wakeup1_proc]
        split <;> rfl
      · by_cases still : ((u.modifyProc p fun pr => { pr with parent := u.initproc }).proc y).state =
            .sleeping
        · have chan := wakeup1_woken still awake
          rw [handed.chan y, handed.initproc] at chan
          exact ⟨chan, p, mine, dead⟩
        · exact handed.woken y asleep still
    · exact handed
  · exact .refl c u

/-- `exit` wakes sleepers on the exiting process's parent and, when it has a zombie child,
on `initproc`. -/
theorem exit_woken (inv : Inv cfg t) {x y : Slot} (running : (t.proc x).state = .running)
    (ran : exit cfg t x = .ok t') (asleep : (t.proc y).state = .sleeping)
    (awake : (t'.proc y).state ≠ .sleeping) :
    (t.proc y).chan = (t.proc x).parent.map .proc ∨
      ((t.proc y).chan = t.initproc.map .proc ∧ ZombieChild x t) := by
  obtain ⟨u, r, relabelled, -, -, rfl⟩ := exit_cases inv running ran
  have other : y ≠ x := Kernel.ne_of_state_ne running asleep (by decide)
  rw [afterExit_proc, if_neg other, relabelled] at awake
  have parentWoken := quiet_wakeup1 t ((t.proc x).parent.map .proc)
  by_cases first : ((wakeup1 t ((t.proc x).parent.map .proc)).proc y).state = .sleeping
  · -- still asleep after the wakeup of the parent: woken in the loop over the children
    obtain ⟨looped, child⟩ := (reparent_initWoken _ x).woken y first awake
    rw [wakeup1_initproc] at looped
    refine .inr ⟨?_, ZombieChild.of_steady parentWoken.toSteady child⟩
    rw [← looped]
    simp only [wakeup1_proc]
    split <;> rfl
  · exact .inl (wakeup1_woken asleep first)

theorem kill_woken {pid : Int} {y : Slot} (asleep : (t.proc y).state = .sleeping)
    (awake : ((kill t pid).1.proc y).state ≠ .sleeping) : (t.proc y).pid = pid := by
  unfold kill at awake
  split at awake
  · exact absurd asleep awake
  · rename_i p found
    by_cases same : y = p
    · subst y
      simpa using List.find?_some found
    · simp only [Kernel.modifyProc_proc, if_neg same] at awake
      exact absurd asleep awake

theorem timer_woken (inv : Inv cfg t) (ran : timer 0 t = .ok t') {y : Slot}
    (asleep : (t.proc y).state = .sleeping) (awake : (t'.proc y).state ≠ .sleeping) :
    (t.proc y).chan = some .ticks := by
  obtain ⟨u, rfl, -, rfl | ⟨p, k, -, running, -, charged⟩⟩ := timer_cases inv ran
  · rw [if_pos rfl] at awake
    exact wakeup1_woken asleep awake
  · rw [if_pos rfl] at running charged
    -- the charged process was running, and a sleeper is not
    have other : y ≠ p :=
      Kernel.ne_of_state_ne (wakeup1_running running) asleep (by decide)
    rw [charged.others y other] at awake
    exact wakeup1_woken asleep awake

/-- No spurious wakeup: a sleeper leaves `SLEEPING` only by a `wakeup` on its channel, by
the timer when it sleeps on `ticks`, by `exit` when it sleeps on the exiting process's
parent or on `initproc`, or by a `kill` of its pid. -/
theorem no_spurious_wakeup (reach : Reachable cfg t) {e : Event}
    (ran : exec cfg t e = some (.ok t')) {y : Slot} (asleep : (t.proc y).state = .sleeping)
    (awake : (t'.proc y).state ≠ .sleeping) : wakes t e y = true := by
  have inv := inv_reachable reach
  have edge := exec_transition inv (forkSlots_reachable reach) ran y
  rw [asleep] at edge
  rcases edge.from_sleeping awake with ⟨chan, rfl⟩ | rfl | rfl | ⟨pid, rfl⟩
  · rw [exec_wakeup_eq] at ran
    split at ran
    · cases ran
      exact decide_eq_true (wakeup1_woken asleep awake)
    · cases ran
  · rw [exec_timer_eq] at ran
    split at ran
    · exact decide_eq_true (timer_woken inv (Option.some.inj ran) asleep awake)
    · cases ran
  · obtain ⟨x, current, running, idle, exited⟩ := Kernel.caller_map_eq_some ran
    simp only [wakes, Kernel.caller_eq_some.mpr ⟨current, idle⟩]
    exact decide_eq_true (exit_woken inv running exited asleep awake)
  · obtain ⟨x, -, -, -, killed⟩ := Kernel.caller_map_eq_some ran
    cases killed
    exact decide_eq_true (kill_woken asleep awake)

/-- `initproc` waits for its child 1, which forks 2, which forks 3; 3 has exited and 2 runs. -/
def grandchildExited : List Event :=
  [.userinit, .scheduler, .fork, .forkCopy true true, .forkEnqueue, .wait, .requeue, .scheduler,
    .fork, .forkCopy true true, .forkEnqueue, .yield, .requeue, .scheduler,
    .fork, .forkCopy true true, .forkEnqueue, .yield, .requeue, .scheduler,
    .yield, .requeue, .scheduler, .exit, .requeue, .scheduler]

def grandchildZombie : Kernel Cpu := afterEvents rsdl grandchildExited

/-- ... and 2 exits, handing its zombie child 3 to `initproc`. -/
def zombieHanded : Kernel Cpu := afterEvents rsdl (grandchildExited ++ [.exit])

/-- The `exit` of 2 wakes `initproc`, which sleeps not on 2's parent but on itself, because 2
has a zombie child. -/
theorem no_spurious_wakeup_zombieHanded :
    Reachable rsdl grandchildZombie ∧ exec rsdl grandchildZombie .exit = some (.ok zombieHanded) ∧
      (grandchildZombie.proc 0).state = .sleeping ∧ (zombieHanded.proc 0).state ≠ .sleeping ∧
      (grandchildZombie.proc 0).chan ≠ (grandchildZombie.proc 2).parent.map .proc ∧
      wakes grandchildZombie .exit 0 = true := by
  have reach : Reachable rsdl grandchildZombie := reachable_afterEvents (by decide +kernel)
  have handed : exec rsdl grandchildZombie .exit = some (.ok zombieHanded) :=
    exec_of_runEvents (runEvents_afterEvents (by decide +kernel))
  have asleep : (grandchildZombie.proc 0).state = .sleeping := by decide +kernel
  have awake : (zombieHanded.proc 0).state ≠ .sleeping := by decide +kernel
  have notParent : (grandchildZombie.proc 0).chan ≠ (grandchildZombie.proc 2).parent.map .proc := by
    decide +kernel
  exact ⟨reach, handed, asleep, awake, notParent, no_spurious_wakeup reach handed asleep awake⟩

end Rsdl.ProcStates
