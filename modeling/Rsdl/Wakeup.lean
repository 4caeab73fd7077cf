import Rsdl.ProcTree

/-! `wait` and `exit` meet on a sleep channel. `wait` sleeps on its caller's own
`struct proc` when the caller has children and none of them is a zombie; `exit` calls
`wakeup1(curproc->parent)` before its caller becomes a zombie, and `wakeup1(initproc)`
for each zombie child it hands to `initproc`. No such wakeup is lost: in every reachable
state a process asleep on itself has no zombie child (`no_lost_wakeup`), so every
zombie's parent is awake to reap it or will not sleep until it has.

The kernel's other `sleep` calls are on objects that are not processes: buffers and
inodes through `sleeplock.c`, the log, the pipes, the console's input, the disk queue
and `sys_sleep`'s `&ticks`. A `sleep` on a process by something other than `wait` would
break the property, so it is stated for the states that such kernel events reach
(`KernelReachable`). `NoLostWakeup` is kept by each kind of change of `Life`, and by
`exit` through the two wakeups recorded in `Exited` and the acyclicity of `Family`, by
which an exiting process is not its own parent; the child that `copyuvm` gives its
parent is still an `EMBRYO` (`ForkSlots`), which does not sleep and is no zombie. -/
namespace Rsdl.Wakeup

open Relation Forest Invariant Lifecycle Forks ProcTree

variable {cfg : Config} {s s' : Kernel Cpu}

/-- Whether an event is a `sleep` on the address of a process, which in the kernel only
`wait` makes. -/
def sleepsOnProc : Event → Bool
  | .sleep (.proc _) => true
  | _ => false

/-- An event of the kernel's code that returns: no `sleep` on a process outside `wait`. -/
def KernelStep (cfg : Config) (s s' : Kernel Cpu) : Prop :=
  ∃ e, sleepsOnProc e = false ∧ exec cfg s e = some (.ok s')

/-- The states that the kernel's code reaches from `initial`. -/
def KernelReachable (cfg : Config) (s : Kernel Cpu) : Prop :=
  ReflTransGen (KernelStep cfg) (initial cfg) s

theorem KernelReachable.reachable (reach : KernelReachable cfg s) : Reachable cfg s :=
  ReflTransGen.mono (fun _ _ (step : KernelStep cfg _ _) =>
    let ⟨e, _, ran⟩ := step
    ⟨e, ran⟩) _ _ reach

theorem kernelReachable_runEvents {t : Kernel Cpu} {es : List Event}
    (reach : KernelReachable cfg s) (kernel : es.all (fun e => !sleepsOnProc e) = true)
    (ran : runEvents cfg s es = some t) : KernelReachable cfg t := by
  induction es generalizing s with
  | nil =>
    cases ran
    exact reach
  | cons e es ih =>
    simp only [List.all_cons, Bool.and_eq_true, Bool.not_eq_eq_eq_not, Bool.not_true] at kernel
    unfold runEvents at ran
    split at ran
    · rename_i s' step
      exact ih (reach.tail ⟨e, kernel.1, step⟩) kernel.2 ran
    · cases ran

theorem kernelReachable_afterEvents {es : List Event}
    (kernel : es.all (fun e => !sleepsOnProc e) = true)
    (ran : (runEvents cfg (initial cfg) es).isSome = true) :
    KernelReachable cfg (afterEvents cfg es) := by
  obtain ⟨t, ran⟩ := Option.isSome_iff_exists.mp ran
  rw [afterEvents, ran]
  exact kernelReachable_runEvents ReflTransGen.refl kernel ran

/-- Nobody asleep on itself, as `wait` sleeps, has a zombie child. -/
def NoLostWakeup (s : Kernel Cpu) : Prop :=
  ∀ x, (s.proc x).state = .sleeping → (s.proc x).chan = some (.proc x) →
    ∀ y, (s.proc y).parent = some x → (s.proc y).state ≠ .zombie

theorem noLostWakeup_initial (cfg : Config) : NoLostWakeup (initial cfg) :=
  fun _ asleep => by cases asleep

/-! ### The kinds of change -/

theorem NoLostWakeup.quiet (awake : NoLostWakeup s) (quiet : Quiet s s') : NoLostWakeup s' := by
  intro x asleep onSelf y child zombie
  obtain ⟨asleep₀, chan⟩ := quiet.asleep x asleep
  rw [chan] at onSelf
  rw [quiet.parent y] at child
  exact awake x asleep₀ onSelf y child ((quiet.state_iff y rfl).mp zombie)

/-- A `sleep` keeps it, if a sleep on the sleeper itself comes with no zombie child. -/
theorem NoLostWakeup.slept (awake : NoLostWakeup s) {x : Slot} {ch : Chan}
    (onSelf : ch = .proc x → ∀ y, (s.proc y).parent = some x → (s.proc y).state ≠ .zombie) :
    NoLostWakeup (sleep s x ch) := by
  intro z asleep chan y child zombie
  have notX : y ≠ x := by
    rintro rfl
    simp [sleep] at zombie
  simp only [sleep, Kernel.modifyProc_proc, notX, ↓reduceIte] at child zombie
  by_cases same : z = x
  · subst z
    simp [sleep] at chan
    exact onSelf chan y child zombie
  · simp only [sleep, Kernel.modifyProc_proc, same, ↓reduceIte] at asleep chan
    exact awake z asleep chan y child zombie

/-- A change of one slot that leaves it neither asleep nor a zombie keeps it. -/
theorem NoLostWakeup.one (awake : NoLostWakeup s) {c : Slot}
    (others : ∀ y, y ≠ c → s'.proc y = s.proc y) (notAsleep : (s'.proc c).state ≠ .sleeping)
    (notZombie : (s'.proc c).state ≠ .zombie) : NoLostWakeup s' := by
  intro x asleep chan y child zombie
  have xc : x ≠ c := by
    rintro rfl
    exact notAsleep asleep
  have yc : y ≠ c := by
    rintro rfl
    exact notZombie zombie
  rw [others x xc] at asleep chan
  rw [others y yc] at child zombie
  exact awake x asleep chan y child zombie

/-- `exit` wakes the parent of the zombie it makes, and `initproc` for the zombies it
hands on. -/
theorem NoLostWakeup.exited (awake : NoLostWakeup s) (fam : Family s) {c : Slot}
    (exited : Exited s s' c) : NoLostWakeup s' := by
  intro x asleep chan y child zombie
  have xc : x ≠ c := by
    rintro rfl
    rw [exited.zombie] at asleep
    cases asleep
  -- whoever sleeps after `exit` slept before, on the same channel
  have asleep₀ : (s.proc x).state = .sleeping := by
    rcases exited.state x xc with same | ⟨-, woken⟩
    · rwa [← same]
    · rw [woken] at asleep
      cases asleep
  have chan₀ : (s.proc x).chan = some (.proc x) := by rwa [← exited.chan x]
  rw [exited.parent y] at child
  by_cases yc : y = c
  · -- the new zombie: its parent, not `c` itself, was woken
    subst y
    have notSelf : (s.proc c).parent ≠ some c := fun self => fam.acyclic.ne self rfl
    rw [if_neg notSelf] at child
    exact exited.parentAwake x asleep (by rw [child]; exact chan)
  · have zombie₀ : (s.proc y).state = .zombie := by
      rcases exited.state y yc with same | ⟨-, woken⟩
      · rwa [← same]
      · rw [woken] at zombie
        cases zombie
    split at child
    · -- a zombie child of `c` handed to `initproc`, which was woken
      rename_i mine
      exact exited.initAwake ⟨y, mine, zombie₀⟩ x asleep (by rw [child]; exact chan)
    · exact awake x asleep₀ chan₀ y child zombie₀

theorem NoLostWakeup.step (awake : NoLostWakeup s) (fam : Family s) (forks : ForkSlots cfg s)
    {e : Event} (kernel : sleepsOnProc e = false) (life : Life cfg s e s') : NoLostWakeup s' := by
  cases life with
  | quiet quiet => exact awake.quiet quiet
  | slept running =>
    refine awake.slept fun onProc => ?_
    subst onProc
    cases kernel
  | waited running noZombie => exact awake.slept fun _ => noZombie
  | started started =>
    exact awake.one started.others (by rw [started.runnable]; decide) (by rw [started.runnable]; decide)
  | began began =>
    exact awake.one began.others (by rw [began.embryo]; decide) (by rw [began.embryo]; decide)
  | @copied _ _ x f forked _ =>
    -- the child gets its parent while it is still an `EMBRYO`
    have embryo : (s'.proc f.np).state = .embryo := by
      rw [forked.child]
      exact forks.embryo x f forked.held
    exact awake.one forked.others (by rw [embryo]; decide) (by rw [embryo]; decide)
  | undone forked _ => exact awake.one forked.others (by simp [forked.child]) (by simp [forked.child])
  | released forked _ => exact awake.one forked.others (by simp [forked.child]) (by simp [forked.child])
  | reaped reaped =>
    exact awake.one reaped.others (by simp [reaped.freed]) (by simp [reaped.freed])
  | exited exited => exact awake.exited fam exited

theorem noLostWakeup_reachable (reach : KernelReachable cfg s) : NoLostWakeup s := by
  induction reach with
  | refl => exact noLostWakeup_initial cfg
  | tail before step ih =>
    obtain ⟨e, kernel, ran⟩ := step
    have reached := KernelReachable.reachable before
    exact ih.step (family_reachable reached) (forkSlots_reachable reached) kernel (exec_life ran)

/-! ### No lost wakeup -/

/-- In every state the kernel's code reaches, a process asleep on itself, as `wait`
sleeps, has no zombie child. -/
theorem no_lost_wakeup (reach : KernelReachable cfg s) {x : Slot}
    (asleep : (s.proc x).state = .sleeping) (onSelf : (s.proc x).chan = some (.proc x))
    {y : Slot} (child : (s.proc y).parent = some x) : (s.proc y).state ≠ .zombie :=
  noLostWakeup_reachable reach x asleep onSelf y child

/-- `initproc` forks a child and waits for it. -/
def initWaiting : Kernel Cpu :=
  afterEvents rsdl [.userinit, .scheduler, .fork, .forkCopy true true, .forkEnqueue, .wait]

theorem no_lost_wakeup_initWaiting :
    KernelReachable rsdl initWaiting ∧ (initWaiting.proc 0).state = .sleeping ∧
      (initWaiting.proc 0).chan = some (.proc 0) ∧ (initWaiting.proc 1).parent = some 0 ∧
      (initWaiting.proc 1).state ≠ .zombie := by
  have reach : KernelReachable rsdl initWaiting :=
    kernelReachable_afterEvents (by decide) (by decide +kernel)
  have asleep : (initWaiting.proc 0).state = .sleeping := by decide +kernel
  have onSelf : (initWaiting.proc 0).chan = some (.proc 0) := by decide +kernel
  have child : (initWaiting.proc 1).parent = some 0 := by decide +kernel
  exact ⟨reach, asleep, onSelf, child, no_lost_wakeup reach asleep onSelf child⟩

end Rsdl.Wakeup
