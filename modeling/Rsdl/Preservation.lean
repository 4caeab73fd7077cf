import Rsdl.ProcInv
import Rsdl.SwapProofs

/-! Every event keeps `Inv`, and from a state with `Inv` no event faults but with the
`init exiting` panic. The scheduler's two halves and the timer are proved here, the
requeue and the process calls in `RequeueInv` and `ProcInv`; `inv_exec` dispatches on
the event. The induction over `Reachable` also needs `ForkSlots`, which is a fact about
the process table and is proved with it, in `Forks`. -/
namespace Rsdl.Preservation
open ExceptRun QueueProofs RequeueProofs SwapProofs Invariant RequeueInv ProcInv

variable {cfg : Config} {s s' t : Kernel Cpu} {p : Slot} {k : Nat}

/-! ### The pick -/

theorem pick_eq_some {C : Type} {s : Kernel C} (found : pick cfg s = some (k, p)) :
    k < cfg.levels ∧ 0 < (s.level (s.active, k)).ticksLeft ∧
      p ∈ (s.level (s.active, k)).entries ∧ s.ready p = true := by
  obtain ⟨k', member, hit⟩ := List.exists_of_findSome?_eq_some found
  split at hit
  · cases hit
  · rename_i quantum
    obtain ⟨p', first, same⟩ := Option.map_eq_some_iff.mp hit
    cases same
    exact ⟨List.mem_range.mp member, by omega, List.mem_of_find?_eq_some first,
      List.find?_some first⟩

/-- The pick finds nothing exactly when no active level with quantum left holds a ready
process. -/
theorem pick_eq_none {C : Type} {s : Kernel C} :
    pick cfg s = none ↔ ∀ k < cfg.levels, 0 < (s.level (s.active, k)).ticksLeft →
      ∀ x ∈ (s.level (s.active, k)).entries, s.ready x = false := by
  unfold pick
  rw [List.findSome?_eq_none_iff]
  constructor
  · intro missed k bound quantum x inside
    have none := missed k (List.mem_range.mpr bound)
    rw [if_neg (by omega), Option.map_eq_none_iff, List.find?_eq_none] at none
    simpa using none x inside
  · intro missed k member
    split
    · rfl
    · rename_i quantum
      rw [Option.map_eq_none_iff, List.find?_eq_none]
      intro x inside
      simp [missed k (List.mem_range.mp member) (by omega) x inside]

/-- Dispatching a ready process of a level with quantum left keeps the invariant. -/
theorem Inv.dispatched (inv : Inv cfg s) (idle : s.cpu.proc = none) (started : s.initproc ≠ none)
    (bound : k < cfg.levels) (quantum : 0 < (s.level (s.active, k)).ticksLeft)
    (inside : p ∈ (s.level (s.active, k)).entries) (ready : s.ready p = true) :
    Inv cfg (dispatch s k p) := by
  simp only [Kernel.ready, Bool.and_eq_true, decide_eq_true_eq] at ready
  obtain ⟨runnable, positive⟩ := ready
  have others : ∀ y, y ≠ p → (dispatch s k p).proc y = s.proc y := fun y other => by
    simp [dispatch, other]
  have chosen : ((dispatch s k p).proc p).state = .running := by simp [dispatch]
  have ticks : ∀ y, ((dispatch s k p).proc y).ticksLeft = (s.proc y).ticksLeft := fun y => by
    by_cases same : y = p
    · subst y
      simp [dispatch]
    · rw [others y same]
  have defaults : ∀ y, ((dispatch s k p).proc y).defaultLevel = (s.proc y).defaultLevel := fun y => by
    by_cases same : y = p
    · subst y
      simp [dispatch]
    · rw [others y same]
  refine
    { sets := inv.sets
      nodup := inv.nodup
      member := fun y => ?_
      defaultRange := fun y => defaults y ▸ inv.defaultRange y
      activePlace := fun j bound y entry => defaults y ▸ inv.activePlace j bound y entry
      expiredPlace := fun j bound y entry => defaults y ▸ inv.expiredPlace j bound y entry
      expiredQuantum := inv.expiredQuantum
      activeQuantum := inv.activeQuantum
      depleted := fun j bound low => ?_
      procQuantum := fun y => ticks y ▸ inv.procQuantum y
      queuedQuantum := fun y queued _ => ticks y ▸ inv.queuedQuantum y queued (by rw [idle]; simp)
      zombieQuantum := fun y zombie => ?_
      embryoQuantum := fun y embryo => ?_
      idle := fun none => by cases none
      cpuQueue := fun y onCpu => ?_
      running := fun y running => ?_
      runningQuantum := fun y running => ?_
      boot := fun noInit => absurd noInit started }
  · by_cases same : y = p
    · subst y
      rw [chosen]
      show p ∈ s.queued cfg ↔ _
      rw [inv.member, runnable]
      rfl
    · rw [others y same]
      exact inv.member y
  · rcases inv.depleted j bound low with empty | onQueue
    · exact .inl empty
    · rw [inv.idle idle] at onQueue
      cases onQueue
  · rw [others y (Kernel.ne_of_state_ne chosen zombie (by decide))] at zombie
    exact ticks y ▸ inv.zombieQuantum y zombie
  · rw [others y (Kernel.ne_of_state_ne chosen embryo (by decide))] at embryo
    exact ticks y ▸ inv.embryoQuantum y embryo
  · obtain rfl : y = p := (Option.some.inj onCpu).symm
    exact ⟨k, bound, rfl, fun _ => inside, by rw [chosen]; simp, by rw [chosen]; simp⟩
  · by_cases same : y = p
    · subst y
      rfl
    · rw [others y same] at running
      exact absurd running (inv.not_running idle y)
  · by_cases same : y = p
    · subst y
      refine ⟨ticks p ▸ positive, fun q queue => ?_⟩
      cases queue
      exact quantum
    · rw [others y same] at running
      exact absurd running (inv.not_running idle y)

/-- Dispatch moves no quantum. -/
theorem dispatch_ticked (s : Kernel Cpu) (k : Nat) (p : Slot) : Ticked s (dispatch s k p) := by
  refine Ticked.of_le (fun r => by simp [dispatch]) fun y => ?_
  by_cases same : y = p
  · subst y
    simp [dispatch]
  · simp [dispatch, same]

/-! ### The set swap -/

/-- The part of the invariant the swap reads. -/
theorem Inv.swappable (inv : Inv cfg s) : Swappable cfg s :=
  ⟨inv.sets, inv.nodup, inv.defaultRange, fun j bound => by
    rw [inv.expiredQuantum j bound]
    exact cfg.levelQuantum_int_pos⟩

/-- The swap from an idle CPU keeps the invariant. -/
theorem Inv.swapped (inv : Inv cfg s) (idle : s.cpu.proc = none)
    (sw : SweptTo cfg s cfg.levels t) : Inv cfg t := by
  have state : ∀ x, (t.proc x).state = (s.proc x).state := fun x => by
    rcases sw.proc_cases x with same | same <;> rw [same]
  have defaults : ∀ x, (t.proc x).defaultLevel = (s.proc x).defaultLevel := fun x => by
    rcases sw.proc_cases x with same | same <;> rw [same]
  have ticks : ∀ x, (t.proc x).ticksLeft = (s.proc x).ticksLeft ∨
      (t.proc x).ticksLeft = cfg.procQuantum := fun x => by
    rcases sw.proc_cases x with same | same <;> rw [same] <;> simp
  refine
    { sets := by rw [sw.active, sw.expired]; exact inv.sets.symm
      nodup := sw.nodup
      member := fun x => by rw [sw.member, inv.member, state]
      defaultRange := fun x => defaults x ▸ inv.defaultRange x
      activePlace := fun j bound x entry => ?_
      expiredPlace := fun j bound x entry => ?_
      expiredQuantum := fun j bound => by
        rw [sw.expired, sw.drainedTicks, if_pos bound]
      activeQuantum := fun j bound => by
        rw [sw.active, sw.filledTicks, inv.expiredQuantum j bound]
        have := cfg.levelQuantum_int_pos
        omega
      depleted := fun j bound low => ?_
      procQuantum := fun x => ?_
      queuedQuantum := fun x queued _ => ?_
      zombieQuantum := fun x zombie => ?_
      embryoQuantum := fun x embryo => ?_
      idle := fun _ => by rw [sw.cpu]; exact inv.idle idle
      cpuQueue := fun x onCpu => by rw [sw.cpu, idle] at onCpu; cases onCpu
      running := fun x running => absurd ((state x).symm.trans running) (inv.not_running idle x)
      runningQuantum := fun x running => absurd ((state x).symm.trans running) (inv.not_running idle x)
      boot := fun noInit => by
        rw [sw.initproc] at noInit
        obtain ⟨idleCpu, unused⟩ := inv.boot noInit
        exact ⟨by rw [sw.cpu]; exact idleCpu, fun x => by rw [state]; exact unused x⟩ }
  · rw [sw.active, sw.filled] at entry
    rw [defaults]
    rcases List.mem_append.mp entry with old | moved
    · exact (inv.expiredPlace j bound x old).le
    · obtain ⟨-, -, -, priority⟩ := mem_swept.mp moved
      omega
  · rw [sw.expired, sw.drained, if_pos bound] at entry
    cases entry
  · rw [sw.active, sw.filledTicks, inv.expiredQuantum j bound] at low
    have := cfg.levelQuantum_int_pos
    omega
  · rcases ticks x with same | same <;> rw [same]
    · exact inv.procQuantum x
    · have := cfg.procQuantum_int_pos
      omega
  · have positive := inv.queuedQuantum x ((sw.member x).mp queued) (by rw [idle]; simp)
    rcases ticks x with same | same <;> rw [same]
    · exact positive
    · exact cfg.procQuantum_int_pos
  · rw [state] at zombie
    rcases ticks x with same | same <;> rw [same]
    · exact inv.zombieQuantum x zombie
    · exact cfg.procQuantum_int_pos
  · rw [state] at embryo
    rcases ticks x with same | same <;> rw [same]
    exact inv.embryoQuantum x embryo

/-- The swap only refills quanta: the drained levels and processes get full ones. -/
theorem SweptTo.ticked (inv : Inv cfg s) (sw : SweptTo cfg s cfg.levels t) : Ticked s t := by
  refine Ticked.of_le (fun r => ?_) fun x => ?_
  · rcases queueRef_cases inv.sets r with same | same <;> rw [same]
    · rw [sw.drainedTicks]
      split
      · rename_i bound
        exact (inv.activeQuantum r.2 bound).2
      · exact le_refl _
    · rw [sw.filledTicks]
  · rw [sw.proc]
    split
    · exact (inv.procQuantum x).2
    · exact le_refl _

/-- A scheduler iteration from an idle CPU succeeds and keeps the invariant. -/
theorem inv_scheduler (inv : Inv cfg s) (idle : s.cpu.proc = none) (started : s.initproc ≠ none) :
    ∃ s', scheduler cfg s = .ok s' ∧ Inv cfg s' ∧ Ticked s s' := by
  unfold scheduler
  cases found : pick cfg s with
  | some picked =>
    obtain ⟨k, p⟩ := picked
    obtain ⟨bound, quantum, inside, ready⟩ := pick_eq_some found
    exact ⟨_, rfl, Inv.dispatched inv idle started bound quantum inside ready, dispatch_ticked s k p⟩
  | none =>
    obtain ⟨t, ran, sw⟩ := swapSets_spec (Inv.swappable inv)
    exact ⟨t, ran, Inv.swapped inv idle sw, SweptTo.ticked inv sw⟩

/-! ### The timer -/

/-- The timer's charge: one tick off the running `p` and off its level `q`. -/
def charge (s : Kernel Cpu) (p : Slot) (q : QueueRef) : Kernel Cpu :=
  (s.modifyProc p fun pr => { pr with ticksLeft := pr.ticksLeft - 1 }).setLevel q
    { s.level q with ticksLeft := (s.level q).ticksLeft - 1 }

/-- `u` is `s` after the charge, with `p` still running only while both have ticks left. -/
structure Charged (s : Kernel Cpu) (p : Slot) (q : QueueRef) (u : Kernel Cpu) : Prop where
  entries : ∀ r, (u.level r).entries = (s.level r).entries
  ticks : ∀ r, (u.level r).ticksLeft =
    if r = q then (s.level q).ticksLeft - 1 else (s.level r).ticksLeft
  active : u.active = s.active
  expired : u.expired = s.expired
  cpu : u.cpu = s.cpu
  initproc : u.initproc = s.initproc
  others : ∀ y, y ≠ p → u.proc y = s.proc y
  procTicks : (u.proc p).ticksLeft = (s.proc p).ticksLeft - 1
  procDefault : (u.proc p).defaultLevel = (s.proc p).defaultLevel
  state : (u.proc p).state = .runnable ∨
    ((u.proc p).state = .running ∧ 0 < (u.proc p).ticksLeft ∧ 0 < (u.level q).ticksLeft)

theorem charge_level (s : Kernel Cpu) (p : Slot) (q r : QueueRef) :
    (charge s p q).level r = if r = q then { s.level q with ticksLeft := (s.level q).ticksLeft - 1 }
      else s.level r := by
  simp [charge]

theorem charged_of_charge {s : Kernel Cpu} {q : QueueRef} (running : (s.proc p).state = .running)
    (stays : ¬ (((charge s p q).proc p).ticksLeft ≤ 0 ∨ ((charge s p q).level q).ticksLeft ≤ 0)) :
    Charged s p q (charge s p q) := by
  refine ⟨fun r => ?_, fun r => ?_, rfl, rfl, rfl, rfl, fun y other => by simp [charge, other],
    by simp [charge], by simp [charge], .inr ⟨by simp [charge, running], ?_, ?_⟩⟩
  · rw [charge_level]
    split
    · rename_i same
      subst r
      rfl
    · rfl
  · rw [charge_level]
    split <;> rfl
  · by_contra low
    exact stays (.inl (by omega))
  · by_contra low
    exact stays (.inr (by omega))

theorem charged_of_yield {s : Kernel Cpu} {q : QueueRef} :
    Charged s p q (yield (charge s p q) p) := by
  refine ⟨fun r => ?_, fun r => ?_, rfl, rfl, rfl, rfl, fun y other => by simp [yield, charge, other],
    by simp [yield, charge], by simp [yield, charge], .inl (by simp [yield])⟩
  · simp only [yield, Kernel.modifyProc_level, charge_level]
    split
    · rename_i same
      subst r
      rfl
    · rfl
  · simp only [yield, Kernel.modifyProc_level, charge_level]
    split <;> rfl

/-- The charge leaves every priority as it was. -/
theorem Charged.defaultLevel {q : QueueRef} {u : Kernel Cpu} (charged : Charged s p q u) (y : Slot) :
    (u.proc y).defaultLevel = (s.proc y).defaultLevel := by
  by_cases same : y = p
  · subst y
    exact charged.procDefault
  · rw [charged.others y same]

/-- The charge takes one tick off `p` and off `q` and moves no other quantum. -/
theorem Charged.ticked {q : QueueRef} {u : Kernel Cpu} (charged : Charged s p q u) :
    Ticked s u := by
  refine ⟨fun r => ?_, fun y => ?_⟩
  · rw [charged.ticks]
    split
    · rename_i same
      subst r
      exact .inl rfl
    · exact .inr (le_refl _)
  · by_cases same : y = p
    · subst y
      exact .inl charged.procTicks
    · exact .inr (by rw [charged.others y same])

/-- The charge of a tick keeps the invariant, whether or not `p` then yields. -/
theorem Inv.charged (inv : Inv cfg s) {q : QueueRef} (onCpu : s.cpu.proc = some p)
    (running : (s.proc p).state = .running) (queue : s.cpu.queue = some q) {u : Kernel Cpu}
    (charged : Charged s p q u) : Inv cfg u := by
  obtain ⟨positive, levels⟩ := inv.runningQuantum p running
  have quantum := levels q queue
  obtain ⟨k, bound, queue', -, -, -⟩ := inv.cpuQueue p onCpu
  rw [queue, Option.some.injEq] at queue'
  subst queue'
  have queued : u.queued cfg = s.queued cfg := by simp only [Kernel.queued, charged.entries]
  have stillQueued : (u.proc p).state.queued = true := by
    rcases charged.state with runnable | ⟨running', -⟩
    · rw [runnable]; rfl
    · rw [running']; rfl
  refine
    { sets := by rw [charged.active, charged.expired]; exact inv.sets
      nodup := queued ▸ inv.nodup
      member := fun y => ?_
      defaultRange := fun y => charged.defaultLevel y ▸ inv.defaultRange y
      activePlace := fun j bound y entry => ?_
      expiredPlace := fun j bound y entry => ?_
      expiredQuantum := fun j bound => ?_
      activeQuantum := fun j bound => ?_
      depleted := fun j bound low => ?_
      procQuantum := fun y => ?_
      queuedQuantum := fun y entry other => ?_
      zombieQuantum := fun y zombie => ?_
      embryoQuantum := fun y embryo => ?_
      idle := fun noProc => by rw [charged.cpu] at noProc ⊢; exact inv.idle noProc
      cpuQueue := fun y onCpu' => ?_
      running := fun y running' => ?_
      runningQuantum := fun y running' => ?_
      boot := fun noInit => (inv.started_of_onCpu onCpu (charged.initproc ▸ noInit)).elim }
  · rw [queued]
    by_cases same : y = p
    · subst y
      rw [stillQueued, inv.member, running]
      rfl
    · rw [charged.others y same]
      exact inv.member y
  · rw [charged.active, charged.entries] at entry
    rw [charged.defaultLevel]
    exact inv.activePlace j bound y entry
  · rw [charged.expired, charged.entries] at entry
    rw [charged.defaultLevel]
    exact inv.expiredPlace j bound y entry
  · rw [charged.expired, charged.ticks, if_neg (queueRef_ne_of_set_ne inv.sets.symm _ _)]
    exact inv.expiredQuantum j bound
  · rw [charged.active, charged.ticks]
    have range := inv.activeQuantum j bound
    split
    · rename_i same
      rw [same] at range
      omega
    · exact range
  · -- the charged level may now be depleted, and it is the CPU's
    rw [charged.active, charged.ticks] at low
    rw [charged.active, charged.entries, charged.cpu]
    split at low
    · rename_i same
      exact .inr (by rw [queue, same])
    · exact inv.depleted j bound low
  · by_cases same : y = p
    · subst y
      rw [charged.procTicks]
      have := inv.procQuantum p
      omega
    · rw [charged.others y same]
      exact inv.procQuantum y
  · rw [queued] at entry
    rw [charged.cpu] at other
    have same : y ≠ p := fun same => other (by rw [same, onCpu])
    rw [charged.others y same]
    exact inv.queuedQuantum y entry other
  · have same : y ≠ p := fun same => by
      subst y
      rcases charged.state with runnable | ⟨running', -⟩ <;> simp_all
    rw [charged.others y same] at zombie ⊢
    exact inv.zombieQuantum y zombie
  · have same : y ≠ p := fun same => by
      subst y
      rcases charged.state with runnable | ⟨running', -⟩ <;> simp_all
    rw [charged.others y same] at embryo ⊢
    exact inv.embryoQuantum y embryo
  · rw [charged.cpu] at onCpu'
    obtain rfl : y = p := Option.some.inj (onCpu'.symm.trans onCpu)
    refine ⟨k, bound, by rw [charged.cpu, charged.active]; exact queue, fun _ => ?_, ?_, ?_⟩
    · rw [charged.active, charged.entries]
      obtain ⟨k', bound', queue'', inside, notUnused, notEmbryo⟩ := inv.cpuQueue y onCpu
      rw [queue, Option.some.injEq, Prod.mk.injEq] at queue''
      rw [← queue''.2] at inside
      exact inside (by rw [running]; rfl)
    · rcases charged.state with runnable | ⟨running', -⟩ <;> simp_all
    · rcases charged.state with runnable | ⟨running', -⟩ <;> simp_all
  · by_cases same : y = p
    · subst y
      rw [charged.cpu]
      exact onCpu
    · rw [charged.others y same] at running'
      rw [charged.cpu]
      exact inv.running y running'
  · by_cases same : y = p
    · subst y
      rcases charged.state with runnable | ⟨-, ticks, quantum'⟩
      · rw [runnable] at running'
        cases running'
      · refine ⟨ticks, fun q' queue'' => ?_⟩
        rw [charged.cpu, queue, Option.some.injEq] at queue''
        rw [← queue'']
        exact quantum'
    · rw [charged.others y same] at running'
      have := inv.running y running'
      rw [onCpu, Option.some.injEq] at this
      exact absurd this.symm same

/-- A timer interrupt keeps the invariant and never finds a running process outside the
sets. -/
theorem inv_timer (inv : Inv cfg s) (cpuid : Nat) :
    ∃ s', timer cpuid s = .ok s' ∧ Inv cfg s' ∧ Ticked s s' := by
  have woken : Relabel s (if cpuid = 0 then wakeup s .ticks else s) := by
    split
    · exact relabel_wakeup1 s _
    · exact Relabel.refl s
  have inv₁ := inv.relabel woken
  unfold timer
  generalize (if cpuid = 0 then wakeup s .ticks else s) = s₁ at inv₁ woken ⊢
  dsimp only
  cases onCpu : s₁.cpu.proc with
  | none => exact ⟨s₁, rfl, inv₁, woken.ticked⟩
  | some p =>
    dsimp only
    by_cases running : (s₁.proc p).state = .running
    · rw [if_neg (not_not.mpr running)]
      obtain ⟨k, -, queue, -⟩ := inv₁.cpuQueue p onCpu
      rw [queue]
      dsimp only
      change ∃ s', (if ((charge s₁ p (s₁.active, k)).proc p).ticksLeft ≤ 0 ∨
          ((charge s₁ p (s₁.active, k)).level (s₁.active, k)).ticksLeft ≤ 0 then
        Except.ok (yield (charge s₁ p (s₁.active, k)) p) else Except.ok (charge s₁ p (s₁.active, k))) =
        Except.ok s' ∧ Inv cfg s' ∧ Ticked s s'
      split
      · exact ⟨_, rfl, Inv.charged inv₁ onCpu running queue charged_of_yield,
          charged_of_yield.ticked.relabel_left woken⟩
      · rename_i stays
        have charged := charged_of_charge running stays
        exact ⟨_, rfl, Inv.charged inv₁ onCpu running queue charged, charged.ticked.relabel_left woken⟩
    · rw [if_pos running]
      exact ⟨s₁, rfl, inv₁, woken.ticked⟩

/-! ### Every event -/

theorem ok_of_relabel (inv : Inv cfg s) (rel : Relabel s s') :
    (∃ t, (Except.ok s' : Except Fault (Kernel Cpu)) = .ok t ∧ Inv cfg t ∧ Ticked s t) ∨
      (Except.ok s' : Except Fault (Kernel Cpu)) = .error (.panic "init exiting") :=
  .inl ⟨s', rfl, inv.relabel rel, rel.ticked⟩

/-- From a state with the invariant, every event that can happen returns a state with the
invariant, or is `initproc` calling `exit`; no quantum rises except by a refill. The middle
and the end of a `priofork` also read `ForkSlots`. -/
theorem inv_exec (inv : Inv cfg s) (forks : ForkSlots cfg s) {e : Event}
    {r : Except Fault (Kernel Cpu)} (ran : exec cfg s e = some r) :
    (∃ s', r = .ok s' ∧ Inv cfg s' ∧ Ticked s s') ∨ r = .error (.panic "init exiting") := by
  cases e with
  | userinit =>
    rw [exec_userinit_eq] at ran
    split at ran
    · rename_i noInit
      cases ran
      exact .inl (inv_userinit inv noInit)
    · cases ran
  | priofork _ | fork =>
    obtain ⟨p, current, -, -, rfl⟩ := Kernel.caller_map_eq_some ran
    obtain ⟨onCpu, -⟩ := Kernel.current_eq_some.mp current
    exact .inl ⟨_, rfl, inv_prioforkBegin inv onCpu _⟩
  | forkCopy kallocOk copyuvmOk =>
    obtain ⟨p, f, -, -, held, -, rfl⟩ := Kernel.forking_map_eq_some ran
    exact .inl ⟨_, rfl, inv_prioforkMiddle inv forks held kallocOk copyuvmOk⟩
  | forkEnqueue =>
    obtain ⟨p, f, current, -, held, -, rfl⟩ := Kernel.forking_map_eq_some ran
    obtain ⟨onCpu, -⟩ := Kernel.current_eq_some.mp current
    exact .inl (inv_prioforkEnd inv forks onCpu held)
  | exit =>
    obtain ⟨p, current, running, -, rfl⟩ := Kernel.caller_map_eq_some ran
    obtain ⟨onCpu, -⟩ := Kernel.current_eq_some.mp current
    rcases inv_exit inv onCpu running with panic | exited
    · exact .inr panic
    · exact .inl exited
  | wait =>
    obtain ⟨p, current, running, -, rfl⟩ := Kernel.caller_map_eq_some ran
    obtain ⟨onCpu, -⟩ := Kernel.current_eq_some.mp current
    exact ok_of_relabel inv (relabel_wait onCpu running)
  | sleep chan =>
    obtain ⟨p, -, running, -, rfl⟩ := Kernel.caller_map_eq_some ran
    exact ok_of_relabel inv (relabel_sleep running chan)
  | kill pid =>
    obtain ⟨p, -, -, -, rfl⟩ := Kernel.caller_map_eq_some ran
    exact ok_of_relabel inv (relabel_kill s pid)
  | yield =>
    obtain ⟨p, -, running, -, rfl⟩ := Kernel.caller_map_eq_some ran
    exact ok_of_relabel inv (relabel_yield running)
  | wakeup chan =>
    rw [exec_wakeup_eq] at ran
    split at ran
    · cases ran
      exact ok_of_relabel inv (relabel_wakeup1 s _)
    · cases ran
  | timer =>
    rw [exec_timer_eq] at ran
    split at ran
    · cases ran
      exact .inl (inv_timer inv 0)
    · cases ran
  | scheduler =>
    rw [exec_scheduler_eq] at ran
    split at ran
    · rename_i guard
      cases ran
      exact .inl (inv_scheduler inv guard.1 guard.2)
    · cases ran
  | requeue =>
    rw [exec_requeue_eq] at ran
    split at ran
    · rename_i p q back queue
      cases ran
      exact .inl (inv_requeue inv back queue)
    · cases ran

theorem inv_step (inv : Inv cfg s) (forks : ForkSlots cfg s) (step : Step cfg s s') : Inv cfg s' := by
  obtain ⟨e, ran⟩ := step
  rcases inv_exec inv forks ran with ⟨t, same, inv', -⟩ | panic
  · cases same
    exact inv'
  · cases panic

/-- A step lowers a quantum by one tick or not at all, unless it refills it. -/
theorem step_ticked (inv : Inv cfg s) (forks : ForkSlots cfg s) (step : Step cfg s s') :
    Ticked s s' := by
  obtain ⟨e, ran⟩ := step
  rcases inv_exec inv forks ran with ⟨t, same, -, ticked⟩ | panic
  · cases same
    exact ticked
  · cases panic

end Rsdl.Preservation
