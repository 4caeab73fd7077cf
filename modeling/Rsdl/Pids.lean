import Rsdl.Lifecycle
import Rsdl.Safety

/-! Process ids. `allocproc` gives the slot it takes `nextpid++`; `wait` sets the pid of
the zombie it frees to 0; a slot given back after a failed `kalloc` or `copyuvm` is
`UNUSED` again but keeps the pid it was given.

`nextpid` is a 32-bit `int`, and `nextpid++` past `INT_MAX` wraps to `INT_MIN`
(`wrapInt`): from there on the pids handed out are negative, and after `2^32` allocations
they come round to the pids of live processes again. What the pids keep therefore holds
on the runs on which `nextpid` never goes down (`NoWrapStep`, `NoWrapReachable`), which
every run of fewer than `INT_MAX` events is (`noWrapReachable_afterEvents`).

`PidInv` is what such a run keeps: `nextpid` is positive, every pid is below it, no pid
but 0 is held by two slots, and every process that is not `UNUSED` has a positive pid.
Over the run, a slot keeps its pid, drops it to 0, or gets one that was not handed out
when the run began (`PidStep`, `pidStep_run`); with the uniqueness at its start, a pid
names the same slot for all of the run (`pid_never_reused`). -/
namespace Rsdl.Pids

open Relation Invariant Lifecycle Forks

variable {cfg : Config} {s s' t : Kernel Cpu}

/-! ### Runs on which `nextpid` does not wrap -/

/-- Only `allocproc` writes `nextpid`, and only as `nextpid++`. -/
theorem nextpid_life {e : Event} (life : Life cfg s e s') :
    s'.nextpid = s.nextpid ∨ s'.nextpid = wrapInt (s.nextpid + 1) := by
  cases life with
  | quiet quiet => exact .inl quiet.nextpid
  | slept running => exact .inl (steady_sleep running _).nextpid
  | waited running _ => exact .inl (steady_sleep running _).nextpid
  | started started => exact .inr started.nextpid
  | began began => exact .inr began.nextpid
  | copied forked _ => exact .inl forked.nextpid
  | undone forked _ => exact .inl forked.nextpid
  | released forked _ => exact .inl forked.nextpid
  | reaped reaped => exact .inl reaped.nextpid
  | exited exited => exact .inl exited.nextpid

/-- A step on which `nextpid++`, where `allocproc` runs, does not pass `INT_MAX`: `nextpid`
does not go down. -/
def NoWrapStep (cfg : Config) (s s' : Kernel Cpu) : Prop := Step cfg s s' ∧ s.nextpid ≤ s'.nextpid

/-- The states of the runs from `initial` on which `nextpid` never wraps. -/
def NoWrapReachable (cfg : Config) (s : Kernel Cpu) : Prop :=
  ReflTransGen (NoWrapStep cfg) (initial cfg) s

theorem NoWrapReachable.reachable (reach : NoWrapReachable cfg s) : Reachable cfg s := by
  induction reach with
  | refl => exact .refl
  | tail _ step ih => exact ih.tail step.1

/-- A step from below `INT_MAX` does not wrap, and counts at most one pid. -/
theorem noWrapStep_of_lt (step : Step cfg s s') (nonneg : 0 ≤ s.nextpid)
    (small : s.nextpid + 1 < 2 ^ 31) : NoWrapStep cfg s s' ∧ s'.nextpid ≤ s.nextpid + 1 := by
  obtain ⟨e, ran⟩ := step
  rcases nextpid_life (exec_life ran) with same | counted
  · exact ⟨⟨⟨e, ran⟩, same.ge⟩, by omega⟩
  · rw [wrapInt_succ nonneg small] at counted
    exact ⟨⟨⟨e, ran⟩, by omega⟩, by omega⟩

/-- The events `es` from a state at least `es.length` below `INT_MAX` never wrap. -/
theorem noWrap_runEvents {es : List Event} (nonneg : 0 ≤ s.nextpid)
    (small : s.nextpid + es.length < 2 ^ 31) (ran : runEvents cfg s es = some t) :
    ReflTransGen (NoWrapStep cfg) s t := by
  induction es generalizing s with
  | nil =>
    cases ran
    exact .refl
  | cons e es ih =>
    unfold runEvents at ran
    split at ran
    · rename_i s₁ stepped
      rw [List.length_cons] at small
      obtain ⟨first, counted⟩ := noWrapStep_of_lt ⟨e, stepped⟩ nonneg (by omega)
      exact .head first (ih (by have := first.2; omega) (by omega) ran)
    · cases ran

/-- Every run of fewer than `INT_MAX` events is one on which `nextpid` never wraps. -/
theorem noWrapReachable_afterEvents {es : List Event}
    (ran : (runEvents cfg (initial cfg) es).isSome = true) (short : es.length + 1 < 2 ^ 31) :
    NoWrapReachable cfg (afterEvents cfg es) := by
  obtain ⟨t, ran⟩ := Option.isSome_iff_exists.mp ran
  have start : (initial cfg).nextpid = 1 := rfl
  rw [afterEvents, ran, Option.getD_some]
  exact noWrap_runEvents (by rw [start]; decide) (by rw [start]; omega) ran

/-! ### The pids of a state -/

/-- The pids of a state reached without wrapping. -/
structure PidInv (s : Kernel Cpu) : Prop where
  positive : 0 < s.nextpid
  /-- Every pid has been handed out already, or is the 0 of a freed slot. -/
  bounded : ∀ x, 0 ≤ (s.proc x).pid ∧ (s.proc x).pid < s.nextpid
  /-- No pid but 0 is held twice, not even by a slot given back after a failed fork. -/
  unique : ∀ x y, (s.proc x).pid = (s.proc y).pid → (s.proc x).pid ≠ 0 → x = y
  live : ∀ x, (s.proc x).state ≠ .unused → 0 < (s.proc x).pid

theorem pids_initial (cfg : Config) : PidInv (initial cfg) where
  positive := Int.one_pos
  bounded _ := ⟨le_refl 0, Int.one_pos⟩
  unique _ _ _ nonzero := absurd rfl nonzero
  live _ used := absurd rfl used

/-! ### The kinds of change -/

/-- An event that changes no pid, keeps `nextpid`, and takes no free slot. -/
theorem PidInv.of_same (pids : PidInv s) (nextpid : s'.nextpid = s.nextpid)
    (pid : ∀ x, (s'.proc x).pid = (s.proc x).pid)
    (used : ∀ x, (s'.proc x).state ≠ .unused → (s.proc x).state ≠ .unused) : PidInv s' where
  positive := nextpid ▸ pids.positive
  bounded x := by
    rw [pid x, nextpid]
    exact pids.bounded x
  unique x y same nonzero := by
    rw [pid x, pid y] at same
    rw [pid x] at nonzero
    exact pids.unique x y same nonzero
  live x alive := by
    rw [pid x]
    exact pids.live x (used x alive)

theorem PidInv.steady (pids : PidInv s) (steady : Steady s s') : PidInv s' :=
  pids.of_same steady.nextpid steady.pid fun x => mt (steady.unused_iff x).mpr

/-- An event that writes the slot `c` alone, keeps `nextpid` or counts it on, and leaves
`c` a pid that is in range and, unless it is 0, held by no other slot. -/
theorem PidInv.of_one (pids : PidInv s) {c : Slot} (others : ∀ y, y ≠ c → s'.proc y = s.proc y)
    (grows : s.nextpid ≤ s'.nextpid) (bounded : 0 ≤ (s'.proc c).pid ∧ (s'.proc c).pid < s'.nextpid)
    (fresh : (s'.proc c).pid ≠ 0 → ∀ y, y ≠ c → (s.proc y).pid ≠ (s'.proc c).pid)
    (live : (s'.proc c).state ≠ .unused → 0 < (s'.proc c).pid) : PidInv s' := by
  refine ⟨by have := pids.positive; omega, fun x => ?_, fun x y same nonzero => ?_, fun x used => ?_⟩
  · by_cases here : x = c
    · subst x
      exact bounded
    · have old := pids.bounded x
      rw [others x here]
      omega
  · by_cases hx : x = c <;> by_cases hy : y = c
    · rw [hx, hy]
    · subst x
      rw [others y hy] at same
      exact absurd same.symm (fresh nonzero y hy)
    · subst y
      rw [others x hx] at same nonzero
      exact absurd same (fresh (same ▸ nonzero) x hx)
    · rw [others x hx, others y hy] at same
      rw [others x hx] at nonzero
      exact pids.unique x y same nonzero
  · by_cases here : x = c
    · subst x
      exact live used
    · rw [others x here] at used ⊢
      exact pids.live x used

/-- On a step that does not wrap, `allocproc`'s `nextpid++` counts up. -/
theorem taken_nextpid_succ {c : Slot} (taken : Taken s s' c) (positive : 0 < s.nextpid)
    (noWrap : s.nextpid ≤ s'.nextpid) : s'.nextpid = s.nextpid + 1 := by
  rw [taken.nextpid] at noWrap ⊢
  have fits := wrapInt_lt (s.nextpid + 1)
  exact wrapInt_succ_of_pos positive.le (by omega) (by omega)

/-- `allocproc` gives the slot it takes `nextpid`, which nobody holds, and counts on. -/
theorem PidInv.taken (pids : PidInv s) {c : Slot} (taken : Taken s s' c)
    (noWrap : s.nextpid ≤ s'.nextpid) : PidInv s' := by
  have positive := pids.positive
  have counted := taken_nextpid_succ taken positive noWrap
  -- every other slot holds a pid below the `nextpid` that `c` gets
  refine pids.of_one taken.others noWrap (by rw [taken.pid, counted]; omega)
    (fun _ y _ same => ?_) fun _ => taken.pid ▸ positive
  have := (pids.bounded y).2
  rw [taken.pid] at same
  omega

/-- A later part of a `priofork` writes the `EMBRYO` child, which has its pid, and keeps it. -/
theorem PidInv.forked (pids : PidInv s) (forks : ForkSlots cfg s) {x : Slot} {f : Forking}
    {g : Proc → Proc} {next : Option Forking} (forked : Forked s s' x f g next)
    (keeps : ∀ pr, (g pr).pid = pr.pid) : PidInv s' := by
  refine pids.of_same forked.nextpid (forked.field_eq Proc.pid keeps) fun y used => ?_
  by_cases same : y = f.np
  · subst y
    rw [forks.embryo x f forked.held]
    decide
  · rwa [forked.others y same] at used

/-- `wait` sets the pid of the zombie it frees to 0. -/
theorem PidInv.reaped (pids : PidInv s) {p z : Slot} (reaped : Reaped s s' p z) : PidInv s' := by
  -- the freed slot holds 0 and is `UNUSED`
  refine pids.of_one reaped.others reaped.nextpid.ge
    (by rw [reaped.freed, reaped.nextpid]; exact ⟨le_refl 0, pids.positive⟩)
    (fun nonzero => absurd (by rw [reaped.freed]) nonzero) fun used => ?_
  rw [reaped.freed] at used
  exact absurd rfl used

theorem PidInv.step {e : Event} (pids : PidInv s) (forks : ForkSlots cfg s)
    (life : Life cfg s e s') (noWrap : s.nextpid ≤ s'.nextpid) : PidInv s' := by
  cases life with
  | quiet quiet => exact pids.steady quiet.toSteady
  | slept running => exact pids.steady (steady_sleep running _)
  | waited running _ => exact pids.steady (steady_sleep running _)
  | started started => exact pids.taken started.toTaken noWrap
  | began began => exact pids.taken began.toTaken noWrap
  | copied forked _ => exact pids.forked forks forked fun _ => rfl
  | undone forked _ => exact pids.forked forks forked fun _ => rfl
  | released forked _ => exact pids.forked forks forked fun _ => rfl
  | reaped reaped => exact pids.reaped reaped
  | exited exited =>
    exact pids.of_same exited.nextpid exited.pid fun x => mt (exited.unused_iff x).mpr

theorem pids_reachable (reach : NoWrapReachable cfg s) : PidInv s := by
  induction reach with
  | refl => exact pids_initial cfg
  | tail before step ih =>
    obtain ⟨⟨e, ran⟩, noWrap⟩ := step
    exact PidInv.step ih (forkSlots_reachable (NoWrapReachable.reachable before)) (exec_life ran) noWrap

/-- In every state reached without `nextpid` wrapping, no pid but 0 is held by two slots,
and every process that is not `UNUSED` has a positive pid below `nextpid`. -/
theorem pid_unique (reach : NoWrapReachable cfg s) :
    (∀ x y, (s.proc x).pid = (s.proc y).pid → (s.proc x).pid ≠ 0 → x = y) ∧
      ∀ x, (s.proc x).state ≠ .unused → 0 < (s.proc x).pid ∧ (s.proc x).pid < s.nextpid := by
  have pids := pids_reachable reach
  exact ⟨pids.unique, fun x used => ⟨pids.live x used, (pids.bounded x).2⟩⟩

/-- `initproc` has forked a child, which is `RUNNABLE` with the pid 2. -/
def childForked : Kernel Cpu :=
  afterEvents rsdl [.userinit, .scheduler, .fork, .forkCopy true true, .forkEnqueue]

theorem pid_unique_childForked :
    NoWrapReachable rsdl childForked ∧ (childForked.proc 1).pid = 2 ∧
      ((∀ x y, (childForked.proc x).pid = (childForked.proc y).pid →
          (childForked.proc x).pid ≠ 0 → x = y) ∧
        ∀ x, (childForked.proc x).state ≠ .unused →
          0 < (childForked.proc x).pid ∧ (childForked.proc x).pid < childForked.nextpid) := by
  have reach : NoWrapReachable rsdl childForked := noWrapReachable_afterEvents (by decide +kernel) (by decide)
  exact ⟨reach, by decide +kernel, pid_unique reach⟩

/-! ### Pids over a run -/

/-- What a run does to the pids: `nextpid` only grows, and a slot keeps its pid, drops it
to 0, or gets one not handed out when the run began. -/
structure PidStep (s s' : Kernel Cpu) : Prop where
  nextpid : s.nextpid ≤ s'.nextpid
  pid : ∀ x, (s'.proc x).pid = (s.proc x).pid ∨ (s'.proc x).pid = 0 ∨
    s.nextpid ≤ (s'.proc x).pid

theorem PidStep.refl (s : Kernel Cpu) : PidStep s s := ⟨le_refl _, fun _ => .inl rfl⟩

theorem PidStep.trans (first : PidStep s t) (second : PidStep t s') : PidStep s s' := by
  refine ⟨first.nextpid.trans second.nextpid, fun x => ?_⟩
  rcases second.pid x with same | zero | fresh
  · rw [same]
    exact first.pid x
  · exact .inr (.inl zero)
  · exact .inr (.inr (first.nextpid.trans fresh))

theorem PidStep.of_same (noWrap : s.nextpid ≤ s'.nextpid)
    (pid : ∀ x, (s'.proc x).pid = (s.proc x).pid) : PidStep s s' :=
  ⟨noWrap, fun x => .inl (pid x)⟩

theorem PidStep.taken {c : Slot} (taken : Taken s s' c) (noWrap : s.nextpid ≤ s'.nextpid) :
    PidStep s s' := by
  refine ⟨noWrap, fun x => ?_⟩
  by_cases here : x = c
  · subst x
    exact .inr (.inr (le_of_eq taken.pid.symm))
  · exact .inl (by rw [taken.others x here])

theorem pidStep_life {e : Event} (life : Life cfg s e s') (noWrap : s.nextpid ≤ s'.nextpid) :
    PidStep s s' := by
  cases life with
  | quiet quiet => exact .of_same noWrap quiet.pid
  | slept running => exact .of_same noWrap (steady_sleep running _).pid
  | waited running _ => exact .of_same noWrap (steady_sleep running _).pid
  | started started => exact .taken started.toTaken noWrap
  | began began => exact .taken began.toTaken noWrap
  | copied forked _ => exact .of_same noWrap (forked.field_eq Proc.pid fun _ => rfl)
  | undone forked _ => exact .of_same noWrap (forked.field_eq Proc.pid fun _ => rfl)
  | released forked _ => exact .of_same noWrap (forked.field_eq Proc.pid fun _ => rfl)
  | @reaped _ _ p z reaped =>
    refine ⟨noWrap, fun x => ?_⟩
    by_cases here : x = z
    · subst x
      exact .inr (.inl (by rw [reaped.freed]))
    · exact .inl (by rw [reaped.others x here])
  | exited exited => exact .of_same noWrap exited.pid

theorem pidStep_run (run : ReflTransGen (NoWrapStep cfg) s s') : PidStep s s' := by
  induction run with
  | refl => exact PidStep.refl s
  | tail _ step ih =>
    obtain ⟨⟨e, ran⟩, noWrap⟩ := step
    exact ih.trans (pidStep_life (exec_life ran) noWrap)

/-- A pid is never given to a second process: along any run on which `nextpid` does not
wrap, from a state reached so, a slot that holds a pid which `x` held at the start, other
than 0, is `x`. -/
theorem pid_never_reused (reach : NoWrapReachable cfg s) (run : ReflTransGen (NoWrapStep cfg) s s')
    {x y : Slot} (same : (s'.proc y).pid = (s.proc x).pid) (nonzero : (s.proc x).pid ≠ 0) :
    y = x := by
  have pids := pids_reachable reach
  have below := (pids.bounded x).2
  rcases (pidStep_run run).pid y with kept | zero | fresh
  · exact pids.unique y x (kept.symm.trans same) (by rw [← kept, same]; exact nonzero)
  · exact absurd (same.symm.trans zero) nonzero
  · omega

/-- The child of `childForked` runs and exits; it is a zombie that still holds its pid. -/
def childGone : Kernel Cpu :=
  afterEvents rsdl [.userinit, .scheduler, .fork, .forkCopy true true, .forkEnqueue, .yield,
    .requeue, .scheduler, .exit]

theorem pid_never_reused_childGone :
    NoWrapReachable rsdl childForked ∧ ReflTransGen (NoWrapStep rsdl) childForked childGone ∧
      (childGone.proc 1).state = .zombie ∧ (childGone.proc 1).pid = (childForked.proc 1).pid ∧
      (childForked.proc 1).pid ≠ 0 ∧ (1 : Slot) = 1 := by
  have reach : NoWrapReachable rsdl childForked := noWrapReachable_afterEvents (by decide +kernel) (by decide)
  have ran : runEvents rsdl childForked [.yield, .requeue, .scheduler, .exit] = some childGone :=
    runEvents_afterEvents (by decide +kernel)
  have run : ReflTransGen (NoWrapStep rsdl) childForked childGone :=
    noWrap_runEvents (by decide +kernel) (by decide +kernel) ran
  have same : (childGone.proc 1).pid = (childForked.proc 1).pid := by decide +kernel
  have zombie : (childGone.proc 1).state = .zombie := by decide +kernel
  have nonzero : (childForked.proc 1).pid ≠ 0 := by decide +kernel
  exact ⟨reach, run, zombie, same, nonzero, pid_never_reused reach run same nonzero⟩

end Rsdl.Pids
