import Rsdl.Iteration

/-! The scheduler never idles while a process is runnable. From an idle CPU the pick
finds a runnable process with quantum left, or finds none and the set swap runs. After
the swap every queued process sits in a level of the new active set, and every such level
has a full quantum. What an idle CPU can do before its next iteration is take an
interrupt, whose `wakeup` relabels processes and moves no queue and no quantum, so that
iteration finds a process to run. -/
namespace Rsdl.Progress

open Invariant Preservation QueueProofs SwapProofs ProcInv Forks Iteration

variable {cfg : Config} {s s' t u : Kernel Cpu}

/-- The scheduler iteration from `s` dispatches a runnable process with quantum left. -/
def Picks (cfg : Config) (s : Kernel Cpu) : Prop :=
  ∃ k p, pick cfg s = some (k, p) ∧ exec cfg s .scheduler = some (.ok (dispatch s k p)) ∧
    (s.proc p).state = .runnable ∧ 0 < (s.proc p).ticksLeft

/-- An event other than a scheduler iteration. -/
def Between (cfg : Config) (s s' : Kernel Cpu) : Prop :=
  ∃ e, e ≠ .scheduler ∧ exec cfg s e = some (.ok s')

theorem picks_of_pick (idle : s.cpu.proc = none) (started : s.initproc ≠ none) {k : Nat}
    {p : Slot} (found : pick cfg s = some (k, p)) : Picks cfg s := by
  obtain ⟨-, -, -, ready⟩ := pick_eq_some found
  simp only [Kernel.ready, Bool.and_eq_true, decide_eq_true_eq] at ready
  refine ⟨k, p, found, ?_, ready⟩
  rw [exec_scheduler idle started]
  unfold scheduler
  rw [found]

/-- A ready process in an active level with quantum left makes the pick succeed. -/
theorem picks_of_ready (idle : s.cpu.proc = none) (started : s.initproc ≠ none) {j : Nat}
    {x : Slot} (bound : j < cfg.levels) (quantum : 0 < (s.level (s.active, j)).ticksLeft)
    (inside : x ∈ (s.level (s.active, j)).entries) (ready : s.ready x = true) : Picks cfg s := by
  cases found : pick cfg s with
  | none =>
    have missed := pick_eq_none.mp found j bound quantum x inside
    rw [ready] at missed
    cases missed
  | some picked => exact picks_of_pick idle started found

/-- With the expired set empty and every active level holding quantum, a runnable
process is found. -/
theorem picks_of_rotated (inv : Inv cfg s) (idle : s.cpu.proc = none) (started : s.initproc ≠ none)
    (empty : ∀ j < cfg.levels, (s.level (s.expired, j)).entries = [])
    (full : ∀ j < cfg.levels, 0 < (s.level (s.active, j)).ticksLeft) {x : Slot}
    (runnable : (s.proc x).state = .runnable) : Picks cfg s := by
  have queued : x ∈ s.queued cfg := (inv.member x).mpr (by rw [runnable]; rfl)
  have positive := inv.queuedQuantum x queued (by rw [idle]; simp)
  obtain ⟨r, member, inside⟩ := mem_queued.mp queued
  have bound := mem_allQueues.mp member
  rcases queueRef_cases inv.sets r with same | same <;> rw [same] at inside
  · exact picks_of_ready idle started bound (full r.2 bound) inside
      (by simp [Kernel.ready, runnable, positive])
  · rw [empty r.2 bound] at inside
    cases inside

/-! ### An idle CPU between two iterations -/

theorem StateMove.runnable {cpu : Cpu} {p : Slot} {after : ProcState}
    (move : StateMove cpu p .runnable after) : after = .runnable := by
  rcases move with same | ⟨before, -⟩ | ⟨before, -⟩ | ⟨before, -⟩
  · exact same
  all_goals cases before

/-- The timer interrupt of an idle CPU only wakes the sleepers on `ticks`. -/
theorem timer_of_idle (idle : s.cpu.proc = none) : timer 0 s = .ok (wakeup s .ticks) := by
  have stillIdle : (wakeup s .ticks).cpu.proc = none := idle
  unfold timer
  simp only [↓reduceIte, stillIdle]

/-- From an idle CPU every event but a scheduler iteration is an interrupt, and it only
relabels processes: no process runs to make a call, and no requeue is pending. -/
theorem relabel_of_between (idle : s.cpu.proc = none) (started : s.initproc ≠ none)
    (step : Between cfg s s') : Relabel s s' := by
  obtain ⟨e, other, ran⟩ := step
  have noCurrent : s.current = none := by simp [Kernel.current, idle]
  have noReturned : s.returned = none := by simp [Kernel.returned, idle]
  have noCaller : s.caller = none := by simp [Kernel.caller, noCurrent]
  have noForking (copied : Bool) : s.forking copied = none := by simp [Kernel.forking, noCurrent]
  cases e with
  | userinit => simp [exec_userinit_eq, started] at ran
  | priofork level => simp [exec, execOn, noCaller] at ran
  | fork => simp [exec, execOn, noCaller] at ran
  | forkCopy kallocOk copyuvmOk => simp [exec, execOn, noForking] at ran
  | forkEnqueue => simp [exec, execOn, noForking] at ran
  | exit => simp [exec, execOn, noCaller] at ran
  | wait => simp [exec, execOn, noCaller] at ran
  | sleep chan => simp [exec, execOn, noCaller] at ran
  | kill pid => simp [exec, execOn, noCaller] at ran
  | yield => simp [exec, execOn, noCaller] at ran
  | wakeup chan =>
    rw [exec_wakeup_eq, if_pos noReturned, Option.some.injEq, Except.ok.injEq] at ran
    rw [← ran]
    exact relabel_wakeup1 s _
  | timer =>
    rw [exec_timer_eq, if_pos noReturned, timer_of_idle idle, Option.some.injEq,
      Except.ok.injEq] at ran
    rw [← ran]
    exact relabel_wakeup1 s _
  | scheduler => exact absurd rfl other
  | requeue => simp [exec_requeue_eq, noReturned] at ran

theorem relabel_of_betweens (idle : s.cpu.proc = none) (started : s.initproc ≠ none)
    (run : Relation.ReflTransGen (Between cfg) s u) : Relabel s u := by
  induction run with
  | refl => exact Relabel.refl s
  | tail _ step ih =>
    exact ih.trans (relabel_of_between (by rw [ih.cpu]; exact idle)
      (by rw [ih.initproc]; exact started) step)

/-! ### No idling -/

theorem never_idles (reach : Reachable cfg s) (idle : s.cpu.proc = none)
    (waiting : ∃ p, (s.proc p).state = .runnable) :
    Picks cfg s ∨
      (pick cfg s = none ∧ ∃ t, exec cfg s .scheduler = some (.ok t) ∧ SetRotation cfg s t ∧
        ∀ u, Relation.ReflTransGen (Between cfg) t u →
          Picks cfg u ∧ ∀ x, (t.proc x).state = .runnable → (u.proc x).state = .runnable) := by
  have inv := inv_reachable reach
  obtain ⟨x, runnable⟩ := waiting
  have started : s.initproc ≠ none := inv.started_of_used (by rw [runnable]; decide)
  cases found : pick cfg s with
  | some picked => exact .inl (picks_of_pick idle started found)
  | none =>
    obtain ⟨t, ran, sw⟩ := swapSets_spec (Inv.swappable inv)
    have rotation := SweptTo.rotation inv sw
    obtain ⟨-, -, drained, filled, -⟩ := id rotation
    have invT := Inv.swapped inv idle sw
    have idleT : t.cpu.proc = none := by rw [sw.cpu]; exact idle
    have startedT : t.initproc ≠ none := by rw [sw.initproc]; exact started
    have exec_t : exec cfg s .scheduler = some (.ok t) := by
      rw [exec_scheduler idle started]
      unfold scheduler
      rw [found, ran]
    refine .inr ⟨rfl, t, exec_t, rotation, fun u run => ?_⟩
    have rel := relabel_of_betweens idleT startedT run
    have stays : ∀ y, (t.proc y).state = .runnable → (u.proc y).state = .runnable := by
      intro y before
      have move : StateMove t.cpu y .runnable (u.proc y).state := before ▸ rel.states y
      exact StateMove.runnable move
    have runnableT : (t.proc x).state = .runnable := by
      rcases sw.proc_cases x with same | same <;> rw [same] <;> exact runnable
    refine ⟨picks_of_rotated (invT.relabel rel) (by rw [rel.cpu]; exact idleT)
      (by rw [rel.initproc]; exact startedT) (fun j bound => ?_) (fun j bound => ?_)
      (stays x runnableT), stays⟩
    · rw [rel.level, rel.expired]
      exact (drained j bound).1
    · rw [rel.level, rel.active, (filled j bound).2]
      exact cfg.levelQuantum_int_pos

theorem never_idles_idleRun :
    Reachable oneTick idleRun ∧ idleRun.cpu.proc = none ∧ (idleRun.proc 0).state = .runnable ∧
      (Picks oneTick idleRun ∨
        (pick oneTick idleRun = none ∧ ∃ t, exec oneTick idleRun .scheduler = some (.ok t) ∧
          SetRotation oneTick idleRun t ∧ ∀ u, Relation.ReflTransGen (Between oneTick) t u →
            Picks oneTick u ∧ ∀ x, (t.proc x).state = .runnable → (u.proc x).state = .runnable)) := by
  have idle : idleRun.cpu.proc = none := by decide
  have runnable : (idleRun.proc 0).state = .runnable := by decide
  exact ⟨reachable_idleRun, idle, runnable, never_idles reachable_idleRun idle ⟨0, runnable⟩⟩

end Rsdl.Progress
