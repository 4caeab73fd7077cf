import Rsdl.MultiCpu
import Rsdl.TreeRefinement

/-! The process table on any number of CPUs. Two CPUs break the run queues
(`MultiCpu.two_cpus_duplicate`): a set swap on one CPU moves the process another CPU runs,
and the requeue after its run enqueues it a second time. The process table does not break.
A section of a CPU is a single-CPU event on that CPU's view of the shared state, so it makes
one of the kinds of change of `Life` (`Lifecycle.execOn_life`), which needs no invariant of
the queues. The invariants of `ProcTree`, `Forks` and `Pids` and the refinement of
`TreeRefinement` read only the process table, `nextpid`, `initproc` and the stacks of the
processes inside a `priofork`, which every view shares. On any number of CPUs, under every
interleaving of their sections on which `nextpid` does not wrap, pids stay unique and the
table refines the process tree (`multi_cpu_process_tree`). -/
namespace Rsdl.MultiCpuTree

open Relation Invariant MultiCpu Lifecycle Forks ProcTree Pids TaskTree TreeRefinement Iteration

variable {cfg : Config} {n : Nat} {s s' t : MultiKernel n}

/-- A section of CPU `i` is a `Life` change of that CPU's view. -/
theorem multiStep_life (step : MultiStep cfg s s') :
    ∃ i e t, Life cfg (view s i) e t ∧ s' = commit s i t := by
  obtain ⟨i, e, ran⟩ := step
  unfold execMulti at ran
  split at ran
  · obtain ⟨r, single, committed⟩ := Option.map_eq_some_iff.mp ran
    obtain ⟨t, rfl, rfl⟩ := ExceptRun.map_eq_ok committed
    exact ⟨i, e, t, execOn_life single, rfl⟩
  · cases ran

/-! ### Interleavings on which `nextpid` does not wrap -/

/-- A section on which `nextpid++`, where `allocproc` runs, does not pass `INT_MAX`. -/
def MultiNoWrapStep (cfg : Config) (s s' : MultiKernel n) : Prop :=
  MultiStep cfg s s' ∧ s.nextpid ≤ s'.nextpid

def MultiNoWrapReachable (cfg : Config) (s : MultiKernel n) : Prop :=
  ReflTransGen (MultiNoWrapStep cfg) (initialMulti cfg n) s

/-- A section from below `INT_MAX` does not wrap, and counts at most one pid. -/
theorem multiNoWrapStep_of_lt (step : MultiStep cfg s s') (nonneg : 0 ≤ s.nextpid)
    (small : s.nextpid + 1 < 2 ^ 31) : MultiNoWrapStep cfg s s' ∧ s'.nextpid ≤ s.nextpid + 1 := by
  obtain ⟨i, e, t, life, rfl⟩ := multiStep_life step
  have counted : t.nextpid = s.nextpid ∨ t.nextpid = s.nextpid + 1 := by
    rcases nextpid_life life with same | next
    · exact .inl same
    · exact .inr (next.trans (wrapInt_succ nonneg small))
  have grows : s.nextpid ≤ t.nextpid ∧ t.nextpid ≤ s.nextpid + 1 := by omega
  exact ⟨⟨step, grows.1⟩, grows.2⟩

/-- The sections `es` from a state at least `es.length` below `INT_MAX` never wrap. -/
theorem multiNoWrap_runMulti {es : List (Fin n × Event)} (nonneg : 0 ≤ s.nextpid)
    (small : s.nextpid + es.length < 2 ^ 31) (ran : runMulti cfg s es = some t) :
    ReflTransGen (MultiNoWrapStep cfg) s t := by
  induction es generalizing s with
  | nil =>
    cases ran
    exact .refl
  | cons step es ih =>
    obtain ⟨i, e⟩ := step
    unfold runMulti at ran
    split at ran
    · rename_i s₁ stepped
      rw [List.length_cons] at small
      obtain ⟨first, counted⟩ := multiNoWrapStep_of_lt ⟨i, e, stepped⟩ nonneg (by omega)
      exact .head first (ih (by have := first.2; omega) (by omega) ran)
    · cases ran

theorem multiNoWrapReachable_afterMulti {es : List (Fin n × Event)}
    (ran : (runMulti cfg (initialMulti cfg n) es).isSome = true) (short : es.length + 1 < 2 ^ 31) :
    MultiNoWrapReachable cfg (afterMulti cfg n es) := by
  obtain ⟨t, ran⟩ := Option.isSome_iff_exists.mp ran
  have start : (initialMulti cfg n).nextpid = 1 := rfl
  rw [afterMulti, ran, Option.getD_some]
  exact multiNoWrap_runMulti (by rw [start]; decide) (by rw [start]; omega) ran

/-! ### What no CPU part reads -/

section Views

variable {u : Kernel Cpu}

theorem family_cpu (fam : Family u) (c : Cpu) : Family { u with cpu := c } :=
  ⟨fam.freeOrphan, fam.parentLive, fam.root, fam.linked, fam.forkParent, fam.started, fam.acyclic⟩

theorem pids_cpu (pids : PidInv u) (c : Cpu) : PidInv { u with cpu := c } :=
  ⟨pids.positive, pids.bounded, pids.unique, pids.live⟩

theorem forkSlots_cpu (forks : ForkSlots cfg u) (c : Cpu) : ForkSlots cfg { u with cpu := c } :=
  ⟨forks.embryo, forks.range, forks.unique, forks.owner, forks.owned⟩

theorem tree_cpu (u : Kernel Cpu) (c : Cpu) : tree { u with cpu := c } = tree u := rfl

end Views

/-- Along every interleaving on which `nextpid` does not wrap, every view of the state keeps
the family, the pids and the records of the `priofork`s, and its tree is reached from the
empty one. -/
theorem table_reachable (reach : MultiNoWrapReachable cfg s) (i : Fin n) :
    Family (view s i) ∧ PidInv (view s i) ∧ ForkSlots cfg (view s i) ∧
      ReflTransGen TreeStep Tree.empty (tree (view s i)) := by
  induction reach generalizing i with
  | refl =>
    have empty : tree (view (initialMulti cfg n) i) = Tree.empty := tree_initial cfg
    exact ⟨family_initial cfg, pids_initial cfg, forkSlots_initial cfg, empty ▸ .refl⟩
  | tail _ step ih =>
    -- the CPU `j` that stepped changed its own view; every other view shares the table
    obtain ⟨multi, noWrap⟩ := step
    obtain ⟨j, e, t, life, rfl⟩ := multiStep_life multi
    obtain ⟨fam, pids, forks, run⟩ := ih j
    refine ⟨family_cpu (family_step fam forks life) _, pids_cpu (PidInv.step pids forks life noWrap) _,
      forkSlots_cpu (forkSlots_life forks life) _, ?_⟩
    rw [show tree (view (commit _ j t) i) = tree t from tree_cpu t _]
    rcases tree_life fam pids forks life with same | moved
    · rw [same]
      exact run
    · exact run.tail moved

/-- On any number of CPUs and under every interleaving of their sections on which `nextpid`
does not wrap, the process table refines the process tree, its tree is rooted, and no pid
but 0 is held twice, although on two CPUs the run queues lose their invariant. -/
theorem multi_cpu_process_tree (reach : MultiNoWrapReachable cfg s) (i : Fin n) :
    ReflTransGen TreeStep Tree.empty (tree (view s i)) ∧ (tree (view s i)).Rooted ∧
      ∀ x y, (s.proc x).pid = (s.proc y).pid → (s.proc x).pid ≠ 0 → x = y := by
  obtain ⟨-, pids, -, run⟩ := table_reachable reach i
  exact ⟨run, rooted_run run, pids.unique⟩

/-- The two-CPU run where `initproc` is queued twice still shows a rooted tree. -/
theorem multi_cpu_process_tree_duplicateRun :
    MultiNoWrapReachable oneTick duplicateRun ∧ (duplicateRun.queued oneTick).count 0 = 2 ∧
      (ReflTransGen TreeStep Tree.empty (tree (view duplicateRun 0)) ∧
        (tree (view duplicateRun 0)).Rooted ∧
        ∀ x y, (duplicateRun.proc x).pid = (duplicateRun.proc y).pid →
          (duplicateRun.proc x).pid ≠ 0 → x = y) := by
  have reach : MultiNoWrapReachable oneTick duplicateRun :=
    multiNoWrapReachable_afterMulti (by decide) (by decide)
  have twice : (duplicateRun.queued oneTick).count 0 = 2 := by decide +kernel
  exact ⟨reach, twice, multi_cpu_process_tree reach 0⟩

end Rsdl.MultiCpuTree
