import Rsdl.ProcTree
import Rsdl.Pids
import Rsdl.TaskTree
import Rsdl.Lib.Simulation
import Rsdl.Lib.Search

/-! The process table refines the process tree of `TaskTree`. The tree has the processes
that the rest of the system sees (`Shown`): a slot that is neither free nor an `EMBRYO`
that a `priofork` has not yet released. A pid names the shown slot that holds it
(`holder`); the node of a slot is its parent's pid and whether it is a `ZOMBIE` (`node`);
and `tree` reads the whole tree off the table this way, with the pid of `initproc` as the
first process.

Each event makes the change of the tree that `EventStep` names for it
(`process_tree_refinement`): `userinit` starts the tree, the second section of `priofork`
spawns the child, `exit` hands the caller's children to `initproc`, and `wait` reaps, or
changes nothing when it sleeps or returns `-1`. Every other event is a stutter: the first
section of `priofork` and its middle write only an `EMBRYO`, and `sleep`, `kill`, `yield`,
`wakeup`, the timer, the scheduler and the requeue change no parent, no pid and no zombie.
The pid invariant of `Pids`, which holds while `nextpid` does not wrap, makes `holder`
exact, and by `Family` every parent is a live slot, which none of these steps frees or
renumbers. By `Simulation.Stutters.run` every such run of the kernel is a run of the tree
(`process_tree_run`), and the tree's invariant holds of every table reached so
(`tree_rooted`). -/
namespace Rsdl.TreeRefinement

open Relation Invariant Lifecycle Forks ProcTree Pids TaskTree

variable {cfg : Config} {s s' : Kernel Cpu}

/-- A process the rest of the system sees: its slot is neither free nor a child that
`priofork` has not yet released. -/
def Shown (s : Kernel Cpu) (x : Slot) : Prop :=
  (s.proc x).state ≠ .unused ∧ (s.proc x).state ≠ .embryo

instance (s : Kernel Cpu) (x : Slot) : Decidable (Shown s x) := by
  unfold Shown
  infer_instance

/-- The slot of the process with pid `n`: the first shown slot in table order that holds
`n`. -/
def holder (s : Kernel Cpu) (n : Int) : Option Slot :=
  (List.finRange NPROC).find? fun x => decide (Shown s x ∧ (s.proc x).pid = n)

/-- What the process in `x` is to the rest of the system. -/
def node (s : Kernel Cpu) (x : Slot) : Node :=
  ⟨(s.proc x).parent.map fun p => (s.proc p).pid, decide ((s.proc x).state = .zombie)⟩

/-- The process tree the table holds. -/
def tree (s : Kernel Cpu) : Tree :=
  ⟨fun n => (holder s n).map (node s), s.initproc.map fun i => (s.proc i).pid⟩

/-! ### Reading the table -/

theorem shown_of_queued {x : Slot} (queued : (s.proc x).state.queued = true) : Shown s x := by
  constructor <;> intro same <;> rw [same] at queued <;> cases queued

theorem holder_spec {n : Int} {x : Slot} (found : holder s n = some x) :
    Shown s x ∧ (s.proc x).pid = n :=
  of_decide_eq_true (Search.find?_finRange_eq_some found).1

theorem holder_eq_none {n : Int} (free : ∀ x, Shown s x → (s.proc x).pid ≠ n) :
    holder s n = none :=
  List.find?_eq_none.mpr fun x _ => by simpa using free x

/-- A shown slot that is the only shown one with its pid is that pid's holder. -/
theorem holder_eq_some {n : Int} {x : Slot} (shown : Shown s x) (holds : (s.proc x).pid = n)
    (only : ∀ y, Shown s y → (s.proc y).pid = n → y = x) : holder s n = some x := by
  cases found : holder s n with
  | none =>
    have missed := List.find?_eq_none.mp found x (List.mem_finRange x)
    simp [shown, holds] at missed
  | some y =>
    obtain ⟨shown', same⟩ := holder_spec found
    exact congrArg some (only y shown' same)

/-- With unique pids, a shown slot is the holder of its pid. -/
theorem holder_of_shown (pids : PidInv s) {x : Slot} (shown : Shown s x) :
    holder s (s.proc x).pid = some x :=
  holder_eq_some shown rfl fun y _ same => pids.unique y x same (by
    have := pids.live x shown.1
    omega)

theorem holder_congr {n : Int}
    (same : ∀ x, (Shown s' x ∧ (s'.proc x).pid = n) ↔ (Shown s x ∧ (s.proc x).pid = n)) :
    holder s' n = holder s n := by
  unfold holder
  congr 1
  funext x
  exact decide_eq_decide.mpr (same x)

/-- A step that shows and hides no slot and renumbers none keeps every holder. -/
theorem holder_of_same (shown : ∀ x, Shown s' x ↔ Shown s x)
    (pid : ∀ x, (s'.proc x).pid = (s.proc x).pid) (n : Int) : holder s' n = holder s n :=
  holder_congr fun x => by rw [shown x, pid x]

theorem tasks_of_shown (pids : PidInv s) {x : Slot} (shown : Shown s x) :
    (tree s).tasks (s.proc x).pid = some (node s x) := by
  show (holder s _).map (node s) = _
  rw [holder_of_shown pids shown]
  rfl

/-- A running process is a live node under its pid. -/
theorem tasks_of_running (pids : PidInv s) {x : Slot} (running : (s.proc x).state = .running) :
    (tree s).tasks (s.proc x).pid = some ⟨(s.proc x).parent.map fun p => (s.proc p).pid, false⟩ := by
  rw [tasks_of_shown pids (shown_of_queued (by rw [running]; rfl))]
  unfold node
  rw [running]
  rfl

/-- A slot shows the same node when it keeps its parent, the parent keeps its pid, and the
slot stays a zombie or not. -/
theorem node_eq {x : Slot} (parent : (s'.proc x).parent = (s.proc x).parent)
    (parentPid : ∀ p, (s.proc x).parent = some p → (s'.proc p).pid = (s.proc p).pid)
    (zombie : (s'.proc x).state = .zombie ↔ (s.proc x).state = .zombie) :
    node s' x = node s x := by
  unfold node
  rw [parent, decide_eq_decide.mpr zombie]
  cases linked : (s.proc x).parent with
  | none => rfl
  | some p => simp [parentPid p linked]

theorem ne_of_queued {x c : Slot} (queued : (s.proc x).state.queued = true)
    (notQueued : (s.proc c).state.queued = false) : x ≠ c := by
  rintro rfl
  rw [queued] at notQueued
  cases notQueued

/-! ### Stutters -/

/-- A steady step moves no process in or out of the tree and no link in it. -/
theorem tree_steady (steady : Steady s s') : tree s' = tree s := by
  have shown (x : Slot) : Shown s' x ↔ Shown s x :=
    and_congr (not_congr (steady.state_iff x rfl)) (not_congr (steady.state_iff x rfl))
  apply Tree.ext
  · funext n
    show (holder s' n).map (node s') = (holder s n).map (node s)
    rw [holder_of_same shown steady.pid n]
    cases holder s n with
    | none => rfl
    | some x =>
      exact congrArg some
        (node_eq (steady.parent x) (fun p _ => steady.pid p) (steady.state_iff x rfl))
  · show s'.initproc.map _ = s.initproc.map _
    rw [steady.initproc]
    simp only [steady.pid]

/-- A step that changes only the slot `c`, which is no parent as it is not queued, shows
the same node at every pid that `c` holds shown neither before nor after. -/
theorem tasks_of_others (fam : Family s) {c : Slot}
    (others : ∀ y, y ≠ c → s'.proc y = s.proc y) (notQueued : (s.proc c).state.queued = false)
    {n : Int} (before : ¬(Shown s c ∧ (s.proc c).pid = n))
    (after : ¬(Shown s' c ∧ (s'.proc c).pid = n)) :
    (tree s').tasks n = (tree s).tasks n := by
  have same : holder s' n = holder s n := holder_congr fun x => by
    by_cases here : x = c
    · subst here
      exact iff_of_false after before
    · simp only [Shown, others x here]
  show (holder s' n).map (node s') = (holder s n).map (node s)
  rw [same]
  cases found : holder s n with
  | none => rfl
  | some x =>
    have ne : x ≠ c := by
      rintro rfl
      exact before (holder_spec found)
    -- the parent of `x` is queued, so it is not `c` either
    have parentPid (p : Slot) (linked : (s.proc x).parent = some p) :
        (s'.proc p).pid = (s.proc p).pid := by
      rw [others p (ne_of_queued (fam.parentLive x p linked) notQueued)]
    exact congrArg some (node_eq (by rw [others x ne]) parentPid (by rw [others x ne]))

theorem init_of_others (fam : Family s) {c : Slot}
    (others : ∀ y, y ≠ c → s'.proc y = s.proc y) (notQueued : (s.proc c).state.queued = false)
    (initproc : s'.initproc = s.initproc) : (tree s').init = (tree s).init := by
  show s'.initproc.map _ = s.initproc.map _
  rw [initproc]
  cases init : s.initproc with
  | none => rfl
  | some i =>
    show some (s'.proc i).pid = some (s.proc i).pid
    rw [others i (ne_of_queued (fam.root i init).1 notQueued)]

/-- A step that writes only the slot `c`, which shows under no pid but `n` before and
after, changes the tree at `n` alone. -/
theorem tasks_update (fam : Family s) {c : Slot} (others : ∀ y, y ≠ c → s'.proc y = s.proc y)
    (notQueued : (s.proc c).state.queued = false) {n : Int} {v : Option Node}
    (atN : (tree s').tasks n = v) (before : ∀ m, m ≠ n → ¬(Shown s c ∧ (s.proc c).pid = m))
    (after : ∀ m, m ≠ n → ¬(Shown s' c ∧ (s'.proc c).pid = m)) :
    (tree s').tasks = Function.update (tree s).tasks n v := by
  funext m
  by_cases here : m = n
  · subst here
    rw [Function.update_self, atN]
  · rw [Function.update_of_ne here]
    exact tasks_of_others fam others notQueued (before m here) (after m here)

/-- A step that writes only a slot hidden before and after shows the same tree. -/
theorem tree_hidden (fam : Family s) {c : Slot} (others : ∀ y, y ≠ c → s'.proc y = s.proc y)
    (notQueued : (s.proc c).state.queued = false) (before : ¬Shown s c) (after : ¬Shown s' c)
    (initproc : s'.initproc = s.initproc) : tree s' = tree s := by
  apply Tree.ext
  · funext n
    exact tasks_of_others fam others notQueued (fun held => before held.1)
      (fun held => after held.1)
  · exact init_of_others fam others notQueued initproc

theorem not_shown_of_embryo {x : Slot} (embryo : (s.proc x).state = .embryo) : ¬Shown s x :=
  fun shown => shown.2 embryo

/-- The first section of `priofork` makes a free slot an `EMBRYO`, which the tree does not
show. -/
theorem tree_began (fam : Family s) {x c : Slot} {level : Int} (began : Began cfg s s' x c level) :
    tree s' = tree s :=
  tree_hidden fam began.others (by rw [began.fresh]; rfl) (fun shown => shown.1 began.fresh)
    (not_shown_of_embryo began.embryo) began.initproc

/-- The middle of a `priofork` writes the `EMBRYO` child and leaves it an `EMBRYO` or frees
it. -/
theorem tree_forked (fam : Family s) (forks : ForkSlots cfg s) {x : Slot} {f : Forking}
    {g : Proc → Proc} {next : Option Forking} (forked : Forked s s' x f g next)
    (hidden : (g (s.proc f.np)).state = .embryo ∨ (g (s.proc f.np)).state = .unused) :
    tree s' = tree s := by
  have embryo := forks.embryo x f forked.held
  refine tree_hidden fam forked.others (by rw [embryo]; rfl) (not_shown_of_embryo embryo) ?_
    forked.initproc
  rw [Shown, forked.child]
  rcases hidden with still | freed
  · exact fun shown => shown.2 still
  · exact fun shown => shown.1 freed

/-! ### Steps of the tree -/

/-- `userinit` starts the tree: the first process holds `nextpid`, which nobody held. -/
theorem tree_started (fam : Family s) (pids : PidInv s) {c : Slot} (started : Started s s' c) :
    TreeOp .start (tree s) (tree s') := by
  have taken := started.toTaken
  have notQueued : (s.proc c).state.queued = false := by rw [taken.fresh]; rfl
  have below (y : Slot) (other : y ≠ c) : (s'.proc y).pid < s.nextpid := by
    rw [taken.others y other]
    exact (pids.bounded y).2
  have fresh : (tree s).tasks s.nextpid = none := by
    show (holder s _).map _ = none
    rw [holder_eq_none fun x _ => ne_of_lt (pids.bounded x).2]
    rfl
  have born : (tree s').tasks s.nextpid = some (node s' c) := by
    show (holder s' _).map _ = _
    rw [holder_eq_some (shown_of_queued (by rw [started.runnable]; rfl)) taken.pid
      fun y _ same => by_contra fun other => absurd same (ne_of_lt (below y other))]
    rfl
  have shown : node s' c = ⟨none, false⟩ := by
    unfold node
    rw [taken.parent, fam.freeOrphan c taken.fresh, started.runnable]
    rfl
  have shape : tree s' = ⟨Function.update (tree s).tasks s.nextpid (some ⟨none, false⟩),
      some s.nextpid⟩ := by
    refine Tree.ext ?_ ?_
    · exact tasks_update fam taken.others notQueued (born.trans (congrArg some shown))
        (fun _ _ held => held.1.1 taken.fresh) fun _ here held => here (held.2.symm.trans taken.pid)
    · show s'.initproc.map _ = _
      rw [started.initproc, Option.map_some, taken.pid]
  rw [shape]
  exact .start (by show s.initproc.map _ = none; rw [started.noInit]; rfl) fresh

/-- The second section of `priofork` spawns: the child, which `copyuvm` gave its parent,
holds the pid `allocproc` gave it, which no shown process holds. -/
theorem tree_released (fam : Family s) (pids : PidInv s) (forks : ForkSlots cfg s) {x : Slot}
    {f : Forking}
    (forked : Forked s s' x f (fun pr => { pr with defaultLevel := f.defaultLevel, state := .runnable })
      none)
    (stage : f.copied = true) : TreeOp .spawn (tree s) (tree s') := by
  have embryo := forks.embryo x f forked.held
  have notQueued : (s.proc f.np).state.queued = false := by rw [embryo]; rfl
  have positive := pids.live f.np (by rw [embryo]; decide)
  have ne : x ≠ f.np := ne_of_queued (by rw [forked.running]; rfl) notQueued
  have pid : (s'.proc f.np).pid = (s.proc f.np).pid := by rw [forked.child]
  have linked : (s.proc f.np).parent = some x := by
    rw [fam.forkParent x f forked.held, if_pos stage]
  -- only `f.np` holds its pid, and it was hidden
  have fresh : (tree s).tasks (s.proc f.np).pid = none := by
    show (holder s _).map _ = none
    rw [holder_eq_none fun y shown same => ?_]
    · rfl
    · have := pids.unique y f.np same (by omega)
      subst this
      exact not_shown_of_embryo embryo shown
  have born : (tree s').tasks (s.proc f.np).pid = some (node s' f.np) := by
    show (holder s' _).map _ = _
    refine congrArg (Option.map (node s')) (holder_eq_some ?_ pid fun y shown same => ?_)
    · exact shown_of_queued (by rw [forked.child]; rfl)
    · by_contra other
      have kept := forked.others y other
      rw [kept] at same
      have shownY : Shown s y := by
        unfold Shown at shown ⊢
        rwa [kept] at shown
      exact not_shown_of_embryo embryo (pids.unique y f.np same (by omega) ▸ shownY)
  have shownNode : node s' f.np = ⟨some (s.proc x).pid, false⟩ := by
    unfold node
    rw [forked.child]
    simp [linked, forked.others x ne]
  have shape : tree s' = ⟨Function.update (tree s).tasks (s.proc f.np).pid
      (some ⟨some (s.proc x).pid, false⟩), (tree s).init⟩ := by
    refine Tree.ext ?_ (init_of_others fam forked.others notQueued forked.initproc)
    exact tasks_update fam forked.others notQueued (born.trans (congrArg some shownNode))
      (fun _ _ held => not_shown_of_embryo embryo held.1) fun _ here held => here (held.2.symm.trans pid)
  rw [shape]
  exact .spawn (tasks_of_running pids forked.running) fresh

/-- `wait` reaps: the zombie child's pid names nobody any more. -/
theorem tree_reaped (fam : Family s) (pids : PidInv s) {p z : Slot} (reaped : Reaped s s' p z) :
    TreeOp .reap (tree s) (tree s') := by
  have notQueued : (s.proc z).state.queued = false := by rw [reaped.zombie]; rfl
  have used : (s.proc z).state ≠ .unused := by rw [reaped.zombie]; decide
  have shownZ : Shown s z := ⟨used, by rw [reaped.zombie]; decide⟩
  have freed : (s'.proc z).state = .unused := by rw [reaped.freed]
  have gone : holder s' (s.proc z).pid = none := holder_eq_none fun x shown same => by
    -- `x` is not the freed `z`, so it kept its pid, which only `z` holds
    have ne : x ≠ z := fun here => shown.1 (here ▸ freed)
    rw [reaped.others x ne] at same
    exact ne (pids.unique x z same (by have := pids.live z used; omega))
  have shape : tree s' = ⟨Function.update (tree s).tasks (s.proc z).pid none, (tree s).init⟩ := by
    refine Tree.ext ?_ (init_of_others fam reaped.others notQueued reaped.initproc)
    have cleared : (tree s').tasks (s.proc z).pid = none := by
      show (holder s' _).map _ = none
      rw [gone]
      rfl
    exact tasks_update fam reaped.others notQueued cleared (fun _ here held => here held.2.symm)
      fun _ _ held => held.1.1 freed
  have zombie : (tree s).tasks (s.proc z).pid = some ⟨some (s.proc p).pid, true⟩ := by
    rw [tasks_of_shown pids shownZ]
    unfold node
    rw [reaped.child, reaped.zombie]
    rfl
  rw [shape]
  exact .reap (tasks_of_running pids reaped.running) zombie

/-- `exit` shows and hides no slot: its caller stays in the tree as a zombie. -/
theorem shown_iff_of_exited {c : Slot} (exited : Exited s s' c) (x : Slot) :
    Shown s' x ↔ Shown s x := by
  by_cases same : x = c
  · subst x
    simp [Shown, exited.zombie, exited.running]
  · rcases exited.state x same with kept | ⟨asleep, woken⟩
    · simp only [Shown, kept]
    · simp [Shown, asleep, woken]

/-- After `exit` by `c`, every other process shows its node with `c`'s children adopted by
`initproc`. -/
theorem node_exited (pids : PidInv s) {c i x : Slot} (exited : Exited s s' c)
    (init : s.initproc = some i) (ne : x ≠ c) :
    node s' x = (node s x).adopt (s.proc c).pid (s.proc i).pid := by
  have cPid := pids.live c (by rw [exited.running]; decide)
  apply Node.ext
  · rw [adopt_parent]
    unfold node
    rw [exited.parent x, init]
    cases linked : (s.proc x).parent with
    | none => simp
    | some q =>
      by_cases here : q = c
      · subst here
        simp [exited.pid]
      · -- only `c` holds the pid of `c`
        have other : (s.proc q).pid ≠ (s.proc c).pid := fun same =>
          here (pids.unique q c same (by omega))
        simp [here, other, exited.pid]
  · rw [adopt_zombie]
    unfold node
    rcases exited.state x ne with same | ⟨asleep, woken⟩
    · rw [same]
    · rw [asleep, woken]
      rfl

/-- `exit` by `c`, not `initproc`: `c` stays as a zombie under its own parent, and its
children are `initproc`'s. -/
theorem tree_exited (fam : Family s) (pids : PidInv s) {c : Slot} (exited : Exited s s' c) :
    TreeOp .exit (tree s) (tree s') := by
  have shownC : Shown s c := shown_of_queued (by rw [exited.running]; rfl)
  obtain ⟨i, init⟩ := Option.ne_none_iff_exists'.mp (fam.started c shownC.1)
  have holderSame := holder_of_same (shown_iff_of_exited exited) exited.pid
  have noSelf : (s.proc c).parent ≠ some c := fun self => fam.acyclic.ne self rfl
  have shown : node s' c = ⟨(s.proc c).parent.map fun p => (s.proc p).pid, true⟩ := by
    unfold node
    rw [exited.parent c, if_neg noSelf, exited.zombie]
    simp only [exited.pid]
    rfl
  have shape : tree s' = ⟨Function.update
      (fun m => ((tree s).tasks m).map (Node.adopt (s.proc c).pid (s.proc i).pid))
      (s.proc c).pid (some ⟨(s.proc c).parent.map fun p => (s.proc p).pid, true⟩),
      (tree s).init⟩ := by
    refine Tree.ext (funext fun n => ?_) ?_ <;> dsimp only
    · show (holder s' n).map (node s') = _
      rw [holderSame n]
      by_cases here : n = (s.proc c).pid
      · subst here
        rw [Function.update_self, holder_of_shown pids shownC, Option.map_some, shown]
      · rw [Function.update_of_ne here]
        show _ = ((holder s n).map (node s)).map _
        cases found : holder s n with
        | none => rfl
        | some x =>
          have ne : x ≠ c := fun same => here (same ▸ (holder_spec found).2).symm
          exact congrArg some (node_exited pids exited init ne)
    · show s'.initproc.map _ = s.initproc.map _
      rw [exited.initproc]
      simp only [exited.pid]
  have initPid : (tree s).init = some (s.proc i).pid := by
    show s.initproc.map _ = _
    rw [init]
    rfl
  have notInit : (s.proc c).pid ≠ (s.proc i).pid := fun same =>
    exited.notInit (by rw [init, pids.unique c i same (by have := pids.live c shownC.1; omega)])
  rw [shape]
  exact .exit (tasks_of_running pids exited.running) initPid notInit

/-- Every kind of change of `Life` is a stutter of the tree or one step of it. -/
theorem tree_life {e : Event} (fam : Family s) (pids : PidInv s) (forks : ForkSlots cfg s)
    (life : Life cfg s e s') : tree s' = tree s ∨ TreeStep (tree s) (tree s') := by
  cases life with
  | quiet quiet => exact .inl (tree_steady quiet.toSteady)
  | slept running => exact .inl (tree_steady (steady_sleep running _))
  | waited running _ => exact .inl (tree_steady (steady_sleep running _))
  | started started => exact .inr ⟨_, tree_started fam pids started⟩
  | began began => exact .inl (tree_began fam began)
  | copied forked _ => exact .inl (tree_forked fam forks forked (.inl (forks.embryo _ _ forked.held)))
  | undone forked _ => exact .inl (tree_forked fam forks forked (.inr rfl))
  | released forked stage => exact .inr ⟨_, tree_released fam pids forks forked stage⟩
  | reaped reaped => exact .inr ⟨_, tree_reaped fam pids reaped⟩
  | exited exited => exact .inr ⟨_, tree_exited fam pids exited⟩

/-! ### The refinement, event by event -/

/-- What an event of the kernel does to the process tree: `userinit` starts it, the second
section of `priofork` spawns, `exit` exits, and `wait` reaps or, when it sleeps or returns
`-1`, does nothing. The first section of `priofork` or `fork`, its middle, `sleep`, `kill`,
`yield`, `wakeup`, the timer, the scheduler and the requeue leave the tree as it is. -/
def EventStep : Event → Tree → Tree → Prop
  | .userinit, t, t' => TreeOp .start t t'
  | .forkEnqueue, t, t' => TreeOp .spawn t t'
  | .exit, t, t' => TreeOp .exit t t'
  | .wait, t, t' => TreeOp .reap t t' ∨ t' = t
  | .priofork _, t, t' | .fork, t, t' | .forkCopy _ _, t, t' | .sleep _, t, t' | .kill _, t, t'
  | .yield, t, t' | .wakeup _, t, t' | .timer, t, t' | .scheduler, t, t' | .requeue, t, t' =>
    t' = t

/-- Each event is a stutter of the tree or one step of it. -/
theorem EventStep.stutters {e : Event} {t t' : Tree} (step : EventStep e t t') :
    t' = t ∨ TreeStep t t' := by
  cases e <;> first
    | exact .inl step
    | exact .inr ⟨_, step⟩
    | exact step.elim (fun reap => .inr ⟨_, reap⟩) .inl

/-- From every state reached without `nextpid` wrapping, every event makes the change of the
process tree that `EventStep` names for it. -/
theorem process_tree_refinement (reach : NoWrapReachable cfg s) {e : Event}
    (ran : exec cfg s e = some (.ok s')) : EventStep e (tree s) (tree s') := by
  have reach' := NoWrapReachable.reachable reach
  have fam := family_reachable reach'
  have forks := forkSlots_reachable reach'
  have pids := pids_reachable reach
  -- each event runs one piece of code, which makes one kind of change of `Life`
  cases e with
  | userinit =>
    rw [exec_userinit_eq] at ran
    split at ran
    · rename_i noInit
      obtain ⟨c, started⟩ := userinit_started noInit (Option.some.inj ran)
      exact tree_started fam pids started
    · cases ran
  | priofork _ | fork =>
    obtain ⟨x, -, running, idle, begun⟩ := Kernel.caller_map_eq_some ran
    cases begun
    rcases prioforkBegin_life running idle with same | ⟨c, began⟩
    · exact congrArg tree same
    · exact tree_began fam began
  | forkCopy kallocOk copyuvmOk =>
    obtain ⟨x, f, -, running, held, -, copied⟩ := Kernel.forking_map_eq_some ran
    cases copied
    rcases prioforkMiddle_life running held kallocOk copyuvmOk with forked | forked
    · exact tree_forked fam forks forked (.inl (forks.embryo x f held))
    · exact tree_forked fam forks forked (.inr rfl)
  | forkEnqueue =>
    obtain ⟨x, f, -, running, held, stage, enqueued⟩ := Kernel.forking_map_eq_some ran
    exact tree_released fam pids forks (prioforkEnd_life running held enqueued) stage
  | exit =>
    obtain ⟨x, -, running, idle, exited⟩ := Kernel.caller_map_eq_some ran
    exact tree_exited fam pids (exit_exited running idle exited)
  | wait =>
    obtain ⟨x, -, running, -, waited⟩ := Kernel.caller_map_eq_some ran
    cases waited
    rcases wait_life running with same | ⟨z, reaped⟩ | ⟨slept, -⟩
    · exact .inr (congrArg tree same)
    · exact .inl (tree_reaped fam pids reaped)
    · rw [slept]
      exact .inr (tree_steady (steady_sleep running _))
  | sleep chan =>
    obtain ⟨x, -, running, -, slept⟩ := Kernel.caller_map_eq_some ran
    cases slept
    exact tree_steady (steady_sleep running chan)
  | kill pid =>
    obtain ⟨x, -, -, -, killed⟩ := Kernel.caller_map_eq_some ran
    cases killed
    exact tree_steady (quiet_kill s pid).toSteady
  | yield =>
    obtain ⟨x, -, running, -, yielded⟩ := Kernel.caller_map_eq_some ran
    cases yielded
    exact tree_steady (quiet_yield running).toSteady
  | wakeup chan => exact tree_steady (scheduler_frame (.inr (.inr (.inr ⟨chan, rfl⟩))) ran).toSteady
  | timer => exact tree_steady (scheduler_frame (.inl rfl) ran).toSteady
  | scheduler => exact tree_steady (scheduler_frame (.inr (.inl rfl)) ran).toSteady
  | requeue => exact tree_steady (scheduler_frame (.inr (.inr (.inl rfl))) ran).toSteady

/-- `initproc` has forked a child and `copyuvm` has given it its parent. -/
def childCopied : Kernel Cpu :=
  afterEvents rsdl [.userinit, .scheduler, .fork, .forkCopy true true]

/-- The second section of that `fork` spawns the child in the tree. -/
theorem process_tree_refinement_childCopied :
    NoWrapReachable rsdl childCopied ∧
      exec rsdl childCopied .forkEnqueue = some (.ok childForked) ∧
      EventStep .forkEnqueue (tree childCopied) (tree childForked) := by
  have reach : NoWrapReachable rsdl childCopied := noWrapReachable_afterEvents (by decide +kernel) (by decide)
  have ran : exec rsdl childCopied .forkEnqueue = some (.ok childForked) := rfl
  exact ⟨reach, ran, process_tree_refinement reach ran⟩

/-! ### Runs -/

theorem tree_stutters : Simulation.Stutters (NoWrapStep cfg) TreeStep tree (NoWrapReachable cfg) :=
  fun _ _ reach step =>
    let ⟨⟨_, ran⟩, _⟩ := step
    (process_tree_refinement reach ran).stutters

theorem tree_initial (cfg : Config) : tree (initial cfg) = Tree.empty := by
  apply Tree.ext
  · funext n
    show (holder (initial cfg) n).map (node (initial cfg)) = none
    rw [holder_eq_none fun _ shown => absurd rfl shown.1]
    rfl
  · rfl

/-- Along every run on which `nextpid` does not wrap, the process table follows the process
tree. -/
theorem process_tree_run (reach : NoWrapReachable cfg s)
    (run : ReflTransGen (NoWrapStep cfg) s s') : ReflTransGen TreeStep (tree s) (tree s') :=
  tree_stutters.run (fun _ _ reach step => reach.tail step) reach run

/-- In every state reached without `nextpid` wrapping, read by pid: the parent of every
process is a live process, no process is its own parent, only `initproc` has none, and
`initproc` is live. -/
theorem tree_rooted (reach : NoWrapReachable cfg s) : (tree s).Rooted := by
  have run := process_tree_run .refl reach
  rw [tree_initial] at run
  exact rooted_run run

theorem tree_rooted_childExited : NoWrapReachable rsdl childExited ∧ (tree childExited).Rooted := by
  have reach : NoWrapReachable rsdl childExited := noWrapReachable_afterEvents (by decide +kernel) (by decide)
  exact ⟨reach, tree_rooted reach⟩

end Rsdl.TreeRefinement
