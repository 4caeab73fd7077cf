import Rsdl.Forks
import Rsdl.Lib.Forest
import Mathlib.Data.Fintype.EquivFin

/-! The process tree. Every `struct proc` but `initproc`'s has a `parent`: `priofork` sets
it to the caller once `copyuvm` is done, `exit` passes the caller's children to `initproc`
before the caller becomes a `ZOMBIE`, and `wait` clears it when it frees the zombie.
`Family` is what these keep of the links in every reachable state: a free slot has no
parent, every parent is alive (`SLEEPING`, `RUNNABLE` or `RUNNING`), `initproc` is an
alive root, the child of a `priofork` has its parent exactly once `copyuvm` is done, every
other process has a parent, and no process is its own ancestor.

Each kind of change of `Life` keeps `Family` by its own lemma, with the `ForkSlots` of the
state it starts in: the quiet events and the sleeps move no link (`Family.of_same`), the
first process becomes the root (`Family.of_started`), a slot taken by `priofork` or given back
keeps its empty link (`Family.began`, `Family.ended`), the middle of a `priofork` hangs
the child below its caller (`Family.copied`, with `Forest.Acyclic.of_fresh`), a reap
removes a leaf (`Family.reaped`) and an exit redirects links into the root
(`Family.exited`, with `Forest.Acyclic.of_root`). On the finite slot table an acyclic
relation has roots at the end of its chains, and the only roots in use are `initproc` and
the children whose `copyuvm` is not done: `process_tree`. `zombie_parent_live` reads the
other half off: a zombie always has a live parent to reap it. -/
namespace Rsdl.ProcTree

open Relation Forest Invariant Lifecycle Forks

variable {cfg : Config} {s s' : Kernel Cpu}

/-- `y` is the parent of `x`. -/
def ParentOf (s : Kernel Cpu) (x y : Slot) : Prop := (s.proc x).parent = some y

/-- The parent links of a reachable state. -/
structure Family (s : Kernel Cpu) : Prop where
  /-- A free slot has no parent: `wait` clears it, and only free slots are taken. -/
  freeOrphan : ∀ x, (s.proc x).state = .unused → (s.proc x).parent = none
  /-- Every parent is alive: `exit` hands its caller's children on before it is a zombie. -/
  parentLive : ∀ x p, (s.proc x).parent = some p → (s.proc p).state.queued = true
  /-- `initproc` is alive and has no parent. -/
  root : ∀ i, s.initproc = some i → (s.proc i).state.queued = true ∧ (s.proc i).parent = none
  /-- Every other process that is neither free nor being created has a parent. -/
  linked : ∀ x, (s.proc x).state ≠ .unused → (s.proc x).state ≠ .embryo → s.initproc ≠ some x →
    (s.proc x).parent ≠ none
  /-- The child of a `priofork` has its caller as its parent once `copyuvm` is done, and
  no parent before. -/
  forkParent : ∀ p f, s.forks p = some f →
    (s.proc f.np).parent = if f.copied then some p else none
  /-- There are processes only once `userinit` has made `initproc`. -/
  started : ∀ x, (s.proc x).state ≠ .unused → s.initproc ≠ none
  /-- No process is its own ancestor. -/
  acyclic : Acyclic (ParentOf s)

theorem family_initial (cfg : Config) : Family (initial cfg) where
  freeOrphan _ _ := rfl
  parentLive _ _ linked := by cases linked
  root _ init := by cases init
  linked _ used := absurd rfl used
  forkParent _ _ forking := by cases forking
  started _ used := absurd rfl used
  acyclic x cycle := by
    obtain ⟨y, edge, -⟩ := TransGen.head'_iff.mp cycle
    cases edge

/-! ### The kinds of change -/

/-- Nobody has a slot that is not alive as its parent. -/
theorem Family.noChild (fam : Family s) {c : Slot} (dead : (s.proc c).state.queued = false) (x : Slot) :
    (s.proc x).parent ≠ some c := fun linked => by
  have := fam.parentLive x c linked
  rw [dead] at this
  cases this

/-- `initproc` is alive, so it is no slot that is not. -/
theorem Family.ne_init (fam : Family s) {c i : Slot} (dead : (s.proc c).state.queued = false)
    (init : s.initproc = some i) : i ≠ c := fun same => by
  have := (fam.root i init).1
  rw [same, dead] at this
  cases this

/-- An event that moves no parent link and no `priofork`, keeps `initproc`, and keeps which
slots are free, which are being created and which are alive keeps the family. -/
theorem Family.of_same (fam : Family s) (initproc : s'.initproc = s.initproc)
    (parent : ∀ x, (s'.proc x).parent = (s.proc x).parent)
    (unused : ∀ x, (s'.proc x).state = .unused ↔ (s.proc x).state = .unused)
    (embryo : ∀ x, (s'.proc x).state = .embryo ↔ (s.proc x).state = .embryo)
    (queued : ∀ x, (s'.proc x).state.queued = (s.proc x).state.queued)
    (forks : s'.forks = s.forks) : Family s' where
  freeOrphan x free := (parent x).trans (fam.freeOrphan x ((unused x).mp free))
  parentLive x p linked := (queued p).trans (fam.parentLive x p ((parent x).symm.trans linked))
  root i init := by
    obtain ⟨live, orphan⟩ := fam.root i (initproc ▸ init)
    exact ⟨(queued i).trans live, (parent i).trans orphan⟩
  linked x used created notInit := by
    rw [parent x]
    exact fam.linked x (fun free => used ((unused x).mpr free))
      (fun child => created ((embryo x).mpr child)) (initproc ▸ notInit)
  forkParent p f held := by
    rw [parent]
    exact fam.forkParent p f (forks ▸ held)
  started x used := initproc ▸ fam.started x (fun free => used ((unused x).mpr free))
  acyclic := fam.acyclic.mono fun x _ edge => (parent x).symm.trans edge

theorem Family.steady (fam : Family s) (steady : Steady s s') : Family s' :=
  fam.of_same steady.initproc steady.parent steady.unused_iff (fun x => steady.state_iff x rfl)
    steady.queued steady.forks

/-- `userinit` makes the free slot `c` the parentless root; before it every slot is free. -/
theorem Family.of_started {c : Slot} (fam : Family s) (forks : ForkSlots cfg s)
    (started : Started s s' c) : Family s' := by
  have fresh := started.fresh
  have kept {x : Slot} (ne : x ≠ c) : s'.proc x = s.proc x := started.others x ne
  -- no slot is in use before `userinit`, so nothing links to `c` and no `priofork` runs
  have unused : ∀ x, (s.proc x).state = .unused := fun x => by
    by_contra used
    exact fam.started x used started.noInit
  have orphan : (s'.proc c).parent = none := started.parent.trans (fam.freeOrphan c fresh)
  have oldEdge : ∀ x y, ParentOf s' x y → x ≠ c → ParentOf s x y := fun x y edge ne => by
    rwa [ParentOf, kept ne] at edge
  refine ⟨fun x free => ?_, fun x q edge => ?_, fun i init => ?_, fun x used _ notInit => ?_,
    fun p f held => ?_, fun _ _ => ?_, fam.acyclic.of_fresh (fun x edge => ?_) oldEdge⟩
  · by_cases same : x = c
    · subst x
      exact orphan
    · rw [kept same] at free ⊢
      exact fam.freeOrphan x free
  · by_cases same : x = c
    · subst x
      rw [orphan] at edge
      cases edge
    · rw [kept same, fam.freeOrphan x (unused x)] at edge
      cases edge
  · rw [started.initproc] at init
    cases init
    exact ⟨by rw [started.runnable]; rfl, orphan⟩
  · by_cases same : x = c
    · exact absurd (same ▸ started.initproc) notInit
    · rw [kept same] at used
      exact absurd (unused x) used
  · have alive := forks.owner p f (started.forks ▸ held)
    rw [unused p] at alive
    cases alive
  · rw [started.initproc]
    exact Option.some_ne_none c
  · by_cases same : x = c
    · subst x
      rw [ParentOf, orphan] at edge
      cases edge
    · exact fam.noChild (by rw [fresh]; rfl) x (oldEdge x c edge same)

/-- The first section of a `priofork` by `x` takes the free slot `c`, which keeps its empty
link: no link moves. -/
theorem Family.began {x c : Slot} {level : Int} (fam : Family s) (forks : ForkSlots cfg s)
    (began : Began cfg s s' x c level) : Family s' := by
  have fresh := began.fresh
  have kept {y : Slot} (ne : y ≠ c) : s'.proc y = s.proc y := began.others y ne
  have parent : ∀ y, (s'.proc y).parent = (s.proc y).parent := fun y => by
    by_cases same : y = c
    · subst y
      exact began.parent
    · rw [kept same]
  have alive {p : Slot} (live : (s.proc p).state.queued = true) : s'.proc p = s.proc p :=
    kept fun same => by rw [same, fresh] at live; cases live
  refine ⟨fun y free => ?_, fun y q edge => ?_, fun i init => ?_, fun y used created notInit => ?_,
    fun p f held => ?_, fun y used => ?_, fam.acyclic.mono fun y _ edge => (parent y).symm.trans edge⟩
  · by_cases same : y = c
    · subst y
      rw [began.embryo] at free
      cases free
    · rw [kept same] at free ⊢
      exact fam.freeOrphan y free
  · have live := fam.parentLive y q ((parent y).symm.trans edge)
    rw [alive live]
    exact live
  · rw [began.initproc] at init
    obtain ⟨live, orphan⟩ := fam.root i init
    rw [alive live]
    exact ⟨live, orphan⟩
  · have same : y ≠ c := fun same => created (same ▸ began.embryo)
    rw [kept same] at used ⊢
    exact fam.linked y used (by rwa [kept same] at created) (began.initproc ▸ notInit)
  · rw [began.forks, Function.update_apply] at held
    split at held
    · cases held
      rw [began.parent, fam.freeOrphan c fresh]
      rfl
    · have other : f.np ≠ c := ForkSlots.np_ne forks held (by rw [fresh]; decide)
      rw [kept other]
      exact fam.forkParent p f held
  · rw [began.initproc]
    exact fam.started x (by rw [began.running]; decide)

/-- The middle of a `priofork` by `x` hangs its child, which nothing links to, below `x`. -/
theorem Family.copied {x : Slot} {f : Forking} (fam : Family s) (forks : ForkSlots cfg s)
    (forked : Forked s s' x f (fun pr => { pr with parent := some x }) (some { f with copied := true })) :
    Family s' := by
  have embryo := forks.embryo x f forked.held
  have dead : (s.proc f.np).state.queued = false := by rw [embryo]; rfl
  have kept {y : Slot} (ne : y ≠ f.np) : s'.proc y = s.proc y := forked.others y ne
  have state : ∀ y, (s'.proc y).state = (s.proc y).state := fun y => by
    by_cases same : y = f.np
    · subst y
      rw [forked.child]
    · rw [kept same]
  have oldEdge : ∀ y q, ParentOf s' y q → y ≠ f.np → ParentOf s y q := fun y q edge ne => by
    rwa [ParentOf, kept ne] at edge
  refine ⟨fun y free => ?_, fun y q edge => ?_, fun i init => ?_, fun y used created notInit => ?_,
    fun p g held => ?_, fun y used => ?_, fam.acyclic.of_fresh (fun y edge => ?_) oldEdge⟩
  · have other : y ≠ f.np := fun same => by rw [same, state, embryo] at free; cases free
    rw [kept other] at free ⊢
    exact fam.freeOrphan y free
  · rw [state]
    by_cases same : y = f.np
    · subst y
      rw [forked.child] at edge
      cases edge
      rw [forked.running]
      rfl
    · exact fam.parentLive y q (oldEdge y q edge same)
  · rw [forked.initproc] at init
    obtain ⟨live, orphan⟩ := fam.root i init
    rw [kept (fam.ne_init dead init)]
    exact ⟨live, orphan⟩
  · have other : y ≠ f.np := fun same => created (by rw [same, state, embryo])
    rw [kept other] at used created ⊢
    exact fam.linked y used created (forked.initproc ▸ notInit)
  · rw [forked.forks, Function.update_apply] at held
    split at held
    · rename_i atX
      cases held
      simp [forked.child, atX]
    · rename_i notX
      have other : g.np ≠ f.np := fun same => notX (forks.unique p x g f held forked.held same)
      rw [kept other]
      exact fam.forkParent p g held
  · rw [forked.initproc]
    exact fam.started y (by rwa [← state])
  · by_cases same : y = f.np
    · subst y
      rw [ParentOf, forked.child] at edge
      simp only [Option.some.injEq] at edge
      rw [← edge, forked.running] at dead
      cases dead
    · exact fam.noChild dead y (oldEdge y f.np edge same)

/-- A `priofork` that ends frees its child's slot before `copyuvm` is done, or makes the
child, which has its parent, `RUNNABLE`; no link moves. -/
theorem Family.ended {x : Slot} {f : Forking} {g : Proc → Proc} (fam : Family s)
    (forks : ForkSlots cfg s) (forked : Forked s s' x f g none)
    (keeps : (g (s.proc f.np)).parent = (s.proc f.np).parent)
    (after : (g (s.proc f.np)).state = .unused ∧ f.copied = false ∨
      (g (s.proc f.np)).state = .runnable ∧ f.copied = true) : Family s' := by
  have embryo := forks.embryo x f forked.held
  have dead : (s.proc f.np).state.queued = false := by rw [embryo]; rfl
  have kept {y : Slot} (ne : y ≠ f.np) : s'.proc y = s.proc y := forked.others y ne
  have parent : ∀ y, (s'.proc y).parent = (s.proc y).parent := fun y => by
    by_cases same : y = f.np
    · subst y
      rw [forked.child, keeps]
    · rw [kept same]
  have childParent := fam.forkParent x f forked.held
  have alive {p : Slot} (live : (s.proc p).state.queued = true) : s'.proc p = s.proc p :=
    kept fun same => by rw [same, dead] at live; cases live
  refine ⟨fun y free => ?_, fun y q edge => ?_, fun i init => ?_, fun y used created notInit => ?_,
    fun p h held => ?_, fun y used => ?_, fam.acyclic.mono fun y _ edge => (parent y).symm.trans edge⟩
  · rw [parent]
    by_cases same : y = f.np
    · subst y
      rcases after with ⟨-, fresh⟩ | ⟨runnable, -⟩
      · rw [childParent, fresh]
        rfl
      · rw [forked.child, runnable] at free
        cases free
    · rw [kept same] at free
      exact fam.freeOrphan y free
  · have live := fam.parentLive y q ((parent y).symm.trans edge)
    rw [alive live]
    exact live
  · rw [forked.initproc] at init
    obtain ⟨live, orphan⟩ := fam.root i init
    rw [alive live]
    exact ⟨live, orphan⟩
  · rw [parent]
    by_cases same : y = f.np
    · subst y
      rcases after with ⟨free, -⟩ | ⟨-, copied⟩
      · rw [forked.child, free] at used
        exact absurd rfl used
      · rw [childParent, copied]
        exact Option.some_ne_none x
    · rw [kept same] at used created
      exact fam.linked y used created (forked.initproc ▸ notInit)
  · rw [forked.forks, Function.update_apply] at held
    split at held
    · cases held
    · rename_i notX
      have other : h.np ≠ f.np := fun same => notX (forks.unique p x h f held forked.held same)
      rw [kept other]
      exact fam.forkParent p h held
  · rw [forked.initproc]
    exact fam.started x (by rw [forked.running]; decide)

/-- `wait` frees a zombie, which is nobody's parent: a leaf leaves the tree. -/
theorem Family.reaped {p z : Slot} (fam : Family s) (forks : ForkSlots cfg s)
    (reaped : Reaped s s' p z) : Family s' := by
  have zombie := reaped.zombie
  have notLive : (s.proc z).state.queued = false := by rw [zombie]; rfl
  have kept {x : Slot} (ne : x ≠ z) : s'.proc x = s.proc x := reaped.others x ne
  have keptLive {q : Slot} (live : (s.proc q).state.queued = true) : s'.proc q = s.proc q :=
    kept fun same => by rw [same, notLive] at live; cases live
  have oldEdge : ∀ x y, ParentOf s' x y → ParentOf s x y := fun x y edge => by
    by_cases same : x = z
    · subst x
      rw [ParentOf, reaped.freed] at edge
      cases edge
    · rwa [ParentOf, kept same] at edge
  refine ⟨fun x free => ?_, fun x q edge => ?_, fun i init => ?_, fun x used created notInit => ?_,
    fun q f held => ?_, fun x used => ?_, fam.acyclic.mono oldEdge⟩
  · by_cases same : x = z
    · subst x
      rw [reaped.freed]
    · rw [kept same] at free ⊢
      exact fam.freeOrphan x free
  · have live := fam.parentLive x q (oldEdge x q edge)
    rw [keptLive live]
    exact live
  · rw [reaped.initproc] at init
    obtain ⟨live, orphan⟩ := fam.root i init
    rw [keptLive live]
    exact ⟨live, orphan⟩
  · by_cases same : x = z
    · subst x
      rw [reaped.freed] at used
      exact absurd rfl used
    · rw [kept same] at used created ⊢
      exact fam.linked x used created (reaped.initproc ▸ notInit)
  · have held₀ : s.forks q = some f := reaped.forks ▸ held
    rw [kept (ForkSlots.np_ne forks held₀ (by rw [zombie]; decide))]
    exact fam.forkParent q f held₀
  · by_cases same : x = z
    · subst x
      rw [reaped.freed] at used
      exact absurd rfl used
    · rw [kept same] at used
      exact reaped.initproc ▸ fam.started x used

/-- `exit` redirects the links into its caller into the root, `initproc`. -/
theorem Family.exited {c : Slot} (fam : Family s) (exited : Exited s s' c) : Family s' := by
  have running := exited.running
  -- `c` runs, so `initproc` exists, and it is not `c`
  obtain ⟨i, init⟩ := Option.ne_none_iff_exists'.mp (fam.started c (by rw [running]; decide))
  have notC : i ≠ c := fun same => exited.notInit (same ▸ init)
  obtain ⟨initLive, initOrphan⟩ := fam.root i init
  have parent' : ∀ x, (s'.proc x).parent =
      if (s.proc x).parent = some c then some i else (s.proc x).parent := by
    intro x
    rw [exited.parent x, init]
  have initOrphan' : (s'.proc i).parent = none := by simp [parent' i, initOrphan]
  have initLive' : (s'.proc i).state.queued = true := (exited.queued notC).trans initLive
  -- only sleepers change state besides `c`, so the children being created stay so
  have embryo : ∀ x, (s'.proc x).state = .embryo ↔ (s.proc x).state = .embryo := fun x => by
    by_cases same : x = c
    · subst x
      rw [exited.zombie, running]
      decide
    · rcases exited.state x same with kept | ⟨asleep, woken⟩
      · rw [kept]
      · rw [asleep, woken]
        decide
  refine ⟨fun x free => ?_, fun x q edge => ?_, fun i' init' => ?_, fun x used created notInit => ?_,
    fun p f held => ?_, fun x used => ?_,
    fam.acyclic.of_root (r := i) (fun y edge => ?_) (fun x y edge other => ?_)⟩
  · simp [parent' x, fam.freeOrphan x ((exited.unused_iff x).mp free)]
  · rw [parent' x] at edge
    split at edge
    · cases edge
      exact initLive'
    · rename_i notMine
      have ne : q ≠ c := fun same => notMine (same ▸ edge)
      exact (exited.queued ne).trans (fam.parentLive x q edge)
  · rw [exited.initproc, init] at init'
    cases init'
    exact ⟨initLive', initOrphan'⟩
  · have used₀ : (s.proc x).state ≠ .unused := fun free => used ((exited.unused_iff x).mpr free)
    rw [parent' x]
    split
    · exact Option.some_ne_none i
    · exact fam.linked x used₀ (fun child => created ((embryo x).mpr child)) (exited.initproc ▸ notInit)
  · -- the child of a `priofork` is not `c`'s: `c` is inside none
    have held₀ : s.forks p = some f := exited.forks ▸ held
    have notCaller : p ≠ c := fun same => by rw [same, exited.idle] at held₀; cases held₀
    rw [parent' f.np, fam.forkParent p f held₀]
    cases f.copied <;> simp [notCaller]
  · rw [exited.initproc]
    exact fam.started x fun free => used ((exited.unused_iff x).mpr free)
  · -- no edge leaves the root
    rw [ParentOf, initOrphan'] at edge
    cases edge
  · -- every edge that does not enter the root is old
    rw [ParentOf, parent' x] at edge
    split at edge
    · cases edge
      exact absurd rfl other
    · exact edge

theorem family_step {e : Event} (fam : Family s) (forks : ForkSlots cfg s) (life : Life cfg s e s') :
    Family s' := by
  cases life with
  | quiet quiet => exact fam.steady quiet.toSteady
  | slept running => exact fam.steady (steady_sleep running _)
  | waited running _ => exact fam.steady (steady_sleep running _)
  | started started => exact fam.of_started forks started
  | began began => exact fam.began forks began
  | copied forked _ => exact fam.copied forks forked
  | undone forked stage => exact fam.ended forks forked rfl (.inl ⟨rfl, stage⟩)
  | released forked stage => exact fam.ended forks forked rfl (.inr ⟨rfl, stage⟩)
  | reaped reaped => exact fam.reaped forks reaped
  | exited exited => exact fam.exited exited

theorem family_reachable (reach : Reachable cfg s) : Family s := by
  induction reach with
  | refl => exact family_initial cfg
  | tail before step ih =>
    obtain ⟨e, ran⟩ := step
    exact family_step ih (forkSlots_reachable before) (exec_life ran)

/-! ### `initproc` -/

/-- One event keeps `initproc`, in its slot and with its pid. -/
theorem initproc_step {e : Event} (fam : Family s) (forks : ForkSlots cfg s) (life : Life cfg s e s')
    {i : Slot} (init : s.initproc = some i) :
    s'.initproc = some i ∧ (s'.proc i).pid = (s.proc i).pid := by
  have live := (fam.root i init).1
  -- the slots an event takes are free, the one it frees is a zombie and the children being
  -- created are `EMBRYO`s: none of them is `i`
  have notDead {c : Slot} (dead : (s.proc c).state.queued = false) : i ≠ c :=
    fam.ne_init dead init
  cases life with
  | quiet quiet => exact ⟨quiet.initproc.trans init, quiet.pid i⟩
  | @slept x ch running =>
    exact ⟨(steady_sleep running ch).initproc.trans init, (steady_sleep running ch).pid i⟩
  | @waited x running _ =>
    exact ⟨(steady_sleep running (.proc x)).initproc.trans init,
      (steady_sleep running (.proc x)).pid i⟩
  | started started =>
    rw [started.noInit] at init
    cases init
  | began began =>
    rw [began.initproc, began.others i (notDead (by rw [began.fresh]; rfl))]
    exact ⟨init, rfl⟩
  | copied forked _ | undone forked _ | released forked _ =>
    rw [forked.initproc, forked.others i (notDead (by rw [forks.embryo _ _ forked.held]; rfl))]
    exact ⟨init, rfl⟩
  | reaped reaped =>
    rw [reaped.initproc, reaped.others i (notDead (by rw [reaped.zombie]; rfl))]
    exact ⟨init, rfl⟩
  | exited exited => exact ⟨exited.initproc.trans init, exited.pid i⟩

/-- Once `userinit` has made `initproc`, it stays: along any run from a reachable state,
`initproc` is the same slot, alive, with the same pid. -/
theorem initproc_immortal (reach : Reachable cfg s) {s' : Kernel Cpu}
    (run : ReflTransGen (Step cfg) s s') {i : Slot} (init : s.initproc = some i) :
    s'.initproc = some i ∧ (s'.proc i).state.queued = true ∧ (s'.proc i).pid = (s.proc i).pid := by
  induction run with
  | refl => exact ⟨init, ((family_reachable reach).root i init).1, rfl⟩
  | @tail mid last run step ih =>
    obtain ⟨atMid, -, pidMid⟩ := ih
    have midReach := reach.trans run
    obtain ⟨e, ran⟩ := step
    obtain ⟨atLast, pidLast⟩ :=
      initproc_step (family_reachable midReach) (forkSlots_reachable midReach) (exec_life ran) atMid
    have live := ((family_reachable (midReach.tail ⟨e, ran⟩)).root i atLast).1
    exact ⟨atLast, live, pidLast.trans pidMid⟩

/-! ### The tree -/

/-- Every ancestor of a process that is neither free nor being created is alive, or is the
process itself, and the last one has no parent: it is `initproc`. -/
theorem reaches_init (fam : Family s) {x : Slot} (used : (s.proc x).state ≠ .unused)
    (created : (s.proc x).state ≠ .embryo) : ∃ i, s.initproc = some i ∧ ReflTransGen (ParentOf s) x i := by
  obtain ⟨r, chain, top⟩ := fam.acyclic.reaches_root x
  have settled : (s.proc r).state ≠ .unused ∧ (s.proc r).state ≠ .embryo := by
    rcases chain.cases_tail with same | ⟨q, -, edge⟩
    · rw [same]
      exact ⟨used, created⟩
    · have live := fam.parentLive q r edge
      refine ⟨fun free => ?_, fun child => ?_⟩ <;> [rw [free] at live; rw [child] at live] <;>
        cases live
  have orphan : (s.proc r).parent = none := Option.eq_none_iff_forall_ne_some.mpr top
  refine ⟨r, ?_, chain⟩
  by_contra other
  exact fam.linked r settled.1 settled.2 other orphan

/-- In every reachable state the parent links form a forest with no cycle, and a tree with
`initproc` at its root but for one kind of slot: from every process that is not `UNUSED`
the links lead to `initproc`, unless it is the `EMBRYO` child of a `priofork` whose
`copyuvm` is not done, which has no parent yet. -/
theorem process_tree (reach : Reachable cfg s) :
    Acyclic (ParentOf s) ∧ ∀ x, (s.proc x).state ≠ .unused →
      (∃ i, s.initproc = some i ∧ ReflTransGen (ParentOf s) x i) ∨
        ((s.proc x).state = .embryo ∧ (s.proc x).parent = none ∧
          ∃ p f, s.forks p = some f ∧ f.np = x ∧ f.copied = false) := by
  have fam := family_reachable reach
  have forks := forkSlots_reachable reach
  refine ⟨fam.acyclic, fun x used => ?_⟩
  by_cases created : (s.proc x).state = .embryo
  · obtain ⟨p, f, held, np⟩ := forks.owned x created
    have link := fam.forkParent p f held
    rw [np] at link
    cases stage : f.copied
    · rw [stage] at link
      exact .inr ⟨created, link, p, f, held, np, stage⟩
    · -- the child hangs below its caller, which is alive
      rw [stage] at link
      have live := forks.owner p f held
      have used' : (s.proc p).state ≠ .unused := by
        intro free
        rw [free] at live
        cases live
      have created' : (s.proc p).state ≠ .embryo := by
        intro child
        rw [child] at live
        cases live
      obtain ⟨i, init, chain⟩ := reaches_init fam used' created'
      exact .inl ⟨i, init, .head link chain⟩
  · exact .inl (reaches_init fam used created)

/-- `initproc` is inside a `priofork`, whose child has no parent yet. -/
def forkBegun : Kernel Cpu := afterEvents rsdl [.userinit, .scheduler, .fork]

theorem reachable_forkBegun : Reachable rsdl forkBegun := reachable_afterEvents (by decide +kernel)

theorem process_tree_forkBegun :
    Reachable rsdl forkBegun ∧ (forkBegun.proc 1).state = .embryo ∧ (forkBegun.proc 1).parent = none ∧
      (Acyclic (ParentOf forkBegun) ∧ ∀ x, (forkBegun.proc x).state ≠ .unused →
        (∃ i, forkBegun.initproc = some i ∧ ReflTransGen (ParentOf forkBegun) x i) ∨
          ((forkBegun.proc x).state = .embryo ∧ (forkBegun.proc x).parent = none ∧
            ∃ p f, forkBegun.forks p = some f ∧ f.np = x ∧ f.copied = false)) :=
  ⟨reachable_forkBegun, by decide +kernel, by decide +kernel, process_tree reachable_forkBegun⟩

/-- `initproc` has forked a child, which has run and exited. -/
def childExited : Kernel Cpu :=
  afterEvents rsdl [.userinit, .scheduler, .fork, .forkCopy true true, .forkEnqueue, .yield,
    .requeue, .scheduler, .exit]

theorem reachable_childExited : Reachable rsdl childExited := reachable_afterEvents (by decide +kernel)

theorem initproc_immortal_childExited :
    Reachable rsdl (afterEvents rsdl [.userinit]) ∧
      ReflTransGen (Step rsdl) (afterEvents rsdl [.userinit]) childExited ∧
      (afterEvents rsdl [.userinit]).initproc = some 0 ∧
      (childExited.initproc = some 0 ∧ (childExited.proc 0).state.queued = true ∧
        (childExited.proc 0).pid = ((afterEvents rsdl [.userinit]).proc 0).pid) := by
  have reach : Reachable rsdl (afterEvents rsdl [.userinit]) := reachable_afterEvents (by decide)
  have ran : runEvents rsdl (afterEvents rsdl [.userinit])
      [.scheduler, .fork, .forkCopy true true, .forkEnqueue, .yield, .requeue, .scheduler, .exit] =
        some childExited :=
    runEvents_afterEvents (by decide +kernel)
  have run := run_of_runEvents ran
  have init : (afterEvents rsdl [.userinit]).initproc = some 0 := by decide
  exact ⟨reach, run, init, initproc_immortal reach run init⟩

/-- In every reachable state a zombie has a live parent, which `wait` can reap it for:
`exit` hands its caller's children to `initproc`, which never exits. -/
theorem zombie_parent_live (reach : Reachable cfg s) {z : Slot}
    (zombie : (s.proc z).state = .zombie) :
    ∃ p, (s.proc z).parent = some p ∧ (s.proc p).state.queued = true := by
  have fam := family_reachable reach
  have used : (s.proc z).state ≠ .unused := by rw [zombie]; decide
  have notInit : s.initproc ≠ some z := fun init => by
    have live := (fam.root z init).1
    rw [zombie] at live
    cases live
  have created : (s.proc z).state ≠ .embryo := by rw [zombie]; decide
  obtain ⟨p, linked⟩ := Option.ne_none_iff_exists'.mp (fam.linked z used created notInit)
  exact ⟨p, linked, fam.parentLive z p linked⟩

theorem zombie_parent_live_childExited :
    Reachable rsdl childExited ∧ (childExited.proc 1).state = .zombie ∧
      ∃ p, (childExited.proc 1).parent = some p ∧ (childExited.proc p).state.queued = true := by
  have zombie : (childExited.proc 1).state = .zombie := by decide +kernel
  exact ⟨reachable_childExited, zombie, zombie_parent_live reachable_childExited zombie⟩

end Rsdl.ProcTree
