import Mathlib.Logic.Function.Basic
import Mathlib.Logic.Relation

/-! The process tree as the rest of the system sees it through `fork`, `exit`, `wait` and
`getpid`: processes by pid, each with the pid of its parent and whether it has exited and
waits to be reaped. Four steps change it. The first process appears with no parent; a live
process spawns a child under a pid nobody holds; a live process other than the first one
exits, and its children become the first one's; a live process reaps a child that has
exited, and its pid is free (`TreeOp`, one constructor for each `Op`).

This is the specification the process table of the kernel refines (`TreeRefinement`). Its
invariant `Tree.Rooted` holds along every run from the empty tree: every parent is live,
no process is its own parent, and only the first process has none. -/
namespace Rsdl.TaskTree

open Relation

/-- A process as the rest of the system sees it. -/
@[ext]
structure Node where
  parent : Option Int
  zombie : Bool
  deriving DecidableEq, Repr

/-- The children of `n`, which exits, become children of `i`. -/
def Node.adopt (n i : Int) (node : Node) : Node :=
  if node.parent = some n then { node with parent := some i } else node

/-- The processes by pid, and the pid of the first one. -/
@[ext]
structure Tree where
  tasks : Int → Option Node
  init : Option Int

def Tree.empty : Tree := ⟨fun _ => none, none⟩

/-- The four ways the tree changes. -/
inductive Op where
  | start | spawn | exit | reap
  deriving DecidableEq, Repr

/-- The change `op` of the tree. -/
inductive TreeOp : Op → Tree → Tree → Prop
  /-- The first process, with no parent, under a free pid. -/
  | start {t : Tree} {n : Int} (noInit : t.init = none) (fresh : t.tasks n = none) :
      TreeOp .start t ⟨Function.update t.tasks n (some ⟨none, false⟩), some n⟩
  /-- The live `p` spawns a live child under the free pid `n`. -/
  | spawn {t : Tree} {p n : Int} {up : Option Int} (parent : t.tasks p = some ⟨up, false⟩)
      (fresh : t.tasks n = none) :
      TreeOp .spawn t ⟨Function.update t.tasks n (some ⟨some p, false⟩), t.init⟩
  /-- The live `n`, not the first process `i`, exits: it stays as a zombie, and its
  children are `i`'s. -/
  | exit {t : Tree} {n i : Int} {up : Option Int} (alive : t.tasks n = some ⟨up, false⟩)
      (init : t.init = some i) (notInit : n ≠ i) :
      TreeOp .exit t ⟨Function.update (fun m => (t.tasks m).map (Node.adopt n i)) n
        (some ⟨up, true⟩), t.init⟩
  /-- The live `p` reaps its zombie child `n`, whose pid is free again. -/
  | reap {t : Tree} {p n : Int} {up : Option Int} (parent : t.tasks p = some ⟨up, false⟩)
      (zombie : t.tasks n = some ⟨some p, true⟩) :
      TreeOp .reap t ⟨Function.update t.tasks n none, t.init⟩

/-- One change of the tree. -/
def TreeStep (t t' : Tree) : Prop := ∃ op, TreeOp op t t'

/-! ### The invariant -/

/-- Every parent is live, no node is its own parent, and only the first process has
none; the first process is live. -/
structure Tree.Rooted (t : Tree) : Prop where
  parentLive : ∀ n node p, t.tasks n = some node → node.parent = some p →
    ∃ up, t.tasks p = some ⟨up, false⟩
  noSelf : ∀ n node, t.tasks n = some node → node.parent ≠ some n
  orphan : ∀ n node, t.tasks n = some node → node.parent = none → t.init = some n
  init : ∀ i, t.init = some i → t.tasks i = some ⟨none, false⟩

theorem rooted_empty : Tree.empty.Rooted where
  parentLive _ _ _ held := by cases held
  noSelf _ _ held := by cases held
  orphan _ _ held := by cases held
  init _ started := by cases started

section Steps

variable {t : Tree}

/-- A live node is not a zombie, so it is no node that a `reap` frees. -/
theorem ne_of_live_of_zombie {p n : Int} {up up' : Option Int}
    (live : t.tasks p = some ⟨up, false⟩) (zombie : t.tasks n = some ⟨up', true⟩) : p ≠ n := by
  rintro rfl
  rw [live] at zombie
  cases zombie

/-- A held pid is not free. -/
theorem ne_of_held_of_fresh {p n : Int} {node : Node} (held : t.tasks p = some node)
    (fresh : t.tasks n = none) : p ≠ n := by
  rintro rfl
  rw [held] at fresh
  cases fresh

@[simp]
theorem adopt_parent_none (n i : Int) (node : Node) :
    (node.adopt n i).parent = none ↔ node.parent = none := by
  unfold Node.adopt
  split <;> simp_all

@[simp]
theorem adopt_zombie (n i : Int) (node : Node) : (node.adopt n i).zombie = node.zombie := by
  unfold Node.adopt
  split <;> rfl

/-- What a parent link turns into when `n` hands its children to `i`. -/
theorem adopt_parent (n i : Int) (node : Node) :
    (node.adopt n i).parent = if node.parent = some n then some i else node.parent := by
  unfold Node.adopt
  split <;> rfl

/-- Hanging a new node `n` below a live one, or below none, keeps the tree rooted when the
new node is the first process exactly if it has no parent. -/
theorem Tree.Rooted.add {n : Int} {up : Option Int} {init : Option Int} (rooted : t.Rooted)
    (fresh : t.tasks n = none)
    (parent : ∀ p, up = some p → ∃ up', t.tasks p = some ⟨up', false⟩)
    (orphan : up = none → init = some n)
    (oldOrphan : ∀ m node, t.tasks m = some node → node.parent = none → init = some m)
    (initLive : ∀ i, init = some i → (Function.update t.tasks n (some ⟨up, false⟩)) i =
      some ⟨none, false⟩) :
    Tree.Rooted ⟨Function.update t.tasks n (some ⟨up, false⟩), init⟩ := by
  refine ⟨fun m node p held linked => ?_, fun m node held => ?_, fun m node held none => ?_,
    initLive⟩ <;> dsimp only at *
  · by_cases here : m = n
    · subst here
      simp only [Function.update_self, Option.some.injEq] at held
      subst held
      obtain ⟨up', live⟩ := parent p linked
      exact ⟨up', by rw [Function.update_of_ne (ne_of_held_of_fresh live fresh), live]⟩
    · rw [Function.update_of_ne here] at held
      obtain ⟨up', live⟩ := rooted.parentLive m node p held linked
      exact ⟨up', by rw [Function.update_of_ne (ne_of_held_of_fresh live fresh), live]⟩
  · by_cases here : m = n
    · subst here
      simp only [Function.update_self, Option.some.injEq] at held
      subst held
      intro self
      obtain ⟨_, live⟩ := parent m self
      rw [live] at fresh
      cases fresh
    · rw [Function.update_of_ne here] at held
      exact rooted.noSelf m node held
  · by_cases here : m = n
    · subst here
      simp only [Function.update_self, Option.some.injEq] at held
      subst held
      exact orphan none
    · rw [Function.update_of_ne here] at held
      exact oldOrphan m node held none

/-- `exit` keeps the tree rooted: the children go to the first process, which is live and
not the one that exits; the zombie's own parent is live and not the zombie. -/
theorem Tree.Rooted.exit {n i : Int} {up : Option Int} (rooted : t.Rooted)
    (alive : t.tasks n = some ⟨up, false⟩) (init : t.init = some i) (notInit : n ≠ i) :
    Tree.Rooted ⟨Function.update (fun m => (t.tasks m).map (Node.adopt n i)) n
      (some ⟨up, true⟩), t.init⟩ := by
  have initNode := rooted.init i init
  -- a live node other than `n` stays live, with its parent adopted
  have stays {p : Int} {up' : Option Int} (live : t.tasks p = some ⟨up', false⟩) (ne : p ≠ n) :
      ∃ up'', Function.update (fun m => (t.tasks m).map (Node.adopt n i)) n
        (some ⟨up, true⟩) p = some ⟨up'', false⟩ := by
    rw [Function.update_of_ne ne, live]
    refine ⟨(Node.adopt n i ⟨up', false⟩).parent, ?_⟩
    by_cases linked : up' = some n <;> simp [Node.adopt, linked]
  refine ⟨fun m node p held linked => ?_, fun m node held => ?_, fun m node held none => ?_,
    fun i' init' => ?_⟩ <;> dsimp only at *
  · by_cases here : m = n
    · subst here
      simp only [Function.update_self, Option.some.injEq] at held
      subst held
      obtain ⟨up', live⟩ := rooted.parentLive m _ p alive linked
      exact stays live fun same => rooted.noSelf m _ alive (same ▸ linked)
    · simp only [Function.update_of_ne here] at held
      obtain ⟨node₀, held₀, rfl⟩ := Option.map_eq_some_iff.mp held
      rw [adopt_parent] at linked
      split at linked
      · cases linked
        exact stays initNode notInit.symm
      · obtain ⟨up', live⟩ := rooted.parentLive m node₀ p held₀ linked
        exact stays live fun same => by simp_all
  · by_cases here : m = n
    · subst here
      simp only [Function.update_self, Option.some.injEq] at held
      subst held
      exact rooted.noSelf m ⟨up, false⟩ alive
    · simp only [Function.update_of_ne here] at held
      obtain ⟨node₀, held₀, rfl⟩ := Option.map_eq_some_iff.mp held
      rw [adopt_parent]
      split
      · rename_i linked
        -- the first process has no parent, so it is not a child of `n`
        intro same
        cases same
        rw [initNode] at held₀
        cases held₀
        cases linked
      · exact rooted.noSelf m node₀ held₀
  · by_cases here : m = n
    · subst here
      simp only [Function.update_self, Option.some.injEq] at held
      subst held
      rw [rooted.orphan m _ alive none] at init
      exact absurd (Option.some.inj init) notInit
    · simp only [Function.update_of_ne here] at held
      obtain ⟨node₀, held₀, rfl⟩ := Option.map_eq_some_iff.mp held
      exact rooted.orphan m node₀ held₀ ((adopt_parent_none n i node₀).mp none)
  · rw [init] at init'
    cases init'
    rw [Function.update_of_ne notInit.symm]
    simp [initNode, Node.adopt]

/-- `wait` keeps the tree rooted: the zombie it frees is nobody's parent and not the first
process, both of which are live. -/
theorem Tree.Rooted.reap {p n : Int} (rooted : t.Rooted)
    (zombie : t.tasks n = some ⟨some p, true⟩) :
    Tree.Rooted ⟨Function.update t.tasks n none, t.init⟩ := by
  refine ⟨fun m node q held linked => ?_, fun m node held => ?_, fun m node held none => ?_,
    fun i init => ?_⟩ <;> dsimp only at *
  · have here : m ≠ n := fun same => by simp [same] at held
    rw [Function.update_of_ne here] at held
    obtain ⟨up', live⟩ := rooted.parentLive m node q held linked
    exact ⟨up', by rw [Function.update_of_ne (ne_of_live_of_zombie live zombie), live]⟩
  · have here : m ≠ n := fun same => by simp [same] at held
    rw [Function.update_of_ne here] at held
    exact rooted.noSelf m node held
  · have here : m ≠ n := fun same => by simp [same] at held
    rw [Function.update_of_ne here] at held
    exact rooted.orphan m node held none
  · have live := rooted.init i init
    rw [Function.update_of_ne (ne_of_live_of_zombie live zombie), live]

theorem Tree.Rooted.step {t' : Tree} (rooted : t.Rooted) (step : TreeStep t t') : t'.Rooted := by
  obtain ⟨op, step⟩ := step
  cases step with
  | @start _ n noInit fresh =>
    refine rooted.add fresh (fun _ linked => by cases linked) (fun _ => rfl)
      (fun m node held none => ?_) (fun i init => ?_)
    · rw [rooted.orphan m node held none] at noInit
      cases noInit
    · cases init
      simp
  | @spawn _ p n up parent fresh =>
    refine rooted.add fresh (fun q linked => ⟨up, by cases linked; exact parent⟩)
      (fun none => by cases none) rooted.orphan (fun i init => ?_)
    have live := rooted.init i init
    rw [Function.update_of_ne (ne_of_held_of_fresh live fresh), live]
  | exit alive init notInit => exact rooted.exit alive init notInit
  | reap _ zombie => exact rooted.reap zombie

/-- Every tree reached from the empty one is rooted. -/
theorem rooted_run {t : Tree} (run : ReflTransGen TreeStep Tree.empty t) : t.Rooted := by
  induction run with
  | refl => exact rooted_empty
  | tail _ step ih => exact ih.step step

end Steps

end Rsdl.TaskTree
