import Mathlib.Logic.Relation
import Mathlib.Data.Fintype.Card

/-! Parent links as a relation `R`, where `R x y` says that `y` is the parent of `x`:
when the links form no cycle, the two edits that keep it so, and what it gives on a
finite type.

A forest is edited in two ways here. An edge may leave a node that nothing points to,
as when a new node is hung below an old one (`Acyclic.of_fresh`); and edges may be
redirected into a root, a node with no parent (`Acyclic.of_root`). Neither closes a
cycle: a cycle through a new edge would have to enter the fresh node again, or leave
the root. On a finite type an acyclic relation has no infinite chain of parents, so
every chain ends at a root (`Acyclic.reaches_root`). -/
namespace Forest

open Relation

variable {α : Type} {R R' : α → α → Prop}

/-- No node is its own proper ancestor. -/
def Acyclic (R : α → α → Prop) : Prop := ∀ x, ¬ TransGen R x x

theorem Acyclic.mono (acyclic : Acyclic R) (sub : ∀ x y, R' x y → R x y) : Acyclic R' :=
  fun x cycle => acyclic x (TransGen.mono sub x x cycle)

theorem Acyclic.ne (acyclic : Acyclic R) {x y : α} (edge : R x y) : x ≠ y := fun same =>
  acyclic x (.single (same ▸ edge))

/-- Reversing every edge keeps a relation acyclic. -/
theorem acyclic_swap : Acyclic (Function.swap R) ↔ Acyclic R :=
  forall_congr' fun _ => not_congr transGen_swap

/-- A chain of new edges that ends away from the root `r` uses only old edges: it cannot
pass through `r`, which no new edge leaves. -/
theorem transGen_of_root {r : α} (root : ∀ y, ¬ R' r y) (old : ∀ x y, R' x y → y ≠ r → R x y)
    {a b : α} (chain : TransGen R' a b) (last : b ≠ r) : TransGen R a b := by
  induction chain with
  | single edge => exact .single (old _ _ edge last)
  | @tail m b _ edge ih =>
    have middle : m ≠ r := fun same => root b (same ▸ edge)
    exact .tail (ih middle) (old m b edge last)

/-- Redirecting edges into a root closes no cycle. -/
theorem Acyclic.of_root (acyclic : Acyclic R) {r : α} (root : ∀ y, ¬ R' r y)
    (old : ∀ x y, R' x y → y ≠ r → R x y) : Acyclic R' := by
  intro x cycle
  by_cases atRoot : x = r
  · -- a cycle through the root would have to leave it
    subst x
    obtain ⟨y, first, -⟩ := TransGen.head'_iff.mp cycle
    exact root y first
  · exact acyclic x (transGen_of_root root old cycle atRoot)

/-- An edge out of a node that nothing points to closes no cycle. -/
theorem Acyclic.of_fresh (acyclic : Acyclic R) {c : α} (fresh : ∀ x, ¬ R' x c)
    (old : ∀ x y, R' x y → x ≠ c → R x y) : Acyclic R' :=
  acyclic_swap.mp ((acyclic_swap.mpr acyclic).of_root fresh fun x y edge other =>
    old y x edge other)

/-- On a finite type, every chain of parents in an acyclic relation ends at a root. -/
theorem Acyclic.reaches_root [Finite α] (acyclic : Acyclic R) (x : α) :
    ∃ r, ReflTransGen R x r ∧ ∀ y, ¬ R r y := by
  -- induction upwards: `TransGen (swap R) y x` says that `y` is a proper ancestor of `x`
  have : Std.Irrefl (TransGen (Function.swap R)) :=
    ⟨fun a cycle => acyclic a (transGen_swap.mp cycle)⟩
  have upwards := Finite.wellFounded_of_trans_of_irrefl (TransGen (Function.swap R))
  refine upwards.induction (C := fun x => ∃ r, ReflTransGen R x r ∧ ∀ y, ¬ R r y) x ?_
  intro x above
  by_cases top : ∃ y, R x y
  · obtain ⟨y, edge⟩ := top
    obtain ⟨r, chain, isRoot⟩ := above y (.single edge)
    exact ⟨r, .head edge chain, isRoot⟩
  · exact ⟨x, .refl, fun y edge => top ⟨y, edge⟩⟩

end Forest
