import Rsdl.Lifecycle

/-! The `priofork`s under way. A `priofork` keeps `np` and `default_level` on its
caller's stack between its two critical sections (`Kernel.forks`), and `ForkSlots` says
what holds of them in every reachable state: each names a child slot of its own that is
still an `EMBRYO`, at a level that passed the range checks, and its caller is alive; every
`EMBRYO` is such a child. Each kind of change of `Life` keeps it: the first section adds a
child taken from a free slot, the later parts change only their own child, and every
other event moves no `priofork` and leaves each `EMBRYO` one.

The queue invariant `Inv` reads `ForkSlots` at the middle and the end of a `priofork`, so
the two are proved over `Reachable` here: `ForkSlots` first, from `Life` alone, then `Inv`
with it. -/
namespace Rsdl.Forks

open Invariant Preservation Lifecycle

variable {cfg : Config} {s s' : Kernel Cpu}

namespace ForkSlots

/-- A fork's child is no process the scheduler or the callers see. -/
theorem np_ne (forks : ForkSlots cfg s) {p y : Slot} {f : Forking} (held : s.forks p = some f)
    (other : (s.proc y).state ≠ .embryo) : f.np ≠ y := fun same =>
  other (same ▸ forks.embryo p f held)

/-- An alive slot is no child being created. -/
theorem ne_np_of_queued (forks : ForkSlots cfg s) {p y : Slot} {f : Forking}
    (held : s.forks p = some f) (alive : (s.proc y).state.queued = true) : y ≠ f.np := fun same => by
  rw [same, forks.embryo p f held] at alive
  cases alive

/-- A slot that is not alive is inside no `priofork`. -/
theorem idle_of_not_queued (forks : ForkSlots cfg s) {c : Slot}
    (dead : (s.proc c).state.queued = false) : s.forks c = none := by
  cases held : s.forks c with
  | none => rfl
  | some f =>
    have := forks.owner c f held
    rw [dead] at this
    cases this

/-- An event that moves no `priofork` and keeps every `EMBRYO` and every alive process. -/
theorem of_states (forks : ForkSlots cfg s) (forksEq : s'.forks = s.forks)
    (embryo : ∀ y, (s'.proc y).state = .embryo ↔ (s.proc y).state = .embryo)
    (owner : ∀ p, s.forks p ≠ none → (s'.proc p).state.queued = (s.proc p).state.queued) :
    ForkSlots cfg s' where
  embryo p f held := (embryo f.np).mpr (forks.embryo p f (forksEq ▸ held))
  range p f held := forks.range p f (forksEq ▸ held)
  unique p q f g held held' := forks.unique p q f g (forksEq ▸ held) (forksEq ▸ held')
  owner p f held := by
    have held₀ : s.forks p = some f := forksEq ▸ held
    rw [owner p (by rw [held₀]; exact Option.some_ne_none f)]
    exact forks.owner p f held₀
  owned y child := by
    obtain ⟨p, f, held, np⟩ := forks.owned y ((embryo y).mp child)
    exact ⟨p, f, forksEq ▸ held, np⟩

theorem steady (forks : ForkSlots cfg s) (steady : Steady s s') : ForkSlots cfg s' :=
  ForkSlots.of_states forks steady.forks (fun y => steady.state_iff y rfl) fun p _ => steady.queued p

/-- An event that changes one slot `c`, inside no `priofork` and no `EMBRYO` before or after,
and at most wakes the others. -/
theorem of_one (forks : ForkSlots cfg s) {c : Slot} (forksEq : s'.forks = s.forks)
    (idle : s.forks c = none) (before : (s.proc c).state ≠ .embryo)
    (after : (s'.proc c).state ≠ .embryo)
    (others : ∀ y, y ≠ c → (s'.proc y).state = (s.proc y).state ∨
      ((s.proc y).state = .sleeping ∧ (s'.proc y).state = .runnable)) : ForkSlots cfg s' := by
  refine ForkSlots.of_states forks forksEq (fun y => ?_) fun p inside => ?_
  · by_cases same : y = c
    · subst y
      exact ⟨fun embryo => absurd embryo after, fun embryo => absurd embryo before⟩
    · rcases others y same with kept | ⟨asleep, woken⟩
      · rw [kept]
      · rw [asleep, woken]
        decide
  · have other : p ≠ c := fun same => inside (same ▸ idle)
    rcases others p other with kept | ⟨asleep, woken⟩
    · rw [kept]
    · rw [asleep, woken]
      rfl

/-- The first section of a `priofork` by `x` adds the child `c`, taken from a free slot. -/
theorem began (forks : ForkSlots cfg s) {x c : Slot} {level : Int}
    (began : Began cfg s s' x c level) : ForkSlots cfg s' := by
  have fresh := began.fresh
  -- the other children are `EMBRYO`s, so none of them is `c`
  have otherChild : ∀ p f, s.forks p = some f → f.np ≠ c := fun p f held =>
    ForkSlots.np_ne forks held (by rw [fresh]; decide)
  have kept : ∀ p f, s.forks p = some f → s'.proc f.np = s.proc f.np := fun p f held =>
    began.others f.np (otherChild p f held)
  have notX : ∀ p, s.forks p ≠ none → p ≠ x := fun p inside same => inside (same ▸ began.idle)
  have forks' : ∀ p, s'.forks p = if p = x then some ⟨c, level, false⟩ else s.forks p := fun p => by
    rw [began.forks, Function.update_apply]
  have aliveX : (s'.proc x).state.queued = true := by
    rw [began.others x (Kernel.ne_of_state_ne fresh began.running (by decide)), began.running]
    rfl
  refine ⟨fun p f held => ?_, fun p f held => ?_, fun p q f g held held' same => ?_,
    fun p f held => ?_, fun y child => ?_⟩
  · rw [forks'] at held
    split at held
    · cases held
      exact began.embryo
    · rw [kept p f held]
      exact forks.embryo p f held
  · rw [forks'] at held
    split at held
    · cases held
      exact began.range
    · exact forks.range p f held
  · rw [forks'] at held held'
    split at held <;> split at held'
    · rename_i atP atQ
      rw [atP, atQ]
    · cases held
      exact absurd same.symm (otherChild q g held')
    · cases held'
      exact absurd same (otherChild p f held)
    · exact forks.unique p q f g held held' same
  · rw [forks'] at held
    split at held
    · rename_i atX
      rw [atX]
      exact aliveX
    · have alive := forks.owner p f held
      rw [began.others p (Kernel.ne_of_state_ne fresh (by rfl) (by
        intro equal; rw [← equal] at alive; cases alive))]
      exact alive
  · by_cases same : y = c
    · subst y
      exact ⟨x, ⟨c, level, false⟩, by rw [forks', if_pos rfl], rfl⟩
    · rw [began.others y same] at child
      obtain ⟨p, f, held, np⟩ := forks.owned y child
      exact ⟨p, f, by rw [forks', if_neg (notX p (by rw [held]; exact Option.some_ne_none f))]; exact held,
        np⟩

/-- The middle of a `priofork` that goes on writes the child's parent alone. -/
theorem copied (forks : ForkSlots cfg s) {x : Slot} {f : Forking}
    (forked : Forked s s' x f (fun pr => { pr with parent := some x }) (some { f with copied := true })) :
    ForkSlots cfg s' := by
  have state : ∀ y, (s'.proc y).state = (s.proc y).state := fun y => by
    by_cases same : y = f.np
    · subst y
      rw [forked.child]
    · rw [forked.others y same]
  have forks' : ∀ p, s'.forks p = if p = x then some { f with copied := true } else s.forks p :=
    fun p => by rw [forked.forks, Function.update_apply]
  -- the record of `x` names the same child at the same level
  have record : ∀ p g, s'.forks p = some g → ∃ g', s.forks p = some g' ∧ g.np = g'.np ∧
      g.defaultLevel = g'.defaultLevel := fun p g held => by
    rw [forks'] at held
    split at held
    · rename_i atX
      cases held
      exact ⟨f, atX ▸ forked.held, rfl, rfl⟩
    · exact ⟨g, held, rfl, rfl⟩
  refine ⟨fun p g held => ?_, fun p g held => ?_, fun p q g g' held held' same => ?_,
    fun p g held => ?_, fun y child => ?_⟩
  · obtain ⟨g₀, held₀, np, -⟩ := record p g held
    rw [state, np]
    exact forks.embryo p g₀ held₀
  · obtain ⟨g₀, held₀, -, level⟩ := record p g held
    rw [level]
    exact forks.range p g₀ held₀
  · obtain ⟨g₀, held₀, np, -⟩ := record p g held
    obtain ⟨g₁, held₁, np', -⟩ := record q g' held'
    exact forks.unique p q g₀ g₁ held₀ held₁ (np.symm.trans (same.trans np'))
  · obtain ⟨g₀, held₀, -, -⟩ := record p g held
    rw [state]
    exact forks.owner p g₀ held₀
  · rw [state] at child
    obtain ⟨p, g, held, np⟩ := forks.owned y child
    by_cases atX : p = x
    · subst p
      have same : g = f := Option.some.inj (held.symm.trans forked.held)
      exact ⟨x, { f with copied := true }, by rw [forks', if_pos rfl], by rw [← same]; exact np⟩
    · exact ⟨p, g, by rw [forks', if_neg atX]; exact held, np⟩

/-- A `priofork` that ends, in failure or with its child enqueued, leaves no `EMBRYO` in
the child's slot. -/
theorem ended (forks : ForkSlots cfg s) {x : Slot} {f : Forking} {g : Proc → Proc}
    (forked : Forked s s' x f g none) (leaves : (g (s.proc f.np)).state ≠ .embryo) :
    ForkSlots cfg s' := by
  have childX := forked.held
  -- every other child is not `f.np`, and keeps its slot
  have otherRecord : ∀ p h, s'.forks p = some h → p ≠ x ∧ s.forks p = some h := fun p h held => by
    rw [forked.forks, Function.update_apply] at held
    split at held
    · cases held
    · rename_i other
      exact ⟨other, held⟩
  have otherChild : ∀ p h, p ≠ x → s.forks p = some h → h.np ≠ f.np := fun p h other held same =>
    other (forks.unique p x h f held childX same)
  refine ⟨fun p h held => ?_, fun p h held => ?_, fun p q h h' held held' same => ?_,
    fun p h held => ?_, fun y child => ?_⟩
  · obtain ⟨other, held₀⟩ := otherRecord p h held
    rw [forked.others h.np (otherChild p h other held₀)]
    exact forks.embryo p h held₀
  · exact forks.range p h (otherRecord p h held).2
  · exact forks.unique p q h h' (otherRecord p h held).2 (otherRecord q h' held').2 same
  · obtain ⟨-, held₀⟩ := otherRecord p h held
    have alive := forks.owner p h held₀
    rw [forked.others p (ForkSlots.ne_np_of_queued forks childX alive)]
    exact alive
  · have notChild : y ≠ f.np := fun same => by
      rw [same, forked.child] at child
      exact leaves child
    rw [forked.others y notChild] at child
    obtain ⟨p, h, held, np⟩ := forks.owned y child
    have other : p ≠ x := fun same => by
      subst p
      rw [childX] at held
      cases held
      exact notChild np.symm
    exact ⟨p, h, by rw [forked.forks, Function.update_apply, if_neg other]; exact held, np⟩

end ForkSlots

/-- Every kind of change of `Life` keeps `ForkSlots`. -/
theorem forkSlots_life {e : Event} (forks : ForkSlots cfg s) (life : Life cfg s e s') :
    ForkSlots cfg s' := by
  cases life with
  | quiet quiet => exact ForkSlots.steady forks quiet.toSteady
  | slept running => exact ForkSlots.steady forks (steady_sleep running _)
  | waited running _ => exact ForkSlots.steady forks (steady_sleep running _)
  | started started =>
    refine ForkSlots.of_one forks started.forks (ForkSlots.idle_of_not_queued forks (by rw [started.fresh]; rfl))
      (by rw [started.fresh]; decide) (by rw [started.runnable]; decide) fun y other => .inl ?_
    rw [started.others y other]
  | began began => exact ForkSlots.began forks began
  | copied forked _ => exact ForkSlots.copied forks forked
  | undone forked _ => exact ForkSlots.ended forks forked (by simp)
  | released forked _ => exact ForkSlots.ended forks forked (by simp)
  | reaped reaped =>
    refine ForkSlots.of_one forks reaped.forks (ForkSlots.idle_of_not_queued forks (by rw [reaped.zombie]; rfl))
      (by rw [reaped.zombie]; decide) (by simp [reaped.freed]) fun y other => .inl ?_
    rw [reaped.others y other]
  | exited exited =>
    exact ForkSlots.of_one forks exited.forks exited.idle (by rw [exited.running]; decide)
      (by rw [exited.zombie]; decide) exited.state

theorem forkSlots_reachable (reach : Reachable cfg s) : ForkSlots cfg s := by
  induction reach with
  | refl => exact forkSlots_initial cfg
  | tail _ step ih =>
    obtain ⟨e, ran⟩ := step
    exact forkSlots_life ih (exec_life ran)

/-- The invariant holds in every reachable state. -/
theorem inv_reachable (reach : Reachable cfg s) : Inv cfg s := by
  induction reach with
  | refl => exact inv_initial cfg
  | tail before step ih => exact inv_step ih (forkSlots_reachable before) step

end Rsdl.Forks
