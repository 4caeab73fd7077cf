import Mathlib.Logic.Relation

/-! A concrete step relation and an abstract one, related by an abstraction function `f`.
When every concrete step from a state with `inv` either leaves `f` unchanged or is one
abstract step, the concrete system stutter-simulates the abstract one: every concrete run
is carried to an abstract run between the abstractions of its ends (`Stutters.run`). -/
namespace Simulation

open Relation

variable {α β : Type} {step : α → α → Prop} {absStep : β → β → Prop} {f : α → β}
  {inv : α → Prop}

/-- Every concrete step from a state with `inv` is invisible above, or one abstract step. -/
def Stutters (step : α → α → Prop) (absStep : β → β → Prop) (f : α → β) (inv : α → Prop) :
    Prop :=
  ∀ a a', inv a → step a a' → f a' = f a ∨ absStep (f a) (f a')

/-- A run from a state with `inv`, along which `inv` is kept, is an abstract run above. -/
theorem Stutters.run (sim : Stutters step absStep f inv)
    (preserves : ∀ a a', inv a → step a a' → inv a') {a a' : α} (start : inv a)
    (run : ReflTransGen step a a') : ReflTransGen absStep (f a) (f a') := by
  -- `inv` is carried along the run with the abstract run
  suffices both : inv a' ∧ ReflTransGen absStep (f a) (f a') from both.2
  induction run with
  | refl => exact ⟨start, .refl⟩
  | tail _ last ih =>
    obtain ⟨held, above⟩ := ih
    refine ⟨preserves _ _ held last, ?_⟩
    rcases sim _ _ held last with same | moved
    · rw [same]
      exact above
    · exact above.tail moved

end Simulation
