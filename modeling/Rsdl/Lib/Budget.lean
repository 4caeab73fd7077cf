import Mathlib.Data.List.Chain
import Mathlib.Algebra.BigOperators.Group.Finset.Piecewise

/-! A budget along a run: a quantity `f` of the state that a step may charge (lower by
one unit), leave alone, or refill (raise). Along a run with no refill the number of
charging steps is exactly what the budget lost, so a budget that never goes below zero
is charged at most what it held when the run began. A second quantity that no step raises
and that every charge lowers bounds the charges the same way (`charges_le_of_dominated`), and
one that every step lowers by at least the number of members of a family it charges bounds
the charges of the whole family (`sum_charges_le`). -/
namespace Budget

variable {σ : Type} (f : σ → Int)

/-- The number of steps of a run that lower `f`. -/
def charges : List σ → Nat
  | a :: b :: rest => (if f b < f a then 1 else 0) + charges (b :: rest)
  | _ => 0

/-- A step that charges one unit or nothing. -/
def Spends (a b : σ) : Prop := f b = f a - 1 ∨ f b = f a

/-- No step of the run refills `f`. -/
def NoRefill (l : List σ) : Prop := l.IsChain fun a b => f b ≤ f a

variable {f}

@[simp] theorem charges_singleton (a : σ) : charges f [a] = 0 := rfl

theorem charges_cons_cons (a b : σ) (rest : List σ) :
    charges f (a :: b :: rest) = (if f b < f a then 1 else 0) + charges f (b :: rest) := rfl

/-- A step that lowers `f` by one unit or does not lower it, and does not raise it,
spends. -/
theorem spends_of_not_raised {a b : σ} (lowered : f b = f a - 1 ∨ f a ≤ f b)
    (kept : f b ≤ f a) : Spends f a b := by
  rcases lowered with charged | higher
  · exact .inl charged
  · exact .inr (Int.le_antisymm kept higher)

/-- A run whose every step charges one unit, keeps or refills, and that refills nowhere,
only spends. -/
theorem isChain_spends {R : σ → σ → Prop} (step : ∀ a b, R a b → f b = f a - 1 ∨ f a ≤ f b)
    {l : List σ} (run : l.IsChain R) (kept : NoRefill f l) : l.IsChain (Spends f) := by
  induction run with
  | nil => exact .nil
  | singleton a => exact .singleton a
  | cons_cons related _ ih =>
    obtain ⟨noRefill, kept⟩ := List.isChain_cons_cons.mp kept
    exact .cons_cons (spends_of_not_raised (step _ _ related) noRefill) (ih kept)

/-- Along a run that only spends, the charges and what is left make up the start. -/
theorem charges_add_getLast {a : σ} {l : List σ} (run : (a :: l).IsChain (Spends f)) :
    (charges f (a :: l) : Int) + f ((a :: l).getLast (List.cons_ne_nil a l)) = f a := by
  induction l generalizing a with
  | nil => simp
  | cons b rest ih =>
    obtain ⟨step, run⟩ := List.isChain_cons_cons.mp run
    have lost := ih run
    rw [charges_cons_cons, List.getLast_cons_cons]
    -- a charge counts one and lowers by one; a kept step counts nothing
    rcases step with charged | kept <;> split <;> omega

/-- A budget that stays nonnegative along a run that only spends is charged at most what
it started with. -/
theorem charges_le {a : σ} {l : List σ} (run : (a :: l).IsChain (Spends f))
    (floor : ∀ b ∈ a :: l, 0 ≤ f b) : (charges f (a :: l) : Int) ≤ f a := by
  have lost := charges_add_getLast run
  have left := floor _ (List.getLast_mem (List.cons_ne_nil a l))
  omega

/-- A second quantity `g` that no step raises and that every charge of `f` lowers bounds the
charges of `f`, as long as it stays nonnegative. -/
theorem charges_le_of_dominated {g : σ → Int} {a : σ} {l : List σ}
    (run : (a :: l).IsChain fun b c => g c ≤ g b ∧ (f c < f b → g c < g b))
    (floor : ∀ b ∈ a :: l, 0 ≤ g b) : (charges f (a :: l) : Int) ≤ g a := by
  induction l generalizing a with
  | nil => simpa using floor a (List.mem_singleton_self a)
  | cons b rest ih =>
    obtain ⟨⟨lower, strict⟩, run⟩ := List.isChain_cons_cons.mp run
    have later := ih run fun c inside => floor c (List.mem_cons_of_mem a inside)
    rw [charges_cons_cons]
    -- a charge of `f` costs `g` at least one unit
    split
    · have := strict (by assumption)
      omega
    · omega

/-- A quantity `g` that every step lowers by at least the number of members of the family `F`
it charges bounds the charges of the whole family, as long as it stays nonnegative. -/
theorem sum_charges_le {ι : Type} (I : Finset ι) {F : ι → σ → Int} {g : σ → Int} {a : σ}
    {l : List σ}
    (run : (a :: l).IsChain fun b c => g c + ((I.filter fun i => F i c < F i b).card : Int) ≤ g b)
    (floor : ∀ b ∈ a :: l, 0 ≤ g b) : ((∑ i ∈ I, charges (F i) (a :: l) : Nat) : Int) ≤ g a := by
  induction l generalizing a with
  | nil => simpa using floor a (List.mem_singleton_self a)
  | cons b rest ih =>
    obtain ⟨step, run⟩ := List.isChain_cons_cons.mp run
    have later := ih run fun c inside => floor c (List.mem_cons_of_mem a inside)
    -- the first step charges each member it lowers once
    have first : ∑ i ∈ I, charges (F i) (a :: b :: rest) =
        (I.filter fun i => F i b < F i a).card + ∑ i ∈ I, charges (F i) (b :: rest) := by
      simp only [charges_cons_cons, Finset.sum_add_distrib, Finset.card_filter]
    rw [first, Int.natCast_add]
    omega

end Budget
