import Mathlib.Data.List.Basic

/-! Peeling `Except` computations written in `do` notation: how a bind, a map and a
pure value behave on `.ok`, and what a successful bind says about its two halves.

A C `while` loop whose body can fail is `loop`, run with a bound on its iterations;
`Runs` counts the iterations of a run that returns, and `loop_rel` carries a relation
over all of them. -/
namespace ExceptRun

variable {ε α β : Type}

@[simp] theorem ok_bind (a : α) (f : α → Except ε β) : (Except.ok a >>= f) = f a := rfl

@[simp] theorem error_bind (e : ε) (f : α → Except ε β) : (Except.error e >>= f) = .error e := rfl

@[simp] theorem pure_eq_ok (a : α) : (pure a : Except ε α) = .ok a := rfl

@[simp] theorem map_ok (f : α → β) (a : α) : (Except.ok a : Except ε α).map f = .ok (f a) := rfl

@[simp] theorem map_error (f : α → β) (e : ε) : (Except.error e : Except ε α).map f = .error e := rfl

/-- A bind that succeeds ran its first half successfully. -/
theorem bind_eq_ok {x : Except ε α} {f : α → Except ε β} {b : β} (ran : (x >>= f) = .ok b) :
    ∃ a, x = .ok a ∧ f a = .ok b := by
  cases x with
  | error e => cases ran
  | ok a => exact ⟨a, rfl, ran⟩

theorem map_eq_ok {x : Except ε α} {f : α → β} {b : β} (ran : x.map f = .ok b) :
    ∃ a, x = .ok a ∧ f a = b := by
  cases x with
  | error e => cases ran
  | ok a =>
    simp only [map_ok, Except.ok.injEq] at ran
    exact ⟨a, rfl, ran⟩

/-- A relation that relates the state before and after every step of a `foldlM`, and
composes, relates the start of the fold to its end. -/
theorem foldlM_rel {σ : Type} {R : σ → σ → Prop} (refl : ∀ a, R a a)
    (trans : ∀ {a b c}, R a b → R b c → R a c) {f : σ → α → Except ε σ} :
    ∀ (xs : List α), (∀ a x b, x ∈ xs → f a x = .ok b → R a b) →
      ∀ (a b : σ), xs.foldlM f a = .ok b → R a b
  | [], _, a, b, ran => by
    rw [List.foldlM_nil, pure_eq_ok] at ran
    cases ran
    exact refl a
  | x :: xs, step, a, b, ran => by
    rw [List.foldlM_cons] at ran
    obtain ⟨c, first, rest⟩ := bind_eq_ok ran
    have later : ∀ a y b, y ∈ xs → f a y = .ok b → R a b :=
      fun a y b member => step a y b (List.mem_cons_of_mem x member)
    exact trans (step a x c List.mem_cons_self first) (foldlM_rel refl trans xs later c b rest)

/-! ### `while` loops -/

section Loop

variable {σ : Type}

/-- `while (cond(s)) s = body(s);`, given at most `fuel` iterations: a loop whose
condition still holds after them ends in `stuck`. -/
def loop (cond : σ → Bool) (body : σ → Except ε σ) (stuck : ε) : Nat → σ → Except ε σ
  | 0, s => if cond s then .error stuck else .ok s
  | fuel + 1, s => if cond s then body s >>= loop cond body stuck fuel else .ok s

/-- The loop from `s` runs exactly `n` iterations, each of which returns, and stops in
`t`: the condition holds before each of them and fails in `t`. -/
inductive Runs (cond : σ → Bool) (body : σ → Except ε σ) : Nat → σ → σ → Prop
  | exit {s : σ} : cond s = false → Runs cond body 0 s s
  | iterate {n : Nat} {s s₁ t : σ} : cond s = true → body s = .ok s₁ → Runs cond body n s₁ t →
      Runs cond body (n + 1) s t

/-- A run of `n` iterations is what the loop returns when it may take `n` or more. -/
theorem Runs.loop_eq {cond : σ → Bool} {body : σ → Except ε σ} {n : Nat} {s t : σ}
    (runs : Runs cond body n s t) (stuck : ε) {fuel : Nat} (enough : n ≤ fuel) :
    loop cond body stuck fuel s = .ok t := by
  induction runs generalizing fuel with
  | exit stops => cases fuel <;> simp [loop, stops]
  | iterate holds ran rest ih =>
    obtain ⟨fuel, rfl⟩ : ∃ f, fuel = f + 1 := ⟨fuel - 1, by omega⟩
    rw [loop, if_pos holds, ran, ok_bind]
    exact ih (by omega)

/-- A relation that every iteration establishes between the states before and after it,
and that composes, relates the start of a loop that returns to its end. -/
theorem loop_rel {R : σ → σ → Prop} (refl : ∀ a, R a a) (trans : ∀ {a b c}, R a b → R b c → R a c)
    {cond : σ → Bool} {body : σ → Except ε σ} {stuck : ε}
    (step : ∀ a b, cond a = true → body a = .ok b → R a b) :
    ∀ (fuel : Nat) (a b : σ), loop cond body stuck fuel a = .ok b → R a b
  | 0, a, b, ran => by
    rw [loop] at ran
    split at ran
    · cases ran
    · cases ran
      exact refl a
  | fuel + 1, a, b, ran => by
    rw [loop] at ran
    split at ran
    · rename_i holds
      obtain ⟨c, first, rest⟩ := bind_eq_ok ran
      exact trans (step a c holds first) (loop_rel refl trans step fuel c b rest)
    · cases ran
      exact refl a

end Loop

end ExceptRun
