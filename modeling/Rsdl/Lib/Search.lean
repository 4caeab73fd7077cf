import Mathlib.Data.List.Basic
import Mathlib.Data.List.FinRange

/-! The C search idiom `for (k = start; k < stop; ++k) if (test(k)) break;`, read as the
least index in `[start, stop)` that passes the test, if there is one. -/
namespace Search

/-- The index the loop breaks at, or `none` when it runs to `stop`. -/
def first (test : Nat → Bool) (start stop : Nat) : Option Nat :=
  (List.range' start (stop - start)).find? test

variable {test : Nat → Bool}

private theorem find_range'_some {start n k : Nat} :
    (List.range' start n).find? test = some k ↔
      start ≤ k ∧ k < start + n ∧ test k ∧ ∀ j, start ≤ j → j < k → test j = false := by
  induction n generalizing start with
  | zero =>
    simp only [List.range'_zero, List.find?_nil, reduceCtorEq, false_iff]
    rintro ⟨low, high, -⟩
    omega
  | succ n ih =>
    rw [List.range'_succ]
    by_cases passes : test start
    · rw [List.find?_cons_of_pos passes]
      constructor
      · rintro ⟨⟩
        exact ⟨Nat.le_refl _, by omega, passes, fun j low high => absurd high (by omega)⟩
      · rintro ⟨low, -, -, below⟩
        by_cases same : start = k
        · rw [same]
        · exact absurd (below start (Nat.le_refl _) (by omega)) (by simp [passes])
    · rw [List.find?_cons_of_neg passes, ih]
      constructor
      · rintro ⟨low, high, hit, below⟩
        refine ⟨by omega, by omega, hit, fun j jlow jhigh => ?_⟩
        by_cases same : j = start
        · subst j
          simpa using passes
        · exact below j (by omega) jhigh
      · rintro ⟨low, high, hit, below⟩
        have moved : start ≠ k := fun same => passes (same ▸ hit)
        exact ⟨by omega, by omega, hit, fun j jlow jhigh => below j (by omega) jhigh⟩

private theorem find_range'_none {start n : Nat} :
    (List.range' start n).find? test = none ↔ ∀ j, start ≤ j → j < start + n → test j = false := by
  rw [List.find?_eq_none]
  simp only [List.mem_range'_1, Bool.not_eq_true]
  exact ⟨fun miss j low high => miss j ⟨low, high⟩, fun miss j ⟨low, high⟩ => miss j low high⟩

/-- The loop breaks at `k` exactly when `k` passes and every earlier index fails. -/
theorem first_eq_some_iff {start stop k : Nat} :
    first test start stop = some k ↔
      start ≤ k ∧ k < stop ∧ test k ∧ ∀ j, start ≤ j → j < k → test j = false := by
  rw [first, find_range'_some]
  constructor
  · rintro ⟨low, high, hit, below⟩
    exact ⟨low, by omega, hit, below⟩
  · rintro ⟨low, high, hit, below⟩
    exact ⟨low, by omega, hit, below⟩

/-- The loop runs to `stop` exactly when every index of `[start, stop)` fails. -/
theorem first_eq_none_iff {start stop : Nat} :
    first test start stop = none ↔ ∀ j, start ≤ j → j < stop → test j = false := by
  rw [first, find_range'_none]
  constructor
  · intro miss j low high
    exact miss j low (by omega)
  · intro miss j low high
    exact miss j low (by omega)

/-- A passing index at the start is where the loop breaks. -/
theorem first_of_test {start stop : Nat} (inside : start < stop) (hit : test start = true) :
    first test start stop = some start :=
  first_eq_some_iff.mpr ⟨Nat.le_refl _, inside, hit, fun j low high => absurd high (by omega)⟩

private theorem find_range'_congr {test' : Nat → Bool} {start n : Nat}
    (same : ∀ j, start ≤ j → j < start + n → test j = test' j) :
    (List.range' start n).find? test = (List.range' start n).find? test' := by
  induction n generalizing start with
  | zero => rfl
  | succ n ih =>
    rw [List.range'_succ, List.find?_cons, List.find?_cons, same start (Nat.le_refl _) (by omega),
      ih fun j low high => same j (by omega) (by omega)]

/-- The result depends only on the test over `[start, stop)`. -/
theorem first_congr {test' : Nat → Bool} {start stop : Nat}
    (same : ∀ j, start ≤ j → j < stop → test j = test' j) :
    first test start stop = first test' start stop :=
  find_range'_congr fun j low high => same j low (by omega)

/-- A scan of `0, 1, …, n - 1` in order, as `find?` over `List.finRange n`, stops at the
least index that passes. -/
theorem find?_finRange_eq_some {n : Nat} {test : Fin n → Bool} {k : Fin n}
    (found : (List.finRange n).find? test = some k) : test k = true ∧ ∀ j < k, test j = false := by
  obtain ⟨hit, i, bound, atIndex, before⟩ := List.find?_eq_some_iff_getElem.mp found
  have index : i = k.val := by
    rw [← atIndex, List.getElem_finRange]
    rfl
  refine ⟨hit, fun j lower => ?_⟩
  have missed := before j.val (by rw [index]; exact lower)
  simpa [List.getElem_finRange] using missed

end Search
