import Mathlib.Data.List.Basic

/-! A list kept in the prefix of a C array: the cells `0..n)` of `cells : Nat → α` are
the list, cells from `n` on are garbage. Appending writes cell `n`; deleting index `i`
moves every later cell one place down (`shiftLeft`) and shortens the prefix; looking a
value up runs over the prefix until a cell matches (`search`). The lemmas say what these
array idioms do to the list. -/
namespace CellArray

variable {α : Type*}

/-- The list held in the first `n` cells. -/
def toList (cells : Nat → α) (n : Nat) : List α := (List.range n).map cells

/-- `for (i = start; i < start + count; ++i) if (cells[i] == a) break;`: the index the
loop stops at, which is `start + count` when no cell matches. -/
def search [BEq α] (cells : Nat → α) (a : α) (start : Nat) : Nat → Nat
  | 0 => start
  | count + 1 => if cells start == a then start else search cells a (start + 1) count

/-- `for (j = start; ...; ++j) cells[j-1] = cells[j]`, run `count` times. -/
def shiftLeft (cells : Nat → α) (start : Nat) : Nat → Nat → α
  | 0 => cells
  | count + 1 => shiftLeft (Function.update cells (start - 1) (cells start)) (start + 1) count

@[simp] theorem length_toList (cells : Nat → α) (n : Nat) : (toList cells n).length = n := by
  simp [toList]

@[simp] theorem getElem_toList (cells : Nat → α) (n i : Nat) (bound : i < (toList cells n).length) :
    (toList cells n)[i] = cells i := by
  simp [toList]

/-- Writing cell `n` appends to the list of the first `n` cells. -/
theorem toList_update_append (cells : Nat → α) (n : Nat) (a : α) :
    toList (Function.update cells n a) (n + 1) = toList cells n ++ [a] := by
  apply List.ext_getElem (by simp)
  intro i bound _
  simp only [length_toList] at bound
  rw [getElem_toList, List.getElem_append]
  by_cases last : i = n
  · subst i
    simp
  · have below : i < n := by omega
    simp [Function.update, last, below]

theorem search_eq [BEq α] (cells : Nat → α) (a : α) (start count : Nat) :
    search cells a start count = start + ((List.range' start count).map cells).idxOf a := by
  induction count generalizing start with
  | zero => simp [search]
  | succ count ih =>
    rw [search, List.range'_succ, List.map_cons, List.idxOf_cons]
    cases hit : cells start == a
    · rw [if_neg (by simp), ih, cond_false]
      omega
    · simp

/-- The search loop over the first `n` cells stops at the first occurrence in the list
they hold. -/
theorem search_zero_eq_idxOf [BEq α] (cells : Nat → α) (a : α) (n : Nat) :
    search cells a 0 n = (toList cells n).idxOf a := by
  rw [search_eq, toList, List.range_eq_range', Nat.zero_add]

/-- After `shiftLeft cells start count`, cell `x` holds what cell `x + 1` held when `x`
is one of the `count` cells from `start - 1` on, and is unchanged otherwise. -/
theorem shiftLeft_apply (cells : Nat → α) (start count x : Nat) (positive : 0 < start) :
    shiftLeft cells start count x =
      if start - 1 ≤ x ∧ x < start - 1 + count then cells (x + 1) else cells x := by
  induction count generalizing cells start with
  | zero => rw [shiftLeft, if_neg (by omega)]
  | succ count ih =>
    rw [shiftLeft, ih _ _ (by omega)]
    by_cases inside : start ≤ x ∧ x < start + count
    · have moved : x + 1 ≠ start - 1 := by omega
      simp [inside, Function.update, moved]
      omega
    · by_cases first : x = start - 1
      · subst x
        have back : start - 1 + 1 = start := by omega
        simp [Function.update, back]
      · simp [inside, Function.update, first]
        omega

/-- The shift loop of `unqueue_proc_full` deletes index `i` from the list. -/
theorem toList_shiftLeft (cells : Nat → α) (n i : Nat) (bound : i < n) :
    toList (shiftLeft cells (i + 1) (n - (i + 1))) (n - 1) = (toList cells n).eraseIdx i := by
  apply List.ext_getElem (by simp [List.length_eraseIdx, bound])
  intro x below _
  simp only [length_toList] at below
  rw [getElem_toList, List.getElem_eraseIdx, shiftLeft_apply _ _ _ _ (by omega)]
  by_cases before : x < i
  · simp [before, show ¬ (i ≤ x) by omega]
  · simp [before, show i ≤ x ∧ x < i + (n - (i + 1)) by omega]

end CellArray
