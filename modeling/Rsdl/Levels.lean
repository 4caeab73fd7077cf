import Rsdl.Queue
import Rsdl.Lib.Search

/-! Where a process goes: `is_active_set`, `next_level` with its two wrappers, and
`find_available_queue`, which tries the active set from one level on and falls back to
the expired set from another. `next_level`'s `-1` is `none`. -/
namespace Rsdl

variable {C : Type}

/-- `is_active_set`: `q` lies in the address range `[ptable.active, &ptable.active[RSDL_LEVELS])`.
Queue `(set, k)` is at offset `set * RSDL_LEVELS + k` of `ptable.level`. -/
def isActiveSet (cfg : Config) (s : Kernel C) (q : QueueRef) : Bool :=
  decide (s.active.val * cfg.levels ≤ q.1.val * cfg.levels + q.2) &&
    decide (q.1.val * cfg.levels + q.2 < s.active.val * cfg.levels + cfg.levels)

/-- `is_expired_set`. -/
def isExpiredSet (cfg : Config) (s : Kernel C) (q : QueueRef) : Bool := !isActiveSet cfg s q

/-- The test in `next_level`'s loop: the level has quantum left and room for one more. -/
def Kernel.available (s : Kernel C) (set : Fin 2) (k : Nat) : Bool :=
  decide (0 < (s.level (set, k)).ticksLeft) && decide ((s.level (set, k)).numproc < NPROC)

/-- `next_level`: the first level from `start` on, in the expired set if `useExpired`
and in the active set otherwise, that is `available`. -/
def nextLevel (cfg : Config) (s : Kernel C) (start : Int) (useExpired : Bool) : Option Nat :=
  let set := if useExpired then s.expired else s.active
  if start < 0 then none else Search.first (s.available set) start.toNat cfg.levels

/-- `next_active_level`. -/
def nextActiveLevel (cfg : Config) (s : Kernel C) (start : Int) : Option Nat :=
  nextLevel cfg s start false

/-- `next_expired_level`. -/
def nextExpiredLevel (cfg : Config) (s : Kernel C) (start : Int) : Option Nat :=
  nextLevel cfg s start true

/-- `find_available_queue`: the first available active level from `activeStart`, else
the first available expired level from `expiredStart`, else a panic. -/
def findAvailableQueue (cfg : Config) (s : Kernel C) (activeStart expiredStart : Int) :
    Except Fault QueueRef :=
  match nextActiveLevel cfg s activeStart with
  | some k => .ok (s.active, k)
  | none =>
    match nextExpiredLevel cfg s expiredStart with
    | some k => .ok (s.expired, k)
    | none => .error (.panic "No free level in expired and active set, too many procs")

/-- Inside the bounds of `ptable.level`, the address test is a test of the row. -/
theorem isActiveSet_iff {cfg : Config} {s : Kernel C} {q : QueueRef} (bound : q.2 < cfg.levels) :
    isActiveSet cfg s q = true ↔ q.1 = s.active := by
  obtain ⟨set, k⟩ := q
  simp only [isActiveSet, Bool.and_eq_true, decide_eq_true_eq]
  simp only at bound
  rw [Fin.ext_iff]
  have row : set.val = 0 ∨ set.val = 1 := by omega
  have activeRow : s.active.val = 0 ∨ s.active.val = 1 := by omega
  rcases row with row | row <;> rcases activeRow with activeRow | activeRow <;>
    simp only [row, activeRow] <;> constructor <;> intro <;> first | trivial | omega

/-- The set tests read the active pointer alone. -/
theorem isExpiredSet_congr {cfg : Config} {s s' : Kernel C} (active : s'.active = s.active)
    (q : QueueRef) : isExpiredSet cfg s' q = isExpiredSet cfg s q := by
  simp only [isExpiredSet, isActiveSet, active]

theorem isExpiredSet_active {cfg : Config} {s : Kernel C} {k : Nat} (bound : k < cfg.levels) :
    isExpiredSet cfg s (s.active, k) = false := by
  simp [isExpiredSet, isActiveSet_iff (q := (s.active, k)) bound]

theorem nextLevel_eq_some {cfg : Config} {s : Kernel C} {start : Int} {useExpired : Bool} {k : Nat} :
    nextLevel cfg s start useExpired = some k ↔
      0 ≤ start ∧ start.toNat ≤ k ∧ k < cfg.levels ∧
        s.available (if useExpired then s.expired else s.active) k ∧
        ∀ j, start.toNat ≤ j → j < k →
          s.available (if useExpired then s.expired else s.active) j = false := by
  unfold nextLevel
  by_cases negative : start < 0
  · simp only [negative, ↓reduceIte, reduceCtorEq, false_iff]
    omega
  · simp only [negative, ↓reduceIte, Search.first_eq_some_iff]
    constructor
    · rintro ⟨low, high, hit, below⟩
      exact ⟨by omega, low, high, hit, below⟩
    · rintro ⟨-, low, high, hit, below⟩
      exact ⟨low, high, hit, below⟩

theorem nextLevel_eq_none {cfg : Config} {s : Kernel C} {start : Int} {useExpired : Bool}
    (nonneg : 0 ≤ start) :
    nextLevel cfg s start useExpired = none ↔
      ∀ j, start.toNat ≤ j → j < cfg.levels →
        s.available (if useExpired then s.expired else s.active) j = false := by
  unfold nextLevel
  simp only [show ¬ start < 0 by omega, ↓reduceIte]
  exact Search.first_eq_none_iff

/-- What `find_available_queue` can return: an available active level at or above
`activeStart` below which none is available, or, when the active set has none, the same
for the expired set and `expiredStart`. -/
theorem findAvailableQueue_eq_ok {cfg : Config} {s : Kernel C} {a e : Int} {r : QueueRef}
    (ran : findAvailableQueue cfg s a e = .ok r) :
    (r.1 = s.active ∧ nextActiveLevel cfg s a = some r.2) ∨
      (r.1 = s.expired ∧ nextActiveLevel cfg s a = none ∧ nextExpiredLevel cfg s e = some r.2) := by
  unfold findAvailableQueue at ran
  split at ran
  · rename_i k found
    cases ran
    exact .inl ⟨rfl, found⟩
  · rename_i missed
    split at ran
    · rename_i k found
      cases ran
      exact .inr ⟨rfl, missed, found⟩
    · cases ran

theorem findAvailableQueue_lt {cfg : Config} {s : Kernel C} {a e : Int} {r : QueueRef}
    (ran : findAvailableQueue cfg s a e = .ok r) : r.2 < cfg.levels := by
  rcases findAvailableQueue_eq_ok ran with ⟨-, found⟩ | ⟨-, -, found⟩
  · exact (nextLevel_eq_some.mp found).2.2.1
  · exact (nextLevel_eq_some.mp found).2.2.1

end Rsdl
