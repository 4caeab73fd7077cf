import Rsdl.DrainProofs

/-! The set swap of `scheduler()`: the pointers are exchanged, then level `k` of the new
expired set (the old active set) is refilled and drained, for `k` from `0` up. With every
level of the old expired set holding quantum and room, `find_available_queue(d, d)` sends
each drained process to level `d` of the new active set, never back into the level
being drained, so each drain empties its level in one iteration per entry.

`SweptTo s k t` is the state `t` after the first `k` levels: those are empty and refilled,
and level `d` of the new active set holds its old entries followed by the processes of
priority `d` from the swept levels, in level order and queue order (`swept`). -/
namespace Rsdl.SwapProofs
open ExceptRun QueueProofs DrainProofs

variable {C : Type} {cfg : Config} {s t t' : Kernel C} {k : Nat}

/-- The processes of the first `k` active levels of `s`, in level order. -/
def sweptAll (s : Kernel C) (k : Nat) : List Slot :=
  (List.range k).flatMap fun j => (s.level (s.active, j)).entries

/-- Those of them whose priority is `d`, in the same order. -/
def swept (s : Kernel C) (k d : Nat) : List Slot :=
  (List.range k).flatMap fun j =>
    (s.level (s.active, j)).entries.filter fun x => decide ((s.proc x).defaultLevel.toNat = d)

theorem sweptAll_succ (s : Kernel C) (k : Nat) :
    sweptAll s (k + 1) = sweptAll s k ++ (s.level (s.active, k)).entries := by
  simp [sweptAll, List.range_succ]

theorem swept_succ (s : Kernel C) (k d : Nat) :
    swept s (k + 1) d = swept s k d ++
      (s.level (s.active, k)).entries.filter fun x => decide ((s.proc x).defaultLevel.toNat = d) := by
  simp [swept, List.range_succ]

/-- What the swap relies on. -/
structure Swappable (cfg : Config) (s : Kernel C) : Prop where
  sets : s.active ≠ s.expired
  nodup : (s.queued cfg).Nodup
  defaultRange : ∀ x, 0 ≤ (s.proc x).defaultLevel ∧ (s.proc x).defaultLevel < cfg.levels
  expiredQuantum : ∀ j < cfg.levels, 0 < (s.level (s.expired, j)).ticksLeft

/-- The state after the swap loop has refilled and drained the first `k` old active
levels. -/
structure SweptTo (cfg : Config) (s : Kernel C) (k : Nat) (t : Kernel C) : Prop where
  active : t.active = s.expired
  expired : t.expired = s.active
  drainedTicks : ∀ j, (t.level (s.active, j)).ticksLeft =
    if j < k then (cfg.levelQuantum : Int) else (s.level (s.active, j)).ticksLeft
  filledTicks : ∀ j, (t.level (s.expired, j)).ticksLeft = (s.level (s.expired, j)).ticksLeft
  drained : ∀ j, (t.level (s.active, j)).entries = if j < k then [] else (s.level (s.active, j)).entries
  filled : ∀ j, (t.level (s.expired, j)).entries = (s.level (s.expired, j)).entries ++ swept s k j
  proc : ∀ x, t.proc x = if x ∈ sweptAll s k then
    { s.proc x with ticksLeft := cfg.procQuantum } else s.proc x
  cpu : t.cpu = s.cpu
  nextpid : t.nextpid = s.nextpid
  initproc : t.initproc = s.initproc
  nodup : (t.queued cfg).Nodup
  member : ∀ x, x ∈ t.queued cfg ↔ x ∈ s.queued cfg

/-- Every queue is in one of the two sets. -/
theorem queueRef_cases (sets : s.active ≠ s.expired) (r : QueueRef) :
    r = (s.active, r.2) ∨ r = (s.expired, r.2) := by
  obtain ⟨set, j⟩ := r
  have values : set.val = s.active.val ∨ set.val = s.expired.val := by
    have := Fin.val_ne_of_ne sets
    omega
  rcases values with same | same
  · exact .inl (by rw [Fin.ext same])
  · exact .inr (by rw [Fin.ext same])

theorem sweptTo_zero (swap : Swappable cfg s) :
    SweptTo cfg s 0 { s with active := s.expired, expired := s.active } :=
  ⟨rfl, rfl, fun _ => rfl, fun _ => rfl, fun _ => rfl, fun _ => by simp [swept],
    fun _ => by simp [sweptAll], rfl, rfl, rfl, swap.nodup, fun _ => Iff.rfl⟩

/-- Where a drained process goes: its own level of the new active set. -/
def swapTarget (s : Kernel C) (x : Slot) : QueueRef := (s.expired, (s.proc x).defaultLevel.toNat)

theorem expired_ne_active (swap : Swappable cfg s) (i j : Nat) : (s.expired, i) ≠ (s.active, j) :=
  queueRef_ne_of_set_ne swap.sets.symm i j

theorem swapTarget_ne (swap : Swappable cfg s) (x : Slot) (j : Nat) :
    swapTarget s x ≠ (s.active, j) :=
  expired_ne_active swap _ j

/-- The state at the `while` of the swap loop's iteration `k`: `expired[k]` refilled. -/
def refilled (cfg : Config) (t : Kernel C) (k : Nat) : Kernel C :=
  t.setLevel (t.expired, k) { t.level (t.expired, k) with ticksLeft := cfg.levelQuantum }

/-- Iteration `k` of the swap loop drains `expired[k]` from `refilled`. -/
theorem refillAndDrain_eq (t : Kernel C) (k : Nat) :
    refillAndDrain cfg t k = drain cfg (t.expired, k) none (fun pr => pr.defaultLevel)
      ((refilled cfg t k).level (t.expired, k)).numproc (refilled cfg t k) := rfl

/-- The refill changes a quantum and no entry. -/
theorem refilled_entries (t : Kernel C) (k : Nat) (r : QueueRef) :
    ((refilled cfg t k).level r).entries = (t.level r).entries := by
  by_cases same : r = (t.expired, k)
  · subst r
    simp only [refilled, Kernel.setLevel_level, ↓reduceIte]
    rfl
  · simp [refilled, same]

theorem refilled_queued (t : Kernel C) (k : Nat) : (refilled cfg t k).queued cfg = t.queued cfg := by
  simp only [Kernel.queued, refilled_entries]

/-- At the `while` of iteration `k`, the level being drained holds what the old active
level `k` held. -/
theorem SweptTo.front (swept : SweptTo cfg s k t) :
    ((refilled cfg t k).level (s.active, k)).entries = (s.level (s.active, k)).entries := by
  rw [refilled_entries, swept.drained, if_neg (by omega)]

/-- At the `while` of iteration `k`, every process of the level being drained has its
target in the new active set, and `find_available_queue` finds it there. -/
theorem SweptTo.targets (swap : Swappable cfg s) (swept : SweptTo cfg s k t) :
    Targets cfg (refilled cfg t k) (s.active, k) none (fun pr => pr.defaultLevel) (swapTarget s) := by
  have defaults : ∀ x, (t.proc x).defaultLevel = (s.proc x).defaultLevel := fun x => by
    rw [swept.proc]
    split <;> rfl
  intro x _ _
  obtain ⟨nonneg, high⟩ := swap.defaultRange x
  refine ⟨swapTarget_ne swap x k, mem_allQueues.mpr (by simp only [swapTarget]; omega),
    fun s' same room => ?_⟩
  obtain ⟨active, -, ticks⟩ := same
  have quantum : 0 < (s'.level (s'.active, (s.proc x).defaultLevel.toNat)).ticksLeft := by
    rw [ticks, active]
    simp only [refilled, swept.expired, Kernel.setLevel_active, Kernel.setLevel_level, swept.active]
    rw [if_neg (expired_ne_active swap _ _), swept.filledTicks]
    exact swap.expiredQuantum _ (by omega)
  simp only [refilled, Kernel.setLevel_proc, defaults]
  rw [findAvailableQueue_active room nonneg _ (Nat.le_refl _) (by omega) quantum
    (fun i low high => absurd high (by omega)), active]
  simp [swapTarget, refilled, swept.active]

/-- The `while` of iteration `k` runs one iteration per entry of the level it drains, and
its effect is `Drained`. -/
theorem SweptTo.iteration_runs (swap : Swappable cfg s) (bound : k < cfg.levels)
    (swept : SweptTo cfg s k t) :
    ∃ t', Runs (drainCond (t.expired, k)) (drainBody cfg (t.expired, k) none fun pr => pr.defaultLevel)
        ((refilled cfg t k).level (t.expired, k)).numproc (refilled cfg t k) t' ∧
      Drained cfg (refilled cfg t k) (s.active, k) none (swapTarget s) t' := by
  have front := swept.front
  obtain ⟨t', runs, drained⟩ := drain_runs (mem_allQueues.mpr bound) _ (refilled cfg t k) front
    (refilled_queued t k ▸ swept.nodup) (swept.targets swap)
  refine ⟨t', ?_, drained⟩
  rw [swept.expired, ← LevelQueue.length_entries, front]
  exact runs

/-- One iteration of the swap loop, at an old active level `k` below `RSDL_LEVELS`. -/
theorem sweptTo_succ (swap : Swappable cfg s) (bound : k < cfg.levels) (swept : SweptTo cfg s k t) :
    ∃ t', refillAndDrain cfg t k = .ok t' ∧ SweptTo cfg s (k + 1) t' := by
  have front := swept.front
  obtain ⟨t', runs, drained⟩ := swept.iteration_runs swap bound
  refine ⟨t', by rw [refillAndDrain_eq, drain_eq_loop]; exact runs.loop_eq .loops (Nat.le_refl _), ?_⟩
  obtain ⟨active, expired, ticks⟩ := drained.quanta
  refine ⟨by rw [active]; exact swept.active, by rw [expired]; exact swept.expired,
    fun j => ?_, fun j => ?_, fun j => ?_, fun j => ?_, fun x => ?_,
    by rw [drained.cpu]; exact swept.cpu, by rw [drained.nextpid]; exact swept.nextpid,
    by rw [drained.initproc]; exact swept.initproc, drained.nodup, fun x => ?_⟩
  · rw [ticks]
    by_cases same : j = k
    · subst j
      simp [refilled, swept.expired]
    · simp only [refilled, swept.expired, Kernel.setLevel_level, Prod.mk.injEq, true_and, same,
        ↓reduceIte, swept.drainedTicks]
      -- iteration `k` touched level `k` alone, and `j ≠ k`
      have below : j < k + 1 ↔ j < k := by omega
      simp only [below]
  · rw [ticks]
    simp only [refilled, swept.expired, Kernel.setLevel_level, if_neg (expired_ne_active swap _ _),
      swept.filledTicks]
  · rw [drained.entries]
    by_cases same : j = k
    · subst j
      simp
    · rw [if_neg (by simp [same]), refilled_entries, swept.drained]
      have none : (s.level (s.active, k)).entries.filter (fun x => decide (none ≠ some x ∧
          swapTarget s x = (s.active, j))) = [] := by
        simp [swapTarget_ne swap]
      rw [front, none, List.append_nil]
      have below : j < k + 1 ↔ j < k := by omega
      simp only [below]
  · rw [drained.entries, if_neg (expired_ne_active swap _ _), refilled_entries,
      swept.filled, front, swept_succ, List.append_assoc]
    congr 2
    apply List.filter_congr
    intro x _
    simp [swapTarget]
  · rw [drained.proc, front]
    simp only [refilled, Kernel.setLevel_proc, swept.proc, sweptAll_succ, List.mem_append]
    by_cases old : x ∈ sweptAll s k
    · by_cases last : x ∈ (s.level (s.active, k)).entries <;> simp [old, last]
    · by_cases last : x ∈ (s.level (s.active, k)).entries <;> simp [old, last]
  · rw [drained.member, refilled_queued, swept.member]
    simp

/-- The first `k` iterations of the swap loop. -/
theorem sweptTo_range (swap : Swappable cfg s) :
    ∀ k ≤ cfg.levels, ∃ t, (List.range k).foldlM (refillAndDrain cfg)
      { s with active := s.expired, expired := s.active } = .ok t ∧ SweptTo cfg s k t := by
  intro k
  induction k with
  | zero => exact fun _ => ⟨_, rfl, sweptTo_zero swap⟩
  | succ k ih =>
    intro bound
    obtain ⟨t, ran, swept⟩ := ih (by omega)
    obtain ⟨t', step, swept'⟩ := sweptTo_succ swap (by omega) swept
    refine ⟨t', ?_, swept'⟩
    rw [List.range_succ, List.foldlM_append, ran, ok_bind, List.foldlM_cons, step, ok_bind,
      List.foldlM_nil]
    rfl

/-- The whole swap: every old active level refilled and drained. -/
theorem swapSets_spec (swap : Swappable cfg s) :
    ∃ t, swapSets cfg s = .ok t ∧ SweptTo cfg s cfg.levels t :=
  sweptTo_range swap cfg.levels (Nat.le_refl _)

theorem mem_swept {x : Slot} {d : Nat} :
    x ∈ swept s k d ↔ ∃ j < k, x ∈ (s.level (s.active, j)).entries ∧
      (s.proc x).defaultLevel.toNat = d := by
  simp [swept]

theorem SweptTo.proc_cases (sw : SweptTo cfg s k t) (x : Slot) :
    t.proc x = s.proc x ∨ t.proc x = { s.proc x with ticksLeft := cfg.procQuantum } := by
  rw [sw.proc]
  split
  · exact .inr rfl
  · exact .inl rfl

end Rsdl.SwapProofs
