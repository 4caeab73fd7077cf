import Rsdl.Iteration

/-! The contract of `priofork(default_level)` (`proc.c` lines 430-482) from a reachable
state, on each of its exits. A level outside `[0, RSDL_LEVELS)` returns `-1` before
anything is touched. A failure of `allocproc` (no free slot, or no kernel stack) or of
`copyuvm` returns `-1` with the slot `allocproc` took `UNUSED` again and no queue
changed. Otherwise the call returns the child's pid, and the child is `RUNNABLE` at its
level with a full quantum, at the tail of the queue `find_available_queue(k, k)` picks.

In a reachable state that queue is known in advance (`ForkTarget`): every level has room
while the child is in no queue, and every level of the expired set has quantum, so the
search never panics and its fallback is level `k` of the expired set itself.

The kernel runs a `priofork` as three events (`Step`); the last section shows that, run by
the caller with nothing in between, they end where this composed function ends
(`runEvents_priofork`, `runEvents_priofork_failed`). -/
namespace Rsdl.Priofork

open ExceptRun Invariant Preservation QueueProofs ProcInv Forks Safety

variable {cfg : Config} {s : Kernel Cpu}

/-- The queue a new process of priority `k` goes to: the least level `j ≥ k` of the
active set with quantum left and room, or level `k` of the expired set when there is
none. -/
def ForkTarget (cfg : Config) (s : Kernel Cpu) (k : Int) (r : QueueRef) : Prop :=
  (∃ j : Nat, k ≤ j ∧ j < cfg.levels ∧
    (0 < (s.level (s.active, j)).ticksLeft ∧ (s.level (s.active, j)).numproc < NPROC) ∧
    (∀ i : Nat, k ≤ i → i < j →
      ¬ (0 < (s.level (s.active, i)).ticksLeft ∧ (s.level (s.active, i)).numproc < NPROC)) ∧
    r = (s.active, j)) ∨
  ((∀ j : Nat, k ≤ j → j < cfg.levels →
      ¬ (0 < (s.level (s.active, j)).ticksLeft ∧ (s.level (s.active, j)).numproc < NPROC)) ∧
    r = (s.expired, k.toNat))

/-- A `priofork` that returned `-1` after `allocproc` ran: every slot has its old state,
so the one `allocproc` took is `UNUSED` again, and no level queue changed. -/
def ForkUndone (s s' : Kernel Cpu) : Prop :=
  (∀ x, (s'.proc x).state = (s.proc x).state) ∧ s'.level = s.level ∧
    s'.active = s.active ∧ s'.expired = s.expired

/-- A `priofork(k)` by `curproc` that created the child `c`: the first free slot, now
`RUNNABLE` at priority `k` with a full quantum and the pid `nextpid` held, appended to
the queue `ForkTarget` names; no other slot and no other queue changed. -/
structure Forked (cfg : Config) (s : Kernel Cpu) (curproc : Slot) (k : Int) (c : Slot)
    (s' : Kernel Cpu) : Prop where
  fresh : (s.proc c).state = .unused
  first : ∀ y < c, (s.proc y).state ≠ .unused
  pid : (s'.proc c).pid = s.nextpid
  nextpid : s'.nextpid = wrapInt (s.nextpid + 1)
  runnable : (s'.proc c).state = .runnable
  defaultLevel : (s'.proc c).defaultLevel = k
  ticksLeft : (s'.proc c).ticksLeft = cfg.procQuantum
  parent : (s'.proc c).parent = some curproc
  others : ∀ y, y ≠ c → s'.proc y = s.proc y
  queued : ∃ r, ForkTarget cfg s k r ∧ (s'.level r).entries = (s.level r).entries ++ [c] ∧
    (s'.level r).ticksLeft = (s.level r).ticksLeft ∧ ∀ r', r' ≠ r → s'.level r' = s.level r'

theorem available_eq_true {set : Fin 2} {j : Nat} :
    s.available set j = true ↔
      0 < (s.level (set, j)).ticksLeft ∧ (s.level (set, j)).numproc < NPROC := by
  simp [Kernel.available]

/-- `allocproc`'s loop takes the first free slot. -/
theorem find_unused_first {c : Slot}
    (found : (List.finRange NPROC).find? (fun x => decide ((s.proc x).state = .unused)) = some c) :
    ∀ y < c, (s.proc y).state ≠ .unused := by
  obtain ⟨-, i, bound, atIndex, before⟩ := List.find?_eq_some_iff_getElem.mp found
  have index : i = c.val := by
    rw [← atIndex, List.getElem_finRange]
    rfl
  intro y lower unused
  have missed := before y.val (by rw [index]; exact lower)
  simp [List.getElem_finRange, unused] at missed

/-- With level `k` of the expired set available, `find_available_queue(k, k)` returns the
queue `ForkTarget` names. -/
theorem findAvailableQueue_forkTarget {k : Int} (nonneg : 0 ≤ k) (bound : k < cfg.levels)
    (expiredFree : s.available s.expired k.toNat = true) :
    ∃ r, findAvailableQueue cfg s k k = .ok r ∧ ForkTarget cfg s k r := by
  cases found : nextActiveLevel cfg s k with
  | some j =>
    obtain ⟨-, low, high, hit, below⟩ := nextLevel_eq_some.mp found
    refine ⟨(s.active, j), by simp [findAvailableQueue, found], .inl ⟨j, by omega, high,
      available_eq_true.mp (by simpa using hit), fun i ilow ihigh => ?_, rfl⟩⟩
    rw [← available_eq_true]
    simpa using below i (by omega) ihigh
  | none =>
    have missed := (nextLevel_eq_none nonneg).mp found
    have fallback : nextExpiredLevel cfg s k = some k.toNat := by
      unfold nextExpiredLevel nextLevel
      rw [if_neg (by omega)]
      exact Search.first_of_test (by omega) expiredFree
    refine ⟨(s.expired, k.toNat), by simp [findAvailableQueue, found, fallback],
      .inr ⟨fun j low high => ?_, rfl⟩⟩
    rw [← available_eq_true]
    simpa using missed j (by omega) high

/-! ### The three exits -/

theorem priofork_rejected (curproc : Slot) {k : Int} (outside : k < 0 ∨ cfg.levels ≤ k)
    (kallocOk copyuvmOk : Bool) :
    priofork cfg s curproc k kallocOk copyuvmOk = .ok (s, -1) := by
  unfold priofork
  by_cases high : (cfg.levels : Int) ≤ k
  · rw [if_pos high]
  · rw [if_neg high, if_pos (outside.resolve_right high)]

/-- The slot `allocproc` took, given back: every slot has its old state again. -/
theorem given_back_undone {c : Slot} (fresh : (s.proc c).state = .unused) :
    ForkUndone s ((taken cfg s c).modifyProc c fun pr => { pr with state := .unused }) := by
  refine ⟨fun x => ?_, rfl, rfl, rfl⟩
  by_cases same : x = c
  · subst x
    simp [fresh]
  · simp [taken, same]

theorem priofork_failed (curproc : Slot) {k : Int} (nonneg : 0 ≤ k) (bound : k < cfg.levels)
    {kallocOk copyuvmOk : Bool}
    (fails : kallocOk = false ∨ copyuvmOk = false ∨ ∀ x, (s.proc x).state ≠ .unused) :
    ∃ s', priofork cfg s curproc k kallocOk copyuvmOk = .ok (s', -1) ∧ ForkUndone s s' := by
  unfold priofork
  rw [if_neg (by omega), if_neg (by omega)]
  cases found : (List.finRange NPROC).find? (fun x => decide ((s.proc x).state = .unused)) with
  | none =>
    have alloc : allocprocLocked cfg s = (s, none) := by simp only [allocprocLocked, found]
    rw [alloc]
    exact ⟨s, rfl, fun _ => rfl, rfl, rfl, rfl⟩
  | some c =>
    have fresh := unused_of_find found
    -- `kalloc` or `copyuvm` fails in the middle, which gives the slot back
    have copy : prioforkCopy (taken cfg s c) curproc c kallocOk copyuvmOk =
        ((taken cfg s c).modifyProc c fun pr => { pr with state := .unused }, false) := by
      unfold prioforkCopy
      rcases fails with kalloc | copyuvm | full
      · simp [kalloc]
      · simp [copyuvm]
      · exact absurd fresh (full c)
    rw [allocprocLocked_of_find found]
    simp only [copy]
    exact ⟨_, rfl, given_back_undone fresh⟩

/-- The child after `allocproc` and the fields `priofork` sets, before it is queued. -/
def child (cfg : Config) (s : Kernel Cpu) (curproc c : Slot) (k : Int) : Kernel Cpu :=
  (taken cfg s c).modifyProc c fun pr =>
    { pr with parent := some curproc, defaultLevel := k, state := .runnable }

@[simp] theorem child_level (curproc c : Slot) (k : Int) :
    (child cfg s curproc c k).level = s.level := rfl

/-- The child's own record: what `allocproc` wrote, then what `priofork` wrote. -/
@[simp] theorem child_proc_self (curproc c : Slot) (k : Int) :
    (child cfg s curproc c k).proc c =
      { s.proc c with
        state := .runnable, pid := s.nextpid, parent := some curproc,
        ticksLeft := cfg.procQuantum, defaultLevel := k } := by
  simp [child, taken]

theorem child_proc_other (curproc : Slot) {c y : Slot} (k : Int) (other : y ≠ c) :
    (child cfg s curproc c k).proc y = s.proc y := by
  simp [child, taken, other]

/-- The path of `priofork` that reaches the enqueue, written over `child`. -/
theorem priofork_of_found (curproc : Slot) {k : Int} (nonneg : 0 ≤ k) (bound : k < cfg.levels)
    {c : Slot}
    (found : (List.finRange NPROC).find? (fun x => decide ((s.proc x).state = .unused)) = some c) :
    priofork cfg s curproc k true true = (do
      let q ← findAvailableQueue cfg (child cfg s curproc c k) k k
      let s' ← (child cfg s curproc c k).enqueue c q
      pure (s', s.nextpid)) := by
  -- the middle writes the parent and the second section the level and state, as `child` does
  have composed : ((taken cfg s c).modifyProc c fun pr => { pr with parent := some curproc }).modifyProc c
      (fun pr => { pr with defaultLevel := k, state := .runnable }) = child cfg s curproc c k := by
    rw [Kernel.modifyProc_modifyProc]
    rfl
  have pid : (((taken cfg s c).modifyProc c fun pr => { pr with parent := some curproc }).proc c).pid =
      s.nextpid := by simp [taken_proc]
  unfold priofork
  rw [if_neg (by omega), if_neg (by omega), allocprocLocked_of_find found]
  simp only [prioforkCopy, Bool.and_self, ↓reduceIte, prioforkEnqueue, composed, pid, child_proc_self,
    bind_assoc]

theorem priofork_forked (inv : Inv cfg s) (curproc : Slot) {k : Int} (nonneg : 0 ≤ k)
    (bound : k < cfg.levels) {c : Slot}
    (found : (List.finRange NPROC).find? (fun x => decide ((s.proc x).state = .unused)) = some c) :
    ∃ s', priofork cfg s curproc k true true = .ok (s', (s'.proc c).pid) ∧
      Forked cfg s curproc k c s' := by
  have fresh := unused_of_find found
  -- the child is in no queue yet, so every queue has room for it
  have room : Roomy cfg s := roomy_of_not_mem inv.nodup (not_mem_queued_of_unseen inv (.inl fresh))
  have expiredFree : s.available s.expired k.toNat = true := by
    rw [available_eq_true, inv.expiredQuantum _ (by omega)]
    exact ⟨cfg.levelQuantum_int_pos, room _ (mem_allQueues.mpr (by simp only; omega))⟩
  obtain ⟨r, search, target⟩ := findAvailableQueue_forkTarget nonneg bound expiredFree
  have member : r ∈ allQueues cfg := mem_allQueues.mpr (findAvailableQueue_lt search)
  have childSearch : findAvailableQueue cfg (child cfg s curproc c k) k k = .ok r := search
  have enqueued := enqueue_ok (s := child cfg s curproc c k) (room r member) c
  let s' := (child cfg s curproc c k).setLevel r (((child cfg s curproc c k).level r).push c)
  have ran : priofork cfg s curproc k true true = .ok (s', s.nextpid) := by
    rw [priofork_of_found curproc nonneg bound found, childSearch, ok_bind, enqueued, ok_bind]
    rfl
  have pid : (s'.proc c).pid = s.nextpid := by simp [s']
  refine ⟨s', by rw [ran, pid], fresh, find_unused_first found, pid, rfl, by simp [s'],
    by simp [s'], by simp [s'], by simp [s'], fun y other => child_proc_other curproc k other,
    r, target, by simp [s'], by simp [s'], fun r' other => by simp [s', other]⟩

theorem priofork_contract (reach : Reachable cfg s) (curproc : Slot) (k : Int)
    (kallocOk copyuvmOk : Bool) :
    ((k < 0 ∨ cfg.levels ≤ k) → priofork cfg s curproc k kallocOk copyuvmOk = .ok (s, -1)) ∧
    (0 ≤ k → k < cfg.levels →
      (kallocOk = false ∨ copyuvmOk = false ∨ ∀ x, (s.proc x).state ≠ .unused) →
      ∃ s', priofork cfg s curproc k kallocOk copyuvmOk = .ok (s', -1) ∧ ForkUndone s s') ∧
    (0 ≤ k → k < cfg.levels → kallocOk = true → copyuvmOk = true →
      (∃ x, (s.proc x).state = .unused) →
      ∃ c s', priofork cfg s curproc k kallocOk copyuvmOk = .ok (s', (s'.proc c).pid) ∧
        Forked cfg s curproc k c s') := by
  refine ⟨fun outside => priofork_rejected curproc outside kallocOk copyuvmOk,
    fun nonneg bound fails => priofork_failed curproc nonneg bound fails,
    fun nonneg bound kalloc copyuvm free => ?_⟩
  subst kalloc copyuvm
  obtain ⟨x, unused⟩ := free
  cases found : (List.finRange NPROC).find? (fun x => decide ((s.proc x).state = .unused)) with
  | none =>
    have missed := List.find?_eq_none.mp found x (List.mem_finRange x)
    simp [unused] at missed
  | some c =>
    obtain ⟨s', ran, forked⟩ := priofork_forked (inv_reachable reach) curproc nonneg bound found
    exact ⟨c, s', ran, forked⟩

/-- Under `oneTick`, `initproc`'s child runs on level 1 of the active set, for level 0 has
used up its quantum. -/
def levelSpent : Kernel Cpu :=
  afterEvents Iteration.oneTick [.userinit, .scheduler, .fork, .forkCopy true true, .forkEnqueue,
    .timer, .requeue, .scheduler]

/-- A `priofork(0)` by that child passes over the spent level 0 to level 1. -/
theorem priofork_contract_levelSpent :
    Reachable Iteration.oneTick levelSpent ∧ (levelSpent.level (levelSpent.active, 0)).ticksLeft ≤ 0 ∧
      (levelSpent.proc 2).state = .unused ∧
      ForkTarget Iteration.oneTick levelSpent 0 (levelSpent.active, 1) ∧
      ∃ c s', priofork Iteration.oneTick levelSpent 1 0 true true = .ok (s', (s'.proc c).pid) ∧
        Forked Iteration.oneTick levelSpent 1 0 c s' := by
  have reach : Reachable Iteration.oneTick levelSpent := reachable_afterEvents (by decide +kernel)
  have spent : (levelSpent.level (levelSpent.active, 0)).ticksLeft ≤ 0 := by decide +kernel
  have free : (levelSpent.proc 2).state = .unused := by decide +kernel
  have target : ForkTarget Iteration.oneTick levelSpent 0 (levelSpent.active, 1) := by
    refine .inl ⟨1, by decide, by decide, by decide +kernel, fun i low high => ?_, rfl⟩
    -- the one level below is level 0, which is spent
    obtain rfl : i = 0 := by omega
    decide +kernel
  exact ⟨reach, spent, free, target,
    (priofork_contract reach 1 0 true true).2.2 le_rfl (by decide) rfl rfl ⟨2, free⟩⟩

/-! ### The parts of a `priofork`, one event each

Run by its caller with nothing in between, the events of a `priofork` end where the
composed `priofork` ends: the record `Kernel.forks` they keep is stack state, which no part
of the code reads and the last part clears again. -/

theorem findAvailableQueue_setFork (s : Kernel Cpu) (p : Slot) (f : Option Forking) (a e : Int) :
    findAvailableQueue cfg (s.setFork p f) a e = findAvailableQueue cfg s a e := rfl

theorem enqueue_setFork (s : Kernel Cpu) (p : Slot) (f : Option Forking) (np : Slot) (r : QueueRef) :
    (s.setFork p f).enqueue np r = (s.enqueue np r).map (·.setFork p f) := by
  unfold Kernel.enqueue
  rw [Kernel.setFork_level]
  cases enqueueProc np (s.level r) <;> rfl

theorem prioforkCopy_setFork (s : Kernel Cpu) (p : Slot) (f : Option Forking) (curproc np : Slot)
    (kallocOk copyuvmOk : Bool) :
    prioforkCopy (s.setFork p f) curproc np kallocOk copyuvmOk =
      ((prioforkCopy s curproc np kallocOk copyuvmOk).1.setFork p f,
        (prioforkCopy s curproc np kallocOk copyuvmOk).2) := by
  unfold prioforkCopy
  split <;> rfl

theorem prioforkEnqueue_setFork (s : Kernel Cpu) (p : Slot) (f : Option Forking) (np : Slot) (k : Int) :
    prioforkEnqueue cfg (s.setFork p f) np k = (prioforkEnqueue cfg s np k).map (·.setFork p f) := by
  unfold prioforkEnqueue
  dsimp only
  rw [Kernel.modifyProc_setFork, findAvailableQueue_setFork]
  simp only [Kernel.setFork_proc]
  cases findAvailableQueue cfg (s.modifyProc np fun pr => { pr with defaultLevel := k, state := .runnable })
      ((s.modifyProc np fun pr => { pr with defaultLevel := k, state := .runnable }).proc np).defaultLevel
      ((s.modifyProc np fun pr => { pr with defaultLevel := k, state := .runnable }).proc np).defaultLevel with
  | error fault => rfl
  | ok r => exact enqueue_setFork _ p f np r

section Split

variable {x c : Slot} {k : Int} (caller : s.caller = some x) (nonneg : 0 ≤ k) (bound : k < cfg.levels)
  (found : (List.finRange NPROC).find? (fun y => decide ((s.proc y).state = .unused)) = some c)

include caller found in
/-- The caller runs, so it is not the free slot `c`. -/
theorem found_ne_caller : c ≠ x :=
  Kernel.ne_of_state_ne (Kernel.current_eq_some.mp (Kernel.caller_eq_some.mp caller).1).2
    (unused_of_find found) (by decide)

include caller found in
/-- The middle runs in the caller, whose stack holds the record of the first section. -/
theorem forking_of_found :
    ((taken cfg s c).setFork x (some ⟨c, k, false⟩)).forking false = some (x, ⟨c, k, false⟩) := by
  have current := (Kernel.caller_eq_some.mp caller).1
  have ne := found_ne_caller caller found
  exact Kernel.forking_of_current (Kernel.current_of_same current (by rfl) (by simp [taken_proc, ne.symm]))
    (by simp : ((taken cfg s c).setFork x (some ⟨c, k, false⟩)).forks x = some ⟨c, k, false⟩)

include caller nonneg bound found

/-- The first section takes the free slot `c` and records it on the caller's stack. -/
theorem exec_priofork_of_found :
    exec cfg s (.priofork k) = some (.ok ((taken cfg s c).setFork x (some ⟨c, k, false⟩))) := by
  have begin : prioforkBegin cfg s x k = (taken cfg s c).setFork x (some ⟨c, k, false⟩) := by
    unfold prioforkBegin
    rw [if_neg (by omega), if_neg (by omega), allocprocLocked_of_find found]
  simp only [exec, execOn, caller, Option.map_some, begin]

/-- A `priofork` whose allocations succeed is its three events. -/
theorem runEvents_priofork :
    runEvents cfg s [.priofork k, .forkCopy true true, .forkEnqueue] =
      (priofork cfg s x k true true).toOption.map Prod.fst := by
  obtain ⟨current, idle⟩ := Kernel.caller_eq_some.mp caller
  -- the parts write the slot `c` and the record of `x` alone, so `x` runs throughout
  have ne := found_ne_caller caller found
  let s₂ := (taken cfg s c).modifyProc c fun pr => { pr with parent := some x }
  have copy : prioforkCopy (taken cfg s c) x c true true = (s₂, true) := rfl
  have second : exec cfg ((taken cfg s c).setFork x (some ⟨c, k, false⟩)) (.forkCopy true true) =
      some (.ok (s₂.setFork x (some ⟨c, k, true⟩))) := by
    simp only [exec, execOn, forking_of_found caller found, Option.map_some, prioforkMiddle,
      prioforkCopy_setFork, copy, Kernel.setFork_setFork]
  have third : exec cfg (s₂.setFork x (some ⟨c, k, true⟩)) .forkEnqueue =
      some (prioforkEnqueue cfg s₂ c k) := by
    have forking : (s₂.setFork x (some ⟨c, k, true⟩)).forking true = some (x, ⟨c, k, true⟩) :=
      Kernel.forking_of_current (Kernel.current_of_same current (by rfl) (by simp [s₂, taken_proc, ne.symm]))
        (by simp : (s₂.setFork x (some ⟨c, k, true⟩)).forks x = some ⟨c, k, true⟩)
    -- the last part clears the record of `x`, which had none before the call
    have twice : ∀ e : Except Fault (Kernel Cpu),
        (e.map fun t => t.setFork x (some ⟨c, k, true⟩)).map (fun t => t.setFork x none) =
          e.map fun t => t.setFork x none := by
      intro e
      cases e <;> simp [Except.map, Kernel.setFork_setFork]
    have cleared : s₂.setFork x none = s₂ := Kernel.setFork_of_forks idle
    simp only [exec, execOn, forking, Option.map_some, prioforkEnd, prioforkEnqueue_setFork]
    rw [twice, ← prioforkEnqueue_setFork, cleared]
  have composed : priofork cfg s x k true true =
      (prioforkEnqueue cfg s₂ c k).bind fun t => pure (t, (s₂.proc c).pid) := by
    unfold priofork
    rw [if_neg (by omega), if_neg (by omega), allocprocLocked_of_find found]
    rfl
  simp only [runEvents, exec_priofork_of_found caller nonneg bound found, second, third, composed]
  cases prioforkEnqueue cfg s₂ c k <;> rfl

/-- A `priofork` whose `kalloc` or `copyuvm` fails is its first section and its middle, which
gives the slot back and clears the record. -/
theorem runEvents_priofork_failed {kallocOk copyuvmOk : Bool} (fails : (kallocOk && copyuvmOk) = false) :
    runEvents cfg s [.priofork k, .forkCopy kallocOk copyuvmOk] =
      (priofork cfg s x k kallocOk copyuvmOk).toOption.map Prod.fst := by
  have idle := (Kernel.caller_eq_some.mp caller).2
  let s₂ := (taken cfg s c).modifyProc c fun pr => { pr with state := .unused }
  have copy : prioforkCopy (taken cfg s c) x c kallocOk copyuvmOk = (s₂, false) := by
    simp only [prioforkCopy, fails, Bool.false_eq_true, ↓reduceIte, s₂]
  have second : exec cfg ((taken cfg s c).setFork x (some ⟨c, k, false⟩)) (.forkCopy kallocOk copyuvmOk) =
      some (.ok s₂) := by
    have cleared : s₂.setFork x none = s₂ := Kernel.setFork_of_forks idle
    simp only [exec, execOn, forking_of_found caller found, Option.map_some, prioforkMiddle,
      prioforkCopy_setFork, copy, Kernel.setFork_setFork, cleared]
  have composed : priofork cfg s x k kallocOk copyuvmOk = .ok (s₂, -1) := by
    unfold priofork
    rw [if_neg (by omega), if_neg (by omega), allocprocLocked_of_find found]
    simp only [copy]
  simp only [runEvents, exec_priofork_of_found caller nonneg bound found, second, composed]
  rfl

end Split

end Rsdl.Priofork
