import Rsdl.Scheduler
import Rsdl.QueueProofs

/-! The drain loop of `scheduler()`, once and for both of its uses. Each iteration takes
the front process of `q`, refills its process quantum, unqueues it, and enqueues it
where `find_available_queue` points, unless it is `held` back.

`drainBody` is one iteration and `drain` the `while` loop of it (`drain_eq_loop`).
`drain_runs` runs the whole loop, one iteration per entry of `q`. Its one assumption on
the placement is a target
`T x` for every entry: `find_available_queue` must return `T x` in every state with the
same quanta and room everywhere. That is all the loop needs, because an iteration
changes no quantum, and the process it moves is in no queue when the search runs, so
duplicate-free queues have room everywhere (`QueueProofs.roomy_of_not_mem`). The
result, `Drained`, is the loop's whole effect: `q` is empty, every other queue has its
old entries followed by those of `q` that were sent there, in their order in `q`, and
the processes of `q` have full quanta. -/
namespace Rsdl.DrainProofs
open ExceptRun QueueProofs

variable {C : Type} {cfg : Config} {q : QueueRef} {held : Option Slot}
  {activeStart : Proc → Int} {T : Slot → QueueRef}

/-- The effect of draining `q` in `s` into the targets `T`, holding `held` back. -/
structure Drained (cfg : Config) (s : Kernel C) (q : QueueRef) (held : Option Slot)
    (T : Slot → QueueRef) (s' : Kernel C) : Prop where
  quanta : SameQuanta s s'
  entries : ∀ r, (s'.level r).entries = if r = q then [] else
    (s.level r).entries ++ (s.level q).entries.filter fun x => decide (held ≠ some x ∧ T x = r)
  proc : ∀ x, s'.proc x = if x ∈ (s.level q).entries then
    { s.proc x with ticksLeft := cfg.procQuantum } else s.proc x
  cpu : s'.cpu = s.cpu
  nextpid : s'.nextpid = s.nextpid
  initproc : s'.initproc = s.initproc
  nodup : (s'.queued cfg).Nodup
  member : ∀ x, x ∈ s'.queued cfg ↔ x ∈ s.queued cfg ∧ (held = some x → x ∉ (s.level q).entries)

/-- What the drain needs of every entry it sends on: a target other than `q`, among the
queues, that `find_available_queue` picks whenever there is room. -/
def Targets (cfg : Config) (s : Kernel C) (q : QueueRef) (held : Option Slot)
    (activeStart : Proc → Int) (T : Slot → QueueRef) : Prop :=
  ∀ x ∈ (s.level q).entries, held ≠ some x →
    T x ≠ q ∧ T x ∈ allQueues cfg ∧
      ∀ s', SameQuanta s s' → Roomy cfg s' →
        findAvailableQueue cfg s' (activeStart { s.proc x with ticksLeft := cfg.procQuantum })
          (s.proc x).defaultLevel = .ok (T x)

theorem proc_zero_of_entries {lq : LevelQueue} {x : Slot} {rest : List Slot}
    (front : lq.entries = x :: rest) : lq.proc 0 = x := by
  have first := congrArg List.head? front
  have busy : lq.numproc ≠ 0 := by
    intro zero
    simp [LevelQueue.entries, CellArray.toList, zero] at front
  simpa [LevelQueue.entries, CellArray.toList, List.head?_range, busy] using first

/-- The state after one iteration has unqueued its front process `x`. -/
def afterUnqueue (cfg : Config) (s : Kernel C) (q : QueueRef) (x : Slot) : Kernel C :=
  (s.modifyProc x fun pr => { pr with ticksLeft := cfg.procQuantum }).setLevel q
    ((s.level q).removeAt 0)

/-- The condition of both loops, `q->numproc > 0`. -/
def drainCond (q : QueueRef) (s : Kernel C) : Bool := decide (0 < (s.level q).numproc)

/-- One iteration of the loops' body. -/
def drainBody (cfg : Config) (q : QueueRef) (held : Option Slot) (activeStart : Proc → Int)
    (s : Kernel C) : Except Fault (Kernel C) := do
  let np := (s.level q).proc 0
  let s := s.modifyProc np fun pr => { pr with ticksLeft := cfg.procQuantum }
  let (s, _) ← s.unqueue np q
  if held = some np then pure s
  else
    let nq ← findAvailableQueue cfg s (activeStart (s.proc np)) (s.proc np).defaultLevel
    s.enqueue np nq

/-- `drain` is the `while` loop of `drainBody`, with one iteration per unit of fuel. -/
theorem drain_eq_loop (fuel : Nat) (s : Kernel C) :
    drain cfg q held activeStart fuel s =
      loop (drainCond q) (drainBody cfg q held activeStart) .loops fuel s := by
  induction fuel generalizing s with
  | zero => simp [drain, loop, drainCond]
  | succ fuel ih =>
    simp only [drain, loop, drainCond, decide_eq_true_eq, drainBody, bind_assoc, ih]
    split
    · congr 1
      funext x
      split
      · rfl
      · simp only [bind_assoc]
    · rfl

/-- One iteration, on a queue whose front is `x`. -/
theorem drainBody_of_front (s : Kernel C) {x : Slot} {rest : List Slot}
    (front : (s.level q).entries = x :: rest) :
    drainBody cfg q held activeStart s =
      if held = some x then .ok (afterUnqueue cfg s q x)
      else (do
        let nq ← findAvailableQueue cfg (afterUnqueue cfg s q x)
          (activeStart ((afterUnqueue cfg s q x).proc x))
          ((afterUnqueue cfg s q x).proc x).defaultLevel
        (afterUnqueue cfg s q x).enqueue x nq) := by
  have inside : x ∈ ((s.modifyProc x fun pr => { pr with ticksLeft := cfg.procQuantum }).level q).entries := by
    simp [front]
  have index : ((s.level q).entries.idxOf x) = 0 := by simp [front]
  rw [drainBody, proc_zero_of_entries front]
  simp only [unqueue_of_mem inside, Kernel.modifyProc_level, index, ok_bind, afterUnqueue]
  split <;> rfl

section Iteration

variable {s : Kernel C} {x : Slot} {rest : List Slot}

theorem afterUnqueue_entries (front : (s.level q).entries = x :: rest) (r : QueueRef) :
    ((afterUnqueue cfg s q x).level r).entries = if r = q then rest else (s.level r).entries := by
  by_cases same : r = q
  · subst r
    have busy : 0 < (s.level q).numproc := by
      rw [← LevelQueue.length_entries, front]
      simp
    simp [afterUnqueue, LevelQueue.removeAt_entries _ busy, front]
  · simp [afterUnqueue, same]

@[simp] theorem afterUnqueue_proc (y : Slot) :
    (afterUnqueue cfg s q x).proc y =
      if y = x then { s.proc x with ticksLeft := cfg.procQuantum } else s.proc y := by
  simp [afterUnqueue]

@[simp] theorem afterUnqueue_cpu : (afterUnqueue cfg s q x).cpu = s.cpu := rfl

@[simp] theorem afterUnqueue_nextpid : (afterUnqueue cfg s q x).nextpid = s.nextpid := rfl

@[simp] theorem afterUnqueue_initproc : (afterUnqueue cfg s q x).initproc = s.initproc := rfl

theorem afterUnqueue_quanta : SameQuanta s (afterUnqueue cfg s q x) :=
  (sameQuanta_modifyProc s x _).trans (sameQuanta_setLevel _ q rfl)

theorem afterUnqueue_queued (member : q ∈ allQueues cfg) (front : (s.level q).entries = x :: rest) :
    ((afterUnqueue cfg s q x).queued cfg).Perm ((s.queued cfg).erase x) := by
  have inside : x ∈ (s.level q).entries := by simp [front]
  have index : (s.level q).entries.idxOf x = 0 := by simp [front]
  have moved := queued_remove_perm (s := s.modifyProc x fun pr =>
    { pr with ticksLeft := cfg.procQuantum }) member inside
  simpa [afterUnqueue, index] using moved

/-- The front process of a duplicate-free queue is not also further back. -/
theorem not_mem_rest (member : q ∈ allQueues cfg) (nodup : (s.queued cfg).Nodup)
    (front : (s.level q).entries = x :: rest) : x ∉ rest :=
  (List.nodup_cons.mp (front ▸ nodup.sublist (entries_sublist_queued member))).1

/-- Once unqueued, the front process is in no queue. -/
theorem not_mem_afterUnqueue_queued (member : q ∈ allQueues cfg) (nodup : (s.queued cfg).Nodup)
    (front : (s.level q).entries = x :: rest) : x ∉ (afterUnqueue cfg s q x).queued cfg := by
  rw [(afterUnqueue_queued member front).mem_iff]
  exact nodup.not_mem_erase

/-- Holding the front process back and draining the rest drains the whole queue. -/
theorem Drained.of_held (member : q ∈ allQueues cfg) (nodup : (s.queued cfg).Nodup)
    (front : (s.level q).entries = x :: rest) (keep : held = some x) {s' : Kernel C}
    (drained : Drained cfg (afterUnqueue cfg s q x) q held T s') :
    Drained cfg s q held T s' := by
  have fresh := not_mem_rest member nodup front
  have queuedNodup := nodup
  refine ⟨afterUnqueue_quanta.trans drained.quanta, fun r => ?_, fun y => ?_, ?_, ?_, ?_,
    drained.nodup, fun y => ?_⟩
  · rw [drained.entries r, afterUnqueue_entries front, afterUnqueue_entries front, front]
    by_cases same : r = q
    · simp [same]
    · simp [same, keep]
  · rw [drained.proc y, afterUnqueue_entries front, front]
    by_cases first : y = x
    · subst y
      simp [fresh]
    · simp [first]
  · rw [drained.cpu, afterUnqueue_cpu]
  · rw [drained.nextpid, afterUnqueue_nextpid]
  · rw [drained.initproc, afterUnqueue_initproc]
  · rw [drained.member y, (afterUnqueue_queued member front).mem_iff,
      queuedNodup.mem_erase_iff, afterUnqueue_entries front, front, keep]
    by_cases first : y = x
    · subst y
      simp
    · simp [first, Ne.symm first]

/-- Sending the front process to its target and draining the rest drains the whole
queue. -/
theorem Drained.of_moved (member : q ∈ allQueues cfg) (nodup : (s.queued cfg).Nodup)
    (front : (s.level q).entries = x :: rest) (keep : held ≠ some x) (elsewhere : T x ≠ q)
    (targetMember : T x ∈ allQueues cfg) {s' : Kernel C}
    (drained : Drained cfg ((afterUnqueue cfg s q x).setLevel (T x)
      (((afterUnqueue cfg s q x).level (T x)).push x)) q held T s') :
    Drained cfg s q held T s' := by
  have fresh := not_mem_rest member nodup front
  have inside : x ∈ s.queued cfg :=
    (entries_sublist_queued member).subset (by simp [front])
  refine ⟨(afterUnqueue_quanta.trans
      (sameQuanta_setLevel _ (T x) (LevelQueue.push_ticksLeft _ x))).trans drained.quanta,
    fun r => ?_, fun y => ?_, ?_, ?_, ?_, drained.nodup, fun y => ?_⟩
  · rw [drained.entries r]
    simp only [Kernel.setLevel_level, if_neg (Ne.symm elsewhere), afterUnqueue_entries front]
    by_cases same : r = q
    · simp [same]
    · by_cases target : r = T x
      · subst r
        simp [same, front, keep, afterUnqueue_entries front]
      · simp [same, target, front, Ne.symm target, afterUnqueue_entries front]
  · rw [drained.proc y]
    simp only [Kernel.setLevel_proc, Kernel.setLevel_level, if_neg (Ne.symm elsewhere),
      afterUnqueue_entries front, afterUnqueue_proc, front]
    by_cases first : y = x
    · subst y
      simp [fresh]
    · simp [first]
  · rw [drained.cpu]
    rfl
  · rw [drained.nextpid]
    rfl
  · rw [drained.initproc]
    rfl
  · rw [drained.member y, mem_queued_push targetMember,
      (afterUnqueue_queued member front).mem_iff, nodup.mem_erase_iff]
    simp only [Kernel.setLevel_level, if_neg (Ne.symm elsewhere), afterUnqueue_entries front,
      front, ↓reduceIte]
    by_cases first : y = x
    · subst y
      simp [inside, keep]
    · simp [first]

/-- An iteration that sends its front process on: with every queue short of `NPROC` but
for it, the search finds its target and the enqueue appends it there. -/
theorem drainBody_of_moved (member : q ∈ allQueues cfg) (nodup : (s.queued cfg).Nodup)
    (front : (s.level q).entries = x :: rest) (targets : Targets cfg s q held activeStart T)
    (keep : held ≠ some x) :
    drainBody cfg q held activeStart s = .ok ((afterUnqueue cfg s q x).setLevel (T x)
      (((afterUnqueue cfg s q x).level (T x)).push x)) := by
  obtain ⟨-, targetMember, finds⟩ := targets x (by simp [front]) keep
  have restNodup : ((afterUnqueue cfg s q x).queued cfg).Nodup :=
    (afterUnqueue_queued member front).nodup_iff.mpr (nodup.erase x)
  have room := roomy_of_not_mem restNodup (not_mem_afterUnqueue_queued member nodup front)
  have found : findAvailableQueue cfg (afterUnqueue cfg s q x)
      (activeStart ((afterUnqueue cfg s q x).proc x))
      ((afterUnqueue cfg s q x).proc x).defaultLevel = .ok (T x) := by
    rw [afterUnqueue_proc, if_pos rfl]
    exact finds (afterUnqueue cfg s q x) afterUnqueue_quanta room
  rw [drainBody_of_front s front, if_neg keep, found, ok_bind, enqueue_ok (room _ targetMember)]

theorem Targets.of_iteration {s₁ : Kernel C} (targets : Targets cfg s q held activeStart T)
    (front : (s.level q).entries = x :: rest) (same : SameQuanta s s₁)
    (remaining : (s₁.level q).entries = rest) (procs : ∀ y ∈ rest, s₁.proc y = s.proc y) :
    Targets cfg s₁ q held activeStart T := by
  intro y later keep
  rw [remaining] at later
  obtain ⟨elsewhere, targetMember, finds⟩ := targets y (by simp [front, later]) keep
  refine ⟨elsewhere, targetMember, fun s' same' room => ?_⟩
  rw [procs y later]
  exact finds s' (same.trans same') room

end Iteration

theorem drained_self (s : Kernel C) (nodup : (s.queued cfg).Nodup)
    (empty : (s.level q).entries = []) : Drained cfg s q held T s := by
  refine ⟨SameQuanta.refl s, fun r => ?_, fun y => ?_, rfl, rfl, rfl, nodup, fun y => ?_⟩
  · by_cases same : r = q
    · simp [same, empty]
    · simp [same, empty]
  · simp [empty]
  · simp [empty]

/-- **The drain loop.** Given targets that `find_available_queue` picks whenever there
is room, the loop from `s` runs one iteration per entry of `q`, each of which returns,
and its effect is `Drained`. -/
theorem drain_runs (member : q ∈ allQueues cfg) (xs : List Slot) :
    ∀ s : Kernel C, (s.level q).entries = xs → (s.queued cfg).Nodup →
      Targets cfg s q held activeStart T →
      ∃ s', Runs (drainCond q) (drainBody cfg q held activeStart) xs.length s s' ∧
        Drained cfg s q held T s' := by
  induction xs with
  | nil =>
    intro s empty nodup _
    have stops : drainCond q s = false := by
      simp [drainCond, ← LevelQueue.length_entries, empty]
    exact ⟨s, .exit stops, drained_self s nodup empty⟩
  | cons x rest ih =>
    intro s front nodup targets
    have holds : drainCond q s = true := by
      simp [drainCond, ← LevelQueue.length_entries, front]
    have restNodup : ((afterUnqueue cfg s q x).queued cfg).Nodup :=
      (afterUnqueue_queued member front).nodup_iff.mpr (nodup.erase x)
    have fresh := not_mem_rest member nodup front
    have others : ∀ y ∈ rest, (afterUnqueue cfg s q x).proc y = s.proc y := by
      intro y later
      simp [show y ≠ x from fun same => fresh (same ▸ later)]
    by_cases keep : held = some x
    · -- `p` itself: unqueued and not re-enqueued
      obtain ⟨s', runs, drained⟩ := ih (afterUnqueue cfg s q x)
        (by rw [afterUnqueue_entries front, if_pos rfl]) restNodup
        (targets.of_iteration front afterUnqueue_quanta
          (by rw [afterUnqueue_entries front, if_pos rfl]) others)
      have ran : drainBody cfg q held activeStart s = .ok (afterUnqueue cfg s q x) := by
        rw [drainBody_of_front s front, if_pos keep]
      exact ⟨s', .iterate holds ran runs, drained.of_held member nodup front keep⟩
    · -- any other process: sent on to its target
      obtain ⟨elsewhere, targetMember, -⟩ := targets x (by simp [front]) keep
      have ran := drainBody_of_moved member nodup front targets keep
      have movedNodup := queued_push_nodup targetMember restNodup
        (not_mem_afterUnqueue_queued member nodup front)
      have remaining : (((afterUnqueue cfg s q x).setLevel (T x)
          (((afterUnqueue cfg s q x).level (T x)).push x)).level q).entries = rest := by
        rw [Kernel.setLevel_level, if_neg (Ne.symm elsewhere), afterUnqueue_entries front, if_pos rfl]
      obtain ⟨s', runs, drained⟩ := ih _ remaining movedNodup
        (targets.of_iteration front
          (afterUnqueue_quanta.trans (sameQuanta_setLevel _ (T x) (LevelQueue.push_ticksLeft _ x)))
          remaining (fun y later => by rw [Kernel.setLevel_proc]; exact others y later))
      exact ⟨s', .iterate holds ran runs, drained.of_moved member nodup front keep elsewhere targetMember⟩

/-- The loop returns its `Drained` state when it may take one iteration per entry. -/
theorem drain_spec (member : q ∈ allQueues cfg) (xs : List Slot) :
    ∀ (s : Kernel C) (fuel : Nat), (s.level q).entries = xs → (s.queued cfg).Nodup →
      xs.length ≤ fuel → Targets cfg s q held activeStart T →
      ∃ s', drain cfg q held activeStart fuel s = .ok s' ∧ Drained cfg s q held T s' := by
  intro s fuel front nodup enough targets
  obtain ⟨s', runs, drained⟩ := drain_runs member xs s front nodup targets
  refine ⟨s', ?_, drained⟩
  rw [drain_eq_loop]
  exact runs.loop_eq .loops enough

end Rsdl.DrainProofs
