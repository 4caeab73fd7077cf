import Rsdl.Invariant
import Rsdl.RequeueProofs

/-! The requeue keeps `Inv`. Its two cases meet in `Requeued`: every entry of the queues
afterwards either stayed where it was (in a level with quantum left, if it is the level
`p` came from) or was `Placed` where the invariant allows it, and `Inv.requeued` proves
the invariant from that once. -/
namespace Rsdl.RequeueInv
open ExceptRun QueueProofs DrainProofs RequeueProofs Invariant

variable {cfg : Config} {s s' : Kernel Cpu} {p : Slot} {k : Nat}

/-- A queue where `x` may be enqueued: an active level at or below its priority with
quantum left, or its own level of the expired set. -/
def Placed (cfg : Config) (s : Kernel Cpu) (x : Slot) (r : QueueRef) : Prop :=
  (∃ j < cfg.levels, r = (s.active, j) ∧ (s.proc x).defaultLevel ≤ j ∧
    0 < (s.level r).ticksLeft) ∨
  r = (s.expired, (s.proc x).defaultLevel.toNat)

theorem firstAvailable_placed {x : Slot} {a : Nat} (low : (s.proc x).defaultLevel ≤ a) :
    Placed cfg s x (firstAvailable cfg s a (s.proc x).defaultLevel.toNat) := by
  rcases firstAvailable_cases cfg s a (s.proc x).defaultLevel.toNat with
    ⟨j, found, above, bound, quantum, -⟩ | ⟨found, -⟩
  · rw [found]
    exact .inl ⟨j, bound, rfl, by omega, quantum⟩
  · rw [found]
    exact .inr rfl

/-- The part of the invariant the requeue reads. -/
theorem Inv.pending (inv : Inv cfg s) (back : s.returned = some p) (queue : s.cpu.queue = some (s.active, k)) :
    Pending cfg s p k := by
  obtain ⟨onCpu, -⟩ := Kernel.returned_eq_some.mp back
  obtain ⟨k', bound, queue', inside, notUnused, notEmbryo⟩ := inv.cpuQueue p onCpu
  have same : k' = k := by
    rw [queue] at queue'
    simpa using queue'.symm
  subst k'
  refine ⟨bound, inv.sets, inv.nodup, fun alive => inside ?_, fun zombie outside => ?_,
    inv.zombieQuantum p, inv.defaultRange, fun j bound => ?_⟩
  · -- a process on the CPU is neither free nor being created
    revert alive notUnused notEmbryo
    cases (s.proc p).state <;> simp [ProcState.queued]
  · have := (inv.member p).mp outside
    simp [zombie, ProcState.queued] at this
  · rw [inv.expiredQuantum j bound]
    exact cfg.levelQuantum_int_pos

/-- What the invariant needs of either case of the requeue of `p` from `active[k]`. -/
structure Requeued (cfg : Config) (s : Kernel Cpu) (p : Slot) (k : Nat) (s' : Kernel Cpu) :
    Prop where
  quanta : SameQuanta s s'
  nodup : (s'.queued cfg).Nodup
  member : ∀ x, x ∈ s'.queued cfg ↔ x ∈ s.queued cfg
  proc : ∀ x, s'.proc x = s.proc x ∨ s'.proc x = { s.proc x with ticksLeft := cfg.procQuantum }
  positive : (s.proc p).state ≠ .zombie → 0 < (s'.proc p).ticksLeft
  placed : ∀ r, ∀ x ∈ (s'.level r).entries,
    (x ∈ (s.level r).entries ∧ (r = (s.active, k) → 0 < (s.level r).ticksLeft)) ∨ Placed cfg s x r
  initproc : s'.initproc = s.initproc

theorem Requeued.state (req : Requeued cfg s p k s') (x : Slot) :
    (s'.proc x).state = (s.proc x).state := by
  rcases req.proc x with same | same <;> rw [same]

theorem Requeued.defaultLevel (req : Requeued cfg s p k s') (x : Slot) :
    (s'.proc x).defaultLevel = (s.proc x).defaultLevel := by
  rcases req.proc x with same | same <;> rw [same]

theorem Requeued.ticks (req : Requeued cfg s p k s') (x : Slot) :
    (s'.proc x).ticksLeft = (s.proc x).ticksLeft ∨ (s'.proc x).ticksLeft = cfg.procQuantum := by
  rcases req.proc x with same | same <;> rw [same] <;> simp

/-- The requeue keeps the invariant, and leaves the CPU idle. -/
theorem Inv.requeued (inv : Inv cfg s) (back : s.returned = some p)
    (queue : s.cpu.queue = some (s.active, k)) (req : Requeued cfg s p k s') :
    Inv cfg { s' with cpu := Cpu.idle } := by
  obtain ⟨onCpu, notRunning⟩ := Kernel.returned_eq_some.mp back
  obtain ⟨active, expired, ticks⟩ := req.quanta
  -- `p` was the only process that could be running, and it has stopped
  have idleBefore : ∀ x, (s.proc x).state ≠ .running := fun x running => by
    have onCpu' := inv.running x running
    rw [onCpu, Option.some.injEq] at onCpu'
    subst x
    exact notRunning running
  have otherQueue : ∀ j, s.cpu.queue = some (s.active, j) → j = k := fun j onQueue => by
    rw [queue, Option.some.injEq, Prod.mk.injEq] at onQueue
    exact onQueue.2.symm
  refine
    { sets := by
        show s'.active ≠ s'.expired
        rw [active, expired]
        exact inv.sets
      nodup := req.nodup
      member := fun x => by
        show x ∈ s'.queued cfg ↔ _
        rw [req.member, inv.member, req.state]
      defaultRange := fun x => by
        show 0 ≤ (s'.proc x).defaultLevel ∧ (s'.proc x).defaultLevel < cfg.levels
        rw [req.defaultLevel]
        exact inv.defaultRange x
      activePlace := fun j bound x inside => ?_
      expiredPlace := fun j bound x inside => ?_
      expiredQuantum := fun j bound => by
        show (s'.level (s'.expired, j)).ticksLeft = _
        rw [expired, ticks]
        exact inv.expiredQuantum j bound
      activeQuantum := fun j bound => by
        show 0 ≤ (s'.level (s'.active, j)).ticksLeft ∧ (s'.level (s'.active, j)).ticksLeft ≤ _
        rw [active, ticks]
        exact inv.activeQuantum j bound
      depleted := fun j bound low => .inl ?_
      procQuantum := fun x => by
        show 0 ≤ (s'.proc x).ticksLeft ∧ (s'.proc x).ticksLeft ≤ cfg.procQuantum
        rcases req.ticks x with same | same <;> rw [same]
        · exact inv.procQuantum x
        · omega
      queuedQuantum := fun x inside _ => ?_
      zombieQuantum := fun x zombie => by
        change (s'.proc x).state = .zombie at zombie
        show 0 < (s'.proc x).ticksLeft
        rw [req.state] at zombie
        rcases req.ticks x with same | same <;> rw [same]
        · exact inv.zombieQuantum x zombie
        · exact cfg.procQuantum_int_pos
      embryoQuantum := fun x embryo => by
        change (s'.proc x).state = .embryo at embryo
        show (s'.proc x).ticksLeft = cfg.procQuantum
        rw [req.state] at embryo
        rcases req.ticks x with same | same <;> rw [same]
        exact inv.embryoQuantum x embryo
      idle := fun _ => rfl
      cpuQueue := fun x onCpu' => by cases onCpu'
      running := fun x running => absurd ((req.state x).symm.trans running) (idleBefore x)
      runningQuantum := fun x running => absurd ((req.state x).symm.trans running) (idleBefore x)
      boot := fun none => (inv.started_of_onCpu onCpu (req.initproc ▸ none)).elim }
  · change x ∈ (s'.level (s'.active, j)).entries at inside
    show (s'.proc x).defaultLevel ≤ j
    rw [active] at inside
    rw [req.defaultLevel]
    rcases req.placed _ x inside with ⟨old, -⟩ | ⟨j', -, same, low, -⟩ | same
    · exact inv.activePlace j bound x old
    · rw [Prod.mk.injEq] at same
      rw [same.2]
      exact low
    · exact absurd (congrArg Prod.fst same) inv.sets
  · change x ∈ (s'.level (s'.expired, j)).entries at inside
    show (s'.proc x).defaultLevel = j
    rw [expired] at inside
    rw [req.defaultLevel]
    rcases req.placed _ x inside with ⟨old, -⟩ | ⟨j', -, same, -⟩ | same
    · exact inv.expiredPlace j bound x old
    · exact absurd (congrArg Prod.fst same).symm inv.sets
    · rw [Prod.mk.injEq] at same
      have range := inv.defaultRange x
      omega
  · -- a depleted active level was empty or the one `p` came from, and nothing moves in
    show (s'.level (s'.active, j)).entries = []
    change (s'.level (s'.active, j)).ticksLeft ≤ 0 at low
    rw [active] at low ⊢
    rw [ticks] at low
    refine List.eq_nil_iff_forall_not_mem.mpr fun x inside => ?_
    rcases req.placed _ x inside with ⟨old, fromQueue⟩ | ⟨j', -, same, -, quantum⟩ | same
    · rcases inv.depleted j bound low with empty | onQueue
      · rw [empty] at old
        cases old
      · have := fromQueue (by rw [otherQueue j onQueue])
        omega
    · omega
    · exact absurd (congrArg Prod.fst same) inv.sets
  · show 0 < (s'.proc x).ticksLeft
    have queued : x ∈ s.queued cfg := (req.member x).mp inside
    by_cases same : x = p
    · subst x
      refine req.positive fun zombie => ?_
      have := (inv.member p).mp queued
      simp [zombie, ProcState.queued] at this
    · have positive := inv.queuedQuantum x queued (by rw [onCpu]; simpa using Ne.symm same)
      rcases req.ticks x with ticks | ticks <;> rw [ticks]
      · exact positive
      · exact cfg.procQuantum_int_pos

/-- The depleted requeue, in the terms of `Requeued`. -/
theorem requeued_of_depleted (inv : Inv cfg s) (pending : Pending cfg s p k)
    (req : DepletedRequeue cfg s p k s') : Requeued cfg s p k s' := by
  refine ⟨req.quanta, req.nodup, req.member, fun x => ?_, fun alive => ?_, fun r x inside => ?_,
    req.initproc⟩
  · rw [req.proc x]
    split
    · exact .inr rfl
    · exact .inl rfl
  · rw [req.proc p, if_pos (pending.inside alive)]
    exact cfg.procQuantum_int_pos
  · rw [req.entries r] at inside
    split at inside
    · cases inside
    · rename_i other
      have moved : ∀ x ∈ (s.level (s.active, k)).entries, depletedTarget cfg s k x = r →
          Placed cfg s x r := by
        intro x inside target
        rw [← target]
        exact firstAvailable_placed (by have := inv.activePlace k pending.level x inside; omega)
      simp only [List.mem_append, List.mem_filter, decide_eq_true_eq] at inside
      rcases inside with (old | ⟨inside, -, target⟩) | last
      · exact .inl ⟨old, fun same => absurd same other⟩
      · exact .inr (moved x inside target)
      · split at last
        · rename_i alive
          rw [List.mem_singleton] at last
          subst x
          exact .inr (moved p (pending.inside alive.1) alive.2)
        · cases last

/-- The requeue with quantum left, in the terms of `Requeued`. -/
theorem requeued_of_level (inv : Inv cfg s) (pending : Pending cfg s p k)
    (quantum : 0 < (s.level (s.active, k)).ticksLeft) (req : LevelRequeue cfg s p k s') :
    Requeued cfg s p k s' := by
  refine ⟨req.quanta, req.nodup, req.member, fun x => ?_, fun alive => ?_, fun r x inside => ?_,
    req.initproc⟩
  · rw [req.proc x]
    split
    · rename_i used
      rw [used.1]
      exact .inr rfl
    · exact .inl rfl
  · rw [req.proc p]
    split
    · exact cfg.procQuantum_int_pos
    · rename_i kept
      simp only [true_and, not_le] at kept
      exact kept
  · rw [req.entries r] at inside
    split at inside
    · exact .inl ⟨inside, fun same => same ▸ quantum⟩
    · rename_i alive
      have home := pending.inside alive
      rcases List.mem_append.mp inside with stayed | last
      · split at stayed
        · rename_i same
          subst r
          exact .inl ⟨List.mem_of_mem_erase stayed, fun _ => quantum⟩
        · rename_i other
          exact .inl ⟨stayed, fun same => absurd same other⟩
      · split at last
        · rename_i target
          rw [List.mem_singleton] at last
          subst x
          unfold levelTarget at target
          split at target
          · subst r
            exact .inl ⟨home, fun _ => quantum⟩
          · rw [← target]
            exact .inr (firstAvailable_placed (by have := inv.activePlace k pending.level p home; omega))
        · cases last

/-- The requeue lowers no quantum: it only refills process quanta. -/
theorem Requeued.ticked (inv : Inv cfg s) (req : Requeued cfg s p k s') :
    Ticked s { s' with cpu := Cpu.idle } := by
  refine Ticked.of_le (fun r => (req.quanta.2.2 r).ge) (fun x => ?_)
  show (s.proc x).ticksLeft ≤ (s'.proc x).ticksLeft
  rcases req.ticks x with same | same <;> rw [same]
  exact (inv.procQuantum x).2

/-- The requeue succeeds and keeps the invariant. -/
theorem inv_requeue (inv : Inv cfg s) (back : s.returned = some p) {q : QueueRef}
    (queue : s.cpu.queue = some q) :
    ∃ s', requeue cfg s p q = .ok s' ∧ Inv cfg s' ∧ Ticked s s' := by
  obtain ⟨onCpu, -⟩ := Kernel.returned_eq_some.mp back
  obtain ⟨k, -, queue', -⟩ := inv.cpuQueue p onCpu
  rw [queue, Option.some.injEq] at queue'
  subst queue'
  have pending := Inv.pending inv back queue
  unfold requeue
  by_cases depleted : (s.level (s.active, k)).ticksLeft ≤ 0
  · obtain ⟨s', ran, req⟩ := requeueDepleted_spec pending
    rw [if_pos depleted, ran, ok_bind]
    have req := requeued_of_depleted inv pending req
    exact ⟨_, rfl, Inv.requeued inv back queue req, req.ticked inv⟩
  · obtain ⟨s', ran, req⟩ := requeueLevel_spec pending (by omega)
    rw [if_neg depleted, ran, ok_bind]
    have req := requeued_of_level inv pending (by omega) req
    exact ⟨_, rfl, Inv.requeued inv back queue req, req.ticked inv⟩

end Rsdl.RequeueInv
