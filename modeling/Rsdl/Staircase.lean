import Rsdl.Lifecycle
import Rsdl.Iteration
import Rsdl.FifoProofs

/-! The staircase of RSDL: between two swaps of the sets, a process only goes down. From a
level of the active set the scheduler moves it to the same level or a later one, or to the
expired set, and a process that waits in the expired set stays in its level there until
the sets swap (`staircase_descent`).

`Below` is this order on the queues of one pair of sets. An event moves a queued process
only as `Moves` allows, which also says what it does to the process's quantum: the process
calls and the timer leave every queued process in its queue, since they only enqueue a new
process or take out the caller, and the timer charges only the running process, which is in
the active set; a pick touches no queue; and the requeue sends processes of its level to
`levelTarget` or `depletedTarget`, which lie below it, with a full quantum. The swap is the
only event that moves a process up, and it is the one that moves `active`.

The staircase bounds the share of a rotation. `budget` is the rest of a process's quantum
and a full quantum for each later level of the active set, and nothing in the expired set.
No event within a rotation raises it and every charge lowers it, so by
`Budget.charges_le_of_dominated` a process is charged at most its budget before the sets
swap (`rotation_share`). -/
namespace Rsdl.Staircase

open Relation ExceptRun QueueProofs RequeueProofs SwapProofs Invariant RequeueInv ProcInv
  Preservation Lifecycle Forks FifoProofs Iteration Safety Budget

variable {cfg : Config} {s s' t t' : Kernel Cpu}

/-! ### The order of the staircase -/

/-- `r'` is `r` or below it on the staircase of the sets `active` and `expired`: a later
level of the active set, or for a process of the active set any level of the expired set.
A process in the expired set stays where it is. -/
def Below (active expired : Fin 2) (r r' : QueueRef) : Prop :=
  (r.1 = active ∧ r'.1 = active ∧ r.2 ≤ r'.2) ∨ (r.1 = active ∧ r'.1 = expired) ∨
    (r.1 = expired ∧ r' = r)

instance (active expired : Fin 2) (r r' : QueueRef) : Decidable (Below active expired r r') := by
  unfold Below
  infer_instance

section Order

variable {active expired : Fin 2}

/-- With two different sets, every queue is in one of them. -/
theorem set_cases (sets : active ≠ expired) (r : QueueRef) : r.1 = active ∨ r.1 = expired := by
  have two : ∀ a e x : Fin 2, a ≠ e → x = a ∨ x = e := by decide
  exact two active expired r.1 sets

theorem Below.refl (sets : active ≠ expired) (r : QueueRef) : Below active expired r r := by
  rcases set_cases sets r with inActive | inExpired
  · exact .inl ⟨inActive, inActive, le_refl _⟩
  · exact .inr (.inr ⟨inExpired, rfl⟩)

theorem Below.trans (sets : active ≠ expired) {r₁ r₂ r₃ : QueueRef}
    (first : Below active expired r₁ r₂) (second : Below active expired r₂ r₃) :
    Below active expired r₁ r₃ := by
  -- a queue in both sets would make them one
  rcases first with ⟨a₁, a₂, le₁⟩ | ⟨a₁, e₂⟩ | ⟨e₁, rfl⟩
  · rcases second with ⟨-, a₃, le₂⟩ | ⟨-, e₃⟩ | ⟨e₂, rfl⟩
    · exact .inl ⟨a₁, a₃, le₁.trans le₂⟩
    · exact .inr (.inl ⟨a₁, e₃⟩)
    · exact (sets (a₂.symm.trans e₂)).elim
  · rcases second with ⟨a₂, -, -⟩ | ⟨a₂, -⟩ | ⟨-, rfl⟩
    · exact (sets (a₂.symm.trans e₂)).elim
    · exact (sets (a₂.symm.trans e₂)).elim
    · exact .inr (.inl ⟨a₁, e₂⟩)
  · rcases second with ⟨a₁, -, -⟩ | ⟨a₁, -⟩ | ⟨-, rfl⟩
    · exact (sets (a₁.symm.trans e₁)).elim
    · exact (sets (a₁.symm.trans e₁)).elim
    · exact .inr (.inr ⟨e₁, rfl⟩)

end Order

/-- With unique entries, a process is in one queue only. -/
theorem queue_unique (nodup : (t.queued cfg).Nodup) {x : Slot} {r r' : QueueRef}
    (member : r ∈ allQueues cfg) (member' : r' ∈ allQueues cfg) (entry : x ∈ (t.level r).entries)
    (entry' : x ∈ (t.level r').entries) : r = r' := by
  by_contra apart
  have disjoint := (List.nodup_flatMap.mp nodup).2
  have : Std.Symm (Function.onFun List.Disjoint fun r => (t.level r).entries) :=
    ⟨fun _ _ split => split.symm⟩
  exact disjoint.forall member member' apart entry entry'

/-! ### One event -/

/-- Where one event puts a process that was queued before it: in a queue below the one it
was in. -/
def Descends (cfg : Config) (t t' : Kernel Cpu) : Prop :=
  ∀ x r', r' ∈ allQueues cfg → x ∈ (t'.level r').entries → x ∈ t.queued cfg →
    ∃ r ∈ allQueues cfg, x ∈ (t.level r).entries ∧ Below t.active t.expired r r'

/-- Every process that was queued is in no other queue afterwards. -/
def Stays (cfg : Config) (t t' : Kernel Cpu) : Prop :=
  ∀ x r, x ∈ (t'.level r).entries → x ∈ t.queued cfg → x ∈ (t.level r).entries

/-- Where one event puts a process that was queued before it, and what it leaves of its
quantum: the process stays in its queue, where it loses ticks only in the active set, or
it goes to a queue below with a full quantum. -/
def Moves (cfg : Config) (t t' : Kernel Cpu) : Prop :=
  ∀ x r', r' ∈ allQueues cfg → x ∈ (t'.level r').entries → x ∈ t.queued cfg →
    ∃ r ∈ allQueues cfg, x ∈ (t.level r).entries ∧
      ((r' = r ∧ (t'.proc x).ticksLeft ≤ (t.proc x).ticksLeft ∧
          ((t'.proc x).ticksLeft < (t.proc x).ticksLeft → r.1 = t.active)) ∨
        (Below t.active t.expired r r' ∧ r' ≠ r ∧ (t'.proc x).ticksLeft = cfg.procQuantum))

theorem Stays.of_level (level : t'.level = t.level) : Stays cfg t t' :=
  fun x r entry _ => by rwa [level] at entry

theorem Moves.descends (sets : t.active ≠ t.expired) (moves : Moves cfg t t') :
    Descends cfg t t' := fun x r' member entry queued => by
  obtain ⟨r, member₀, entry₀, ⟨rfl, -⟩ | ⟨below, -⟩⟩ := moves x r' member entry queued
  · exact ⟨r', member₀, entry₀, Below.refl sets r'⟩
  · exact ⟨r, member₀, entry₀, below⟩

/-- A process that keeps its queue and its quantum. -/
theorem stays_put {x : Slot} {r : QueueRef}
    (kept : (t'.proc x).ticksLeft = (t.proc x).ticksLeft) :
    r = r ∧ (t'.proc x).ticksLeft ≤ (t.proc x).ticksLeft ∧
      ((t'.proc x).ticksLeft < (t.proc x).ticksLeft → r.1 = t.active) :=
  ⟨rfl, kept.le, fun lower => absurd kept lower.ne⟩

theorem Moves.of_stays (stays : Stays cfg t t')
    (kept : ∀ y ∈ t.queued cfg, (t'.proc y).ticksLeft = (t.proc y).ticksLeft) :
    Moves cfg t t' := fun x r' member entry queued =>
  ⟨r', member, stays x r' entry queued, .inl (stays_put (kept x queued))⟩

theorem Moves.of_relabel (rel : Relabel t t') : Moves cfg t t' :=
  .of_stays (Stays.of_level rel.level) fun y _ => rel.ticks y

/-- A relabelling before a step does not show in `Moves`. -/
theorem Moves.relabel_left {u : Kernel Cpu} (rel : Relabel t u) (moves : Moves cfg u t') :
    Moves cfg t t' := by
  intro x r' member entry queued
  rw [← queued_eq_of_level cfg rel.level] at queued
  obtain ⟨r, member₀, entry₀, moved⟩ := moves x r' member entry queued
  rw [rel.level] at entry₀
  rw [rel.ticks x, rel.active, rel.expired] at moved
  exact ⟨r, member₀, entry₀, moved⟩

/-- `Moves` reads only the queues and the process table of the later state. -/
theorem Moves.of_cpu (moves : Moves cfg t t') (c : Cpu) : Moves cfg t { t' with cpu := c } :=
  moves

/-! ### The process calls and the timer -/

/-- Enqueueing a process that was not queued, after changes that left the queues alone. -/
theorem stays_of_enqueue {s₂ : Kernel Cpu} {c : Slot} {r : QueueRef} (ran : s₂.enqueue c r = .ok t')
    (level : s₂.level = t.level) (fresh : c ∉ t.queued cfg) : Stays cfg t t' := by
  obtain ⟨-, rfl⟩ := enqueue_eq_ok ran
  intro x r' entry queued
  have other : x ≠ c := fun same => fresh (same ▸ queued)
  simp only [Kernel.setLevel_level] at entry
  split at entry
  · rename_i here
    subst here
    rw [LevelQueue.push_entries, level, List.mem_append, List.mem_singleton] at entry
    exact entry.resolve_right other
  · rwa [level] at entry

/-- The slot that `allocproc` takes was free, so it is no queued process. -/
theorem kept_of_taken (inv : Inv cfg t) {c : Slot} (taken : Taken t t' c) :
    ∀ y ∈ t.queued cfg, (t'.proc y).ticksLeft = (t.proc y).ticksLeft := fun y queued => by
  rw [taken.others y fun same => not_mem_queued_of_unseen inv (.inl taken.fresh) (same ▸ queued)]

theorem userinit_stays (inv : Inv cfg t) (ran : userinit cfg t = .ok t') : Stays cfg t t' := by
  unfold userinit at ran
  split at ran
  · cases ran
  · rename_i s₁ c alloc
    obtain ⟨fresh, rfl⟩ := allocproc_true_some alloc
    obtain ⟨q, -, enqueued⟩ := bind_eq_ok ran
    exact stays_of_enqueue enqueued rfl (not_mem_queued_of_unseen inv (.inl fresh))

theorem userinit_moves (inv : Inv cfg t) (noInit : t.initproc = none)
    (ran : userinit cfg t = .ok t') : Moves cfg t t' := by
  obtain ⟨c, started⟩ := userinit_started noInit ran
  exact .of_stays (userinit_stays inv ran) (kept_of_taken inv started.toTaken)

/-- The first section of `priofork` changes no queue, and takes a free slot or nothing. -/
theorem prioforkBegin_moves (inv : Inv cfg t) {x : Slot} {level : Int}
    (running : (t.proc x).state = .running) (idle : t.forks x = none) :
    Moves cfg t (prioforkBegin cfg t x level) := by
  have stays : Stays cfg t (prioforkBegin cfg t x level) :=
    Stays.of_level (prioforkBegin_level cfg t x level)
  have life : prioforkBegin cfg t x level = t ∨
      ∃ c, Began cfg t (prioforkBegin cfg t x level) x c level :=
    prioforkBegin_life running idle
  rcases life with same | ⟨c, began⟩
  · exact .of_stays stays fun y _ => by rw [same]
  · exact .of_stays stays (kept_of_taken inv began.toTaken)

/-- The middle of a `priofork` changes no queue and no quantum. -/
theorem prioforkMiddle_moves {x : Slot} {f : Forking} (running : (t.proc x).state = .running)
    (held : t.forks x = some f) (kallocOk copyuvmOk : Bool) :
    Moves cfg t (prioforkMiddle t x f kallocOk copyuvmOk) := by
  refine .of_stays (Stays.of_level (prioforkMiddle_level t x f kallocOk copyuvmOk)) fun y _ => ?_
  rcases prioforkMiddle_life running held kallocOk copyuvmOk with forked | forked
  · exact forked.field_eq Proc.ticksLeft (fun _ => rfl) y
  · exact forked.field_eq Proc.ticksLeft (fun _ => rfl) y

/-- The second section of a `priofork` enqueues the child, an `EMBRYO` that no queue holds,
and keeps every quantum. -/
theorem prioforkEnd_moves (inv : Inv cfg t) (forks : ForkSlots cfg t) {x : Slot} {f : Forking}
    (running : (t.proc x).state = .running) (held : t.forks x = some f)
    (ran : prioforkEnd cfg t x f = .ok t') : Moves cfg t t' := by
  have fresh : f.np ∉ t.queued cfg := not_mem_queued_of_unseen inv (.inr (forks.embryo x f held))
  have stays : Stays cfg t t' := by
    obtain ⟨s₁, enqueued, rfl⟩ := map_eq_ok ran
    unfold prioforkEnqueue at enqueued
    obtain ⟨q, -, enqueued⟩ := bind_eq_ok enqueued
    -- dropping the record of the `priofork` moves no queue
    have queuedOnly : Stays cfg t s₁ := stays_of_enqueue enqueued rfl fresh
    exact queuedOnly
  exact .of_stays stays fun y _ =>
    (prioforkEnd_life running held ran).field_eq Proc.ticksLeft (fun _ => rfl) y

/-- What `exit` does after the relabelling of its wakeup and of the loop over the children:
the caller leaves its queue `r` and is a zombie. -/
theorem exit_cases (inv : Inv cfg t) {x : Slot} (running : (t.proc x).state = .running)
    (ran : exit cfg t x = .ok t') :
    ∃ u r, u = reparent (wakeup1 t ((t.proc x).parent.map .proc)) x ∧ Relabel t u ∧
      x ∈ (u.level r).entries ∧ t' = afterExit u x r := by
  unfold exit at ran
  split at ran
  · cases ran
  have rel : Relabel t (reparent (wakeup1 t ((t.proc x).parent.map .proc)) x) :=
    (relabel_wakeup1 _ _).trans (relabel_reparent _ x)
  have queued : x ∈ (reparent (wakeup1 t ((t.proc x).parent.map .proc)) x).queued cfg :=
    ((inv.relabel rel).member x).mpr (by rw [(rel.states x).queued, running]; rfl)
  obtain ⟨r, -, inside, removed⟩ := removeProcFrom_of_mem (mem_queued.mp queued)
  simp only [removeProcFromLevels, removed, ok_bind, pure_eq_ok] at ran
  cases ran
  exact ⟨_, r, rfl, rel, inside, rfl⟩

/-- `exit` takes its caller out of its queue, moves nobody else and keeps every quantum. -/
theorem exit_moves (inv : Inv cfg t) {x : Slot} (running : (t.proc x).state = .running)
    (ran : exit cfg t x = .ok t') : Moves cfg t t' := by
  obtain ⟨u, r, -, rel, inside, rfl⟩ := exit_cases inv running ran
  refine .of_stays (fun y r' entry _ => ?_) fun y _ => (afterExit_proc_ticks y).trans (rel.ticks y)
  rw [← rel.level]
  exact mem_afterExit_entries inside entry

/-- The charge takes a tick only off the running process, which is in its level of the
active set. -/
theorem moves_of_charged (inv : Inv cfg t) {p : Slot} {q : QueueRef} (onCpu : t.cpu.proc = some p)
    (running : (t.proc p).state = .running) (charged : Charged t p q t') : Moves cfg t t' := by
  obtain ⟨k, bound, -, inside, -⟩ := inv.cpuQueue p onCpu
  have home : p ∈ (t.level (t.active, k)).entries := inside (by rw [running]; rfl)
  intro x r' member entry _
  rw [charged.entries] at entry
  refine ⟨r', member, entry, .inl ⟨rfl, ?_, fun lower => ?_⟩⟩
  · by_cases same : x = p
    · subst x
      rw [charged.procTicks]
      omega
    · rw [charged.others x same]
  · -- only `p` loses a tick, and `p` is in `active[k]`
    have same : x = p := by
      by_contra other
      rw [charged.others x other] at lower
      exact lt_irrefl _ lower
    subst x
    rw [queue_unique inv.nodup member (mem_allQueues.mpr bound) entry home]

/-- What the timer does after it wakes the sleepers on `ticks`: nothing, or the charge of
the running process and of its level `active[k]`. -/
theorem timer_cases (inv : Inv cfg t) {cpuid : Nat} (ran : timer cpuid t = .ok t') :
    ∃ u, u = (if cpuid = 0 then wakeup t .ticks else t) ∧ Relabel t u ∧
      (t' = u ∨ ∃ p k, u.cpu.proc = some p ∧ (u.proc p).state = .running ∧
        k < cfg.levels ∧ Charged u p (u.active, k) t') := by
  have woken : Relabel t (if cpuid = 0 then wakeup t .ticks else t) := by
    split
    · exact relabel_wakeup1 t _
    · exact Relabel.refl t
  refine ⟨_, rfl, woken, ?_⟩
  unfold timer at ran
  generalize (if cpuid = 0 then wakeup t .ticks else t) = s₁ at woken ran ⊢
  have inv₁ := inv.relabel woken
  dsimp only at ran
  cases onCpu : s₁.cpu.proc with
  | none =>
    rw [onCpu] at ran
    cases ran
    exact .inl rfl
  | some p =>
    rw [onCpu] at ran
    dsimp only at ran
    split at ran
    · cases ran
      exact .inl rfl
    rename_i notIdle
    have running : (s₁.proc p).state = .running := not_not.mp notIdle
    obtain ⟨k, bound, queue, -⟩ := inv₁.cpuQueue p onCpu
    rw [queue] at ran
    dsimp only at ran
    change (if ((charge s₁ p (s₁.active, k)).proc p).ticksLeft ≤ 0 ∨
        ((charge s₁ p (s₁.active, k)).level (s₁.active, k)).ticksLeft ≤ 0 then
      Except.ok (yield (charge s₁ p (s₁.active, k)) p) else Except.ok (charge s₁ p (s₁.active, k))) =
        .ok t' at ran
    refine .inr ⟨p, k, rfl, running, bound, ?_⟩
    -- the charged process yields when it or its level has no tick left
    split at ran
    · cases ran
      exact charged_of_yield
    · rename_i stays
      cases ran
      exact charged_of_charge running stays

/-- The timer charges the running process, or nobody. -/
theorem timer_moves (inv : Inv cfg t) {cpuid : Nat} (ran : timer cpuid t = .ok t') :
    Moves cfg t t' := by
  obtain ⟨u, -, woken, rfl | ⟨p, k, onCpu, running, -, charged⟩⟩ := timer_cases inv ran
  · exact .of_relabel woken
  · exact (moves_of_charged (inv.relabel woken) onCpu running charged).relabel_left woken

/-! ### The scheduler -/

theorem dispatch_ticks (s : Kernel Cpu) (k : Nat) (p y : Slot) :
    ((dispatch s k p).proc y).ticksLeft = (s.proc y).ticksLeft := by
  unfold dispatch
  by_cases same : y = p <;> simp [same]

/-- A pick changes no queue and no quantum. -/
theorem dispatch_moves (k : Nat) (p : Slot) : Moves cfg t (dispatch t k p) :=
  .of_stays (Stays.of_level rfl) fun y _ => dispatch_ticks t k p y

/-- The depleted requeue sends a process of `active[k]` to the first later active level
with quantum left, else to the expired set. -/
theorem below_depletedTarget {k : Nat} (x : Slot) :
    Below t.active t.expired (t.active, k) (depletedTarget cfg t k x) := by
  unfold depletedTarget
  rcases firstAvailable_cases cfg t (k + 1) (t.proc x).defaultLevel.toNat with
    ⟨j, found, above, -⟩ | ⟨found, -⟩
  · rw [found]
    exact .inl ⟨rfl, rfl, by dsimp only; omega⟩
  · rw [found]
    exact .inr (.inl ⟨rfl, rfl⟩)

/-- The depleted requeue sends every process of `active[k]` below it with a full quantum,
and leaves everyone else where it was with its quantum. -/
theorem depletedRequeue_moves {k : Nat} {p : Slot} (pending : Pending cfg t p k)
    (req : DepletedRequeue cfg t p k t') : Moves cfg t t' := by
  have level : (t.active, k) ∈ allQueues cfg := mem_allQueues.mpr pending.level
  have refilled {x : Slot} (inside : x ∈ (t.level (t.active, k)).entries) :
      (t'.proc x).ticksLeft = cfg.procQuantum := by
    rw [req.proc x, if_pos inside]
  intro x r' member entry _
  rw [req.entries r'] at entry
  split at entry
  · cases entry
  rename_i other
  simp only [List.mem_append, List.mem_filter, decide_eq_true_eq] at entry
  rcases entry with (stayed | ⟨moved, -, target⟩) | last
  · -- `x` is in another queue, so not in `active[k]`
    have outside : x ∉ (t.level (t.active, k)).entries := fun inside =>
      other (queue_unique pending.nodup member level stayed inside)
    exact ⟨r', member, stayed, .inl (stays_put (by rw [req.proc x, if_neg outside]))⟩
  · subst target
    exact ⟨(t.active, k), level, moved,
      .inr ⟨below_depletedTarget x, depletedTarget_ne pending x, refilled moved⟩⟩
  · -- `p` itself goes last, unless it exited
    split at last
    · rename_i live
      rw [List.mem_singleton] at last
      subst last
      obtain ⟨alive, target⟩ := live
      subst target
      have home := pending.inside alive
      exact ⟨(t.active, k), level, home,
        .inr ⟨below_depletedTarget x, depletedTarget_ne pending x, refilled home⟩⟩
    · cases last

/-- The requeue of a level with quantum left moves only `p`: to the tail of its level with
its quantum, or, with its quantum used up, below with a full one. -/
theorem levelRequeue_moves {k : Nat} {p : Slot} (pending : Pending cfg t p k)
    (req : LevelRequeue cfg t p k t') : Moves cfg t t' := by
  have level : (t.active, k) ∈ allQueues cfg := mem_allQueues.mpr pending.level
  have others {x : Slot} (other : x ≠ p) : (t'.proc x).ticksLeft = (t.proc x).ticksLeft := by
    rw [req.proc x, if_neg fun both => other both.1]
  intro x r' member entry _
  rw [req.entries r'] at entry
  split at entry
  · -- an exited `p` is in no queue, and nothing moves
    rename_i zombie
    have other : x ≠ p := fun same =>
      pending.absent zombie (same ▸ mem_queued.mpr ⟨r', member, entry⟩)
    exact ⟨r', member, entry, .inl (stays_put (others other))⟩
  rename_i live
  have home := pending.inside live
  rw [List.mem_append] at entry
  rcases entry with stayed | last
  · -- everyone else keeps its place; `p` leaves its level
    split at stayed
    · rename_i here
      subst here
      have nodup := pending.nodup.sublist (entries_sublist_queued level)
      obtain ⟨other, inside⟩ := (nodup.mem_erase_iff).mp stayed
      exact ⟨_, member, inside, .inl (stays_put (others other))⟩
    · rename_i there
      have other : x ≠ p := fun same =>
        there (queue_unique pending.nodup member level stayed (same ▸ home))
      exact ⟨r', member, stayed, .inl (stays_put (others other))⟩
  · split at last
    · rename_i target
      rw [List.mem_singleton] at last
      subst last
      refine ⟨(t.active, k), level, home, ?_⟩
      unfold levelTarget at target
      split at target
      · rename_i left
        subst target
        exact .inl (stays_put (by rw [req.proc x, if_neg fun both => absurd both.2 (not_le.mpr left)]))
      · rename_i used
        subst target
        exact .inr ⟨below_depletedTarget x, depletedTarget_ne pending x,
          by rw [req.proc x, if_pos ⟨rfl, not_lt.mp used⟩]⟩
    · cases last

/-- What the requeue after a run does: the requeue of its level, depleted or not, and then
the CPU goes idle. -/
theorem requeue_cases (inv : Inv cfg t) {p : Slot} (back : t.returned = some p) {q : QueueRef}
    (queue : t.cpu.queue = some q) (ran : requeue cfg t p q = .ok t') :
    ∃ k u, Pending cfg t p k ∧ (DepletedRequeue cfg t p k u ∨ LevelRequeue cfg t p k u) ∧
      t' = { u with cpu := Cpu.idle } := by
  obtain ⟨onCpu, -⟩ := Kernel.returned_eq_some.mp back
  obtain ⟨k, -, queue', -⟩ := inv.cpuQueue p onCpu
  rw [queue, Option.some.injEq] at queue'
  subst queue'
  have pending := Inv.pending inv back queue
  unfold requeue at ran
  dsimp only at ran
  split at ran
  · obtain ⟨u, ran', req⟩ := requeueDepleted_spec pending
    rw [ran', ok_bind] at ran
    cases ran
    exact ⟨k, u, pending, .inl req, rfl⟩
  · obtain ⟨u, ran', req⟩ := requeueLevel_spec pending (by omega)
    rw [ran', ok_bind] at ran
    cases ran
    exact ⟨k, u, pending, .inr req, rfl⟩

theorem requeue_moves (inv : Inv cfg t) {p : Slot} (back : t.returned = some p) {q : QueueRef}
    (queue : t.cpu.queue = some q) (ran : requeue cfg t p q = .ok t') : Moves cfg t t' := by
  obtain ⟨k, u, pending, req | req, rfl⟩ := requeue_cases inv back queue ran
  · exact (depletedRequeue_moves pending req).of_cpu _
  · exact (levelRequeue_moves pending req).of_cpu _

/-! ### Every event of a rotation -/

/-- The code an event runs within a rotation: a relabelling (`wait`, `sleep`, `kill`,
`yield`, `wakeup`), `userinit`, a part of a `priofork` or `fork` by the running process,
`exit` by it, the timer, a pick, or the requeue after a run. A fact about every event within
a rotation follows from one fact about each of these. The swap moves `active`. -/
theorem exec_within {R : Kernel Cpu → Kernel Cpu → Prop} (inv : Inv cfg t) {e : Event}
    (ran : exec cfg t e = some (.ok t')) (same : t'.active = t.active)
    (onRelabel : Relabel t t' → R t t')
    (onUserinit : t.initproc = none → userinit cfg t = .ok t' → R t t')
    (onBegin : ∀ x level, (t.proc x).state = .running → t.forks x = none →
      t' = prioforkBegin cfg t x level → R t t')
    (onMiddle : ∀ x f kallocOk copyuvmOk, (t.proc x).state = .running → t.forks x = some f →
      t' = prioforkMiddle t x f kallocOk copyuvmOk → R t t')
    (onEnd : ∀ x f, (t.proc x).state = .running → t.forks x = some f →
      prioforkEnd cfg t x f = .ok t' → R t t')
    (onExit : ∀ x, (t.proc x).state = .running → exit cfg t x = .ok t' → R t t')
    (onTimer : timer 0 t = .ok t' → R t t')
    (onPick : ∀ k p, t' = dispatch t k p → R t t')
    (onRequeue : ∀ p q, t.returned = some p → t.cpu.queue = some q →
      requeue cfg t p q = .ok t' → R t t') : R t t' := by
  cases e with
  | userinit =>
    rw [exec_userinit_eq] at ran
    split at ran
    · rename_i noInit
      exact onUserinit noInit (Option.some.inj ran)
    · cases ran
  | priofork _ | fork =>
    obtain ⟨x, -, running, idle, begun⟩ := Kernel.caller_map_eq_some ran
    exact onBegin x _ running idle (Except.ok.inj begun).symm
  | forkCopy kallocOk copyuvmOk =>
    obtain ⟨x, f, -, running, held, -, copied⟩ := Kernel.forking_map_eq_some ran
    exact onMiddle x f kallocOk copyuvmOk running held (Except.ok.inj copied).symm
  | forkEnqueue =>
    obtain ⟨x, f, -, running, held, -, enqueued⟩ := Kernel.forking_map_eq_some ran
    exact onEnd x f running held enqueued
  | exit =>
    obtain ⟨x, -, running, -, exited⟩ := Kernel.caller_map_eq_some ran
    exact onExit x running exited
  | wait =>
    obtain ⟨x, current, running, -, waited⟩ := Kernel.caller_map_eq_some ran
    cases waited
    exact onRelabel (relabel_wait (Kernel.current_eq_some.mp current).1 running)
  | sleep chan =>
    obtain ⟨x, -, running, -, slept⟩ := Kernel.caller_map_eq_some ran
    cases slept
    exact onRelabel (relabel_sleep running chan)
  | kill pid =>
    obtain ⟨x, -, -, -, killed⟩ := Kernel.caller_map_eq_some ran
    cases killed
    exact onRelabel (relabel_kill t pid)
  | yield =>
    obtain ⟨x, -, running, -, yielded⟩ := Kernel.caller_map_eq_some ran
    cases yielded
    exact onRelabel (relabel_yield running)
  | wakeup chan =>
    rw [exec_wakeup_eq] at ran
    split at ran
    · cases ran
      exact onRelabel (relabel_wakeup1 t _)
    · cases ran
  | timer =>
    rw [exec_timer_eq] at ran
    split at ran
    · exact onTimer (Option.some.inj ran)
    · cases ran
  | scheduler =>
    rw [exec_scheduler_eq] at ran
    split at ran
    · have picked := Option.some.inj ran
      unfold scheduler at picked
      split at picked
      · rename_i k p _
        cases picked
        exact onPick k p rfl
      · -- the swap moves `active`
        obtain ⟨u, swapped, sw⟩ := swapSets_spec (Inv.swappable inv)
        rw [swapped] at picked
        cases picked
        exact absurd (sw.active.symm.trans same) inv.sets.symm
    · cases ran
  | requeue =>
    rw [exec_requeue_eq] at ran
    split at ran
    · rename_i p q back queue
      exact onRequeue p q back queue (Option.some.inj ran)
    · cases ran

/-- What every event that keeps the sets where they are does to the queued processes. -/
theorem exec_moves (inv : Inv cfg t) (forks : ForkSlots cfg t) {e : Event}
    (ran : exec cfg t e = some (.ok t')) (same : t'.active = t.active) : Moves cfg t t' :=
  exec_within inv ran same .of_relabel (userinit_moves inv)
    (fun _ _ running idle begun => begun ▸ prioforkBegin_moves inv running idle)
    (fun _ _ kallocOk copyuvmOk running held copied =>
      copied ▸ prioforkMiddle_moves running held kallocOk copyuvmOk)
    (fun _ _ running held enqueued => prioforkEnd_moves inv forks running held enqueued)
    (fun _ running exited => exit_moves inv running exited) (timer_moves inv)
    (fun k p picked => picked ▸ dispatch_moves k p)
    (fun _ _ back queue requeued => requeue_moves inv back queue requeued)

/-- Every event that keeps the sets where they are moves queued processes only down. -/
theorem exec_descends (inv : Inv cfg t) (forks : ForkSlots cfg t) {e : Event}
    (ran : exec cfg t e = some (.ok t')) (same : t'.active = t.active) : Descends cfg t t' :=
  (exec_moves inv forks ran same).descends inv.sets

/-! ### A rotation -/

/-- A step that leaves the sets where they are, after which `x` is still queued. -/
def InRotation (cfg : Config) (x : Slot) (t t' : Kernel Cpu) : Prop :=
  Step cfg t t' ∧ t'.active = t.active ∧ x ∈ t'.queued cfg

/-- Of two sets, `expired` is the one `active` is not. -/
theorem expired_of_active (inv : Inv cfg t) (inv' : Inv cfg t') (same : t'.active = t.active) :
    t'.expired = t.expired := by
  have two : ∀ a e e' : Fin 2, a ≠ e → a ≠ e' → e' = e := by decide
  exact two t.active t.expired t'.expired inv.sets (same ▸ inv'.sets)

/-- Between two swaps of the sets, a queued process goes only down the staircase: as long
as the sets stay and `x` stays queued, `x` is in a queue below the one it started in, a
later level of the active set or, once it has left the active set, its level of the
expired set. -/
theorem staircase_descent {x : Slot} (reach : Reachable cfg s)
    (run : ReflTransGen (InRotation cfg x) s s') {r : QueueRef} (member : r ∈ allQueues cfg)
    (start : x ∈ (s.level r).entries) :
    (∃ r' ∈ allQueues cfg, x ∈ (s'.level r').entries) ∧
      ∀ r' ∈ allQueues cfg, x ∈ (s'.level r').entries → Below s.active s.expired r r' := by
  have sets := (inv_reachable reach).sets
  -- carried along the run: reachability, the sets, and a queue of `x` below `r`
  suffices along : Reachable cfg s' ∧ s'.active = s.active ∧ s'.expired = s.expired ∧
      ∃ r' ∈ allQueues cfg, x ∈ (s'.level r').entries ∧ Below s.active s.expired r r' by
    obtain ⟨reach', -, -, r', member', entry', below⟩ := along
    refine ⟨⟨r', member', entry'⟩, fun r'' member'' entry'' => ?_⟩
    rw [queue_unique (inv_reachable reach').nodup member'' member' entry'' entry']
    exact below
  induction run with
  | refl => exact ⟨reach, rfl, rfl, r, member, start, Below.refl sets r⟩
  | tail _ step ih =>
    obtain ⟨reach₁, active₁, expired₁, r₁, member₁, entry₁, below₁⟩ := ih
    obtain ⟨⟨e, ran⟩, same, queued⟩ := step
    have inv₁ := inv_reachable reach₁
    have reach₂ := reach₁.tail ⟨e, ran⟩
    obtain ⟨r₂, member₂, entry₂⟩ := mem_queued.mp queued
    obtain ⟨r₀, member₀, entry₀, below₂⟩ := exec_descends inv₁ (forkSlots_reachable reach₁) ran same x r₂ member₂ entry₂
      (mem_queued.mpr ⟨r₁, member₁, entry₁⟩)
    -- the queue the step moved `x` from is the one it was in
    rw [queue_unique inv₁.nodup member₀ member₁ entry₀ entry₁, active₁, expired₁] at below₂
    exact ⟨reach₂, same.trans active₁,
      (expired_of_active inv₁ (inv_reachable reach₂) same).trans expired₁, r₂, member₂, entry₂,
      below₁.trans sets below₂⟩

/-! ### The share of a rotation -/

/-- What the process `x` may still be charged before the sets swap: the rest of its quantum
and a full one for each later level of the active set while it is in the active set, and
nothing in the expired set, where it does not run. -/
def budget (cfg : Config) (x : Slot) (t : Kernel Cpu) : Int :=
  match (List.range cfg.levels).find? fun k => decide (x ∈ (t.level (t.active, k)).entries) with
  | some k => (t.proc x).ticksLeft + cfg.procQuantum * ((cfg.levels : Int) - 1 - k)
  | none => 0

theorem share_nonneg (inv : Inv cfg t) (x : Slot) {k : Nat} (bound : k < cfg.levels) :
    0 ≤ (t.proc x).ticksLeft + cfg.procQuantum * ((cfg.levels : Int) - 1 - k) := by
  have ticks := (inv.procQuantum x).1
  have later : (0 : Int) ≤ cfg.procQuantum * ((cfg.levels : Int) - 1 - k) :=
    Int.mul_nonneg (by omega) (by omega)
  omega

theorem budget_nonneg (inv : Inv cfg t) (x : Slot) : 0 ≤ budget cfg x t := by
  unfold budget
  split
  · rename_i k found
    exact share_nonneg inv x (List.mem_range.mp (List.mem_of_find?_eq_some found))
  · exact le_refl 0

/-- The budget of a process, read off the queue it is in. -/
theorem budget_of_mem (inv : Inv cfg t) {x : Slot} {r : QueueRef} (member : r ∈ allQueues cfg)
    (entry : x ∈ (t.level r).entries) :
    budget cfg x t = if r.1 = t.active then
      (t.proc x).ticksLeft + cfg.procQuantum * ((cfg.levels : Int) - 1 - r.2) else 0 := by
  unfold budget
  split
  · rename_i k found
    have hit := List.find?_some found
    have inside := of_decide_eq_true hit
    have bound := List.mem_range.mp (List.mem_of_find?_eq_some found)
    -- the level found is the one queue of `x`
    obtain rfl := queue_unique inv.nodup (mem_allQueues.mpr bound) member inside entry
    rw [if_pos rfl]
  · rename_i missed
    rw [if_neg]
    intro here
    have queue : r = (t.active, r.2) := Prod.ext here rfl
    have outside := List.find?_eq_none.mp missed r.2 (List.mem_range.mpr (mem_allQueues.mp member))
    rw [queue] at entry
    exact outside (decide_eq_true entry)

/-- A full quantum for every level from `k'` on is at most one for every level after `k`. -/
theorem quantum_levels_le {q levels : Int} {k k' : Nat} (nonneg : 0 ≤ q) (lower : k < k') :
    q + q * (levels - 1 - k') ≤ q * (levels - 1 - k) := by
  have split : q * (levels - 1 - k) = q * (levels - 1 - k') + q * ((k' : Int) - k) := by
    rw [← Int.mul_add]
    congr 1
    omega
  have more : q * 1 ≤ q * ((k' : Int) - k) := Int.mul_le_mul_of_nonneg_left (by omega) nonneg
  omega

/-- Within a rotation an event does not raise the budget of a queued process, and it lowers
the budget when it charges the process. -/
theorem budget_step (inv : Inv cfg t) (inv' : Inv cfg t') (moves : Moves cfg t t')
    (same : t'.active = t.active) {x : Slot} (queued : x ∈ t.queued cfg)
    (queued' : x ∈ t'.queued cfg) :
    budget cfg x t' ≤ budget cfg x t ∧
      ((t'.proc x).ticksLeft < (t.proc x).ticksLeft → budget cfg x t' < budget cfg x t) := by
  obtain ⟨r', member', entry'⟩ := mem_queued.mp queued'
  obtain ⟨r, member, entry, moved⟩ := moves x r' member' entry' queued
  have bound := mem_allQueues.mp member
  rw [budget_of_mem inv' member' entry', budget_of_mem inv member entry, same]
  rcases moved with ⟨rfl, le, lower⟩ | ⟨below, ne, full⟩
  · -- `x` stays in `r`, and it is charged there only in the active set
    by_cases here : r'.1 = t.active
    · rw [if_pos here, if_pos here]
      exact ⟨by omega, fun charged => by omega⟩
    · rw [if_neg here, if_neg here]
      exact ⟨le_refl 0, fun charged => absurd (lower charged) here⟩
  · -- `x` goes down with a full quantum, so it was not charged
    have notCharged : ¬ (t'.proc x).ticksLeft < (t.proc x).ticksLeft := by
      rw [full]
      exact not_lt.mpr (inv.procQuantum x).2
    refine ⟨?_, fun charged => absurd charged notCharged⟩
    rcases below with ⟨active, active', le⟩ | ⟨active, expired'⟩ | ⟨-, rfl⟩
    · -- a later level of the active set
      have later : r.2 < r'.2 :=
        lt_of_le_of_ne le fun level => ne (Prod.ext (active'.trans active.symm) level.symm)
      rw [if_pos active', if_pos active, full]
      have fewer : (cfg.procQuantum : Int) + cfg.procQuantum * ((cfg.levels : Int) - 1 - r'.2) ≤
          cfg.procQuantum * ((cfg.levels : Int) - 1 - r.2) :=
        quantum_levels_le cfg.procQuantum_int_pos.le later
      have ticks := (inv.procQuantum x).1
      omega
    · -- the expired set
      rw [if_neg fun active'' => inv.sets (active''.symm.trans expired'), if_pos active]
      exact share_nonneg inv x bound
    · exact absurd rfl ne

/-- RSDL's bound on the share of a rotation: between two swaps of the sets, as long as it
has not exited, a process that starts in `active[k]` is charged at most the rest of its
quantum and a full quantum for each later level of the active set. It cannot run in the
expired set, and every move down the staircase refills its quantum but leaves a level
behind. -/
theorem rotation_share {x : Slot} (reach : Reachable cfg s) {l : List (Kernel Cpu)}
    (run : (s :: l).IsChain (InRotation cfg x)) {k : Nat} (bound : k < cfg.levels)
    (start : x ∈ (s.level (s.active, k)).entries) :
    (charges (procTicks x) (s :: l) : Int) ≤
      (s.proc x).ticksLeft + cfg.procQuantum * ((cfg.levels : Int) - 1 - k) := by
  have member : (s.active, k) ∈ allQueues cfg := mem_allQueues.mpr bound
  -- every state of the run is reachable and has `x` queued
  have along : ∀ t ∈ s :: l, Reachable cfg t ∧ x ∈ t.queued cfg :=
    run.induction _ _ (fun _ _ step reached => ⟨reached.1.tail step.1, step.2.2⟩)
      fun _ => ⟨reach, mem_queued.mpr ⟨_, member, start⟩⟩
  -- the budget is the potential that bounds the charges
  have spent : (s :: l).IsChain fun b c => budget cfg x c ≤ budget cfg x b ∧
      (procTicks x c < procTicks x b → budget cfg x c < budget cfg x b) :=
    run.imp_of_mem_imp fun b c inB inC step => by
      have inv := inv_reachable (along b inB).1
      obtain ⟨⟨e, ran⟩, same, -⟩ := step
      exact budget_step inv (inv_reachable (along c inC).1)
        (exec_moves inv (forkSlots_reachable (along b inB).1) ran same) same
        (along b inB).2 (along c inC).2
  calc (charges (procTicks x) (s :: l) : Int)
      ≤ budget cfg x s :=
        charges_le_of_dominated spent fun t inside => budget_nonneg (inv_reachable (along t inside).1) x
    _ = (s.proc x).ticksLeft + cfg.procQuantum * ((cfg.levels : Int) - 1 - k) := by
        rw [budget_of_mem (inv_reachable reach) member start, if_pos rfl]

/-- `initproc` under `oneTick`: it runs its one tick from level 0, which depletes the level,
and the requeue moves it down to level 1. -/
def descended : Kernel Cpu := afterEvents oneTick [.userinit, .scheduler, .timer, .requeue]

/-- The three steps of `descended` after `userinit`, all within one rotation. -/
theorem descended_steps :
    InRotation oneTick 0 (afterEvents oneTick [.userinit]) (afterEvents oneTick [.userinit, .scheduler]) ∧
      InRotation oneTick 0 (afterEvents oneTick [.userinit, .scheduler])
        (afterEvents oneTick [.userinit, .scheduler, .timer]) ∧
      InRotation oneTick 0 (afterEvents oneTick [.userinit, .scheduler, .timer]) descended :=
  ⟨⟨⟨.scheduler, rfl⟩, by decide, by decide⟩, ⟨⟨.timer, rfl⟩, by decide, by decide⟩,
    ⟨⟨.requeue, rfl⟩, by decide, by decide⟩⟩

theorem staircase_descent_descended :
    Reachable oneTick (afterEvents oneTick [.userinit]) ∧
      ReflTransGen (InRotation oneTick 0) (afterEvents oneTick [.userinit]) descended ∧
      ((0, 0) : QueueRef) ∈ allQueues oneTick ∧
      (0 : Slot) ∈ ((afterEvents oneTick [.userinit]).level (0, 0)).entries ∧
      ((∃ r' ∈ allQueues oneTick, (0 : Slot) ∈ (descended.level r').entries) ∧
        ∀ r' ∈ allQueues oneTick, (0 : Slot) ∈ (descended.level r').entries →
          Below (afterEvents oneTick [.userinit]).active (afterEvents oneTick [.userinit]).expired
            (0, 0) r') := by
  have reach : Reachable oneTick (afterEvents oneTick [.userinit]) := reachable_afterEvents (by decide)
  obtain ⟨picked, ticked, requeued⟩ := descended_steps
  have run := ((ReflTransGen.single picked).tail ticked).tail requeued
  have member : ((0, 0) : QueueRef) ∈ allQueues oneTick := by decide
  have start : (0 : Slot) ∈ ((afterEvents oneTick [.userinit]).level (0, 0)).entries := by decide
  exact ⟨reach, run, member, start, staircase_descent reach run member start⟩

/-- Along the rotation of `descended`, `initproc` is charged within its two quanta. -/
theorem rotation_share_descended :
    Reachable oneTick (afterEvents oneTick [.userinit]) ∧
      [afterEvents oneTick [.userinit], afterEvents oneTick [.userinit, .scheduler],
        afterEvents oneTick [.userinit, .scheduler, .timer], descended].IsChain
          (InRotation oneTick 0) ∧
      0 < oneTick.levels ∧
      (0 : Slot) ∈ ((afterEvents oneTick [.userinit]).level
        ((afterEvents oneTick [.userinit]).active, 0)).entries ∧
      (charges (procTicks 0) [afterEvents oneTick [.userinit],
          afterEvents oneTick [.userinit, .scheduler],
          afterEvents oneTick [.userinit, .scheduler, .timer], descended] : Int) ≤
        ((afterEvents oneTick [.userinit]).proc 0).ticksLeft +
          oneTick.procQuantum * ((oneTick.levels : Int) - 1 - ((0 : Nat) : Int)) := by
  have reach : Reachable oneTick (afterEvents oneTick [.userinit]) := reachable_afterEvents (by decide)
  obtain ⟨picked, ticked, requeued⟩ := descended_steps
  have run : [afterEvents oneTick [.userinit], afterEvents oneTick [.userinit, .scheduler],
      afterEvents oneTick [.userinit, .scheduler, .timer], descended].IsChain
        (InRotation oneTick 0) :=
    .cons_cons picked (.cons_cons ticked (.cons_cons requeued (.singleton _)))
  have bound : 0 < oneTick.levels := by decide
  have start : (0 : Slot) ∈ ((afterEvents oneTick [.userinit]).level
      ((afterEvents oneTick [.userinit]).active, 0)).entries := by decide
  exact ⟨reach, run, bound, start, rotation_share reach run bound start⟩

end Rsdl.Staircase
