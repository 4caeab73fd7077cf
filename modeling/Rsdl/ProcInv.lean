import Rsdl.RequeueInv

/-! The process calls keep `Inv`: those that only relabel processes through `Relabel`,
`exit` through `Inv.exited`, and the calls that create a process (`userinit` and the three
sections of `priofork`) through `Inv.reset` for a slot taken or given back, which the
scheduler sees in neither case (`Unseen`), and `Inv.spawned` for the child that is
enqueued. The middle and the end of a `priofork` read the child off its caller's stack,
and `ForkSlots` says it is still the `EMBRYO` the first section made. -/
namespace Rsdl.ProcInv
open ExceptRun QueueProofs RequeueProofs Invariant RequeueInv

variable {cfg : Config} {s s' : Kernel Cpu} {p : Slot}

/-! ### The process calls that only relabel -/

/-- An update of one slot that keeps its quanta and moves its state as `StateMove` allows. -/
theorem relabel_modifyProc (s : Kernel Cpu) (x : Slot) (f : Proc → Proc)
    (ticks : (f (s.proc x)).ticksLeft = (s.proc x).ticksLeft)
    (defaultLevel : (f (s.proc x)).defaultLevel = (s.proc x).defaultLevel)
    (move : StateMove s.cpu x (s.proc x).state (f (s.proc x)).state) :
    Relabel s (s.modifyProc x f) := by
  refine ⟨rfl, rfl, rfl, rfl, rfl, fun y => ?_, fun y => ?_, fun y => ?_⟩ <;>
  · by_cases same : y = x
    · subst y
      simpa using by assumption
    · simp [same, StateMove]

theorem relabel_nextpid (s : Kernel Cpu) (n : Int) : Relabel s { s with nextpid := n } :=
  ⟨rfl, rfl, rfl, rfl, rfl, fun _ => rfl, fun _ => rfl, fun _ => .inl rfl⟩

/-- What a `priofork` keeps on its caller's stack is no part of the invariant. -/
theorem relabel_setFork (s : Kernel Cpu) (x : Slot) (f : Option Forking) : Relabel s (s.setFork x f) :=
  ⟨rfl, rfl, rfl, rfl, rfl, fun _ => rfl, fun _ => rfl, fun _ => .inl rfl⟩

theorem relabel_wakeup1 (s : Kernel Cpu) (chan : Option Chan) : Relabel s (wakeup1 s chan) := by
  refine ⟨rfl, rfl, rfl, rfl, rfl, fun x => ?_, fun x => ?_, fun x => ?_⟩ <;>
    simp only [wakeup1] <;> split
  all_goals try first | rfl | exact .inl rfl
  rename_i asleep
  exact .inr (.inl ⟨asleep.1, rfl⟩)

/-- A process that runs is relabelled by `sleep` and `yield`. -/
theorem relabel_sleep {x : Slot} (running : (s.proc x).state = .running) (chan : Chan) :
    Relabel s (sleep s x chan) :=
  relabel_modifyProc s x (fun pr => { pr with chan := some chan, state := .sleeping }) rfl rfl (.inr (.inr (.inl ⟨running, .inr rfl⟩)))

theorem relabel_yield {x : Slot} (running : (s.proc x).state = .running) :
    Relabel s (yield s x) :=
  relabel_modifyProc s x (fun pr => { pr with state := .runnable }) rfl rfl (.inr (.inr (.inl ⟨running, .inl rfl⟩)))

theorem relabel_kill (s : Kernel Cpu) (pid : Int) : Relabel s (kill s pid).1 := by
  unfold kill
  split
  · exact Relabel.refl s
  · rename_i x _
    dsimp only
    refine relabel_modifyProc s x _ ?_ ?_ ?_
    · rfl
    · rfl
    by_cases asleep : (s.proc x).state = .sleeping
    · exact .inr (.inl ⟨asleep, by simp [asleep]⟩)
    · exact .inl (by simp [asleep])

/-- `wait` frees a zombie child, which is not the running caller. -/
theorem relabel_wait {x : Slot} (onCpu : s.cpu.proc = some x) (running : (s.proc x).state = .running) :
    Relabel s (wait s x).1 := by
  unfold wait
  split
  · rename_i child found
    have zombie : (s.proc child).state = .zombie := by
      have hit := List.find?_some found
      simp only [decide_eq_true_eq] at hit
      exact hit.2
    dsimp only
    refine relabel_modifyProc s child _ ?_ ?_ (.inr (.inr (.inr ⟨zombie, ?_, ?_⟩)))
    · rfl
    · rfl
    · rfl
    rw [onCpu]
    intro same
    cases same
    rw [running] at zombie
    cases zombie
  · split
    · exact Relabel.refl s
    · exact relabel_sleep running _

theorem relabel_foldl {α : Type} {f : Kernel Cpu → α → Kernel Cpu}
    (each : ∀ s a, Relabel s (f s a)) (l : List α) (s : Kernel Cpu) : Relabel s (l.foldl f s) := by
  induction l generalizing s with
  | nil => exact Relabel.refl s
  | cons a rest ih => exact (each s a).trans (ih (f s a))

/-- `exit`'s loop over the children only changes parents and wakes `initproc`. -/
theorem relabel_reparent (s : Kernel Cpu) (x : Slot) : Relabel s (reparent s x) := by
  refine relabel_foldl (fun s y => ?_) _ s
  dsimp only
  split
  · have moved := relabel_modifyProc s y (fun pr => { pr with parent := s.initproc }) rfl rfl
      (.inl rfl)
    split
    · exact moved.trans (relabel_wakeup1 _ _)
    · exact moved
  · exact Relabel.refl s

/-! ### `exit` -/

section Exit

variable {x : Slot} {r : QueueRef}

/-- The kernel after `exit` has taken `x` out of `r` and made it a zombie. -/
def afterExit (s : Kernel Cpu) (x : Slot) (r : QueueRef) : Kernel Cpu :=
  (s.setLevel r ((s.level r).removeAt ((s.level r).entries.idxOf x))).modifyProc x fun pr =>
    { pr with state := .zombie }

theorem afterExit_proc (y : Slot) :
    (afterExit s x r).proc y = if y = x then { s.proc x with state := .zombie } else s.proc y := by
  simp [afterExit]

theorem afterExit_ticks (r' : QueueRef) : ((afterExit s x r).level r').ticksLeft = (s.level r').ticksLeft := by
  by_cases same : r' = r
  · subst r'
    simp [afterExit]
  · simp [afterExit, same]

theorem afterExit_proc_ticks (y : Slot) :
    ((afterExit s x r).proc y).ticksLeft = (s.proc y).ticksLeft := by
  rw [afterExit_proc]
  split
  · rename_i same
    rw [same]
  · rfl

theorem mem_afterExit_entries (inside : x ∈ (s.level r).entries) {y : Slot} {r' : QueueRef}
    (member : y ∈ ((afterExit s x r).level r').entries) : y ∈ (s.level r').entries := by
  by_cases same : r' = r
  · subst r'
    simp only [afterExit, Kernel.modifyProc_level, Kernel.setLevel_level, ↓reduceIte,
      LevelQueue.removeAt_idxOf_entries _ inside] at member
    exact List.mem_of_mem_erase member
  · simpa [afterExit, same] using member

/-- Taking the running process out of its queue and making it a zombie keeps the
invariant. -/
theorem Inv.exited (inv : Inv cfg s) (onCpu : s.cpu.proc = some x) (member : r ∈ allQueues cfg)
    (inside : x ∈ (s.level r).entries) (positive : 0 < (s.proc x).ticksLeft) :
    Inv cfg (afterExit s x r) := by
  have removed : ((afterExit s x r).queued cfg).Perm ((s.queued cfg).erase x) :=
    queued_remove_perm member inside
  have others : ∀ y, y ≠ x → (afterExit s x r).proc y = s.proc y := fun y other => by
    rw [afterExit_proc, if_neg other]
  have zombie : ((afterExit s x r).proc x).state = .zombie := by simp [afterExit_proc]
  -- `x` was queued once, in `r`, and is in no queue after
  have gone : ∀ r' ∈ allQueues cfg, ∀ y ∈ ((afterExit s x r).level r').entries, y ≠ x :=
    fun r' member' y entry same => by
      subst y
      exact inv.nodup.not_mem_erase (removed.mem_iff.mp (mem_queued.mpr ⟨r', member', entry⟩))
  refine
    { sets := inv.sets
      nodup := removed.nodup_iff.mpr (inv.nodup.erase x)
      member := fun y => ?_
      defaultRange := fun y => ?_
      activePlace := fun j bound y entry => ?_
      expiredPlace := fun j bound y entry => ?_
      expiredQuantum := fun j bound => by rw [afterExit_ticks]; exact inv.expiredQuantum j bound
      activeQuantum := fun j bound => by rw [afterExit_ticks]; exact inv.activeQuantum j bound
      depleted := fun j bound low => ?_
      procQuantum := fun y => ?_
      queuedQuantum := fun y entry other => ?_
      zombieQuantum := fun y isZombie => ?_
      embryoQuantum := fun y embryo => ?_
      idle := fun none => inv.idle none
      cpuQueue := fun y onCpu' => ?_
      running := fun y running => ?_
      runningQuantum := fun y running => ?_
      boot := fun none => (inv.started_of_onCpu onCpu none).elim }
  · rw [removed.mem_iff, inv.nodup.mem_erase_iff]
    by_cases same : y = x
    · subst y
      simp [zombie, ProcState.queued]
    · rw [others y same, inv.member]
      simp [same]
  · by_cases same : y = x
    · subst y
      simpa [afterExit_proc] using inv.defaultRange x
    · rw [others y same]
      exact inv.defaultRange y
  · rw [others y (gone _ (mem_allQueues.mpr bound) y entry)]
    exact inv.activePlace j bound y (mem_afterExit_entries inside entry)
  · rw [others y (gone _ (mem_allQueues.mpr bound) y entry)]
    exact inv.expiredPlace j bound y (mem_afterExit_entries inside entry)
  · rw [afterExit_ticks] at low
    rcases inv.depleted j bound low with empty | onQueue
    · refine .inl (List.eq_nil_iff_forall_not_mem.mpr fun y entry => ?_)
      have old : y ∈ (s.level (s.active, j)).entries := mem_afterExit_entries inside entry
      rw [empty] at old
      cases old
    · exact .inr onQueue
  · by_cases same : y = x
    · subst y
      simpa [afterExit_proc] using inv.procQuantum x
    · rw [others y same]
      exact inv.procQuantum y
  · have queued := (inv.nodup.mem_erase_iff.mp (removed.mem_iff.mp entry))
    rw [others y queued.1]
    exact inv.queuedQuantum y queued.2 other
  · by_cases same : y = x
    · subst y
      simpa [afterExit_proc] using positive
    · rw [others y same] at isZombie ⊢
      exact inv.zombieQuantum y isZombie
  · have other := Kernel.ne_of_state_ne zombie embryo (by decide)
    rw [others y other] at embryo ⊢
    exact inv.embryoQuantum y embryo
  · obtain rfl : y = x := Option.some.inj (onCpu'.symm.trans onCpu)
    obtain ⟨k, bound, queue, -, -, -⟩ := inv.cpuQueue y onCpu
    exact ⟨k, bound, queue, by simp [zombie, ProcState.queued], by simp [zombie], by simp [zombie]⟩
  · rw [others y (Kernel.ne_of_state_ne zombie running (by decide))] at running
    exact inv.running y running
  · have other := Kernel.ne_of_state_ne zombie running (by decide)
    rw [others y other] at running ⊢
    obtain ⟨ticks, levels⟩ := inv.runningQuantum y running
    exact ⟨ticks, fun q queue => by rw [afterExit_ticks]; exact levels q queue⟩

/-- `exit` of the running process panics for `initproc` and otherwise keeps the invariant. -/
theorem inv_exit (inv : Inv cfg s) (onCpu : s.cpu.proc = some x)
    (running : (s.proc x).state = .running) :
    exit cfg s x = .error (.panic "init exiting") ∨
      ∃ s', exit cfg s x = .ok s' ∧ Inv cfg s' ∧ Ticked s s' := by
  unfold exit
  by_cases init : s.initproc = some x
  · exact .inl (if_pos init)
  right
  rw [if_neg init]
  have rel : Relabel s (reparent (wakeup1 s ((s.proc x).parent.map .proc)) x) :=
    (relabel_wakeup1 _ _).trans (relabel_reparent _ x)
  have inv₂ := inv.relabel rel
  -- the relabelling leaves `x` queued, so `remove_proc_from_levels` finds it
  have queued : x ∈ (reparent (wakeup1 s ((s.proc x).parent.map .proc)) x).queued cfg :=
    (inv₂.member x).mpr (by rw [(rel.states x).queued, running]; rfl)
  obtain ⟨r, member, inside, ran⟩ := removeProcFrom_of_mem (mem_queued.mp queued)
  simp only [removeProcFromLevels, ran, ok_bind, pure_eq_ok]
  refine ⟨_, rfl, Inv.exited inv₂ (by rw [rel.cpu]; exact onCpu) member inside ?_,
    Ticked.relabel_left rel (Ticked.of_le (fun r' => (afterExit_ticks r').ge)
      fun y => (afterExit_proc_ticks y).ge)⟩
  rw [rel.ticks]
  exact (inv.runningQuantum x running).1

end Exit

/-! ### Creating a process -/

section Spawn

variable {c : Slot} {s₂ : Kernel Cpu}

/-- A slot the scheduler does not see: free, or a child that `priofork` is creating. -/
def Unseen (s : Kernel Cpu) (c : Slot) : Prop :=
  (s.proc c).state = .unused ∨ (s.proc c).state = .embryo

/-- A slot the scheduler does not see holds no process in one of the states it does. -/
theorem Unseen.ne {y : Slot} {st : ProcState} (fresh : Unseen s c) (at' : (s.proc y).state = st)
    (seen : st ≠ .unused ∧ st ≠ .embryo) : y ≠ c := fun same => by
  subst y
  rcases fresh with state | state <;> rw [state] at at' <;> subst st
  · exact seen.1 rfl
  · exact seen.2 rfl

theorem not_mem_queued_of_unseen (inv : Inv cfg s) (fresh : Unseen s c) : c ∉ s.queued cfg :=
  fun queued => by
    have := (inv.member c).mp queued
    rcases fresh with state | state <;> simp [state, ProcState.queued] at this

theorem ne_of_onCpu (inv : Inv cfg s) (fresh : Unseen s c) {y : Slot}
    (onCpu : s.cpu.proc = some y) : y ≠ c := fun same => by
  subst y
  obtain ⟨-, -, -, -, notUnused, notEmbryo⟩ := inv.cpuQueue c onCpu
  rcases fresh with state | state
  · exact notUnused state
  · exact notEmbryo state

/-- A slot the scheduler does not see, given new fields, keeps the invariant while it
stays unseen, with its quanta and priority in range: it becomes free, or a child with a
full quantum once `initproc` exists. -/
theorem Inv.reset (inv : Inv cfg s) (fresh : Unseen s c) (f : Proc → Proc)
    (stays : (f (s.proc c)).state = .unused ∨
      ((f (s.proc c)).state = .embryo ∧ s.initproc ≠ none ∧ (f (s.proc c)).ticksLeft = cfg.procQuantum))
    (ticks : 0 ≤ (f (s.proc c)).ticksLeft ∧ (f (s.proc c)).ticksLeft ≤ cfg.procQuantum)
    (range : 0 ≤ (f (s.proc c)).defaultLevel ∧ (f (s.proc c)).defaultLevel < cfg.levels) :
    Inv cfg (s.modifyProc c f) := by
  -- `c` is in no queue and on no CPU: every field about a queued or running process
  -- reads a slot other than `c`
  have others : ∀ y, y ≠ c → (s.modifyProc c f).proc y = s.proc y := fun y other => by
    simp [other]
  have outside : ∀ y ∈ s.queued cfg, y ≠ c := fun y queued same =>
    not_mem_queued_of_unseen inv fresh (same ▸ queued)
  have unseen : Unseen (s.modifyProc c f) c := by
    rcases stays with state | ⟨state, -⟩
    · exact .inl (by simpa using state)
    · exact .inr (by simpa using state)
  refine
    { sets := inv.sets
      nodup := inv.nodup
      member := fun y => ?_
      defaultRange := fun y => ?_
      activePlace := fun j bound y entry => ?_
      expiredPlace := fun j bound y entry => ?_
      expiredQuantum := inv.expiredQuantum
      activeQuantum := inv.activeQuantum
      depleted := inv.depleted
      procQuantum := fun y => ?_
      queuedQuantum := fun y queued other => ?_
      zombieQuantum := fun y zombie => ?_
      embryoQuantum := fun y embryo => ?_
      idle := inv.idle
      cpuQueue := fun y onCpu => ?_
      running := fun y running => ?_
      runningQuantum := fun y running => ?_
      boot := fun none => ⟨(inv.boot none).1, fun y => ?_⟩ }
  · by_cases same : y = c
    · subst y
      have absent := not_mem_queued_of_unseen inv fresh
      rcases stays with state | ⟨state, -⟩ <;> simp [state, ProcState.queued, absent]
    · rw [others y same]
      exact inv.member y
  · by_cases same : y = c
    · subst y
      simpa using range
    · rw [others y same]
      exact inv.defaultRange y
  · have fresh' := outside y (mem_queued.mpr ⟨_, mem_allQueues.mpr bound, entry⟩)
    rw [others y fresh']
    exact inv.activePlace j bound y entry
  · have fresh' := outside y (mem_queued.mpr ⟨_, mem_allQueues.mpr bound, entry⟩)
    rw [others y fresh']
    exact inv.expiredPlace j bound y entry
  · by_cases same : y = c
    · subst y
      simpa using ticks
    · rw [others y same]
      exact inv.procQuantum y
  · rw [others y (outside y queued)]
    exact inv.queuedQuantum y queued other
  · have other := unseen.ne zombie (by decide)
    rw [others y other] at zombie ⊢
    exact inv.zombieQuantum y zombie
  · by_cases same : y = c
    · subst y
      rcases stays with state | ⟨-, -, full⟩
      · simp [state] at embryo
      · simpa using full
    · rw [others y same] at embryo ⊢
      exact inv.embryoQuantum y embryo
  · rw [others y (ne_of_onCpu inv fresh onCpu)]
    exact inv.cpuQueue y onCpu
  · rw [others y (unseen.ne running (by decide))] at running
    exact inv.running y running
  · have other := unseen.ne running (by decide)
    rw [others y other] at running ⊢
    exact inv.runningQuantum y running
  · by_cases same : y = c
    · subst y
      rcases stays with state | ⟨-, started, -⟩
      · simpa using state
      · exact absurd none started
    · rw [others y same]
      exact (inv.boot none).2 y

/-- `s₂` is `s` with the unseen slot `c` made a runnable process that is not yet queued. -/
structure Spawned (cfg : Config) (s s₂ : Kernel Cpu) (c : Slot) : Prop where
  fresh : Unseen s c
  level : s₂.level = s.level
  active : s₂.active = s.active
  expired : s₂.expired = s.expired
  cpu : s₂.cpu = s.cpu
  started : s₂.initproc ≠ none
  others : ∀ y, y ≠ c → s₂.proc y = s.proc y
  runnable : (s₂.proc c).state = .runnable
  ticks : (s₂.proc c).ticksLeft = cfg.procQuantum
  range : 0 ≤ (s₂.proc c).defaultLevel ∧ (s₂.proc c).defaultLevel < cfg.levels

theorem Spawned.queued (sp : Spawned cfg s s₂ c) : s₂.queued cfg = s.queued cfg := by
  simp [Kernel.queued, sp.level]

/-- Enqueueing the new process at `r` appends it there and leaves every other queue. -/
theorem Spawned.push_entries (sp : Spawned cfg s s₂ c) (r x : QueueRef) :
    ((s₂.setLevel r ((s₂.level r).push c)).level x).entries =
      (s.level x).entries ++ if x = r then [c] else [] := by
  by_cases same : x = r
  · subst x
    simp [sp.level]
  · simp [same, sp.level]

theorem Spawned.push_ticks (sp : Spawned cfg s s₂ c) (r x : QueueRef) :
    ((s₂.setLevel r ((s₂.level r).push c)).level x).ticksLeft = (s.level x).ticksLeft := by
  rw [(sameQuanta_setLevel s₂ r (LevelQueue.push_ticksLeft _ c)).2.2 x, sp.level]

/-- A new process starts with a full quantum; nothing else changes a quantum. -/
theorem Spawned.ticked (sp : Spawned cfg s s₂ c) (inv : Inv cfg s) {r : QueueRef} :
    Ticked s (s₂.setLevel r ((s₂.level r).push c)) := by
  refine Ticked.of_le (fun x => (sp.push_ticks r x).ge) (fun y => ?_)
  by_cases same : y = c
  · subst y
    rw [Kernel.setLevel_proc, sp.ticks]
    exact (inv.procQuantum c).2
  · rw [Kernel.setLevel_proc, sp.others y same]

/-- Enqueueing the new process where the invariant allows keeps the invariant. -/
theorem Inv.spawned (inv : Inv cfg s) (sp : Spawned cfg s s₂ c) {r : QueueRef}
    (member : r ∈ allQueues cfg) (placed : Placed cfg s₂ c r) :
    Inv cfg (s₂.setLevel r ((s₂.level r).push c)) := by
  have absent := not_mem_queued_of_unseen inv sp.fresh
  have outside : ∀ y ∈ s.queued cfg, y ≠ c := fun y queued same => absent (same ▸ queued)
  have queued : ∀ y, y ∈ (s₂.setLevel r ((s₂.level r).push c)).queued cfg ↔
      y ∈ s.queued cfg ∨ y = c := fun y => by
    rw [mem_queued_push member, sp.queued]
  have nodup := queued_push_nodup member (sp.queued ▸ inv.nodup) (sp.queued ▸ absent)
  have entries := sp.push_entries r
  have ticks := sp.push_ticks r
  have procs : ∀ y, y ≠ c → (s₂.setLevel r ((s₂.level r).push c)).proc y = s.proc y :=
    fun y other => sp.others y other
  have child : (s₂.setLevel r ((s₂.level r).push c)).proc c = s₂.proc c := rfl
  have runnable : ((s₂.setLevel r ((s₂.level r).push c)).proc c).state = .runnable := sp.runnable
  have active : (s₂.setLevel r ((s₂.level r).push c)).active = s.active := sp.active
  have expired : (s₂.setLevel r ((s₂.level r).push c)).expired = s.expired := sp.expired
  have cpu : (s₂.setLevel r ((s₂.level r).push c)).cpu = s.cpu := sp.cpu
  have started : (s₂.setLevel r ((s₂.level r).push c)).initproc ≠ none := sp.started
  have target : (∃ j < cfg.levels, r = (s.active, j) ∧ (s₂.proc c).defaultLevel ≤ j ∧
      0 < (s.level r).ticksLeft) ∨ r = (s.expired, (s₂.proc c).defaultLevel.toNat) := by
    rw [← sp.active, ← sp.expired, ← sp.level]
    exact placed
  generalize s₂.setLevel r ((s₂.level r).push c) = s' at *
  have entry_cases : ∀ x, ∀ y ∈ (s'.level x).entries, x ∈ allQueues cfg →
      (y ∈ (s.level x).entries ∧ y ≠ c) ∨ (y = c ∧ x = r) := by
    intro x y entry inside
    rw [entries] at entry
    rcases List.mem_append.mp entry with old | last
    · exact .inl ⟨old, outside y (mem_queued.mpr ⟨x, inside, old⟩)⟩
    · split at last
      · exact .inr ⟨List.mem_singleton.mp last, by assumption⟩
      · cases last
  refine
    { sets := by rw [active, expired]; exact inv.sets
      nodup := nodup
      member := fun y => ?_
      defaultRange := fun y => ?_
      activePlace := fun j bound y entry => ?_
      expiredPlace := fun j bound y entry => ?_
      expiredQuantum := fun j bound => by rw [expired, ticks]; exact inv.expiredQuantum j bound
      activeQuantum := fun j bound => by rw [active, ticks]; exact inv.activeQuantum j bound
      depleted := fun j bound low => ?_
      procQuantum := fun y => ?_
      queuedQuantum := fun y entry other => ?_
      zombieQuantum := fun y zombie => ?_
      embryoQuantum := fun y embryo => ?_
      idle := fun noProc => by rw [cpu] at noProc ⊢; exact inv.idle noProc
      cpuQueue := fun y onCpu => ?_
      running := fun y running => ?_
      runningQuantum := fun y running => ?_
      boot := fun noInit => absurd noInit started }
  · rw [queued]
    by_cases same : y = c
    · subst y
      simp [child, sp.runnable, ProcState.queued]
    · rw [procs y same, inv.member]
      simp [same]
  · by_cases same : y = c
    · subst y
      rw [child]
      exact sp.range
    · rw [procs y same]
      exact inv.defaultRange y
  · rw [active] at entry
    rcases entry_cases _ y entry (mem_allQueues.mpr bound) with ⟨old, other⟩ | ⟨rfl, rfl⟩
    · rw [procs y other]
      exact inv.activePlace j bound y old
    · rw [child]
      rcases target with ⟨j', -, same, low, -⟩ | same
      · rw [Prod.mk.injEq] at same
        rw [same.2]
        exact low
      · exact absurd (congrArg Prod.fst same) inv.sets
  · rw [expired] at entry
    rcases entry_cases _ y entry (mem_allQueues.mpr bound) with ⟨old, other⟩ | ⟨rfl, rfl⟩
    · rw [procs y other]
      exact inv.expiredPlace j bound y old
    · rw [child]
      rcases target with ⟨j', -, same, -⟩ | same
      · exact absurd (congrArg Prod.fst same).symm inv.sets
      · rw [Prod.mk.injEq] at same
        have range := sp.range
        omega
  · rw [active, ticks] at low
    rw [active, cpu]
    rcases inv.depleted j bound low with empty | onQueue
    · refine .inl ?_
      rw [entries, empty, List.nil_append]
      split
      · -- `c` was placed in a level with quantum left
        rename_i same
        rcases target with ⟨j', -, placedAt, -, quantum⟩ | placedAt
        · rw [← same] at quantum
          omega
        · exact absurd (congrArg Prod.fst (same.trans placedAt)) inv.sets
      · rfl
    · exact .inr onQueue
  · by_cases same : y = c
    · subst y
      rw [child, sp.ticks]
      have := cfg.procQuantum_int_pos
      omega
    · rw [procs y same]
      exact inv.procQuantum y
  · rw [queued] at entry
    by_cases same : y = c
    · subst y
      rw [child, sp.ticks]
      exact cfg.procQuantum_int_pos
    · rw [procs y same]
      exact inv.queuedQuantum y (entry.resolve_right same) (cpu ▸ other)
  · have other := Kernel.ne_of_state_ne runnable zombie (by decide)
    rw [procs y other] at zombie ⊢
    exact inv.zombieQuantum y zombie
  · have other := Kernel.ne_of_state_ne runnable embryo (by decide)
    rw [procs y other] at embryo ⊢
    exact inv.embryoQuantum y embryo
  · rw [cpu] at onCpu
    have other := ne_of_onCpu inv sp.fresh onCpu
    obtain ⟨k, bound, queue, inside, notUnused, notEmbryo⟩ := inv.cpuQueue y onCpu
    rw [procs y other]
    refine ⟨k, bound, by rw [cpu, active]; exact queue, fun alive => ?_, notUnused, notEmbryo⟩
    rw [active, entries]
    exact List.mem_append_left _ (inside alive)
  · rw [procs y (Kernel.ne_of_state_ne runnable running (by decide))] at running
    rw [cpu]
    exact inv.running y running
  · have other := Kernel.ne_of_state_ne runnable running (by decide)
    rw [procs y other] at running ⊢
    obtain ⟨positive, levels⟩ := inv.runningQuantum y running
    refine ⟨positive, fun q queue => ?_⟩
    rw [ticks]
    exact levels q (cpu ▸ queue)

/-- The new process is enqueued where the search points, and the invariant holds after. -/
theorem Inv.spawn (inv : Inv cfg s) (sp : Spawned cfg s s₂ c) :
    ∃ r s', findAvailableQueue cfg s₂ (s₂.proc c).defaultLevel (s₂.proc c).defaultLevel = .ok r ∧
      s₂.enqueue c r = .ok s' ∧ Inv cfg s' ∧ Ticked s s' := by
  have absent : c ∉ s₂.queued cfg := sp.queued ▸ not_mem_queued_of_unseen inv sp.fresh
  have room := roomy_of_not_mem (sp.queued ▸ inv.nodup) absent
  obtain ⟨nonneg, bound⟩ := sp.range
  have quantum : 0 < (s₂.level (s₂.expired, (s₂.proc c).defaultLevel.toNat)).ticksLeft := by
    rw [sp.level, sp.expired, inv.expiredQuantum _ (by omega)]
    exact cfg.levelQuantum_int_pos
  have placed : Placed cfg s₂ c (firstAvailable cfg s₂ (s₂.proc c).defaultLevel.toNat
      (s₂.proc c).defaultLevel.toNat) := firstAvailable_placed (by omega)
  have member : firstAvailable cfg s₂ (s₂.proc c).defaultLevel.toNat
      (s₂.proc c).defaultLevel.toNat ∈ allQueues cfg := by
    rcases placed with ⟨j, high, same, -⟩ | same <;> rw [same] <;> exact mem_allQueues.mpr (by simp only; omega)
  exact ⟨_, _, findAvailableQueue_eq_firstAvailable room nonneg nonneg (by omega) quantum,
    enqueue_ok (room _ member) c, Inv.spawned inv sp member placed, sp.ticked inv⟩

end Spawn

/-! ### The calls that create a process -/

/-- The slot `allocproc` takes from `s` becomes a child with a full quantum. -/
theorem Inv.taken (inv : Inv cfg s) {c : Slot} (fresh : (s.proc c).state = .unused)
    (started : s.initproc ≠ none) : Inv cfg (taken cfg s c) ∧ Ticked s (taken cfg s c) := by
  refine ⟨?_, Ticked.of_le (fun _ => le_refl _) fun y => ?_⟩
  · have start := cfg.startingLevel_lt
    refine Inv.reset (s := { s with nextpid := wrapInt (s.nextpid + 1) })
      (inv.relabel (relabel_nextpid s _)) (.inl fresh) _ (.inr ⟨rfl, started, rfl⟩) ?_ ?_
    · exact ⟨by simp, le_refl _⟩
    · simp only
      omega
  · by_cases same : y = c
    · subst y
      simpa [taken_proc] using (inv.procQuantum c).2
    · simp [taken_proc, same]

/-- `userinit` from the boot state creates `initproc` and keeps the invariant. -/
theorem inv_userinit (inv : Inv cfg s) (noInit : s.initproc = none) :
    ∃ s', userinit cfg s = .ok s' ∧ Inv cfg s' ∧ Ticked s s' := by
  obtain ⟨-, unused⟩ := inv.boot noInit
  obtain ⟨c, found⟩ := exists_find_unused ⟨0, unused 0⟩
  have fresh := unused c
  have sp : Spawned cfg s (({ taken cfg s c with initproc := some c } : Kernel Cpu).modifyProc c
      fun pr => { pr with state := .runnable }) c :=
    ⟨.inl fresh, rfl, rfl, rfl, rfl, by simp, fun y other => by simp [taken_proc, other], by simp,
      by simp [taken_proc], by simpa [taken_proc] using cfg.startingLevel_lt⟩
  obtain ⟨r, s', find, enqueued, inv', ticked⟩ := Inv.spawn inv sp
  refine ⟨s', ?_, inv', ticked⟩
  simp only [userinit, allocproc, allocprocLocked_of_find found, ↓reduceIte]
  exact (congrArg (· >>= _) find).trans enqueued

/-- The first section of a `priofork` by the running `x` keeps the invariant: it takes a
slot, or leaves everything as it was. -/
theorem inv_prioforkBegin (inv : Inv cfg s) {x : Slot} (onCpu : s.cpu.proc = some x) (level : Int) :
    Inv cfg (prioforkBegin cfg s x level) ∧ Ticked s (prioforkBegin cfg s x level) := by
  have started := inv.started_of_onCpu onCpu
  unfold prioforkBegin
  split
  · exact ⟨inv, (Relabel.refl s).ticked⟩
  split
  · exact ⟨inv, (Relabel.refl s).ticked⟩
  split
  · rename_i s₁ alloc
    rw [(allocprocLocked_none alloc).1]
    exact ⟨inv, (Relabel.refl s).ticked⟩
  · rename_i s₁ c alloc
    obtain ⟨fresh, rfl⟩ := allocprocLocked_some alloc
    obtain ⟨inv', ticked⟩ := Inv.taken inv fresh started
    exact ⟨inv'.relabel (relabel_setFork _ x _), ticked⟩

/-- The middle of a `priofork`: the child gets its parent, or its slot is given back. -/
theorem inv_prioforkMiddle (inv : Inv cfg s) (forks : ForkSlots cfg s) {x : Slot} {f : Forking}
    (held : s.forks x = some f) (kallocOk copyuvmOk : Bool) :
    Inv cfg (prioforkMiddle s x f kallocOk copyuvmOk) ∧
      Ticked s (prioforkMiddle s x f kallocOk copyuvmOk) := by
  have embryo := forks.embryo x f held
  unfold prioforkMiddle prioforkCopy
  by_cases ok : (kallocOk && copyuvmOk) = true
  · rw [if_pos ok]
    have rel := (relabel_modifyProc s f.np (fun pr => { pr with parent := some x }) rfl rfl
      (.inl rfl)).trans (relabel_setFork _ x (some { f with copied := true }))
    exact ⟨inv.relabel rel, rel.ticked⟩
  · rw [if_neg ok]
    have reset := Inv.reset inv (.inr embryo) (fun pr => { pr with state := .unused }) (.inl rfl)
      (inv.procQuantum f.np) (inv.defaultRange f.np)
    refine ⟨reset.relabel (relabel_setFork _ x none), Ticked.of_le (fun _ => le_refl _) fun y => ?_⟩
    by_cases same : y = f.np
    · subst y
      simp
    · simp [same]

/-- The second section of a `priofork`: the child is enqueued at its level. -/
theorem inv_prioforkEnd (inv : Inv cfg s) (forks : ForkSlots cfg s) {x : Slot} {f : Forking}
    (onCpu : s.cpu.proc = some x) (held : s.forks x = some f) :
    ∃ s', prioforkEnd cfg s x f = .ok s' ∧ Inv cfg s' ∧ Ticked s s' := by
  have embryo := forks.embryo x f held
  have range := forks.range x f held
  have sp : Spawned cfg s (s.modifyProc f.np fun pr =>
      { pr with defaultLevel := f.defaultLevel, state := .runnable }) f.np :=
    ⟨.inr embryo, rfl, rfl, rfl, rfl, inv.started_of_onCpu onCpu, fun y other => by simp [other],
      by simp, by simpa using inv.embryoQuantum f.np embryo, by simpa using range⟩
  obtain ⟨r, s', find, enqueued, inv', ticked⟩ := Inv.spawn inv sp
  refine ⟨s'.setFork x none, ?_, inv'.relabel (relabel_setFork _ x none),
    ⟨ticked.1, fun y => ticked.2 y⟩⟩
  simp only [prioforkEnd, prioforkEnqueue]
  rw [show (s.modifyProc f.np fun pr => { pr with defaultLevel := f.defaultLevel, state := .runnable }).proc f.np
    = { s.proc f.np with defaultLevel := f.defaultLevel, state := .runnable } by simp] at find
  simp only [Kernel.modifyProc_proc, ↓reduceIte] at find enqueued ⊢
  rw [find, ok_bind, enqueued]
  rfl

end Rsdl.ProcInv
