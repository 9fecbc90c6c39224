import MyGoroutine.Workers.Loop

namespace MyGoroutine

/-!
# Worker accounting

`all_workers` counts the workers that have registered and have not left the loop.
`idle_workers` counts those in `condvar.wait`, and besides them every worker that has left
through the idle path: it counts itself in before it decides to leave, and nobody counts it out.

* `idleExit?` — the step is such a leaving;
* `LoopStep.waits`, `LoopStep.registered` — what a step does to the two counters;
* `State.Counted`, `reach_counted` — what holds in every state;
* `reach_idle_before_exit` — `idle_workers` is exact until the first worker leaves;
* `worker_accounting` — the counters are exact as long as nobody leaves through the idle path;
* `worker_accounting_drift` — one worker that leaves, and is still counted as idle.
-/

variable {σ V : Type}

/-- The step is that of a worker which leaves the loop through the idle path: `should_term` holds
    of its samples, once it has counted itself as idle. -/
def idleExit? (a : Act) (s : State σ V) : Bool :=
  match a with
  | .worker w _ =>
    match s.workers[w]? with
    | some (.goIdle net timers) =>
      { s.sh.queue with idleWorkers := s.sh.queue.idleWorkers + 1 }.shouldTerminate net timers
    | _ => false
  | _ => false

/-- No worker leaves through the idle path in this step. -/
def KeepsIdle (a : Act) (s : State σ V) : Prop := idleExit? a s = false

/-! ### Steps and the counters

A worker is counted in `idle_workers` from the idle path to its return from `condvar.wait`. The one
exception is the exit through the idle path, which counts a worker that never waits.
-/

section Steps

variable {sh : Shared σ V} {pc : Pc σ V} {e : Effect σ V}

/-- The counter of the idle workers follows the workers in `condvar.wait`, or a worker has left
    through the idle path. -/
theorem LoopStep.waits (h : LoopStep sh pc e) (hle : pc.waits ≤ sh.queue.idleWorkers) :
    e.sh.queue.idleWorkers + pc.waits = sh.queue.idleWorkers + e.pc.waits ∨
    (∃ net timers, pc = .goIdle net timers ∧
      { sh.queue with idleWorkers := sh.queue.idleWorkers + 1 }.shouldTerminate net timers
        = true) ∧
      e.sh.queue.idleWorkers = sh.queue.idleWorkers + 1 ∧ pc.waits = 0 ∧ e.pc.waits = 0 := by
  cases h with
  | register hpc hpc' _ _ hi => left; rw [hi, hpc, hpc']; rfl
  | stay hpc _ _ hi | push hpc _ _ _ hi | pushBack hpc _ _ _ _ hi =>
    left
    rw [hi, hpc.waits.1, hpc.waits.2]
  | pop _ _ hpc' _ _ _ hi =>
    left
    rw [hi, hpc']
    show _ = sh.queue.idleWorkers + 0
    omega
  | empty _ _ hw _ _ hi => left; omega
  | sleep hpc hpc' _ _ hi => left; rw [hi, hpc, hpc']; rfl
  | @idleExit net timers hpc hpc' _ hs hq hcount _ hi =>
    refine .inr ⟨⟨net, timers, hpc, ?_⟩, hi, by rw [hpc]; rfl, by rw [hpc']; rfl⟩
    obtain ⟨rfl, rfl⟩ := hs
    simp only [GlobalQueue.shouldTerminate, Bool.and_eq_true, decide_eq_true_eq]
    exact ⟨⟨⟨hq, rfl⟩, rfl⟩, hcount⟩
  | termExit hpc hpc' _ _ _ _ hi => left; rw [hi, hpc, hpc']; rfl

/-- The counter of all workers follows the registered workers. -/
theorem LoopStep.registered (h : LoopStep sh pc e) (hle : pc.registered ≤ sh.queue.allWorkers) :
    e.sh.queue.allWorkers + pc.registered = sh.queue.allWorkers + e.pc.registered := by
  cases h with
  | register hpc hpc' _ _ _ ha => rw [ha, hpc, hpc']; rfl
  | stay hpc _ _ _ ha | push hpc _ _ _ _ ha | pushBack hpc _ _ _ _ _ ha =>
    rw [ha, hpc.registered.1, hpc.registered.2]
  | pop _ hreg hpc' _ _ _ _ ha => rw [ha, hreg, hpc']; rfl
  | empty _ hreg _ _ _ _ ha => rw [ha, hreg.1, hreg.2]
  | sleep hpc hpc' _ _ _ ha => rw [ha, hpc, hpc']; rfl
  | idleExit hpc hpc' _ _ _ _ _ _ ha | termExit hpc hpc' _ _ _ _ _ ha =>
    rw [hpc] at hle ⊢
    rw [ha, hpc']
    have : (1 : Nat) ≤ sh.queue.allWorkers := hle
    show sh.queue.allWorkers - 1 + 1 = sh.queue.allWorkers + 0
    omega

/-- The worker has left the loop. -/
def Pc.left : Pc σ V → Nat
  | .exited => 1
  | _ => 0

/-- Blocking and waking a worker does not make it leave. -/
theorem silent_left : Silent (Pc.left : Pc σ V → Nat) := ⟨rfl, fun _ => rfl⟩

/-- A worker has left when its thread has come to its end. -/
theorem left_pos_iff {pc : Pc σ V} : 0 < pc.left ↔ pc = .exited := by
  cases pc <;> simp [Pc.left]

/-- Only a worker that has not left makes steps. -/
theorem LoopStep.not_left (h : LoopStep sh pc e) : pc.left = 0 := by
  have hreg : pc.registered = 1 → pc.left = 0 := by
    intro h1
    cases pc <;> first | rfl | cases h1
  cases h with
  | register hpc | sleep hpc | idleExit hpc | termExit hpc => rw [hpc]; rfl
  | stay hpc | push hpc | pushBack hpc => exact hreg hpc.registered.1
  | pop _ h1 => exact hreg h1
  | empty _ h1 => exact hreg h1.1

/-- A worker that counts as idle counts as registered. -/
theorem waits_le_registered (pc : Pc σ V) : pc.waits ≤ pc.registered := by
  cases pc <;> simp [Pc.waits, Pc.registered]

/-- The worker is in its loop, and not in `condvar.wait`. -/
def Pc.awake (pc : Pc σ V) : Nat := pc.registered - pc.waits

/-- A worker with a task is awake. -/
theorem awake_of_task? {pc : Pc σ V} {t : Task σ V} (h : pc.task? = some t) : pc.awake = 1 := by
  cases pc <;> first | rfl | cases h

/-- A registered worker is counted idle, or is awake. -/
theorem total_registered (s : State σ V) :
    s.total Pc.registered = s.total Pc.waits + s.total Pc.awake := by
  rw [State.total, State.total, State.total, ← List.sum_map_add]
  refine congrArg List.sum (List.map_congr_left fun pc _ => ?_)
  have := waits_le_registered pc
  rw [Pc.awake]
  omega

/-- **A worker leaves its loop** from the idle path or after a wake-up, when the queues are empty
    and the counters are equal. -/
theorem LoopStep.exited (hs : LoopStep sh pc e) (he : e.pc = .exited) :
    sh.queue.noTasks = true ∧ e.notify = .all ∧
      e.sh.queue.allWorkers = sh.queue.allWorkers - 1 ∧
      ((∃ net timers, pc = .goIdle net timers) ∧
          sh.queue.idleWorkers + 1 = sh.queue.allWorkers ∧
          e.sh.queue.idleWorkers = sh.queue.idleWorkers + 1 ∨
        pc = .termTimers ∧ sh.queue.idleWorkers = sh.queue.allWorkers ∧
          e.sh.queue.idleWorkers = sh.queue.idleWorkers) := by
  cases hs with
  | register _ hpc' | pop _ _ hpc' | sleep _ hpc' => rw [hpc'] at he; cases he
  | stay hpc | push hpc | pushBack hpc =>
    have := hpc.registered.2
    rw [he] at this
    cases this
  | empty _ hreg =>
    have := hreg.2
    rw [he] at this
    cases this
  | idleExit hpc _ hn _ hq hcount _ hi ha =>
    exact ⟨hq, hn, ha, .inl ⟨⟨_, _, hpc⟩, hcount, hi⟩⟩
  | termExit hpc _ hn hq hcount _ hi ha => exact ⟨hq, hn, ha, .inr ⟨hpc, hcount, hi⟩⟩

/-- It holds no task, and is awake. -/
theorem LoopStep.exited_awake (hs : LoopStep sh pc e) (he : e.pc = .exited) :
    pc.task? = none ∧ pc.awake = 1 ∧ sh.queue.allWorkers ≤ sh.queue.idleWorkers + 1 := by
  obtain ⟨-, -, -, ⟨⟨net, timers, rfl⟩, hcount, -⟩ | ⟨rfl, hcount, -⟩⟩ := hs.exited he
  · exact ⟨rfl, rfl, hcount.ge⟩
  · exact ⟨rfl, rfl, by omega⟩

/-- A worker goes to sleep on the idle path. -/
theorem LoopStep.blocked (hs : LoopStep sh pc e) (he : e.pc = .blocked) :
    ∃ net timers, pc = .goIdle net timers := by
  cases hs with
  | register _ hpc' | pop _ _ hpc' | idleExit _ hpc' | termExit _ hpc' => rw [hpc'] at he; cases he
  | stay hpc | push hpc | pushBack hpc =>
    have := hpc.waits.2
    rw [he] at this
    cases this
  | empty _ _ hw =>
    rw [he] at hw
    cases hw
  | sleep hpc => exact ⟨_, _, hpc⟩

end Steps

/-! ### Runs

Without such exits the counters are exact. With them they are still lower bounds, and until the
first exit there is no difference.
-/

/-- What the counters are at least. -/
structure State.Counted (s : State σ V) : Prop where
  idle : s.total Pc.waits ≤ s.sh.queue.idleWorkers
  all : s.sh.queue.allWorkers = s.total Pc.registered

/-- The main thread and the environment leave the counters alone. -/
theorem OuterStep.counters {s s' : State σ V} (h : OuterStep s s') :
    s'.sh.queue.idleWorkers = s.sh.queue.idleWorkers ∧
      s'.sh.queue.allWorkers = s.sh.queue.allWorkers := by
  cases h with
  | go hsh | push hsh => rw [hsh]; exact ⟨rfl, rfl⟩
  | same hsh => exact ⟨hsh.idleWorkers, hsh.allWorkers⟩

section Runs

variable {P : Program σ V} {ch : Choice} {s s' : State σ V} {w : Nat} {pc : Pc σ V}
  {e : Effect σ V}

namespace State.Counted

variable (h : s.Counted) (hw : s.workers[w]? = some pc)
include h hw

/-- A worker that waits is counted in `idle_workers`. -/
theorem waits_le : pc.waits ≤ s.sh.queue.idleWorkers :=
  le_trans (Slots.le_sum_map Pc.waits hw) h.idle

/-- A worker that is registered is counted in `all_workers`. -/
theorem registered_le : pc.registered ≤ s.sh.queue.allWorkers := by
  rw [h.all]
  exact Slots.le_sum_map Pc.registered hw

/-- A step of a worker keeps the counters right. -/
theorem worker (hs : LoopStep s.sh pc e) (hmove : WorkerMove s s' w pc e) : s'.Counted := by
  have h1 := hmove.total _ silent_waits
  have h2 := hmove.total _ silent_registered
  have h3 := hs.registered (h.registered_le hw)
  have hidle := h.idle
  have hall := h.all
  rw [← hmove.sh] at h3
  refine ⟨?_, by omega⟩
  have h4 := hs.waits (h.waits_le hw)
  rw [← hmove.sh] at h4
  rcases h4 with h4 | ⟨-, hi, h5, h6⟩ <;> omega

end State.Counted

/-- **The counters in every state reached.** -/
theorem reach_counted {ok : Act → State σ V → Prop} (hr : (runtime P).Reach ok s) : s.Counted := by
  refine hr.invariant ?_ ?_
  · rintro s ⟨caps, groups, calls, rfl⟩
    exact ⟨le_refl _, rfl⟩
  · intro s s' a _ h _ hn
    rcases (next_inv hn).2.cases with ⟨w, ch, pc, e, -, hw, hs, hmove⟩ | ⟨ho, hmove⟩
    · exact h.worker hw hs.loop hmove
    · obtain ⟨hi, ha⟩ := ho.counters
      exact ⟨by rw [hi, hmove.total _ silent_waits]; exact h.idle,
        by rw [ha, hmove.total _ silent_registered]; exact h.all⟩

/-- Some worker has left, or none has. -/
theorem total_left_eq_zero : s.total Pc.left = 0 ↔ .exited ∉ s.workers := by
  constructor
  · intro h0 hmem
    obtain ⟨w, hw⟩ := List.mem_iff_getElem?.mp hmem
    have hle := Slots.le_sum_map Pc.left hw
    have hone : (1 : Nat) ≤ s.total Pc.left := hle
    omega
  · intro hno
    refine Slots.sum_map_eq_zero fun pc hpc => ?_
    by_contra hne
    exact hno (left_pos_iff.mp (Nat.pos_of_ne_zero hne) ▸ hpc)

/-- A worker has left after a step if one had left before, or the worker of the step leaves. -/
theorem exited_worker (hs : LoopStep s.sh pc e) (hmove : WorkerMove s s' w pc e) :
    .exited ∉ s'.workers ↔ .exited ∉ s.workers ∧ e.pc ≠ .exited := by
  have h1 := hmove.total _ silent_left
  have h2 := hs.not_left
  rw [← total_left_eq_zero, ← total_left_eq_zero, ne_eq, ← left_pos_iff]
  omega

/-- Once a worker has left, one has left after every step. -/
theorem exited_stays (hs : LoopStep s.sh pc e) (hmove : WorkerMove s s' w pc e)
    (hex : .exited ∈ s.workers) : .exited ∈ s'.workers := by
  by_contra hno
  exact ((exited_worker hs hmove).mp hno).1 hex

/-- `idle_workers` is exact until the first worker leaves. -/
theorem reach_idle_before_exit {ok : Act → State σ V → Prop} (hr : (runtime P).Reach ok s)
    (hno : .exited ∉ s.workers) : s.sh.queue.idleWorkers = s.total Pc.waits := by
  revert hno
  refine hr.invariant
    (I := fun s => .exited ∉ s.workers → s.sh.queue.idleWorkers = s.total Pc.waits) ?_ ?_
  · rintro s ⟨caps, groups, calls, rfl⟩ _
    rfl
  · intro s s' a hr h _ hn hno
    rcases (next_inv hn).2.cases with ⟨w, ch, pc, e, -, hw, hs, hmove⟩ | ⟨ho, hmove⟩
    · obtain ⟨hno, he⟩ := (exited_worker hs.loop hmove).mp hno
      have h1 := hmove.total _ silent_waits
      have h2 := h hno
      rw [hmove.sh]
      rcases hs.loop.waits ((reach_counted hr).waits_le hw) with h3 | ⟨⟨net, timers, rfl, hex⟩, -⟩
      · omega
      · -- the test passes, so this worker would leave
        cases hs with
        | goIdle =>
          rw [idleStep_of_terminate hex] at he
          exact absurd rfl he
    · have hleft := hmove.total _ silent_left
      rw [← total_left_eq_zero, hleft, total_left_eq_zero] at hno
      rw [ho.counters.1, hmove.total _ silent_waits]
      exact h hno

/-- **The first exit**: the other workers are in `condvar.wait`, or have not registered. -/
theorem first_exit (hidle : s.sh.queue.idleWorkers = s.total Pc.waits) (hc : s.Counted)
    (hw : s.workers[w]? = some pc) (hs : LoopStep s.sh pc e) (he : e.pc = .exited) {j : Nat}
    {pc' : Pc σ V} (hj : s.workers[j]? = some pc') (hne : j ≠ w) : pc'.awake = 0 := by
  obtain ⟨-, hawake, hcount⟩ := hs.exited_awake he
  have hsum := total_registered s
  rw [← hc.all, ← hidle] at hsum
  have htwo := Slots.add_le_sum_map Pc.awake hw hj (Ne.symm hne)
  have htotal : (s.workers.map Pc.awake).sum = s.total Pc.awake := rfl
  omega

/-- `idle_workers` is exact as long as nobody leaves through the idle path. -/
theorem reach_idle (hr : (runtime P).Reach KeepsIdle s) :
    s.sh.queue.idleWorkers = s.total Pc.waits := by
  refine hr.invariant (I := fun s => s.sh.queue.idleWorkers = s.total Pc.waits) ?_ ?_
  · rintro s ⟨caps, groups, calls, rfl⟩
    rfl
  · intro s s' a hr h hok hn
    rcases (next_inv hn).2.cases with ⟨w, ch, pc, e, rfl, hw, hs, hmove⟩ | ⟨ho, hmove⟩
    · have h1 := hmove.total _ silent_waits
      rcases hs.loop.waits ((reach_counted hr).waits_le hw) with h2 | ⟨⟨net, timers, rfl, hex⟩, -⟩
      · rw [hmove.sh]
        omega
      · simp only [KeepsIdle, idleExit?, hw] at hok
        rw [hok] at hex
        cases hex
    · rw [ho.counters.1, hmove.total _ silent_waits]
      exact h

end Runs

/-- The accounting that the fields of `GlobalQueue` promise. -/
structure State.Accounted (s : State σ V) : Prop where
  /-- `all_workers` counts the registered workers, -/
  all : s.sh.queue.allWorkers = s.total Pc.registered
  /-- and `idle_workers` those in `condvar.wait`. -/
  idle : s.sh.queue.idleWorkers = s.total Pc.waits
  le : s.sh.queue.idleWorkers ≤ s.sh.queue.allWorkers
  /-- The decrement after `condvar.wait` does not underflow, -/
  wake : ∀ pc ∈ s.workers, pc = .notified → 0 < s.sh.queue.idleWorkers
  /-- and neither do those of the two exits. -/
  exit : ∀ pc ∈ s.workers, pc.registered = 1 → 0 < s.sh.queue.allWorkers
  /-- Once all have left, both are zero. -/
  exited : (∀ pc ∈ s.workers, pc = .exited) →
    s.sh.queue.idleWorkers = 0 ∧ s.sh.queue.allWorkers = 0

/-- **Worker accounting.**  In every state reached by a run in which no worker leaves through the
    idle path, `all_workers` counts the registered workers and `idle_workers` those in
    `condvar.wait`. -/
theorem worker_accounting {P : Program σ V} {s : State σ V} (hr : (runtime P).Reach KeepsIdle s) :
    s.Accounted := by
  have hall := (reach_counted hr).all
  have hidle := reach_idle hr
  refine ⟨hall, hidle, ?_, fun pc hpc hn => ?_, fun pc hpc hreg => ?_, fun hex => ?_⟩
  · rw [hall, hidle]
    exact List.sum_le_sum fun pc _ => waits_le_registered pc
  · obtain ⟨w, hw⟩ := List.mem_iff_getElem?.mp hpc
    have := Slots.le_sum_map Pc.waits hw
    rw [hn] at this
    rw [hidle]
    exact this
  · obtain ⟨w, hw⟩ := List.mem_iff_getElem?.mp hpc
    have := Slots.le_sum_map Pc.registered hw
    rw [hreg] at this
    rw [hall]
    exact this
  · rw [hall, hidle]
    exact ⟨Slots.sum_map_eq_zero fun pc hpc => by rw [hex pc hpc]; rfl,
      Slots.sum_map_eq_zero fun pc hpc => by rw [hex pc hpc]; rfl⟩

/-- A closure that does nothing. -/
def emptyProgram : Program Unit Unit where
  code _ := .done
  variant := .channel
  overflowChecks := true
  own _ := rfl

/-- A closure that starts another one and then makes a blocking call, beside which the runtime
    spawns a worker. -/
def ioProgram : Program Nat Unit where
  code
    | 0 => .go 2 1
    | 1 => .io 2
    | _ => .done
  variant := .channel
  overflowChecks := true
  own x := by split <;> rfl

/-- Two workers, one asleep and one at the top of its loop, and the counters say so. -/
theorem worker_accounting_asleep :
    ∃ s, ((runtime emptyProgram).guard fun a s => !idleExit? a s).run
        (List.replicate 4 (Act.main {}) ++ Act.worker 1 {} :: List.replicate 9 (Act.worker 0 {}))
        (State.initial [] 0 [.startRuntime 2]) = some s ∧
      s.workers = [.blocked, .top] ∧ s.Accounted := by
  have h : (((runtime emptyProgram).guard fun a s => !idleExit? a s).run
      (List.replicate 4 (Act.main {}) ++ Act.worker 1 {} :: List.replicate 9 (Act.worker 0 {}))
      (State.initial [] 0 [.startRuntime 2])).map (fun s => s.workers)
      = some [.blocked, .top] := by rfl
  obtain ⟨s, hs, hw⟩ := Option.map_eq_some_iff.mp h
  have hr : (runtime emptyProgram).Reach KeepsIdle s :=
    System.run_guard_reach (fun a s h => by simpa [KeepsIdle] using h) ⟨[], 0, _, rfl⟩ hs
  exact ⟨s, hs, hw, worker_accounting hr⟩

/-- **The counters after an exit.**  The only worker of a runtime without tasks leaves through the
    idle path: nobody is left, and `idle_workers` is `1`. -/
theorem worker_accounting_drift :
    ∃ s, (runtime emptyProgram).Reachable s ∧ s.workers = [.exited] ∧
      s.sh.queue.idleWorkers = 1 ∧ s.sh.queue.allWorkers = 0 ∧ ¬ s.Accounted := by
  have h : ((runtime emptyProgram).run
      (List.replicate 3 (Act.main {}) ++ List.replicate 9 (Act.worker 0 {}))
      (State.initial [] 0 [.startRuntime 1])).map
        (fun s => (s.workers, s.sh.queue.idleWorkers, s.sh.queue.allWorkers))
      = some ([.exited], 1, 0) := by rfl
  obtain ⟨s, hs, hst⟩ := Option.map_eq_some_iff.mp h
  obtain ⟨hw, hst⟩ := Prod.mk.inj hst
  obtain ⟨hi, ha⟩ := Prod.mk.inj hst
  refine ⟨s, System.run_reachable (M := runtime emptyProgram) ⟨[], 0, _, rfl⟩ hs, hw, hi, ha,
    fun hacc => ?_⟩
  have := (hacc.exited (by simp [hw])).1
  rw [hi] at this
  cases this

end MyGoroutine
