import MyGoroutine.Step.Sched

namespace MyGoroutine

/-!
# The worker loop, as the run queue and the counters see it

The decisions of a worker rest on `runnable`, `idle_workers` and `all_workers`.  A step leaves
them alone, pushes a task, pops one, finds nothing to pop, or is one of the four that move the
counters.

* `Pc.waits`, `Pc.registered` — the workers that the two counters are about;
* `Pc.looks`, `Pc.attends` — the workers that will look at `runnable` before they sleep;
* `LoopStep` — the steps, and `WorkerStep.loop`: each step of a worker is one of them.
-/

variable {σ V : Type}

/-- The worker is in `condvar.wait`: blocked, or notified and not back yet. -/
def Pc.waits : Pc σ V → Nat
  | .blocked => 1
  | .notified => 1
  | _ => 0

/-- The worker has registered and has not left the loop. -/
def Pc.registered : Pc σ V → Nat
  | .start _ => 0
  | .exited => 0
  | _ => 1

/-- The worker holds no task, and looks at `runnable` before it goes to sleep again; a blocked one
    does so once it is woken. -/
def Pc.looks : Pc σ V → Nat
  | .top => 1
  | .timersNow _ => 1
  | .timersLock _ _ => 1
  | .timersReady _ _ _ => 1
  | .timeout _ _ => 1
  | .nothingLeft => 1
  | .poll _ _ => 1
  | .sleeping _ => 1
  | .lookup _ => 1
  | .release _ => 1
  | .wakeReady _ => 1
  | .blocked => 1
  | .notified => 1
  | .termNet => 1
  | .termTimers => 1
  | _ => 0

/-- The worker is awake, and looks at `runnable` before it goes to sleep. -/
def Pc.attends : Pc σ V → Bool
  | .blocked => false
  | .run _ => true
  | .switched _ => true
  | pc => decide (pc.looks = 1)

/-- Waking a worker does not take it out of `idle_workers` yet. -/
theorem silent_waits : Silent (Pc.waits : Pc σ V → Nat) := ⟨rfl, fun _ => rfl⟩

/-- Blocking and waking a worker keeps it registered. -/
theorem silent_registered : Silent (Pc.registered : Pc σ V → Nat) := ⟨rfl, fun _ => rfl⟩

/-- Blocking and waking a worker does not change what it looks at. -/
theorem silent_looks : Silent (Pc.looks : Pc σ V → Nat) := ⟨rfl, fun _ => rfl⟩

/-- From one point of the loop to another, outside `condvar.wait`. -/
structure Pc.Moves (pc pc' : Pc σ V) : Prop where
  waits : pc.waits = 0 ∧ pc'.waits = 0
  registered : pc.registered = 1 ∧ pc'.registered = 1
  looks : pc.looks ≤ pc'.looks
  attends : pc.attends = true → pc'.attends = true

/-- A step of a worker at `pc`, as the run queue and the counters see it. -/
inductive LoopStep (sh : Shared σ V) (pc : Pc σ V) (e : Effect σ V) : Prop where
  /-- The worker registers. -/
  | register {id} (hpc : pc = .start id) (hpc' : e.pc = .top) (hn : e.notify = .none)
      (hr : e.sh.queue.runnable = sh.queue.runnable)
      (hi : e.sh.queue.idleWorkers = sh.queue.idleWorkers)
      (ha : e.sh.queue.allWorkers = sh.queue.allWorkers + 1)
  | stay (hpc : pc.Moves e.pc) (hn : e.notify = .none)
      (hr : e.sh.queue.runnable = sh.queue.runnable)
      (hi : e.sh.queue.idleWorkers = sh.queue.idleWorkers)
      (ha : e.sh.queue.allWorkers = sh.queue.allWorkers)
  /-- A task is pushed, and a blocked worker is notified if the counter says that there is one. -/
  | push {t} (hpc : pc.Moves e.pc) (hatt : pc.attends = true) (hn : e.notify = sh.queue.notifyIdle)
      (hr : e.sh.queue.runnable = sh.queue.runnable ++ [t])
      (hi : e.sh.queue.idleWorkers = sh.queue.idleWorkers)
      (ha : e.sh.queue.allWorkers = sh.queue.allWorkers)
  /-- A worker pushes the task it has run, and looks at the queue itself. -/
  | pushBack {t} (hpc : pc.Moves e.pc) (hl : pc.looks = 0 ∧ e.pc.looks = 1)
      (hatt : pc.attends = true) (hn : e.notify = .none)
      (hr : e.sh.queue.runnable = sh.queue.runnable ++ [t])
      (hi : e.sh.queue.idleWorkers = sh.queue.idleWorkers)
      (ha : e.sh.queue.allWorkers = sh.queue.allWorkers)
  /-- A task is popped and run. -/
  | pop {t rest} (hl : pc.looks = 1) (hreg : pc.registered = 1)
      (hpc' : e.pc = .run (t.withState .running)) (hn : e.notify = .none)
      (hold : sh.queue.runnable = t :: rest) (hr : e.sh.queue.runnable = rest)
      (hi : e.sh.queue.idleWorkers = sh.queue.idleWorkers - pc.waits)
      (ha : e.sh.queue.allWorkers = sh.queue.allWorkers)
  /-- There is nothing to pop. -/
  | empty (hold : sh.queue.runnable = []) (hreg : pc.registered = 1 ∧ e.pc.registered = 1)
      (hw : e.pc.waits = 0) (hn : e.notify = .none) (hr : e.sh.queue.runnable = [])
      (hi : e.sh.queue.idleWorkers = sh.queue.idleWorkers - pc.waits)
      (ha : e.sh.queue.allWorkers = sh.queue.allWorkers)
  /-- The idle path: the worker goes to sleep. -/
  | sleep {net timers} (hpc : pc = .goIdle net timers) (hpc' : e.pc = .blocked)
      (hn : e.notify = .none) (hr : e.sh.queue.runnable = sh.queue.runnable)
      (hi : e.sh.queue.idleWorkers = sh.queue.idleWorkers + 1)
      (ha : e.sh.queue.allWorkers = sh.queue.allWorkers)
  /-- The idle path: the worker leaves the loop, and stays counted as idle. -/
  | idleExit {net timers} (hpc : pc = .goIdle net timers) (hpc' : e.pc = .exited)
      (hn : e.notify = .all) (hs : net = false ∧ timers = false) (hq : sh.queue.noTasks = true)
      (hcount : sh.queue.idleWorkers + 1 = sh.queue.allWorkers)
      (hr : e.sh.queue.runnable = sh.queue.runnable)
      (hi : e.sh.queue.idleWorkers = sh.queue.idleWorkers + 1)
      (ha : e.sh.queue.allWorkers = sh.queue.allWorkers - 1)
  /-- After a wake-up the worker leaves the loop. -/
  | termExit (hpc : pc = .termTimers) (hpc' : e.pc = .exited)
      (hn : e.notify = .all) (hq : sh.queue.noTasks = true)
      (hcount : sh.queue.idleWorkers = sh.queue.allWorkers)
      (hr : e.sh.queue.runnable = sh.queue.runnable)
      (hi : e.sh.queue.idleWorkers = sh.queue.idleWorkers)
      (ha : e.sh.queue.allWorkers = sh.queue.allWorkers - 1)

section Steps

variable {P : Program σ V} {ch : Choice} {free : Bool} {sh : Shared σ V} {t : Task σ V}
  {pc : Pc σ V} {e : Effect σ V}

/-- Points at which the worker runs a task, or has just run one. -/
theorem moves_of_task? {pc pc' : Pc σ V} {t u : Task σ V} (h : pc.task? = some t)
    (h' : pc'.task? = some u) : pc.Moves pc' := by
  cases pc <;> cases h <;> cases pc' <;> cases h' <;>
    exact ⟨⟨rfl, rfl⟩, ⟨rfl, rfl⟩, le_refl _, fun _ => rfl⟩

/-- Points at which the worker looks at the queue before it sleeps. -/
theorem moves_of_looks {pc pc' : Pc σ V} (h : pc.waits = 0) (h' : pc'.waits = 0)
    (hr : pc.registered = 1) (hl' : pc'.looks = 1) : pc.Moves pc' := by
  refine ⟨⟨h, h'⟩, ⟨hr, ?_⟩, ?_, fun _ => ?_⟩
  · cases pc' <;> first | rfl | cases hl'
  · rw [hl']
    cases pc <;> simp [Pc.looks]
  · cases pc' <;> simp_all [Pc.attends, Pc.looks, Pc.waits]

/-- `goready` pushes a task, or leaves a token. -/
theorem goready_loop {waker : Waker} {id : TaskId} (hpc : pc.Moves e.pc)
    (hatt : pc.attends = true) (hn : e.notify = (sh.goready waker id).2)
    (hq : e.sh.queue = (sh.goready waker id).1.queue) : LoopStep sh pc e := by
  unfold Shared.goready at hn hq
  split at hq
  · rename_i u hu
    rw [hu] at hn
    exact .push hpc hatt hn (by rw [hq]; rfl) (by rw [hq]; rfl) (by rw [hq]; rfl)
  · rename_i hu
    rw [hu] at hn
    exact .stay hpc hn (by rw [hq]; rfl) (by rw [hq]; rfl) (by rw [hq]; rfl)

/-- A step of a task that leaves the queue alone. -/
private theorem loop_task (hpc : ∃ u, e.pc.task? = some u) (hn : e.notify = .none)
    (hr : e.sh.queue.runnable = sh.queue.runnable)
    (hi : e.sh.queue.idleWorkers = sh.queue.idleWorkers)
    (ha : e.sh.queue.allWorkers = sh.queue.allWorkers) : LoopStep sh (.run t) e := by
  obtain ⟨u, hu⟩ := hpc
  exact .stay (moves_of_task? rfl hu) hn hr hi ha

/-- A panic wakes no worker. -/
theorem raise_notify (sh : Shared σ V) (p : Panic) (h : Handler σ) :
    (t.raise sh p h).notify = .none := by
  cases h <;> rfl

/-- The end of a call wakes no worker by itself. -/
theorem finish_notify (sh : Shared σ V) (ids : List TaskId) (ret : Ret V) (k : σ) :
    (t.finish sh ids ret k).notify = .none := by
  cases ids <;> rfl

/-- **The steps of a running task.** -/
theorem TaskStep.loop (hs : TaskStep P ch free sh t e) : LoopStep sh (.run t) e := by
  have htask := hs.task?
  cases hs with
  | chanPoisoned | chanClosed | recvUnwrap | groupPanic | sleepOverflow | netFail =>
    refine loop_task htask (raise_notify _ _ _) ?_ ?_ ?_ <;> rw [raise_sh] <;> rfl
  | close | add =>
    refine loop_task htask (finish_notify _ _ _ _) ?_ ?_ ?_ <;> rw [finish_sh] <;> rfl
  | goready => exact goready_loop (moves_of_task? rfl rfl) rfl rfl rfl
  | wakeMore => exact goready_loop (moves_of_task? rfl rfl) rfl rfl rfl
  | wakeLast => exact goready_loop (moves_of_task? rfl rfl) rfl rfl rfl
  | goPush => exact .push (moves_of_task? rfl rfl) rfl rfl rfl rfl rfl
  | _ => exact loop_task htask rfl rfl rfl rfl

/-- `pop_front`, by a worker that has just counted itself out of `idle_workers`. -/
private theorem loop_tryPop {sh' : Shared σ V} {otherwise : Pc σ V} (hl : pc.looks = 1)
    (hreg : pc.registered = 1) (hr : sh'.queue.runnable = sh.queue.runnable)
    (hi : sh'.queue.idleWorkers = sh.queue.idleWorkers - pc.waits)
    (ha : sh'.queue.allWorkers = sh.queue.allWorkers) (hw : otherwise.waits = 0)
    (hreg' : otherwise.registered = 1) : LoopStep sh pc (tryPop sh' otherwise) := by
  unfold tryPop
  split
  · rename_i h
    exact .empty (hr ▸ h) ⟨hreg, hreg'⟩ hw rfl h hi ha
  · rename_i u rest h
    exact .pop hl hreg rfl rfl (hr ▸ h) (by show sh'.queue.runnable.tail = rest; rw [h]; rfl) hi ha

/-- `should_terminate` says yes only with no task, no waiter and no timer left, and with all
    workers idle. -/
theorem shouldTerminate_inv {q : GlobalQueue σ V} {net timers : Bool}
    (h : q.shouldTerminate net timers = true) :
    q.noTasks = true ∧ net = false ∧ timers = false ∧ q.idleWorkers = q.allWorkers := by
  simpa [GlobalQueue.shouldTerminate, and_assoc] using h

/-- The idle path of a worker that counts everybody as idle. -/
theorem idleStep_of_terminate {net timers : Bool}
    (h : { sh.queue with idleWorkers := sh.queue.idleWorkers + 1 }.shouldTerminate net timers
      = true) :
    idleStep net timers sh
      = exitLoop (sh.withQueue { sh.queue with idleWorkers := sh.queue.idleWorkers + 1 }) :=
  if_pos h

/-- The idle path of any other worker. -/
theorem idleStep_of_stay {net timers : Bool}
    (h : { sh.queue with idleWorkers := sh.queue.idleWorkers + 1 }.shouldTerminate net timers
      = false) :
    idleStep net timers sh
      = { sh := sh.withQueue { sh.queue with idleWorkers := sh.queue.idleWorkers + 1 }
          pc := .blocked } :=
  if_neg (Bool.eq_false_iff.mp h)

/-- **Each step of a worker**, as the run queue and the counters see it. -/
theorem WorkerStep.loop (hs : WorkerStep P ch free sh pc e) : LoopStep sh pc e := by
  cases hs with
  | run hs => exact hs.loop
  | register => exact .register rfl rfl rfl rfl rfl rfl
  | top => exact loop_tryPop rfl rfl rfl rfl rfl rfl rfl
  | termNetYes | termStay => exact loop_tryPop rfl rfl rfl rfl rfl rfl rfl
  | notified =>
    simp only [wakeStep]
    split
    · rename_i h
      have h0 : sh.queue.runnable = [] := by
        simp only [Shared.withQueue, GlobalQueue.noTasks, Bool.and_eq_true, List.isEmpty_iff] at h
        exact h.1.1
      exact .empty h0 ⟨rfl, rfl⟩ rfl rfl h0 rfl rfl
    · exact loop_tryPop rfl rfl rfl rfl rfl rfl rfl
  | goIdle =>
    simp only [idleStep]
    split
    · rename_i h
      obtain ⟨hq, hnet, htimers, hcount⟩ := shouldTerminate_inv h
      exact .idleExit rfl rfl rfl ⟨hnet, htimers⟩ hq hcount rfl rfl rfl
    · exact .sleep rfl rfl rfl rfl rfl rfl
  | termExit ht =>
    obtain ⟨hq, -, -, hcount⟩ := shouldTerminate_inv ht
    exact .termExit rfl rfl rfl hq hcount rfl rfl rfl
  | timersReady | wakeReady =>
    exact goready_loop (moves_of_looks rfl rfl rfl rfl) rfl rfl rfl
  | timersEmpty => 
    rename_i ph now hh
    rcases ph with (_ | _) | _ <;> exact .stay (moves_of_looks rfl rfl rfl rfl) rfl rfl rfl rfl
  | timersWait =>
    rename_i ph now hh hw
    rcases ph with (_ | _) | _ <;> exact .stay (moves_of_looks rfl rfl rfl rfl) rfl rfl rfl rfl
  | @park t hf hw =>
    unfold Shared.parkTask
    split
    · by_cases hv : P.variant = .channel
      · exact .push (moves_of_looks rfl rfl rfl rfl) rfl (if_pos hv) rfl rfl rfl
      · exact .pushBack (moves_of_looks rfl rfl rfl rfl) ⟨rfl, rfl⟩ rfl (if_neg hv) rfl rfl rfl
    · exact .stay (moves_of_looks rfl rfl rfl rfl) rfl rfl rfl rfl
  | requeue => exact .pushBack (moves_of_looks rfl rfl rfl rfl) ⟨rfl, rfl⟩ rfl rfl rfl rfl rfl
  | drop => exact .stay (moves_of_looks rfl rfl rfl rfl) rfl rfl rfl rfl
  | casFail | casWin | pollNet | pollTimersNone | giveUp | idleNet | idleTimers =>
    exact .stay ⟨⟨rfl, rfl⟩, ⟨rfl, rfl⟩, le_refl _, fun h => by cases h⟩ rfl rfl rfl rfl
  | _ => exact .stay (moves_of_looks rfl rfl rfl rfl) rfl rfl rfl rfl

end Steps

end MyGoroutine
