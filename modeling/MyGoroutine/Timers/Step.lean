import MyGoroutine.Lib.Heap
import MyGoroutine.Workers.Poller

namespace MyGoroutine

open PriorityQueue (contents Least)

/-!
# Timers — what a step does to the heap

`sleep` pushes an entry, one turn of the loop of `check_timers` pops one and calls `goready` for it,
and no other step has anything to do with timers.

* `isPeek_iff` — the entry that `peek` shows has the least wake time, although `Ord` is reversed;
* `Event.heapOp?`, `Event.fired?` — the history of the heap, and of the `goready` calls for timers;
* `TimerStep`, `WorkerStep.timers` — what a step of a worker does to the timers;
* `reach_heap` — the heap is what its history says, and each pop has taken a least entry.
-/

variable {σ V : Type}

/-- No entry compares greater: in the reversed order, none has an earlier wake time. -/
theorem isPeek_iff {heap : List TimerEntry} {e : TimerEntry} :
    TimerEntry.isPeek heap e = true ↔ e ∈ heap ∧ ∀ x ∈ heap, e.wakeTime ≤ x.wakeTime := by
  have hcmp : ∀ x : TimerEntry, (x.cmp e != .gt) = true ↔ e.wakeTime ≤ x.wakeTime := by
    intro x
    rw [TimerEntry.cmp, bne_iff_ne, ne_eq, compare_gt_iff_gt, Nat.not_lt]
  simp only [TimerEntry.isPeek, Bool.and_eq_true, decide_eq_true_eq, List.all_eq_true, hcmp]

/-- What the event does to the heap. -/
def Event.heapOp? : Event V → Option (PriorityQueue.Op TimerEntry)
  | .timerPush t w => some (.push ⟨w, t⟩)
  | .timerPop t w _ => some (.pop ⟨w, t⟩)
  | _ => none

/-- The task for which `check_timers` calls `goready`. -/
def Event.fired? : Event V → Option TaskId
  | .goready t .timers => some t
  | _ => none

/-- The operations on the heap in a history. -/
def heapOps (l : List (Event V)) : List (PriorityQueue.Op TimerEntry) := l.filterMap Event.heapOp?

/-- The `goready` calls for timers in a history. -/
def firedIds (l : List (Event V)) : List TaskId := l.filterMap Event.fired?

/-- The operations on the heap follow the history. -/
theorem heapOps_append (l l' : List (Event V)) : heapOps (l ++ l') = heapOps l ++ heapOps l' :=
  List.filterMap_append

/-- The `goready` calls for timers follow the history. -/
theorem firedIds_append (l l' : List (Event V)) : firedIds (l ++ l') = firedIds l ++ firedIds l' :=
  List.filterMap_append

/-- The events have nothing to do with timers. -/
def NoTimers (es : List (Event V)) : Prop := heapOps es = [] ∧ firedIds es = []

/-- Logging nothing has nothing to do with timers. -/
theorem NoTimers.nil : NoTimers ([] : List (Event V)) := ⟨rfl, rfl⟩

/-- Events that have nothing to do with timers, one by one. -/
theorem NoTimers.of_forall {es : List (Event V)}
    (h : ∀ e ∈ es, e.heapOp? = none ∧ e.fired? = none) : NoTimers es :=
  ⟨List.filterMap_eq_nil_iff.mpr fun e he => (h e he).1,
    List.filterMap_eq_nil_iff.mpr fun e he => (h e he).2⟩

/-- The worker is about to call `goready` for an entry. -/
def Pc.isReady : Pc σ V → Bool
  | .timersReady _ _ _ => true
  | _ => false

/-- What a step does to the timers: a worker goes from `pc` to `pc'` and logs `es`. -/
inductive TimerStep (sh : Shared σ V) (pc : Pc σ V) (sh' : Shared σ V) (pc' : Pc σ V) :
    List (Event V) → Prop where
  /-- The heap does not change. -/
  | quiet {es} (hh : sh'.timerHeap = sh.timerHeap) (hes : NoTimers es)
      (hpc : pc.isReady = false) (hpc' : pc'.isReady = false) : TimerStep sh pc sh' pc' es
  /-- A `sleep` pushes its entry. -/
  | push {e : TimerEntry} (hh : sh'.timerHeap = e :: sh.timerHeap) (hpc : pc.holdsPolling = 0)
      (hpc' : pc'.holdsPolling = 0) : TimerStep sh pc sh' pc' [.timerPush e.taskId e.wakeTime]
  /-- A `check_timers` pops an entry that is due, -/
  | pop {ph now} {e : TimerEntry} (hpc : pc = .timersLock ph now)
      (hpeek : TimerEntry.isPeek sh.timerHeap e = true) (hdue : e.wakeTime ≤ now)
      (hh : sh'.timerHeap = sh.timerHeap.erase e) (hpc' : pc' = .timersReady ph now e.taskId) :
      TimerStep sh pc sh' pc' [.timerPop e.taskId e.wakeTime now]
  /-- and calls `goready` for its task. -/
  | fire {ph now id es} (hpc : pc = .timersReady ph now id) (hh : sh'.timerHeap = sh.timerHeap)
      (hops : heapOps es = []) (hes : firedIds es = [id]) (hpc' : pc' = .timersLock ph now) :
      TimerStep sh pc sh' pc' es

section Steps

variable {P : Program σ V} {ch : Choice} {free : Bool} {sh : Shared σ V} {t : Task σ V}
  {pc : Pc σ V} {e : Effect σ V}

/-- What `goready` logs. -/
theorem goready_log_timers (sh : Shared σ V) (waker : Waker) (id : TaskId) :
    ∃ es, (sh.goready waker id).1.log = sh.log ++ es ∧ heapOps es = [] ∧
      firedIds es = if waker = .timers then [id] else [] := by
  unfold Shared.goready
  split
  · exact ⟨_, rfl, rfl, by cases waker <;> rfl⟩
  · exact ⟨_, rfl, rfl, by cases waker <;> rfl⟩

/-- `goready` leaves the timer heap alone. -/
theorem goready_timerHeap (sh : Shared σ V) (waker : Waker) (id : TaskId) :
    (sh.goready waker id).1.timerHeap = sh.timerHeap :=
  beside_timerHeap.goready sh waker id

/-- A panic leaves the timer heap alone. -/
theorem raise_timerHeap (sh : Shared σ V) (p : Panic) (h : Handler σ) :
    (t.raise sh p h).sh.timerHeap = sh.timerHeap := by
  rw [raise_sh]
  rfl

/-- A task that does not sleep has nothing to do with timers. -/
theorem TaskStep.timers (hs : TaskStep P ch free sh t e) :
    ∃ es, e.sh.log = sh.log ++ es ∧
      (e.sh.timerHeap = sh.timerHeap ∧ NoTimers es ∨
        ∃ entry : TimerEntry, es = [.timerPush entry.taskId entry.wakeTime] ∧
          e.sh.timerHeap = entry :: sh.timerHeap) := by
  cases hs with
  | sleepPush => exact ⟨_, rfl, .inr ⟨⟨_, _⟩, rfl, rfl⟩⟩
  | chanPoisoned | chanClosed | recvUnwrap | groupPanic | sleepOverflow | netFail =>
    exact ⟨_, raise_log _ _, .inl ⟨raise_timerHeap _ _ _, rfl, rfl⟩⟩
  | close | add =>
    rw [finish_sh, Shared.record_record]
    refine ⟨_, rfl, .inl ⟨rfl, NoTimers.of_forall fun ev hev => ?_⟩⟩
    split at hev <;> simp only [List.cons_append, List.nil_append, List.append_nil, List.mem_cons,
      List.not_mem_nil, or_false] at hev
    · rcases hev with rfl | rfl <;> exact ⟨rfl, rfl⟩
    · subst hev
      exact ⟨rfl, rfl⟩
  | goready | wakeMore =>
    obtain ⟨es, hl, hops, hfired⟩ := goready_log_timers sh (.task t.id) _
    exact ⟨es, hl, .inl ⟨goready_timerHeap _ _ _, hops, hfired⟩⟩
  | @wakeLast id ret k _ _ =>
    obtain ⟨es, hl, hops, hfired⟩ := goready_log_timers sh (.task t.id) id
    refine ⟨es ++ [.returned t.id ret], ?_, .inl ⟨goready_timerHeap _ _ _, ?_, ?_⟩⟩
    · exact (congrArg (· ++ [_]) hl).trans (List.append_assoc _ _ _)
    · rw [heapOps_append, hops]
      rfl
    · rw [firedIds_append, hfired]
      rfl
  | go | gosched | currentTaskId | sleep | netAdd | ioSpawn | ioBlock | gopark | wakeNil
  | spawnWorker | threadSpawn | blocking | park | resumeNet | resumeGopark =>
    exact ⟨[], (List.append_nil _).symm, .inl ⟨rfl, .nil⟩⟩
  | _ => exact ⟨_, rfl, .inl ⟨rfl, rfl, rfl⟩⟩

/-- A worker without `POLLING` has no entry in hand. -/
theorem isReady_of_holdsPolling (h : pc.holdsPolling = 0) : pc.isReady = false := by
  cases pc <;> first | rfl | cases h

/-- A worker that leaves `check_timers` has no entry in hand. -/
theorem isReady_timersDone (ph : Phase) (w : Option Instant) :
    (timersDone ph w : Pc σ V).isReady = false := by
  rcases ph with (_ | _) | _ <;> cases w <;> rfl

/-- `pop_front` has nothing to do with timers. -/
theorem tryPop_timers (sh : Shared σ V) (otherwise : Pc σ V) (h : otherwise.isReady = false) :
    ∃ es, (tryPop sh otherwise).sh.log = sh.log ++ es ∧ NoTimers es ∧
      (tryPop sh otherwise).sh.timerHeap = sh.timerHeap ∧ (tryPop sh otherwise).pc.isReady = false := by
  unfold tryPop
  split
  · exact ⟨[], (List.append_nil _).symm, .nil, rfl, h⟩
  · exact ⟨_, rfl, ⟨rfl, rfl⟩, rfl, rfl⟩

/-- **What a step does to the timers.** -/
theorem WorkerStep.timers (hs : WorkerStep P ch free sh pc e) :
    ∃ es, e.sh.log = sh.log ++ es ∧ TimerStep sh pc e.sh e.pc es := by
  cases hs with
  | run hs =>
    obtain ⟨u, hu⟩ := hs.task?
    have hpc' := holdsPolling_of_task? hu
    obtain ⟨es, hl, ⟨hh, hes⟩ | ⟨entry, rfl, hh⟩⟩ := hs.timers
    · exact ⟨es, hl, .quiet hh hes rfl (isReady_of_holdsPolling hpc')⟩
    · exact ⟨_, hl, .push hh rfl hpc'⟩
  | timersPop hpeek hdue => exact ⟨_, rfl, .pop rfl hpeek hdue rfl rfl⟩
  | @timersReady ph now id hf =>
    obtain ⟨es, hl, hops, hfired⟩ := goready_log_timers sh .timers id
    exact ⟨es, hl, .fire rfl (goready_timerHeap _ _ _) hops hfired rfl⟩
  | @wakeReady id ready hf =>
    obtain ⟨es, hl, hops, hfired⟩ := goready_log_timers sh .poller id
    exact ⟨es, hl, .quiet (goready_timerHeap _ _ _) ⟨hops, hfired⟩ rfl rfl⟩
  | top =>
    obtain ⟨es, hl, hes, hh, hpc⟩ := tryPop_timers sh .tryPoll rfl
    exact ⟨es, hl, .quiet hh hes rfl hpc⟩
  | termNetYes | termStay =>
    obtain ⟨es, hl, hes, hh, hpc⟩ := tryPop_timers sh .top rfl
    exact ⟨es, hl, .quiet hh hes rfl hpc⟩
  | notified =>
    simp only [wakeStep]
    split
    · exact ⟨[], (List.append_nil _).symm, .quiet rfl .nil rfl rfl⟩
    · obtain ⟨es, hl, hes, hh, hpc⟩ := tryPop_timers
        (sh.withQueue { sh.queue with idleWorkers := sh.queue.idleWorkers - 1 }) .top rfl
      exact ⟨es, hl, .quiet hh hes rfl hpc⟩
  | goIdle =>
    simp only [idleStep]
    split <;> exact ⟨[], (List.append_nil _).symm, .quiet rfl .nil rfl rfl⟩
  | park =>
    unfold Shared.parkTask
    split
    · exact ⟨_, rfl, .quiet rfl ⟨rfl, rfl⟩ rfl rfl⟩
    · exact ⟨[], (List.append_nil _).symm, .quiet rfl .nil rfl rfl⟩
  | lookup =>
    refine ⟨_, rfl, .quiet rfl (.of_forall fun ev hev => ?_) rfl rfl⟩
    obtain ⟨x, -, rfl⟩ := List.mem_map.mp hev
    exact ⟨rfl, rfl⟩
  | timersEmpty | timersWait =>
    exact ⟨[], (List.append_nil _).symm, .quiet rfl .nil rfl (isReady_timersDone _ _)⟩
  | _ => exact ⟨[], (List.append_nil _).symm, .quiet rfl .nil rfl rfl⟩

/-- The heap follows its history. -/
theorem TimerStep.contents_eq {sh' : Shared σ V} {pc' : Pc σ V} {es : List (Event V)}
    (h : TimerStep sh pc sh' pc' es) : sh'.timerHeap = contents sh.timerHeap (heapOps es) := by
  cases h with
  | quiet hh hes =>
    rw [hes.1]
    exact hh
  | push hh => exact hh
  | pop hpc hpeek hdue hh => exact hh
  | fire hpc hh hops =>
    rw [hops]
    exact hh

/-- Each pop takes a least entry. -/
theorem TimerStep.least {sh' : Shared σ V} {pc' : Pc σ V} {es : List (Event V)}
    (h : TimerStep sh pc sh' pc' es) {l : List (PriorityQueue.Op TimerEntry)}
    (hl : contents [] l = sh.timerHeap) (hlaw : History.Each (Least TimerEntry.wakeTime []) l) :
    History.Each (Least TimerEntry.wakeTime []) (l ++ heapOps es) := by
  cases h with
  | quiet hh hes =>
    rw [hes.1, List.append_nil]
    exact hlaw
  | push => exact hlaw.concat trivial
  | pop hpc hpeek =>
    refine hlaw.concat ?_
    show _ ∧ _
    rw [hl]
    exact isPeek_iff.mp hpeek
  | fire hpc hh hops =>
    rw [hops, List.append_nil]
    exact hlaw

end Steps

/-- **The heap is what its history says**, in every state reached, and each pop has taken an entry
    with the least wake time. -/
theorem reach_heap {P : Program σ V} {ok : Act → State σ V → Prop} {s : State σ V}
    (hr : (runtime P).Reach ok s) :
    contents [] (heapOps s.sh.log) = s.sh.timerHeap ∧
      History.Each (Least TimerEntry.wakeTime []) (heapOps s.sh.log) := by
  refine shared_invariant (I := fun sh => contents [] (heapOps sh.log) = sh.timerHeap ∧
    History.Each (Least TimerEntry.wakeTime []) (heapOps sh.log)) ?_ ?_ ?_ ?_ hr
  · intro caps groups calls
    exact ⟨rfl, .nil _⟩
  · intro sh sh' hsame h
    rw [hsame.log, hsame.timerHeap]
    exact h
  · intro id f sh h
    have hl : heapOps (sh.pushNew id f).1.log = heapOps sh.log := by
      show heapOps (sh.log ++ [.created id]) = heapOps sh.log
      rw [heapOps_append]
      exact List.append_nil _
    rw [hl]
    exact h
  · intro s ch pc e _ h _ hs
    obtain ⟨hc, hlaw⟩ := h
    obtain ⟨es, hl, ht⟩ := hs.timers
    rw [hl, heapOps_append, PriorityQueue.contents_append, hc]
    exact ⟨ht.contents_eq.symm, ht.least hc hlaw⟩

end MyGoroutine
