import MyGoroutine.Timers.Check

namespace MyGoroutine

/-!
# Blocking in `try_poll_network`

A worker calls `try_poll_network` when `runnable` is empty.  But the first `check_timers` may put
tasks on it, and the timeout of the poll or sleep that follows is computed from what remains in the
heap, not from `runnable`.

* `alone?` — a single worker, and no other thread that uses the queue;
* `wakesBeforeBlocking?` — `try_poll_network` enters its first `check_timers` with a task to wake
  and something later to wait for;
* `Pc.Unblocked` — what a worker knows of `runnable` on its way to the poll or sleep;
* `only_worker_blocks_idle` — while this does not happen, the only worker blocks on an empty queue;
* `only_worker_blocks_runnable` — a woken task that waits for the next timer.
-/

variable {σ V : Type}

/-- One worker makes all the steps, and the main thread queues tasks only while none is there. -/
def alone? (a : Act) (s : State σ V) : Bool :=
  match a with
  | .worker w _ => (s.workers.eraseIdx w).all Pc.isExited
  | .main _ =>
    match s.main.pc with
    | .goPush _ _ => s.workers.all Pc.isExited
    | _ => true
  | _ => true

/-- The first `check_timers` of `try_poll_network` is entered while an entry is due whose task is
    parked, nothing falls due within the next millisecond, and a later timer or a net waiter makes
    the call go on to the poll or sleep. -/
def wakesBeforeBlocking? (a : Act) (s : State σ V) : Bool :=
  match a with
  | .worker w _ =>
    match s.workers[w]? with
    | some (.timersNow (.before net)) =>
      (s.sh.timerHeap.any fun e =>
          decide (e.wakeTime ≤ s.sh.clock) && (s.sh.queue.waiting.lookup e.taskId).isSome) &&
        (net || s.sh.timerHeap.any fun e => decide (s.sh.clock < e.wakeTime)) &&
        !(s.sh.timerHeap.any fun e =>
          decide (s.sh.clock < e.wakeTime) && decide (e.wakeTime < s.sh.clock + 1000000))
    | _ => false
  | _ => false

/-- The runs of a single worker. -/
def Alone (a : Act) (s : State σ V) : Prop := alone? a s = true

/-- The runs of a single worker in which it wakes no task before it blocks. -/
def BlocksIdle (a : Act) (s : State σ V) : Prop := alone? a s = true ∧ wakesBeforeBlocking? a s = false

/-- None of the entries due at `now` is for a parked task. -/
def Shared.WakesNone (sh : Shared σ V) (now : Instant) : Prop :=
  ∀ e ∈ sh.timerHeap, e.wakeTime ≤ now → sh.queue.waiting.lookup e.taskId = none

/-- There will be nothing to wait for, or less than a millisecond. -/
def NoWait (net : Bool) (now : Instant) (heap : List TimerEntry) : Prop :=
  (∃ e ∈ heap, now < e.wakeTime ∧ e.wakeTime < now + 1000000) ∨
    net = false ∧ ∀ e ∈ heap, e.wakeTime ≤ now

/-- What the only worker knows of `runnable`, on its way to the poll or sleep. -/
def Pc.Unblocked (sh : Shared σ V) : Pc σ V → Prop
  | .tryPoll => sh.queue.runnable = []
  | .pollNet => sh.queue.runnable = []
  | .pollTimers _ => sh.queue.runnable = []
  | .timersNow (.before _) => sh.queue.runnable = []
  | .timersLock (.before net) now =>
    now ≤ sh.clock ∧ (sh.queue.runnable = [] ∧ sh.WakesNone now ∨ NoWait net now sh.timerHeap)
  | .timersReady (.before net) now id =>
    now ≤ sh.clock ∧
      (sh.queue.runnable = [] ∧ sh.WakesNone now ∧ sh.queue.waiting.lookup id = none ∨
        NoWait net now sh.timerHeap)
  | .timeout _ wake => sh.queue.runnable = [] ∨ wake < sh.clock + 1000000
  | .poll _ ms => sh.queue.runnable = [] ∨ ms = 0
  | .sleeping _ => sh.queue.runnable = []
  | _ => True

section Steps

variable {P : Program σ V} {ch : Choice} {free : Bool} {sh sh' : Shared σ V} {pc : Pc σ V}
  {e : Effect σ V} {net : Bool} {now : Instant}

/-- Entries that are due do not shorten the wait. -/
theorem NoWait.erase {heap : List TimerEntry} {entry : TimerEntry} (h : NoWait net now heap)
    (hdue : entry.wakeTime ≤ now) : NoWait net now (heap.erase entry) := by
  rcases h with ⟨x, hx, hlt, hsoon⟩ | ⟨hnet, hall⟩
  · have hne : x ≠ entry := by
      rintro rfl
      exact absurd hlt (Nat.not_lt.mpr hdue)
    exact .inl ⟨x, (List.mem_erase_of_ne hne).mpr hx, hlt, hsoon⟩
  · exact .inr ⟨hnet, fun x hx => hall x (List.mem_of_mem_erase hx)⟩

/-- A wake time less than a millisecond ahead gives no time to wait. -/
theorem timeoutMs_eq_zero {wake clock : Instant} (h : wake < clock + 1000000) :
    timeoutMs wake clock = 0 := by
  unfold timeoutMs
  split
  · rfl
  · next hle =>
    have hlt : wake - clock < 1000000 := Nat.sub_lt_left_of_lt_add (Nat.le_of_not_le hle) h
    rw [Nat.div_eq_of_lt hlt, Nat.zero_min]

/-- Only the queue, the heap and the clock count, and the clock may go on. -/
theorem Pc.Unblocked.congr (h : pc.Unblocked sh) (hr : sh'.queue.runnable = sh.queue.runnable)
    (hw : sh'.queue.waiting = sh.queue.waiting) (hh : sh'.timerHeap = sh.timerHeap)
    (hc : sh.clock ≤ sh'.clock) : pc.Unblocked sh' := by
  cases pc with
  | tryPoll | pollNet | pollTimers | sleeping => exact hr.trans h
  | timersNow ph =>
    cases ph with
    | before => exact hr.trans h
    | after => trivial
  | timersLock ph now =>
    cases ph with
    | after => trivial
    | before net =>
      obtain ⟨hnow, h⟩ := h
      refine ⟨hnow.trans hc, ?_⟩
      rw [Shared.WakesNone, hr, hw, hh]
      exact h
  | timersReady ph now id =>
    cases ph with
    | after => trivial
    | before net =>
      obtain ⟨hnow, h⟩ := h
      refine ⟨hnow.trans hc, ?_⟩
      rw [Shared.WakesNone, hr, hw, hh]
      exact h
  | timeout _ wake => exact h.imp (hr.trans ·) fun hlt => hlt.trans_le (Nat.add_le_add_right hc _)
  | poll => exact h.imp_left (hr.trans ·)
  | _ => trivial

/-- A worker with a task does not block. -/
theorem unblocked_of_task? {t : Task σ V} (h : pc.task? = some t) : pc.Unblocked sh := by
  cases pc <;> trivial

/-- The end of the first `check_timers`, when every entry left is later. -/
theorem unblocked_timersDone {r : Option Instant}
    (h : sh.queue.runnable = [] ∨ NoWait net now sh.timerHeap) (hnow : now ≤ sh.clock)
    (hlate : ∀ x ∈ sh.timerHeap, now < x.wakeTime) (hr : IsNextWake sh.timerHeap r) :
    (timersDone (.before net) r : Pc σ V).Unblocked sh := by
  cases r with
  | none =>
    have hheap : sh.timerHeap = [] := hr
    cases net with
    | false => trivial
    | true =>
      -- the default timeout
      rcases h with hrun | ⟨x, hx, -⟩ | ⟨hnet, -⟩
      · exact .inl hrun
      · rw [hheap] at hx
        cases hx
      · cases hnet
  | some wake =>
    obtain ⟨⟨y, hy, rfl⟩, hmin⟩ := hr
    rcases h with hrun | ⟨x, hx, -, hsoon⟩ | ⟨-, hall⟩
    · exact .inl hrun
    · exact .inr (((hmin x hx).trans_lt hsoon).trans_le (Nat.add_le_add_right hnow _))
    · exact absurd (hlate y hy) (Nat.not_lt.mpr (hall y hy))

/-- A worker at `pop_front` gets a task, or goes where it would. -/
theorem unblocked_tryPop {otherwise : Pc σ V} (h : sh.queue.runnable = [] → otherwise.Unblocked sh) :
    (tryPop sh otherwise).pc.Unblocked (tryPop sh otherwise).sh := by
  unfold tryPop
  split
  · next hr => exact h hr
  · trivial

/-- `goready` for a task that is not parked leaves `runnable` alone. -/
theorem goready_queue_of_lookup {waker : Waker} {id : TaskId}
    (h : sh.queue.waiting.lookup id = none) :
    (sh.goready waker id).1.queue.runnable = sh.queue.runnable ∧
      (sh.goready waker id).1.queue.waiting = sh.queue.waiting := by
  unfold Shared.goready
  rw [h]
  exact ⟨rfl, rfl⟩

/-- **One step of the only worker.** -/
theorem WorkerStep.unblocked (hs : WorkerStep P ch free sh pc e) (h : pc.Unblocked sh)
    (hok : ∀ net, pc = .timersNow (.before net) →
      sh.WakesNone sh.clock ∨ NoWait net sh.clock sh.timerHeap) : e.pc.Unblocked e.sh := by
  cases hs with
  | run hs =>
    obtain ⟨u, hu⟩ := hs.task?
    exact unblocked_of_task? hu
  | top => exact unblocked_tryPop id
  | termNetYes | termStay => exact unblocked_tryPop fun _ => trivial
  | notified =>
    simp only [wakeStep]
    split
    · trivial
    · exact unblocked_tryPop fun _ => trivial
  | goIdle =>
    simp only [idleStep]
    split <;> trivial
  | casWin | pollNet | pollTimersSome => exact h
  | @timersNow ph =>
    cases ph with
    | after => trivial
    -- the first `check_timers` starts: here the condition is used
    | before net => exact ⟨Nat.le_refl _, (hok net rfl).imp_left fun hnone => ⟨h, hnone⟩⟩
  | @timersEmpty ph now hh =>
    cases ph with
    | after => trivial
    | before net => exact unblocked_timersDone (h.2.imp_left (·.1)) h.1 (by rw [hh]; simp) hh
  | @timersWait ph now hpeek hw =>
    cases ph with
    | after => trivial
    | before net =>
      obtain ⟨hmem, hmin⟩ := isPeek_iff.mp hpeek
      have hnext : IsNextWake sh.timerHeap (some ch.peek.wakeTime) := ⟨⟨_, hmem, rfl⟩, hmin⟩
      exact unblocked_timersDone (h.2.imp_left (·.1)) h.1 (fun x hx => hw.trans_le (hmin x hx)) hnext
  -- what comes out is due, so it is no entry that the worker will wait for
  | @timersPop ph now hpeek hw =>
    cases ph with
    | after => trivial
    | before net =>
      obtain ⟨hnow, ⟨hr, hnone⟩ | hwait⟩ := h
      · refine ⟨hnow, .inl ⟨hr, fun x hx => hnone x (List.mem_of_mem_erase hx), ?_⟩⟩
        exact hnone _ (isPeek_iff.mp hpeek).1 hw
      · exact ⟨hnow, .inr (hwait.erase hw)⟩
  | @timersReady ph now id hf =>
    cases ph with
    | after => trivial
    | before net =>
      obtain ⟨hnow, h⟩ := h
      refine ⟨hnow.trans_eq (beside_clock.goready _ _ _).symm, ?_⟩
      rw [goready_timerHeap]
      rcases h with ⟨hr, hnone, hid⟩ | hwait
      · -- the task is not parked, so nothing is queued
        obtain ⟨hrun, hwaiting⟩ := goready_queue_of_lookup (V := V) (σ := σ) hid
        refine .inl ⟨hrun.trans hr, ?_⟩
        rw [Shared.WakesNone, hwaiting, goready_timerHeap]
        exact hnone
      · exact .inr hwait
  | @timeout net wake => exact h.imp_right timeoutMs_eq_zero
  | @sleepStart ms h0 => exact h.resolve_right (Nat.ne_of_gt h0)
  | _ => trivial

/-- A step that admits nothing due to wake while there is something to wait for. -/
theorem wakesNone_or_noWait {s : State σ V} {w : Nat} (hw : s.workers[w]? = some pc)
    (h : wakesBeforeBlocking? (.worker w ch) s = false) (net : Bool)
    (hpc : pc = .timersNow (.before net)) :
    s.sh.WakesNone s.sh.clock ∨ NoWait net s.sh.clock s.sh.timerHeap := by
  subst hpc
  simp only [wakesBeforeBlocking?, hw, Bool.and_eq_false_iff, Bool.or_eq_false_iff,
    Bool.not_eq_false', List.any_eq_false, List.any_eq_true, Bool.and_eq_true,
    decide_eq_true_eq] at h
  rcases h with (hnone | ⟨hnet, hall⟩) | ⟨x, hx, hlt, hsoon⟩
  · refine .inl fun x hx hdue => ?_
    exact Option.eq_none_iff_forall_ne_some.mpr fun t ht =>
      hnone x hx ⟨hdue, Option.isSome_iff_exists.mpr ⟨t, ht⟩⟩
  · exact .inr (.inr ⟨hnet, fun x hx => Nat.le_of_not_lt (hall x hx)⟩)
  · exact .inr (.inl ⟨x, hx, hlt, hsoon⟩)

/-- The other workers of a step of the only worker. -/
theorem exited_of_alone {s : State σ V} {w j : Nat} (h : alone? (.worker w ch) s = true)
    (hjw : j ≠ w) (hj : s.workers[j]? = some pc) : pc = .exited := by
  have hmem : pc ∈ s.workers.eraseIdx w := List.mem_eraseIdx_iff_getElem?.mpr ⟨j, hjw, hj⟩
  have hexited := List.all_eq_true.mp h pc hmem
  cases pc <;> first | rfl | cases hexited

end Steps

/-- **The only worker on its way to block**, in every run in which it wakes no task there. -/
theorem reach_unblocked {P : Program σ V} {s : State σ V} (hr : (runtime P).Reach BlocksIdle s) :
    ∀ pc ∈ s.workers, pc.Unblocked s.sh := by
  refine hr.invariant (I := fun s => ∀ pc ∈ s.workers, pc.Unblocked s.sh) ?_ ?_
  · rintro s ⟨caps, groups, calls, rfl⟩ pc hpc
    cases hpc
  · intro s s' a _ h hok hn
    have hnext := (next_inv hn).2
    cases hnext with
    | worker hw hs hnot =>
      have hmove := hnot.workerMove hw
      refine hmove.forall_mem _ ⟨fun _ => trivial, fun _ => trivial⟩ (fun j pc' hjw hj => ?_) ?_
      · rw [exited_of_alone hok.1 hjw hj]
        trivial
      · exact hs.unblocked (h _ (List.mem_of_getElem? hw)) (wakesNone_or_noWait hw hok.2)
    | main hs =>
      cases hs with
      | goPush hm _ hnot =>
        -- a task is queued only when there is no worker to see it
        refine hnot.forall_mem (fun _ => trivial) fun pc hpc => ?_
        have hall : s.workers.all Pc.isExited = true := by
          have := hok.1
          rwa [alone?, hm] at this
        have hexited := List.all_eq_true.mp hall pc hpc
        cases pc <;> trivial
      | spawn =>
        intro pc hpc
        rcases List.mem_append.mp hpc with hpc | hpc
        · exact h pc hpc
        · rw [List.mem_singleton.mp hpc]
          trivial
      | go | start | spawned | joined | join =>
        exact fun pc hpc => (h pc hpc).congr rfl rfl rfl (Nat.le_refl _)
    | spurious hw =>
      intro pc hpc
      rcases List.mem_or_eq_of_mem_set hpc with hpc | rfl
      · exact h pc hpc
      · trivial
    | tick => exact fun pc hpc => (h pc hpc).congr rfl rfl rfl (Nat.le_add_right _ _)
    | setReadable => exact fun pc hpc => (h pc hpc).congr rfl rfl rfl (Nat.le_refl _)

/-! ### The only worker blocks

With one worker only its own `check_timers` can make a task runnable while it is on its way to
block. Of the two runs below, the first blocks with nothing runnable, and the second wakes a task
there.
-/

/-- **The only worker blocks on an empty queue**, as long as the first `check_timers` wakes no task
    before there is something to wait for. -/
theorem only_worker_blocks_idle {P : Program σ V} {s : State σ V}
    (hr : (runtime P).Reach BlocksIdle s) (w : Nat) :
    (∀ net ms, s.workers[w]? = some (.poll net ms) → 0 < ms → s.sh.queue.runnable = []) ∧
      ∀ wakeUp, s.workers[w]? = some (.sleeping wakeUp) → s.sh.queue.runnable = [] := by
  refine ⟨fun net ms hw hms => ?_, fun wakeUp hw => ?_⟩
  · have hpoll : s.sh.queue.runnable = [] ∨ ms = 0 := reach_unblocked hr _ (List.mem_of_getElem? hw)
    exact hpoll.resolve_right (Nat.ne_of_gt hms)
  · exact reach_unblocked hr _ (List.mem_of_getElem? hw)

/-- A closure that sleeps for its argument, in nanoseconds. -/
def dozeProgram : Program Nat Unit where
  code d := if d = 0 then .done else .sleep d 0 none
  variant := .channel
  overflowChecks := true
  own d := by split <;> rfl

/-- A worker with nothing but a far timer goes to sleep on an empty queue. -/
theorem only_worker_blocks_idle_doze :
    ∃ s, (runtime dozeProgram).Reach BlocksIdle s ∧ s.workers = [.poll false 100] ∧
      s.sh.queue.runnable = [] := by
  have h : (((runtime dozeProgram).guard fun a s => alone? a s && !wakesBeforeBlocking? a s).run
      (List.replicate 5 (Act.main {}) ++ List.replicate 12 (Act.worker 0 {}) ++
        [.worker 0 { peek := ⟨1000000000, 0⟩ }, .worker 0 {}])
      (State.initial [] 0 [.go 1000000000, .startRuntime 1])).map (·.workers)
      = some [.poll false 100] := by rfl
  obtain ⟨s, hs, hw⟩ := Option.map_eq_some_iff.mp h
  have hr : (runtime dozeProgram).Reach BlocksIdle s :=
    System.run_guard_reach (fun a s h => by simpa [BlocksIdle] using h) ⟨[], 0, _, rfl⟩ hs
  exact ⟨s, hr, hw, (only_worker_blocks_idle hr 0).1 false 100 (by rw [hw]; rfl) (by decide)⟩

/-- **A woken task that waits for the next timer.**  One task sleeps for 5 ns, another for a second.
    The first timer is due when `try_poll_network` reads the clock: `check_timers` makes the task
    runnable, and the only worker goes to sleep for 100 ms. -/
theorem only_worker_blocks_runnable :
    ∃ s, (runtime dozeProgram).Reach Alone s ∧ s.workers = [.poll false 100] ∧
      s.sh.queue.runnable.map (·.id) = [0] := by
  have h : (((runtime dozeProgram).guard alone?).run
      (List.replicate 7 (Act.main {}) ++ List.replicate 17 (Act.worker 0 {}) ++ [.tick 5] ++
        [.worker 0 {}, .worker 0 { peek := ⟨5, 0⟩ }, .worker 0 {},
          .worker 0 { peek := ⟨1000000000, 1⟩ }, .worker 0 {}])
      (State.initial [] 0 [.go 5, .go 1000000000, .startRuntime 1])).map
        (fun s => (s.workers, s.sh.queue.runnable.map (·.id)))
      = some ([.poll false 100], [0]) := by rfl
  obtain ⟨s, hs, hst⟩ := Option.map_eq_some_iff.mp h
  obtain ⟨hw, hrun⟩ := Prod.mk.inj hst
  exact ⟨s, System.run_guard_reach (fun a s h => h) ⟨[], 0, _, rfl⟩ hs, hw, hrun⟩

end MyGoroutine
