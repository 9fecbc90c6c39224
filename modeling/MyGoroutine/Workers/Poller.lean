import MyGoroutine.Sched.Conservation
import MyGoroutine.Workers.Loop

namespace MyGoroutine

/-!
# Who polls

A worker that finds nothing to run tries to become the poller.  It may fail because another worker
holds `POLLING`, and goes idle in the belief that this worker will poll.  The holder, though, may
have looked at the fds and the timers before the last of them was added.

* `Shared.pending` — a timer or an fd to poll for;
* `Pc.willPoll` — the worker looks at the timers and fds once more before it sleeps or leaves;
* `missesPoll?` — a worker fails to get `POLLING`, and nobody else will poll;
* `missesPoll_holder` — then the holder of `POLLING` has looked too early;
* `pending_attended` — as long as this does not happen, what is pending has a worker awake;
* `pending_orphaned` — a timer that two sleeping workers have left to each other.
-/

variable {σ V : Type}

/-- There is something to poll for. -/
def Shared.pending (sh : Shared σ V) : Bool := sh.hasTimers || sh.net.hasWaiters

/-- Before it sleeps or leaves, the worker finds out what is pending; `timers` tells whether there
    are timers. -/
def Pc.willPoll (timers : Bool) : Pc σ V → Bool
  | .pollTimers false => timers
  | .termTimers => timers
  | .giveUp => false
  | .idleNet => false
  | .idleTimers _ => false
  | .goIdle _ _ => false
  | .blocked => false
  | .exited => false
  | _ => true

/-- The step is a failing `compare_exchange` on `POLLING`, while something is pending and all other
    workers are asleep, have left, or have looked for the last time. -/
def missesPoll? (a : Act) (s : State σ V) : Bool :=
  match a with
  | .worker w _ =>
    match s.workers[w]? with
    | some .tryPoll =>
      s.sh.polling && s.sh.pending &&
        (s.workers.eraseIdx w).all fun pc => !pc.willPoll s.sh.hasTimers
    | _ => false
  | _ => false

/-- No worker leaves the polling to one that will not poll. -/
def PollsInTime (a : Act) (s : State σ V) : Prop := missesPoll? a s = false

/-- What is pending has a worker that will find it. -/
def State.Watched (s : State σ V) : Prop :=
  s.sh.pending = true → ∃ pc ∈ s.workers, pc.willPoll s.sh.hasTimers = true

/-! ### Steps

What is pending has to be seen by somebody who polls. A worker looks out for it from the top of its
loop until it has made its last look before it sleeps or leaves; a step either goes on with the
look-out, or has looked and found nothing.
-/

section Steps

variable {P : Program σ V} {ch : Choice} {free : Bool} {sh : Shared σ V} {t : Task σ V}
  {pc : Pc σ V} {e : Effect σ V}

/-- A worker with a task will come to the poll. -/
theorem willPoll_of_task? {timers : Bool} {t : Task σ V} (h : pc.task? = some t) :
    pc.willPoll timers = true := by
  cases pc <;> first | rfl | cases h

/-- A worker that leaves `check_timers` will come to the poll again. -/
theorem willPoll_timersDone {timers : Bool} (ph : Phase) (w : Option Instant) :
    (timersDone ph w : Pc σ V).willPoll timers = true := by
  rcases ph with (_ | _) | _ <;> cases w <;> rfl

/-- A worker at `pop_front` gets a task, or goes where it would. -/
theorem willPoll_tryPop {timers : Bool} {otherwise : Pc σ V}
    (h : otherwise.willPoll timers = true) :
    (tryPop sh otherwise).pc.willPoll timers = true := by
  unfold tryPop
  split
  · exact h
  · rfl

/-- **What a step does to the look-out**: the worker goes on looking, or changes neither the timers
    nor the fds, and would not have looked, or fails to become the poller. -/
theorem WorkerStep.willPoll (hs : WorkerStep P ch free sh pc e) (hp : e.sh.pending = true) :
    e.pc.willPoll e.sh.hasTimers = true ∨
    (e.sh.timerHeap = sh.timerHeap ∧ e.sh.net = sh.net) ∧
      (pc.willPoll sh.hasTimers = false ∨ pc = .tryPoll ∧ sh.polling = true) := by
  cases hs with
  | casFail h => exact .inr ⟨⟨rfl, rfl⟩, .inr ⟨rfl, h⟩⟩
  | pollNet =>
    -- nothing that is pending escapes the two looks, unless it is added between them
    left
    cases hn : sh.net.hasWaiters with
    | true => rfl
    | false =>
      show sh.hasTimers = true
      simpa [Shared.pending, hn] using hp
  | termNetNo hn =>
    left
    show sh.hasTimers = true
    simpa [Shared.pending, hn] using hp
  | pollTimersNone hh =>
    refine .inr ⟨⟨rfl, rfl⟩, .inl ?_⟩
    show sh.hasTimers = false
    rw [Shared.hasTimers, hh]
    rfl
  | termExit ht =>
    refine .inr ⟨⟨rfl, rfl⟩, .inl ?_⟩
    exact (shouldTerminate_inv ht).2.2.1
  | giveUp | idleNet | idleTimers => exact .inr ⟨⟨rfl, rfl⟩, .inl rfl⟩
  | goIdle =>
    refine .inr ⟨?_, .inl rfl⟩
    simp only [idleStep]
    split <;> exact ⟨rfl, rfl⟩
  | notified =>
    left
    simp only [wakeStep]
    split
    · rfl
    · exact willPoll_tryPop rfl
  | top | termNetYes | termStay => exact .inl (willPoll_tryPop rfl)
  | timersEmpty | timersWait => exact .inl (willPoll_timersDone _ _)
  | run hs =>
    obtain ⟨u, hu⟩ := hs.task?
    exact .inl (willPoll_of_task? hu)
  | _ => exact .inl rfl

/-- The worker holds `POLLING`. -/
def Pc.holdsPolling : Pc σ V → Nat
  | .pollNet => 1
  | .pollTimers _ => 1
  | .giveUp => 1
  | .timersNow _ => 1
  | .timersLock _ _ => 1
  | .timersReady _ _ _ => 1
  | .timeout _ _ => 1
  | .nothingLeft => 1
  | .poll _ _ => 1
  | .sleeping _ => 1
  | .lookup _ => 1
  | .release _ => 1
  | _ => 0

/-- Blocking and waking a worker takes and releases no `POLLING`. -/
theorem silent_holdsPolling : Silent (Pc.holdsPolling : Pc σ V → Nat) := ⟨rfl, fun _ => rfl⟩

/-- A worker with a task does not hold `POLLING`. -/
theorem holdsPolling_of_task? {t : Task σ V} (h : pc.task? = some t) : pc.holdsPolling = 0 := by
  cases pc <;> first | rfl | cases h

/-- A worker that leaves `check_timers` still holds `POLLING`. -/
theorem holdsPolling_timersDone (ph : Phase) (w : Option Instant) :
    (timersDone ph w : Pc σ V).holdsPolling = 1 := by
  rcases ph with (_ | _) | _ <;> cases w <;> rfl

/-- `goready` leaves `POLLING` alone. -/
theorem goready_polling (sh : Shared σ V) (waker : Waker) (id : TaskId) :
    (sh.goready waker id).1.polling = sh.polling :=
  beside_polling.goready sh waker id

/-- `pop_front` leaves `POLLING` alone. -/
theorem tryPop_polling (sh : Shared σ V) (otherwise : Pc σ V) :
    (tryPop sh otherwise).sh.polling = sh.polling :=
  beside_polling.tryPop sh otherwise

/-- `pop_front` takes no `POLLING`. -/
theorem holdsPolling_tryPop {otherwise : Pc σ V} (h : otherwise.holdsPolling = 0) :
    (tryPop sh otherwise).pc.holdsPolling = 0 := by
  unfold tryPop
  split
  · exact h
  · rfl

/-- No task touches `POLLING`. -/
theorem TaskStep.polling (hs : TaskStep P ch free sh t e) : e.sh.polling = sh.polling := by
  cases hs with
  | chanPoisoned | chanClosed | recvUnwrap | groupPanic | sleepOverflow | netFail => rw [raise_sh]; rfl
  | close | add => rw [finish_sh]; rfl
  | goready | wakeMore => exact goready_polling _ _ _
  | wakeLast => exact goready_polling _ _ _
  | _ => rfl

/-- `POLLING` is taken and released by the worker that holds it. -/
theorem WorkerStep.polling (hs : WorkerStep P ch free sh pc e)
    (hle : pc.holdsPolling ≤ sh.polling.toNat) :
    e.sh.polling.toNat + pc.holdsPolling = sh.polling.toNat + e.pc.holdsPolling := by
  have hheld : pc.holdsPolling = 1 → sh.polling.toNat = 1 := by
    intro h1
    have := Bool.toNat_le sh.polling
    omega
  cases hs with
  | casWin h => rw [h]; rfl
  | giveUp | nothingLeft | release => rw [hheld rfl]; rfl
  | timersEmpty | timersWait => rw [holdsPolling_timersDone]; rfl
  | timersReady | wakeReady => rw [goready_polling]; rfl
  | top | termNetYes | termStay => rw [tryPop_polling, holdsPolling_tryPop rfl]; rfl
  | goIdle =>
    simp only [idleStep]
    split <;> rfl
  | notified =>
    simp only [wakeStep]
    split
    · rfl
    · rw [tryPop_polling, holdsPolling_tryPop rfl]
      rfl
  | park =>
    unfold Shared.parkTask
    split <;> rfl
  | run hs =>
    obtain ⟨u, hu⟩ := hs.task?
    rw [hs.polling, holdsPolling_of_task? hu]
    rfl
  | _ => rfl

end Steps

/-! ### Runs

The only step that gives up with something pending is a failing `compare_exchange`, which relies on
the holder of `POLLING`. The condition says that in this step somebody else is still looking.
-/

section Runs

variable {P : Program σ V} {ok : Act → State σ V → Prop} {s : State σ V}

/-- Nobody but the workers touches `POLLING`. -/
theorem OuterStep.polling {s s' : State σ V} (h : OuterStep s s') :
    s'.sh.polling = s.sh.polling := by
  cases h with
  | go hsh => rw [hsh]
  | push hsh => rw [hsh]; rfl
  | same hsh => exact hsh.polling

/-- **`POLLING` is set while a worker holds it**, and one worker at most does. -/
theorem reach_polling (hr : (runtime P).Reach ok s) :
    s.total Pc.holdsPolling = s.sh.polling.toNat := by
  refine hr.invariant (I := fun s => s.total Pc.holdsPolling = s.sh.polling.toNat) ?_ ?_
  · rintro s ⟨caps, groups, calls, rfl⟩
    rfl
  · intro s s' a _ h _ hn
    rcases (next_inv hn).2.cases with ⟨w, ch, pc, e, -, hw, hs, hmove⟩ | ⟨ho, hmove⟩
    · have hle : pc.holdsPolling ≤ s.sh.polling.toNat := by
        rw [← h]
        exact Slots.le_sum_map Pc.holdsPolling hw
      have h1 := hs.polling hle
      have h2 := hmove.total _ silent_holdsPolling
      rw [hmove.sh]
      omega
    · rw [hmove.total _ silent_holdsPolling, ho.polling]
      exact h

/-- What is pending is watched, in every state reached. -/
theorem reach_watched (hr : (runtime P).Reach PollsInTime s) : s.Watched := by
  refine hr.invariant ?_ ?_
  · rintro s ⟨caps, groups, calls, rfl⟩ hp
    cases hp
  · intro s s' a hr h hok hn
    obtain ⟨-, hn⟩ := next_inv hn
    cases hn with
    | @worker w ch pc e ws hw hs hnot =>
      intro hp
      have hlt := (List.getElem?_eq_some_iff.mp hw).1
      rcases hs.willPoll hp with hself | ⟨⟨hheap, hnet⟩, hlast⟩
      · refine ⟨e.pc, List.mem_append_left _ (List.mem_of_getElem? (hnot.getElem?
          (List.getElem?_set_self hlt) ?_)), hself⟩
        intro hb
        rw [hb] at hself
        cases hself
      · have htimers : e.sh.hasTimers = s.sh.hasTimers := by rw [Shared.hasTimers, hheap]; rfl
        have hpend : s.sh.pending = true := by
          rw [Shared.pending, ← htimers, ← hnet]
          exact hp
        -- somebody else watches, before the step and after it
        obtain ⟨j, pc', hj, hjw, hpoll⟩ : ∃ (j : Nat) (pc' : Pc σ V),
            s.workers[j]? = some pc' ∧ j ≠ w ∧ pc'.willPoll s.sh.hasTimers = true := by
          rcases hlast with hno | ⟨rfl, hpolling⟩
          · obtain ⟨pc', hpc', hpoll⟩ := h hpend
            obtain ⟨j, hj⟩ := List.mem_iff_getElem?.mp hpc'
            refine ⟨j, pc', hj, ?_, hpoll⟩
            rintro rfl
            rw [hw] at hj
            cases hj
            rw [hno] at hpoll
            cases hpoll
          · simp only [PollsInTime, missesPoll?, hw, hpolling, hpend, Bool.true_and,
              List.all_eq_false, Bool.not_eq_true, Bool.not_eq_false'] at hok
            obtain ⟨pc', hpc', hpoll⟩ := hok
            obtain ⟨j, hjw, hj⟩ := List.mem_eraseIdx_iff_getElem?.mp hpc'
            exact ⟨j, pc', hj, hjw, hpoll⟩
        have hj' : (s.workers.set w e.pc)[j]? = some pc' := by
          rw [List.getElem?_set_ne (Ne.symm hjw)]
          exact hj
        refine ⟨pc', List.mem_append_left _ (List.mem_of_getElem? (hnot.getElem? hj' ?_)), ?_⟩
        · rintro rfl
          cases hpoll
        · show pc'.willPoll e.sh.hasTimers = true
          rw [htimers]
          exact hpoll
    | main hs =>
      cases hs with
      | goPush _ _ hnot =>
        intro hp
        obtain ⟨pc, hpc, hpoll⟩ := h hp
        obtain ⟨j, hj⟩ := List.mem_iff_getElem?.mp hpc
        refine ⟨pc, List.mem_of_getElem? (hnot.getElem? hj ?_), hpoll⟩
        rintro rfl
        cases hpoll
      | spawn =>
        intro hp
        obtain ⟨pc, hpc, hpoll⟩ := h hp
        exact ⟨pc, List.mem_append_left _ hpc, hpoll⟩
      | go | start | spawned | joined | join => exact h
    | @spurious w hw =>
      intro _
      have hlt := (List.getElem?_eq_some_iff.mp hw).1
      exact ⟨_, List.mem_of_getElem? (List.getElem?_set_self hlt), rfl⟩
    | tick | setReadable => exact h

/-- Who fails to get `POLLING` with nobody else to poll: the holder has given up, or has seen no
    fds and finds no timers. -/
theorem missesPoll_holder (hr : (runtime P).Reach ok s) {a : Act} (h : missesPoll? a s = true) :
    .giveUp ∈ s.workers ∨ .pollTimers false ∈ s.workers ∧ s.sh.hasTimers = false := by
  unfold missesPoll? at h
  split at h
  · rename_i w ch
    split at h
    · rename_i hw
      simp only [Bool.and_eq_true, List.all_eq_true, Bool.not_eq_true'] at h
      obtain ⟨⟨hpolling, -⟩, hall⟩ := h
      have hpos : 0 < s.total Pc.holdsPolling := by
        rw [reach_polling hr, hpolling]
        decide
      obtain ⟨j, pc, hj, hholds⟩ := Slots.exists_pos_of_sum_pos hpos
      have hpc : pc ∈ s.workers := List.mem_of_getElem? hj
      have hjw : j ≠ w := by
        rintro rfl
        rw [hw] at hj
        cases hj
        cases hholds
      have hlast := hall pc (List.mem_eraseIdx_iff_getElem?.mpr ⟨j, hjw, hj⟩)
      -- of the points at which a worker holds `POLLING`, these are past the last look
      cases pc with
      | giveUp => exact .inl hpc
      | pollTimers net =>
        cases net with
        | false => exact .inr ⟨hpc, hlast⟩
        | true => cases hlast
      | tryPoll | run | switched | start | top | wakeReady | idleNet | idleTimers | goIdle | blocked
      | notified | termNet | termTimers | exited => cases hholds
      | _ => cases hlast
    · cases h
  · cases h

/-- **Nothing that is pending is orphaned.**  In every state reached by a run in which nobody fails
    to get `POLLING` when all others have looked too early: while all workers have registered, and
    each that has not left is blocked in `condvar.wait`, there are no timers and no net waiters. -/
theorem pending_attended (hr : (runtime P).Reach PollsInTime s)
    (hall : ∀ pc ∈ s.workers, pc = .blocked ∨ pc = .exited) :
    s.sh.timerHeap = [] ∧ s.sh.net.hasWaiters = false := by
  have hp : s.sh.pending = false := by
    by_contra hne
    obtain ⟨pc, hpc, hpoll⟩ := reach_watched hr (by simpa using hne)
    rcases hall pc hpc with rfl | rfl <;> cases hpoll
  simpa [Shared.pending, Shared.hasTimers] using hp

end Runs

/-- One worker polls for the timer, wakes the task and leaves. -/
theorem pending_attended_alone :
    ∃ s, ((runtime napProgram).guard fun a s => !missesPoll? a s).run
        (List.replicate 5 (Act.main {}) ++ List.replicate 7 (Act.worker 0 {}) ++
          Act.tick 5 :: List.replicate 5 (Act.worker 0 {}) ++
          Act.worker 0 { peek := ⟨5, 0⟩ } :: List.replicate 15 (Act.worker 0 {}))
        (State.initial [] 0 [.go true, .startRuntime 1]) = some s ∧
      s.workers = [.exited] ∧ s.sh.timerHeap = [] ∧ s.sh.net.hasWaiters = false := by
  have h : (((runtime napProgram).guard fun a s => !missesPoll? a s).run
      (List.replicate 5 (Act.main {}) ++ List.replicate 7 (Act.worker 0 {}) ++
        Act.tick 5 :: List.replicate 5 (Act.worker 0 {}) ++
        Act.worker 0 { peek := ⟨5, 0⟩ } :: List.replicate 15 (Act.worker 0 {}))
      (State.initial [] 0 [.go true, .startRuntime 1])).map (fun s => s.workers)
      = some [.exited] := by rfl
  obtain ⟨s, hs, hw⟩ := Option.map_eq_some_iff.mp h
  have hr : (runtime napProgram).Reach PollsInTime s :=
    System.run_guard_reach (fun a s h => by simpa [PollsInTime] using h) ⟨[], 0, _, rfl⟩ hs
  exact ⟨s, hs, hw, pending_attended hr fun pc hpc => by simp_all⟩

/-- **An orphaned timer.**  Worker 1 finds nothing to poll for and is about to clear `POLLING`, when
    the task on worker 0 goes to sleep.  Worker 0 fails to become the poller, and both go idle: they
    sleep in `condvar.wait`, and the timer is in the heap. -/
theorem pending_orphaned :
    ∃ s, (runtime napProgram).Reachable s ∧ s.workers = [.blocked, .blocked] ∧
      s.sh.timerHeap = [⟨5, 0⟩] := by
  have h : ((runtime napProgram).run
      (List.replicate 6 (Act.main {}) ++ [Act.worker 0 {}, Act.worker 1 {}] ++
        List.replicate 3 (Act.worker 0 {}) ++ List.replicate 4 (Act.worker 1 {}) ++
        List.replicate 8 (Act.worker 0 {}) ++ List.replicate 4 (Act.worker 1 {}))
      (State.initial [] 0 [.go true, .startRuntime 2])).map (fun s => (s.workers, s.sh.timerHeap))
      = some ([.blocked, .blocked], [⟨5, 0⟩]) := by rfl
  obtain ⟨s, hs, hst⟩ := Option.map_eq_some_iff.mp h
  obtain ⟨hw, hheap⟩ := Prod.mk.inj hst
  exact ⟨s, System.run_reachable (M := runtime napProgram) ⟨[], 0, _, rfl⟩ hs, hw, hheap⟩

end MyGoroutine
