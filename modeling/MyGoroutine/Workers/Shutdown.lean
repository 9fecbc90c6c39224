import MyGoroutine.Workers.Poller
import MyGoroutine.Workers.Finish

namespace MyGoroutine

/-!
# Shutdown

When no work is left, the last worker to go idle finds `idle_workers == all_workers`, leaves, and
wakes the others.  It stays counted as idle, and so each of the others, once it has counted itself
out again, finds the two counters equal and leaves as well: the cascade runs on a counter that is
off by one.  A worker that registers after the first exit, or takes a task, finds the counters off
when it goes idle, and sleeps for ever.

* `State.Hung` — no work is left, and a worker sleeps with nobody awake;
* `registersLate?`, `takesAfterExit?`, `idlesStale?` — the three ways into such a state;
* `State.Closing`, `reach_closing` — the run up to the first exit, the cascade, and runs in which
  something is left behind;
* `shutdown_complete` — no state is hung;
* `shutdown_late`, `shutdown_stale` — a worker that registers late, and one with stale samples.
-/

variable {σ V : Type}

/-- The worker has popped an entry of the heap, and is about to call `goready` for it. -/
def Pc.fires : Pc σ V → Bool
  | .timersReady _ _ _ => true
  | _ => false

/-- The worker has been woken and tests whether to leave, or it has left or not started. -/
def Pc.closes : Pc σ V → Bool
  | .start _ => true
  | .notified => true
  | .termNet => true
  | .termTimers => true
  | .exited => true
  | _ => false

/-- The worker is between `condvar.wait` and its decision to leave. -/
def Pc.decides : Pc σ V → Nat
  | .termNet => 1
  | .termTimers => 1
  | _ => 0

/-- No work is left, some worker sleeps in `condvar.wait`, and all others sleep too or have left. -/
structure State.Hung (s : State σ V) : Prop where
  noTasks : s.sh.queue.noTasks = true
  pending : s.sh.pending = false
  sleeps : .blocked ∈ s.workers
  all : ∀ pc ∈ s.workers, pc = .blocked ∨ pc = .exited

/-- A worker registers after some worker has left. -/
def registersLate? (a : Act) (s : State σ V) : Bool :=
  match a with
  | .worker w _ =>
    match s.workers[w]? with
    | some (.start _) => s.workers.any Pc.isExited
    | _ => false
  | _ => false

/-- A worker takes a task after some worker has left. -/
def takesAfterExit? (a : Act) (s : State σ V) : Bool :=
  match a with
  | .worker w _ =>
    s.workers[w]?.any Pc.pops && !s.sh.queue.runnable.isEmpty && s.workers.any Pc.isExited
  | _ => false

/-- A worker goes to sleep because of its samples of the fds and the timers, which are out of date:
    with fresh ones it would leave. -/
def idlesStale? (a : Act) (s : State σ V) : Bool :=
  match a with
  | .worker w _ =>
    match s.workers[w]? with
    | some (.goIdle net timers) =>
      (net || timers) && !s.sh.pending &&
        { s.sh.queue with idleWorkers := s.sh.queue.idleWorkers + 1 }.shouldTerminate false false
    | _ => false
  | _ => false

/-- After the first exit no worker registers and none takes a task, and no worker goes to sleep on
    stale samples. -/
def ClosesInOrder (a : Act) (s : State σ V) : Prop :=
  (registersLate? a s || takesAfterExit? a s || idlesStale? a s) = false

/-- How far the shutdown is. -/
inductive State.Closing (s : State σ V) : Prop where
  /-- Nobody has left. -/
  | working (hno : .exited ∉ s.workers) (hfresh : ¬ s.Hung)
  /-- The cascade: whoever has registered is on the way out. -/
  | leaving (hex : .exited ∈ s.workers) (hall : ∀ pc ∈ s.workers, pc.closes = true)
      (hq : s.sh.queue.noTasks = true) (hp : s.sh.pending = false)
      (hcount : s.sh.queue.idleWorkers + s.total Pc.decides = s.sh.queue.allWorkers + 1)
      (hone : s.total Pc.decides ≤ 1)
  /-- Something is left that no worker will take care of. -/
  | cluttered (hex : .exited ∈ s.workers) (hfree : ∀ pc ∈ s.workers, pc.task? = none)
      (hleft : s.sh.queue.noTasks = false ∨ s.sh.pending = true ∨ ∃ pc ∈ s.workers, pc.fires = true)

/-! ### Steps

The shutdown goes through phases: nobody has left; the cascade, in which every worker that is woken
finds nothing to do and leaves; or, after an exit, something is left that no worker will take care
of. Each lemma says which phase a step leads to.
-/

section Steps

variable {P : Program σ V} {ch : Choice} {free : Bool} {sh : Shared σ V} {pc : Pc σ V}
  {e : Effect σ V} {s s' : State σ V} {w : Nat}

/-- A state in which a closing run has not come to its end is not hung. -/
theorem State.Closing.not_hung (h : s.Closing) : ¬ s.Hung := by
  intro hh
  cases h with
  | working _ hfresh => exact hfresh hh
  | leaving _ hall => exact absurd (hall _ hh.sleeps) (by simp [Pc.closes])
  | cluttered _ _ hleft =>
    rcases hleft with hq | hp | ⟨pc, hpc, hf⟩
    · rw [hh.noTasks] at hq
      cases hq
    · rw [hh.pending] at hp
      cases hp
    · rcases hh.all pc hpc with rfl | rfl <;> cases hf

/-- A queue that a task has been pushed to is not empty. -/
@[simp] theorem noTasks_pushBack (q : GlobalQueue σ V) (t : Task σ V) :
    (q.pushBack t).noTasks = false := by
  simp [GlobalQueue.noTasks, GlobalQueue.pushBack]

/-- A queue in which a task has been woken is not empty. -/
@[simp] theorem noTasks_wake (q : GlobalQueue σ V) (t : Task σ V) (id : TaskId) :
    (q.wake t id).noTasks = false := by
  simp [GlobalQueue.noTasks, GlobalQueue.wake]

/-- A queue in which a token has been left is not empty. -/
@[simp] theorem noTasks_addPending (q : GlobalQueue σ V) (id : TaskId) :
    (q.addPending id).noTasks = false := by
  simp [GlobalQueue.noTasks, GlobalQueue.addPending]

/-- `goready` queues a task or leaves a token. -/
theorem noTasks_goready (waker : Waker) (id : TaskId) :
    (sh.goready waker id).1.queue.noTasks = false := by
  unfold Shared.goready
  split
  · exact noTasks_wake _ _ _
  · exact noTasks_addPending _ _

/-- A worker that gets no task at `pop_front` leaves the queue alone. -/
theorem tryPop_of_task?_none {otherwise : Pc σ V} (h : (tryPop sh otherwise).pc.task? = none) :
    tryPop sh otherwise = { sh, pc := otherwise } := by
  unfold tryPop at h ⊢
  split at h
  · rfl
  · cases h

/-- **What is left stays left**, while the workers hold no tasks. -/
theorem WorkerStep.leaves_behind (hs : WorkerStep P ch free sh pc e) (hnone : pc.task? = none)
    (hnone' : e.pc.task? = none)
    (h : sh.queue.noTasks = false ∨ sh.pending = true ∨ pc.fires = true) :
    e.sh.queue.noTasks = false ∨ e.sh.pending = true ∨ e.pc.fires = true := by
  cases hs with
  | timersPop => exact .inr (.inr rfl)
  | timersReady | wakeReady => exact .inl (noTasks_goready _ _)
  | top | termNetYes | termStay =>
    rw [tryPop_of_task?_none hnone']
    exact h.imp_right (Or.imp_right fun hf => by cases hf)
  | notified =>
    simp only [wakeStep] at hnone' ⊢
    split at hnone' <;> rename_i hq
    · rw [if_pos hq]
      exact h.imp_right (Or.imp_right fun hf => by cases hf)
    · exact .inl (by rw [if_neg hq, tryPop_of_task?_none hnone']; simpa using hq)
  | goIdle =>
    simp only [idleStep]
    split <;> exact h.imp_right (Or.imp_right fun hf => by cases hf)
  | run | drop | park | requeue => cases hnone
  | _ => exact h.imp_right (Or.imp_right fun hf => by cases hf)

/-- `should_terminate` says yes when no task, no waiter and no timer is left and all workers are
    idle. -/
theorem shouldTerminate_of {q : GlobalQueue σ V} (hq : q.noTasks = true)
    (hcount : q.idleWorkers = q.allWorkers) : q.shouldTerminate false false = true := by
  simp [GlobalQueue.shouldTerminate, hq, hcount]

/-- Blocking and waking a worker does not make it decide. -/
theorem silent_decides : Silent (Pc.decides : Pc σ V → Nat) := ⟨rfl, fun _ => rfl⟩

/-- A worker that is closing down keeps on doing so, whoever wakes it. -/
theorem kept_closes : Kept (fun pc : Pc σ V => pc.closes = true) := ⟨fun _ => rfl, fun _ => rfl⟩

/-- Being woken gives a worker no task. -/
theorem kept_task?_none : Kept (fun pc : Pc σ V => pc.task? = none) := ⟨fun _ => rfl, fun _ => rfl⟩

/-- The idle path touches the counters only. -/
theorem idleStep_noTasks (net timers : Bool) (sh : Shared σ V) :
    (idleStep net timers sh).sh.queue.noTasks = sh.queue.noTasks ∧
      (idleStep net timers sh).sh.pending = sh.pending := by
  simp only [idleStep]
  split <;> exact ⟨rfl, rfl⟩

/-- A worker that is not awake closes once it is woken. -/
theorem closes_wakeUp (h : pc.awake = 0) : pc.wakeUp.closes = true := by
  cases pc <;> first | rfl | cases h

/-- Only a worker that is awake can decide to leave: the others are in `condvar.wait`, or gone. -/
theorem decides_of_awake (h : pc.awake = 0) : pc.decides = 0 := by
  cases pc <;> first | rfl | cases h

/-- A worker that is closing down has no task. -/
theorem task?_of_closes (h : pc.closes = true) : pc.task? = none := by
  cases pc <;> first | rfl | cases h

/-- No worker decides while the queue mutex is free. -/
theorem total_decides_of_free (h : queueFree s.workers = true) : s.total Pc.decides = 0 := by
  refine Slots.sum_map_eq_zero fun pc hpc => ?_
  have hfree := List.all_eq_true.mp h pc hpc
  cases pc <;> first | rfl | cases hfree

/-- A worker that leaves wakes all others. -/
theorem Notified.closes {ws ws' : List (Pc σ V)} (h : Notified ws .all ws')
    (hall : ∀ pc ∈ ws, pc = .exited ∨ pc.awake = 0) : ∀ pc ∈ ws', pc.closes = true := by
  cases h
  intro pc hpc
  obtain ⟨pc', hpc', rfl⟩ := List.mem_map.mp hpc
  rcases hall pc' hpc' with rfl | h0
  · rfl
  · exact closes_wakeUp h0

/-- **The first exit** starts the cascade, or leaves something behind. -/
theorem State.Closing.of_exit (hc : s.Counted)
    (hidle : s.sh.queue.idleWorkers = s.total Pc.waits) (hw : s.workers[w]? = some pc)
    (hs : WorkerStep P ch free s.sh pc e) (he : e.pc = .exited)
    (hmove : WorkerMove s s' w pc e) (hall : ∀ pc ∈ s'.workers, pc.closes = true) : s'.Closing := by
  have hothers : ∀ (j : Nat) (pc' : Pc σ V), s.workers[j]? = some pc' → j ≠ w → pc'.awake = 0 :=
    fun j pc' hj hne => first_exit hidle hc hw hs.loop he hj hne
  have hex : .exited ∈ s'.workers := by
    refine he ▸ List.mem_of_getElem? (hmove.at_ ?_)
    rw [he]
    simp
  obtain ⟨hq, -, ha, ⟨⟨net, timers, rfl⟩, hcount, hi⟩ | ⟨rfl, hcount, -⟩⟩ := hs.loop.exited he
  · obtain ⟨hq', hp'⟩ : e.sh.queue.noTasks = s.sh.queue.noTasks ∧ e.sh.pending = s.sh.pending := by
      cases hs
      exact idleStep_noTasks net timers s.sh
    rw [← hmove.sh] at hq' hp' ha hi
    cases hp : s.sh.pending with
    | true =>
      exact .cluttered hex (fun pc hpc => task?_of_closes (hall pc hpc)) (.inr (.inl (hp'.trans hp)))
    | false =>
      have hnone : s.total Pc.decides = 0 := by
        refine Slots.sum_map_eq_zero fun pc hpc => ?_
        obtain ⟨j, hj⟩ := List.mem_iff_getElem?.mp hpc
        by_cases hjw : j = w
        · subst hjw
          rw [hw] at hj
          cases hj
          rfl
        · exact decides_of_awake (hothers j pc hj hjw)
      have hdec := hmove.total _ silent_decides
      rw [he] at hdec
      have hzero : s'.total Pc.decides = 0 := by
        simp only [Pc.decides] at hdec
        omega
      exact .leaving hex hall (hq'.trans hq) (hp'.trans hp) (by omega) (by omega)
  · -- before the first exit, a worker that is awake is not counted as idle
    exfalso
    have hsum := total_registered s
    have hawake := Slots.le_sum_map Pc.awake hw
    have hone : 1 ≤ s.total Pc.awake := hawake
    rw [hidle, hc.all] at hcount
    omega

/-- **The last worker to go to sleep** before the first exit leaves work undone. -/
theorem not_hung_of_sleep (hok : idlesStale? (.worker w ch) s = false)
    (hw : s.workers[w]? = some pc) (hs : WorkerStep P ch free s.sh pc e) (he : e.pc = .blocked)
    (hmove : WorkerMove s s' w pc e) (hc' : s'.Counted)
    (hidle' : s'.sh.queue.idleWorkers = s'.total Pc.waits) (hno' : .exited ∉ s'.workers) :
    ¬ s'.Hung := by
  intro hh
  obtain ⟨net, timers, rfl⟩ := hs.loop.blocked he
  cases hs
  have hterm : { s.sh.queue with idleWorkers := s.sh.queue.idleWorkers + 1 }.shouldTerminate
      net timers = false := by
    by_contra hterm
    rw [idleStep_of_terminate (by simpa using hterm)] at he
    cases he
  obtain ⟨hq, hp⟩ := idleStep_noTasks net timers s.sh
  have hcounters : (idleStep net timers s.sh).sh
      = s.sh.withQueue { s.sh.queue with idleWorkers := s.sh.queue.idleWorkers + 1 } := by
    rw [idleStep_of_stay hterm]
  rw [← hmove.sh] at hq hp hcounters
  -- everybody is in `condvar.wait`, and the counters say so
  have hsum : s'.total Pc.waits = s'.total Pc.registered :=
    congrArg List.sum (List.map_congr_left fun pc hpc => by
      rcases hh.all pc hpc with rfl | rfl
      · rfl
      · exact absurd hpc hno')
  have heq : s.sh.queue.idleWorkers + 1 = s.sh.queue.allWorkers := by
    rw [← hc'.all, ← hidle', hcounters] at hsum
    exact hsum
  have hq0 : s.sh.queue.noTasks = true := hq.symm.trans hh.noTasks
  have hp0 : s.sh.pending = false := hp.symm.trans hh.pending
  have hfresh : { s.sh.queue with idleWorkers := s.sh.queue.idleWorkers + 1 }.shouldTerminate
      false false = true :=
    shouldTerminate_of hq0 heq
  have hsamples : (net || timers) = false := by
    simpa [idlesStale?, hw, hfresh, hp0] using hok
  rw [Bool.or_eq_false_iff] at hsamples
  rw [hsamples.1, hsamples.2, hfresh] at hterm
  cases hterm

/-- **A step of the cascade**: a worker wakes up, looks at the fds and the timers, and leaves. -/
theorem State.Closing.cascade (hex : .exited ∈ s.workers)
    (hall : ∀ pc ∈ s.workers, pc.closes = true) (hq : s.sh.queue.noTasks = true)
    (hp : s.sh.pending = false)
    (hcount : s.sh.queue.idleWorkers + s.total Pc.decides = s.sh.queue.allWorkers + 1)
    (hone : s.total Pc.decides ≤ 1) (hc : s.Counted)
    (hlate : registersLate? (.worker w ch) s = false) (hw : s.workers[w]? = some pc)
    (hs : WorkerStep P ch (queueFree s.workers) s.sh pc e) (hmove : WorkerMove s s' w pc e) :
    s'.Closing := by
  have hmem := List.mem_of_getElem? hw
  have hcl := hall pc hmem
  have hex' := exited_stays hs.loop hmove hex
  have hall' : e.pc.closes = true → ∀ pc ∈ s'.workers, pc.closes = true := fun he =>
    hmove.forall_mem _ kept_closes (fun j pc' _ hj => hall pc' (List.mem_of_getElem? hj)) he
  have hdec := hmove.total _ silent_decides
  have hle : pc.decides ≤ s.total Pc.decides := Slots.le_sum_map Pc.decides hw
  cases hs with
  | register =>
    have hany : s.workers.any Pc.isExited = true := List.any_eq_true.mpr ⟨_, hex, rfl⟩
    simp [registersLate?, hw, hany] at hlate
  | notified hf =>
    have hzero := total_decides_of_free hf
    have hstep : wakeStep s.sh = { sh := s.sh.withQueue { s.sh.queue with
        idleWorkers := s.sh.queue.idleWorkers - 1 }, pc := .termNet } := if_pos hq
    rw [hstep] at hall' hdec
    have hsh : s'.sh = s.sh.withQueue { s.sh.queue with
        idleWorkers := s.sh.queue.idleWorkers - 1 } := by rw [hmove.sh, hstep]
    simp only [Pc.decides] at hdec
    refine .leaving hex' (hall' rfl) (by rw [hsh]; exact hq) (by rw [hsh]; exact hp) ?_ (by omega)
    rw [hsh]
    show s.sh.queue.idleWorkers - 1 + _ = s.sh.queue.allWorkers + 1
    omega
  | termNetYes hn =>
    simp [Shared.pending, hn] at hp
  | termNetNo =>
    have hsh : s'.sh = s.sh := hmove.sh
    simp only [Pc.decides] at hdec
    refine .leaving hex' (hall' rfl) (by rw [hsh]; exact hq) (by rw [hsh]; exact hp) ?_ (by omega)
    rw [hsh]
    omega
  | termExit =>
    have hreg : 1 ≤ s.sh.queue.allWorkers := hc.registered_le hw
    have hsh : s'.sh = s.sh.withQueue { s.sh.queue with
        allWorkers := s.sh.queue.allWorkers - 1 } := hmove.sh
    have hdec' : s'.total Pc.decides + 1 = s.total Pc.decides + 0 := hdec
    refine .leaving hex' (hall' rfl) (by rw [hsh]; exact hq) (by rw [hsh]; exact hp) ?_ (by omega)
    rw [hsh]
    show s.sh.queue.idleWorkers + _ = s.sh.queue.allWorkers - 1 + 1
    omega
  | termStay ht =>
    -- the counters are equal while the worker decides
    exfalso
    simp only [Pc.decides] at hle
    have htimers : s.sh.hasTimers = false := (Bool.or_eq_false_iff.mp hp).1
    rw [htimers, shouldTerminate_of hq (by omega)] at ht
    cases ht
  | _ => cases hcl

/-- **A step of a worker that holds no task**, when something is left behind. -/
theorem State.Closing.clutter {ws : List (Pc σ V)} (hex : .exited ∈ s.workers)
    (hfree : ∀ pc ∈ s.workers, pc.task? = none)
    (hleft : s.sh.queue.noTasks = false ∨ s.sh.pending = true ∨ ∃ pc ∈ s.workers, pc.fires = true)
    (htakes : takesAfterExit? (.worker w ch) s = false) (hw : s.workers[w]? = some pc)
    (hs : WorkerStep P ch free s.sh pc e) (hmove : WorkerMove s s' w pc e)
    (hn : Notified (s.workers.set w e.pc) e.notify ws) (hws : ∀ pc ∈ ws, pc ∈ s'.workers) :
    s'.Closing := by
  have hnone := hfree pc (List.mem_of_getElem? hw)
  have hnone' : e.pc.task? = none := by
    cases hu : e.pc.task? with
    | none => rfl
    | some u =>
      obtain ⟨hpops, hrunnable⟩ := hs.takes hnone hu
      have hany : s.workers.any Pc.isExited = true := List.any_eq_true.mpr ⟨_, hex, rfl⟩
      simp [takesAfterExit?, hw, hpops, hrunnable, hany] at htakes
  have hex' := exited_stays hs.loop hmove hex
  refine .cluttered hex' (hmove.forall_mem _ kept_task?_none
    (fun j pc' _ hj => hfree pc' (List.mem_of_getElem? hj)) hnone') ?_
  have hkeep : s.sh.queue.noTasks = false ∨ s.sh.pending = true ∨ pc.fires = true →
      s'.sh.queue.noTasks = false ∨ s'.sh.pending = true ∨ ∃ pc ∈ s'.workers, pc.fires = true := by
    intro h
    rw [hmove.sh]
    refine (hs.leaves_behind hnone hnone' h).imp_right (Or.imp_right fun hf => ?_)
    refine ⟨e.pc, List.mem_of_getElem? (hmove.at_ ?_), hf⟩
    intro hb
    rw [hb] at hf
    cases hf
  rcases hleft with hq | hp | ⟨pc', hpc', hf⟩
  · exact hkeep (.inl hq)
  · exact hkeep (.inr (.inl hp))
  · obtain ⟨j, hj⟩ := List.mem_iff_getElem?.mp hpc'
    by_cases hjw : w = j
    · subst hjw
      rw [hw] at hj
      cases hj
      exact hkeep (.inr (.inr hf))
    · -- the entry is another worker's
      have hj' : (s.workers.set w e.pc)[j]? = some pc' := by
        rw [List.getElem?_set_ne hjw]
        exact hj
      refine .inr (.inr ⟨pc', hws _ (List.mem_of_getElem? (hn.getElem? hj' ?_)), hf⟩)
      rintro rfl
      cases hf

/-- **A step of a worker.** -/
theorem State.Closing.worker {ws : List (Pc σ V)} (h : s.Closing)
    (hok : ClosesInOrder (.worker w ch) s) (hc : s.Counted)
    (hidle : .exited ∉ s.workers → s.sh.queue.idleWorkers = s.total Pc.waits) (hc' : s'.Counted)
    (hidle' : .exited ∉ s'.workers → s'.sh.queue.idleWorkers = s'.total Pc.waits)
    (hw : s.workers[w]? = some pc) (hs : WorkerStep P ch (queueFree s.workers) s.sh pc e)
    (hmove : WorkerMove s s' w pc e) (hn : Notified (s.workers.set w e.pc) e.notify ws)
    (hws : s'.workers = ws ++ (e.spawn.map fun id => Pc.start id).toList) : s'.Closing := by
  simp only [ClosesInOrder, Bool.or_eq_false_iff] at hok
  obtain ⟨⟨hlate, htakes⟩, hstale⟩ := hok
  cases h with
  | working hno =>
    by_cases he : e.pc = .exited
    · refine .of_exit hc (hidle hno) hw hs he hmove fun pc' hpc' => ?_
      rw [(hs.loop.exited he).2.1, he] at hn
      rw [hws] at hpc'
      rcases List.mem_append.mp hpc' with hpc' | hpc'
      · refine hn.closes (fun pc₀ hpc₀ => ?_) pc' hpc'
        obtain ⟨j, hj⟩ := List.mem_iff_getElem?.mp hpc₀
        by_cases hjw : w = j
        · subst hjw
          rw [List.getElem?_set_self (List.getElem?_eq_some_iff.mp hw).1] at hj
          exact .inl (Option.some.inj hj).symm
        · rw [List.getElem?_set_ne hjw] at hj
          exact .inr (first_exit (hidle hno) hc hw hs.loop he hj (Ne.symm hjw))
      · obtain ⟨id, -, rfl⟩ : ∃ id, e.spawn = some id ∧ .start id = pc' := by simpa using hpc'
        rfl
    · have hno' := (exited_worker hs.loop hmove).mpr ⟨hno, he⟩
      refine .working hno' fun hh => ?_
      by_cases hb : e.pc = .blocked
      · exact not_hung_of_sleep hstale hw hs hb hmove hc' (hidle' hno') hno' hh
      · -- the worker is awake
        rcases hh.all _ (List.mem_of_getElem? (hmove.at_ hb)) with hb' | he'
        · exact hb hb'
        · exact he he'
  | leaving hex hall hq hp hcount hone =>
    exact .cascade hex hall hq hp hcount hone hc hlate hw hs hmove
  | cluttered hex hfree hleft =>
    exact .clutter hex hfree hleft htakes hw hs hmove hn fun pc hpc => by
      rw [hws]
      exact List.mem_append_left _ hpc

/-- A step that leaves the workers and the counters alone. -/
theorem State.Closing.congr (h : s.Closing) (hw : s'.workers = s.workers)
    (hq : s'.sh.queue.noTasks = s.sh.queue.noTasks) (hp : s'.sh.pending = s.sh.pending)
    (hi : s'.sh.queue.idleWorkers = s.sh.queue.idleWorkers)
    (ha : s'.sh.queue.allWorkers = s.sh.queue.allWorkers) : s'.Closing := by
  cases h with
  | working hno hfresh =>
    refine .working (hw ▸ hno) fun hh => hfresh ⟨hq ▸ hh.noTasks, hp ▸ hh.pending, hw ▸ hh.sleeps, ?_⟩
    rw [← hw]
    exact hh.all
  | leaving hex hall hq₀ hp₀ hcount hone =>
    have htotal : s'.total Pc.decides = s.total Pc.decides := by rw [State.total, hw]; rfl
    exact .leaving (hw ▸ hex) (hw ▸ hall) (hq.trans hq₀) (hp.trans hp₀) (by omega) (by omega)
  | cluttered hex hfree hleft =>
    refine .cluttered (hw ▸ hex) (hw ▸ hfree) ?_
    rw [hq, hp, hw]
    exact hleft

/-- The main thread queues a task, and nobody is left to run it if the workers are leaving. -/
theorem State.Closing.push {id : TaskId} {f : σ} {main : Main σ} {ws : List (Pc σ V)}
    (h : s.Closing) (hnot : Notified s.workers (s.sh.pushNew id f).2 ws) :
    State.Closing { sh := (s.sh.pushNew id f).1, workers := ws, main } := by
  have hq : (s.sh.pushNew id f).1.queue.noTasks = false := noTasks_pushBack _ _
  cases h with
  | working hno =>
    refine .working (fun hmem => hno ?_) fun hh => ?_
    · exact hnot.stirred.exited.mp hmem
    · exact absurd hh.noTasks (by rw [hq]; simp)
  | leaving hex hall =>
    exact .cluttered (hnot.stirred.exited.mpr hex)
      (hnot.forall_mem kept_task?_none.wakeUp fun pc hpc => task?_of_closes (hall pc hpc))
      (.inl hq)
  | cluttered hex hfree =>
    exact .cluttered (hnot.stirred.exited.mpr hex)
      (hnot.forall_mem kept_task?_none.wakeUp hfree) (.inl hq)

/-- The main thread spawns a worker, which has not registered yet. -/
theorem State.Closing.spawn {i : Nat} {main : Main σ} (h : s.Closing) :
    State.Closing { s with workers := s.workers ++ [Pc.start i], main } := by
  cases h with
  | working hno =>
    refine .working (fun hmem => hno ?_) fun hh => ?_
    · simpa using hmem
    · have := hh.all (.start i) (List.mem_append_right _ List.mem_cons_self)
      simp at this
  | leaving hex hall hq hp hcount hone =>
    have htotal : State.total Pc.decides { s with workers := s.workers ++ [Pc.start i], main }
        = s.total Pc.decides := by simp [State.total, Pc.decides]
    refine .leaving (List.mem_append_left _ hex) (fun pc hpc => ?_) hq hp ?_ ?_
    · rcases List.mem_append.mp hpc with hpc | hpc
      · exact hall pc hpc
      · rw [List.mem_singleton.mp hpc]
        rfl
    · rw [htotal]
      exact hcount
    · rw [htotal]
      exact hone
  | cluttered hex hfree hleft =>
    refine .cluttered (List.mem_append_left _ hex) (fun pc hpc => ?_)
      (hleft.imp_right (Or.imp_right ?_))
    · rcases List.mem_append.mp hpc with hpc | hpc
      · exact hfree pc hpc
      · rw [List.mem_singleton.mp hpc]
        rfl
    · rintro ⟨pc, hpc, hf⟩
      exact ⟨pc, List.mem_append_left _ hpc, hf⟩

/-- A worker wakes up without a notification. -/
theorem State.Closing.spurious (h : s.Closing) (hw : s.workers[w]? = some .blocked) :
    State.Closing { s with workers := s.workers.set w .notified } := by
  have hnot : Notified s.workers .one (s.workers.set w .notified) := .one hw
  have hlt := (List.getElem?_eq_some_iff.mp hw).1
  cases h with
  | working hno =>
    refine .working (fun hmem => hno (hnot.stirred.exited.mp hmem)) fun hh => ?_
    have := hh.all .notified (List.mem_of_getElem? (List.getElem?_set_self hlt))
    simp at this
  | leaving _ hall =>
    -- in the cascade nobody is asleep
    exact absurd (hall _ (List.mem_of_getElem? hw)) (by simp [Pc.closes])
  | cluttered hex hfree hleft =>
    refine .cluttered (hnot.stirred.exited.mpr hex)
      (hnot.forall_mem kept_task?_none.wakeUp hfree)
      (hleft.imp_right (Or.imp_right ?_))
    rintro ⟨pc, hpc, hf⟩
    obtain ⟨j, hj⟩ := List.mem_iff_getElem?.mp hpc
    refine ⟨pc, List.mem_of_getElem? (hnot.getElem? hj ?_), hf⟩
    rintro rfl
    cases hf

/-- **A step of the main thread or of the environment.** -/
theorem State.Closing.outer {a : Act} (h : s.Closing) (hn : Next P s a s')
    (ha : ∀ w ch, a ≠ .worker w ch) : s'.Closing := by
  cases hn with
  | worker => exact absurd rfl (ha _ _)
  | main hs =>
    cases hs with
    | goPush _ _ hnot => exact h.push hnot
    | spawn => exact h.spawn
    | go | start | spawned | joined | join => exact h.congr rfl rfl rfl rfl rfl
  | spurious hw => exact h.spurious hw
  | tick | setReadable => exact h.congr rfl rfl rfl rfl rfl

end Steps

/-! ### Runs

Two runs of two workers show what the condition is needed for. In one a worker registers only after
the other has left; in the other a worker goes to sleep on what it saw of the timers, which have
fired since.
-/

section Runs

variable {P : Program σ V} {s : State σ V}

/-- **The shutdown**, in every state reached. -/
theorem reach_closing (hr : (runtime P).Reach ClosesInOrder s) : s.Closing := by
  refine hr.invariant ?_ ?_
  · rintro s ⟨caps, groups, calls, rfl⟩
    exact .working List.not_mem_nil fun hh => absurd hh.sleeps List.not_mem_nil
  · intro s s' a hr h hok hn
    have hr' := System.Reach.step hr hok hn
    obtain ⟨-, hnext⟩ := next_inv hn
    cases hnext with
    | worker hw hs hnot =>
      exact h.worker hok (reach_counted hr) (reach_idle_before_exit hr) (reach_counted hr')
        (reach_idle_before_exit hr') hw hs (hnot.workerMove hw) hnot rfl
    | @main ch s' hs => exact h.outer (show Next P s (.main ch) s' from .main hs) (by simp)
    | spurious hw => exact h.outer (P := P) (.spurious hw) (by simp)
    | tick => exact h.outer (P := P) .tick (by simp)
    | setReadable => exact h.outer (P := P) .setReadable (by simp)

/-- **Quiescence leads to shutdown.**  In every state reached by a run in which, after the first
    exit, no worker registers and none takes a task, and in which no worker goes to sleep on stale
    samples: it is not the case that no work is left, a worker is blocked in `condvar.wait`, and all
    others are blocked or have left. -/
theorem shutdown_complete (hr : (runtime P).Reach ClosesInOrder s) : ¬ s.Hung :=
  (reach_closing hr).not_hung

end Runs

/-- Two workers with nothing to do shut down: the second one to go idle leaves, and wakes the
    other. -/
theorem shutdown_complete_two :
    ∃ s, ((runtime emptyProgram).guard fun a s =>
          !(registersLate? a s || takesAfterExit? a s || idlesStale? a s)).run
        (List.replicate 4 (Act.main {}) ++ Act.worker 0 {} :: List.replicate 9 (Act.worker 1 {}) ++
          List.replicate 8 (Act.worker 0 {}) ++ List.replicate 3 (Act.worker 1 {}))
        (State.initial [] 0 [.startRuntime 2]) = some s ∧
      s.workers = [.exited, .exited] ∧ ¬ s.Hung := by
  have h : (((runtime emptyProgram).guard fun a s =>
        !(registersLate? a s || takesAfterExit? a s || idlesStale? a s)).run
      (List.replicate 4 (Act.main {}) ++ Act.worker 0 {} :: List.replicate 9 (Act.worker 1 {}) ++
        List.replicate 8 (Act.worker 0 {}) ++ List.replicate 3 (Act.worker 1 {}))
      (State.initial [] 0 [.startRuntime 2])).map (fun s => s.workers)
      = some [.exited, .exited] := by rfl
  obtain ⟨s, hs, hw⟩ := Option.map_eq_some_iff.mp h
  have hr : (runtime emptyProgram).Reach ClosesInOrder s :=
    System.run_guard_reach (fun a s h => by simpa [ClosesInOrder] using h) ⟨[], 0, _, rfl⟩ hs
  exact ⟨s, hs, hw, shutdown_complete hr⟩

/-- **A worker that registers late.**  The first of two workers leaves before the second one
    registers.  It is still counted as idle, so the second one finds two idle workers and one
    worker, and sleeps for ever. -/
theorem shutdown_late :
    ∃ s, (runtime emptyProgram).Reachable s ∧ s.main.pc = .join [0, 1] ∧ s.Hung := by
  have h : ((runtime emptyProgram).run
      (List.replicate 4 (Act.main {}) ++ List.replicate 9 (Act.worker 0 {}) ++
        List.replicate 9 (Act.worker 1 {}))
      (State.initial [] 0 [.startRuntime 2])).map
        (fun s => (s.main.pc, s.workers, s.sh.queue.noTasks, s.sh.pending))
      = some (.join [0, 1], [.exited, .blocked], true, false) := by rfl
  obtain ⟨s, hs, hst⟩ := Option.map_eq_some_iff.mp h
  obtain ⟨hm, hst⟩ := Prod.mk.inj hst
  obtain ⟨hw, hst⟩ := Prod.mk.inj hst
  obtain ⟨hq, hp⟩ := Prod.mk.inj hst
  exact ⟨s, System.run_reachable (M := runtime emptyProgram) ⟨[], 0, _, rfl⟩ hs, hm, hq, hp,
    by simp [hw], by simp [hw]⟩

/-- **A worker with stale samples.**  Worker 1 sees the timer of the sleeping task.  Worker 0 fires
    it, runs the task to its end and goes to sleep, and then worker 1 goes to sleep as well, because
    of a timer that is gone.  Nobody has left before. -/
theorem shutdown_stale :
    ∃ s, (runtime napProgram).Reachable s ∧ s.workers = [.blocked, .blocked] ∧ s.Hung := by
  have h : ((runtime napProgram).run
      (List.replicate 6 (Act.main {}) ++ List.replicate 11 (Act.worker 0 {}) ++
        Act.tick 5 :: Act.worker 0 {} :: List.replicate 5 (Act.worker 1 {}) ++
        Act.worker 0 { peek := ⟨5, 0⟩ } :: List.replicate 15 (Act.worker 0 {}) ++ [Act.worker 1 {}])
      (State.initial [] 0 [.go true, .startRuntime 2])).map
        (fun s => (s.workers, s.sh.queue.noTasks, s.sh.pending))
      = some ([.blocked, .blocked], true, false) := by rfl
  obtain ⟨s, hs, hst⟩ := Option.map_eq_some_iff.mp h
  obtain ⟨hw, hst⟩ := Prod.mk.inj hst
  obtain ⟨hq, hp⟩ := Prod.mk.inj hst
  exact ⟨s, System.run_reachable (M := runtime napProgram) ⟨[], 0, _, rfl⟩ hs, hw, hq, hp,
    by simp [hw], by simp [hw]⟩

end MyGoroutine
