import MyGoroutine.Poll.Sleep

namespace MyGoroutine.Poll

/-!
# Sleeping workers of the poll runtime

A worker of this runtime tests for termination, then looks whether it has to poll, and goes to
sleep in a later section of the queue, without another test.  Two workers can be on this way at the
same time: each fails its test because the other is not counted idle yet, or one fails to get
`POLLING` from another that has looked at the fds already.

* `missesEnd?`, `missesPoll?` — a worker takes such a step, and nobody else will test, or look;
* `missesEnd_other`, `missesPoll_holder` — who it is that the worker meets on the way;
* `State.Watched`, `reach_watched` — otherwise what is left has a worker that will find it;
* `asleep_with_work` — so if all workers sleep, there is work left, and it needs no poll;
* `misses_asleep` — and after each such step all workers can go to sleep for ever;
* `asleep_without_tasks`, `asleep_with_fd` — two runs in which they do.
-/

variable {σ : Type}

/-- The step is a test for termination that fails although no task is left and no fd is registered,
    while all other workers are asleep, have left, or are past their own test. -/
def missesEnd? (a : Act) (s : State σ) : Bool :=
  match a with
  | .worker w _ =>
    match s.workers[w]? with
    | some .checkNet =>
      s.sh.queue.noTasks && !s.sh.net.hasWaiters &&
        decide (s.sh.queue.idleWorkers ≠ s.sh.queue.allWorkers - 1) &&
        (s.workers.eraseIdx w).all fun pc => !pc.willTest
    | _ => false
  | _ => false

/-- The step is a failing `compare_exchange` on `POLLING` while an fd is registered and all other
    workers are asleep, have left, or are past their own look at the fds. -/
def missesPoll? (a : Act) (s : State σ) : Bool :=
  match a with
  | .worker w _ =>
    match s.workers[w]? with
    | some .tryPoll =>
      s.sh.polling && s.sh.net.hasWaiters &&
        (s.workers.eraseIdx w).all fun pc => !pc.willLook
    | _ => false
  | _ => false

/-- No worker leaves the test, or the polling, to others that are past it. -/
structure InTime (a : Act) (s : State σ) : Prop where
  test : missesEnd? a s = false
  poll : missesPoll? a s = false

/-- What is left to do has a worker that will find it: an fd one that will look, the end of the
    last task one that will test. -/
structure State.Watched (s : State σ) : Prop where
  look : s.sh.net.hasWaiters = true → ∃ pc ∈ s.workers, pc.willLook = true
  test : s.sh.queue.noTasks = true → s.sh.net.hasWaiters = false →
    (∃ pc ∈ s.workers, pc ≠ .exited) → ∃ pc ∈ s.workers, pc.willTest = true

/-- All workers that were started have registered, one has not exited, and each that has not is
    blocked in `condvar.wait`. -/
structure State.Asleep (s : State σ) : Prop where
  all : ∀ pc ∈ s.workers, pc = .blocked ∨ pc = .exited
  one : ∃ pc ∈ s.workers, pc ≠ .exited

/-- A worker that has still to test is awake. -/
theorem Pc.ne_blocked_of_willTest {pc : Pc σ} (h : pc.willTest = true) : pc ≠ .blocked := by
  rintro rfl
  cases h

/-- A worker that has still to look is awake. -/
theorem Pc.ne_blocked_of_willLook {pc : Pc σ} (h : pc.willLook = true) : pc ≠ .blocked := by
  rintro rfl
  cases h

section Steps

variable {P : Program σ} {s s' : State σ} {ws : List (Pc σ)} {pc : Pc σ} {e : Effect σ} {w : Nat}

/-- A worker that moves and is not blocked is among the threads after its step. -/
theorem Notified.self_mem {n : Notify} (hw : s.workers[w]? = some pc)
    (hnot : Notified (s.workers.set w e.pc) n ws) (hb : e.pc ≠ .blocked) : e.pc ∈ ws :=
  hnot.mem (List.mem_of_getElem?
    (List.getElem?_set_self (List.getElem?_eq_some_iff.mp hw).1)) hb

/-- So is every other worker that is not blocked. -/
theorem Notified.other_mem {n : Notify} (hnot : Notified (s.workers.set w e.pc) n ws) {pc' : Pc σ}
    (hpc' : pc' ∈ s.workers.eraseIdx w) (hb : pc' ≠ .blocked) : pc' ∈ ws := by
  obtain ⟨j, hjw, hj⟩ := List.mem_eraseIdx_iff_getElem?.mp hpc'
  refine hnot.mem (List.mem_of_getElem? (i := j) ?_) hb
  rw [List.getElem?_set_ne (Ne.symm hjw)]
  exact hj

/-- Somebody with the property `q`, which the worker that moves lacks, is another one. -/
theorem mem_eraseIdx_of {q : Pc σ → Bool} (hw : s.workers[w]? = some pc) (hq : q pc = false)
    (h : ∃ pc' ∈ s.workers, q pc' = true) : ∃ pc' ∈ s.workers.eraseIdx w, q pc' = true := by
  obtain ⟨pc', hpc', hq'⟩ := h
  obtain ⟨j, hj⟩ := List.mem_iff_getElem?.mp hpc'
  refine ⟨pc', List.mem_eraseIdx_iff_getElem?.mpr ⟨j, ?_, hj⟩, hq'⟩
  rintro rfl
  rw [hw] at hj
  cases hj
  rw [hq] at hq'
  cases hq'

/-- The workers that have registered and not left are those in `condvar.wait` and the others. -/
theorem total_awake (s : State σ) :
    s.total Pc.waits + s.total (fun pc => pc.registered - pc.waits) = s.total Pc.registered := by
  have hle : ∀ pc : Pc σ, pc.waits ≤ pc.registered := by
    intro pc
    cases pc <;> first | exact Nat.le_refl _ | exact Nat.zero_le _
  show (s.workers.map _).sum + (s.workers.map _).sum = (s.workers.map _).sum
  rw [← List.sum_map_add]
  exact congrArg List.sum (List.map_congr_left fun pc _ => Nat.add_sub_cancel' (hle pc))

/-- A worker that may leave is the only one counted as awake: each other one that has registered and
    not left is in `condvar.wait`. -/
theorem State.Counted.others_wait (hc : s.Counted) (hw : s.workers[w]? = some pc)
    (hreg : pc.registered = 1) (hwait : pc.waits = 0)
    (hidle : s.sh.queue.idleWorkers = s.sh.queue.allWorkers - 1) {pc' : Pc σ}
    (hpc' : pc' ∈ s.workers.eraseIdx w) : pc'.registered - pc'.waits = 0 := by
  obtain ⟨j, hjw, hj⟩ := List.mem_eraseIdx_iff_getElem?.mp hpc'
  have hsum := total_awake s
  have htwo := Slots.add_le_sum_map (fun pc : Pc σ => pc.registered - pc.waits) hw hj (Ne.symm hjw)
  have hone := Slots.le_sum_map Pc.registered hw
  rw [hc.idle, hc.all] at hidle
  unfold State.total at hsum hidle
  omega

/-- **An fd keeps a worker looking**, over a step of a worker. -/
theorem State.Watched.look_worker (h : s.Watched) (hw : s.workers[w]? = some pc)
    (hs : SleepStep s.sh pc e) (hnot : Notified (s.workers.set w e.pc) e.notify ws)
    (hok : ∀ ch, missesPoll? (.worker w ch) s = false) (hp : e.sh.net.hasWaiters = true) :
    ∃ pc ∈ ws, pc.willLook = true := by
  have hself : e.pc.willLook = true → ∃ pc ∈ ws, pc.willLook = true := fun hl =>
    ⟨e.pc, Notified.self_mem hw hnot (Pc.ne_blocked_of_willLook hl), hl⟩
  have hother : (∃ pc ∈ s.workers.eraseIdx w, pc.willLook = true) →
      ∃ pc ∈ ws, pc.willLook = true := by
    rintro ⟨pc', hpc', hl⟩
    exact ⟨pc', hnot.other_mem hpc' (Pc.ne_blocked_of_willLook hl), hl⟩
  cases hs with
  | awake ht => exact hself (Pc.willLook_of_willTest ht)
  | waiting | stay | casWin => exact hself rfl
  | exit _ ht => exact absurd hp (by rw [show (exitLoop s.sh).sh.net.hasWaiters = false from
      (shouldTerminate_inv ht).2.1]; simp)
  | casFail hpolling =>
    -- the window: somebody else is still to look
    apply hother
    have hno := hok {}
    simp only [missesPoll?, hw, hpolling, show s.sh.net.hasWaiters = true from hp, Bool.true_and,
      List.all_eq_false, Bool.not_eq_true, Bool.not_eq_false'] at hno
    exact hno
  | noWaiters hn => exact absurd (show s.sh.net.hasWaiters = true from hp) (by rw [hn]; simp)
  | giveUp | sleep => exact hother (mem_eraseIdx_of hw rfl (h.look hp))

/-- **The end of the last task keeps a worker testing**, over a step of a worker. -/
theorem State.Watched.test_worker (h : s.Watched) (hc : s.Counted) (hw : s.workers[w]? = some pc)
    (hs : SleepStep s.sh pc e) (hnot : Notified (s.workers.set w e.pc) e.notify ws)
    (hok : ∀ ch, missesEnd? (.worker w ch) s = false) (hq : e.sh.queue.noTasks = true)
    (hn : e.sh.net.hasWaiters = false) (hone : ∃ pc ∈ ws, pc ≠ .exited) :
    ∃ pc ∈ ws, pc.willTest = true := by
  have hother : (∃ pc ∈ s.workers.eraseIdx w, pc.willTest = true) →
      ∃ pc ∈ ws, pc.willTest = true := by
    rintro ⟨pc', hpc', hl⟩
    exact ⟨pc', hnot.other_mem hpc' (Pc.ne_blocked_of_willTest hl), hl⟩
  -- past its test the worker is one that has not left, so somebody was to test before the step
  have hpast : pc.willTest = false → pc ≠ .exited → s.sh.queue.noTasks = true →
      s.sh.net.hasWaiters = false → ∃ pc ∈ ws, pc.willTest = true := fun hpc hx hq hn =>
    hother (mem_eraseIdx_of hw hpc (h.test hq hn ⟨pc, List.mem_of_getElem? hw, hx⟩))
  cases hs with
  | awake ht => exact ⟨e.pc, Notified.self_mem hw hnot (Pc.ne_blocked_of_willTest ht), ht⟩
  | waiting hno => exact absurd (show s.sh.queue.noTasks = true from hq) (by rw [hno]; simp)
  | stay ht =>
    -- the window: somebody else is still to test
    apply hother
    have hq' : s.sh.queue.noTasks = true := hq
    have hn' : s.sh.net.hasWaiters = false := hn
    have hidle : s.sh.queue.idleWorkers ≠ s.sh.queue.allWorkers - 1 := by
      intro hidle
      simp [Queue.shouldTerminate, hq', hn', hidle] at ht
    have hno := hok {}
    simp only [missesEnd?, hw, hq', hn', hidle, Bool.true_and, Bool.not_false, ne_eq,
      not_false_eq_true, decide_true, List.all_eq_false, Bool.not_eq_true,
      Bool.not_eq_false'] at hno
    exact hno
  | exit hpc ht =>
    -- the others were in `condvar.wait` or have not registered, and `notify_all` has woken them
    obtain ⟨pc', hpc', hx⟩ := hone
    refine ⟨pc', hpc', ?_⟩
    cases hnot with
    | all =>
      obtain ⟨pc₀, hpc₀, rfl⟩ := List.mem_map.mp hpc'
      obtain ⟨j, hj⟩ := List.mem_iff_getElem?.mp hpc₀
      by_cases hjw : j = w
      · subst hjw
        rw [List.getElem?_set_self (List.getElem?_eq_some_iff.mp hw).1] at hj
        cases hj
        exact absurd rfl hx
      · rw [List.getElem?_set_ne (Ne.symm hjw)] at hj
        have hrest := hc.others_wait hw (by rcases hpc with rfl | rfl <;> rfl)
          (by rcases hpc with rfl | rfl <;> rfl) (shouldTerminate_inv ht).2.2
          (List.mem_eraseIdx_iff_getElem?.mpr ⟨j, hjw, hj⟩)
        cases pc₀ with
        | start | blocked | notified => rfl
        | exited => exact absurd rfl hx
        | _ => cases hrest
  | casFail | casWin | noWaiters | giveUp | sleep => exact hpast rfl (by simp) hq hn

end Steps

section Runs

variable {P : Program σ} {ok : Act → State σ → Prop} {s s' : State σ} {a : Act}

/-- What is left is watched, in every state reached. -/
theorem reach_watched (hr : (runtime P).Reach InTime s) : s.Watched := by
  refine hr.invariant ?_ ?_
  · rintro s ⟨calls, rfl⟩
    refine ⟨fun h => ?_, fun _ _ ⟨pc, hpc, _⟩ => ?_⟩
    · cases h
    · cases hpc
  · intro s s' a hr h hok hn
    cases next_inv hn with
    | @worker w ch pc e ws hw hs hnot =>
      have hpoll : ∀ ch', missesPoll? (.worker w ch') s = false := fun _ => hok.poll
      have htest : ∀ ch', missesEnd? (.worker w ch') s = false := fun _ => hok.test
      refine ⟨fun hp => ?_, fun hq hn hone => ?_⟩
      · obtain ⟨pc', hpc', hl⟩ := h.look_worker hw (sleep_inv hs) hnot hpoll hp
        exact ⟨pc', List.mem_append_left _ hpc', hl⟩
      · cases hsp : e.spawn with
        | some id =>
          -- a worker that has just been started will test
          exact ⟨.start id, List.mem_append_right _ (by simp), rfl⟩
        | none =>
          simp only [hsp, Option.map_none, Option.toList_none, List.append_nil] at hone ⊢
          exact h.test_worker (reach_counted hr) hw (sleep_inv hs) hnot htest hq hn hone
    | @push ch id f rest ws _ hnot =>
      refine ⟨fun hp => ?_, fun hq => ?_⟩
      · obtain ⟨pc, hpc, hl⟩ := h.look hp
        exact ⟨pc, hnot.mem hpc (Pc.ne_blocked_of_willLook hl), hl⟩
      · simp [Shared.pushNew, Shared.withQueue, Queue.pushBack, Queue.noTasks] at hq
    | @spawn ch i =>
      have hmem : .start i ∈ s.workers ++ [.start i] := by simp
      exact ⟨fun _ => ⟨_, hmem, rfl⟩, fun _ _ _ => ⟨_, hmem, rfl⟩⟩
    | main | setReadable => exact ⟨h.look, h.test⟩
    | @spurious w hw =>
      have hmem : .notified ∈ s.workers.set w .notified := List.mem_of_getElem?
        (List.getElem?_set_self (List.getElem?_eq_some_iff.mp hw).1)
      exact ⟨fun _ => ⟨_, hmem, rfl⟩, fun _ _ _ => ⟨_, hmem, rfl⟩⟩

/-- Sleepers neither test nor look. -/
theorem State.Asleep.past (h : s.Asleep) : ∀ pc ∈ s.workers,
    pc.willTest = false ∧ pc.willLook = false := by
  intro pc hpc
  rcases h.all pc hpc with rfl | rfl <;> exact ⟨rfl, rfl⟩

/-- **Sleepers leave no work undone.**  In every state reached by a run in which nobody leaves the
    test or the polling to workers that are past it: when all started workers have registered, and
    everybody who has not exited is blocked, then a task is left, and no fd is registered. -/
theorem asleep_with_work (hr : (runtime P).Reach InTime s) (h : s.Asleep) :
    ¬ (s.sh.queue.runnable = [] ∧ s.sh.queue.waiting.keys = [] ∧ s.sh.net.hasWaiters = false) ∧
      s.sh.net.hasWaiters = false := by
  have hwatch := reach_watched hr
  constructor
  · rintro ⟨hrun, hwait, hn⟩
    obtain ⟨pc, hpc, ht⟩ := hwatch.test (by simp [Queue.noTasks, hrun, hwait]) hn h.one
    rw [(h.past pc hpc).1] at ht
    cases ht
  · by_contra hn
    obtain ⟨pc, hpc, hl⟩ := hwatch.look (by simpa using hn)
    rw [(h.past pc hpc).2] at hl
    cases hl

/-! ### The windows

What the two checks leave out is not more than the defect: in each case another worker is in the
window between its own look and its sleep, and from there every worker can go to sleep. The measure
of that run is how many steps all workers are from their sleep.
-/

/-- What a test that misses the end finds. -/
theorem missesEnd_inv (h : missesEnd? a s = true) :
    ∃ w ch, a = .worker w ch ∧ s.workers[w]? = some .checkNet ∧ s.sh.queue.noTasks = true ∧
      s.sh.net.hasWaiters = false ∧ s.sh.queue.idleWorkers ≠ s.sh.queue.allWorkers - 1 ∧
      ∀ pc ∈ s.workers.eraseIdx w, pc.willTest = false := by
  unfold missesEnd? at h
  split at h
  · rename_i w ch
    split at h
    · rename_i hw
      simp only [Bool.and_eq_true, Bool.not_eq_true', decide_eq_true_eq, List.all_eq_true] at h
      obtain ⟨⟨⟨hq, hn⟩, hidle⟩, hall⟩ := h
      exact ⟨w, ch, rfl, hw, hq, hn, hidle, hall⟩
    · cases h
  · cases h

/-- What an attempt to poll that misses an fd finds. -/
theorem missesPoll_inv (h : missesPoll? a s = true) :
    ∃ w ch, a = .worker w ch ∧ s.workers[w]? = some .tryPoll ∧ s.sh.polling = true ∧
      s.sh.net.hasWaiters = true ∧ ∀ pc ∈ s.workers.eraseIdx w, pc.willLook = false := by
  unfold missesPoll? at h
  split at h
  · rename_i w ch
    split at h
    · rename_i hw
      simp only [Bool.and_eq_true, List.all_eq_true, Bool.not_eq_true'] at h
      obtain ⟨⟨hp, hn⟩, hall⟩ := h
      exact ⟨w, ch, rfl, hw, hp, hn, hall⟩
    · cases h
  · cases h

/-- A test that misses the end fails because of another worker that is past its own test, and not
    counted idle yet. -/
theorem missesEnd_other (hr : (runtime P).Reach ok s) (h : missesEnd? a s = true) :
    .tryPoll ∈ s.workers ∨ .pollNet ∈ s.workers ∨ .giveUp ∈ s.workers ∨ .goIdle ∈ s.workers := by
  obtain ⟨w, ch, rfl, hw, -, -, hidle, hall⟩ := missesEnd_inv h
  by_contra hno
  simp only [not_or] at hno
  obtain ⟨h1, h2, h3, h4⟩ := hno
  have hc := reach_counted hr
  have hw' := Slots.sum_map_of_unique (l := s.workers)
    (f := fun pc : Pc σ => pc.registered - pc.waits) hw fun j pc hj hjw => by
      have hpc : pc ∈ s.workers := List.mem_of_getElem? hj
      have hpast := hall pc (List.mem_eraseIdx_iff_getElem?.mpr ⟨j, hjw, hj⟩)
      -- of the points past the test, these alone are registered and do not wait
      cases pc with
      | tryPoll => exact absurd hpc h1
      | pollNet => exact absurd hpc h2
      | giveUp => exact absurd hpc h3
      | goIdle => exact absurd hpc h4
      | blocked | exited => rfl
      | _ => cases hpast
  have hsum := total_awake s
  refine hidle ?_
  rw [hc.idle, hc.all]
  have hw'' : s.total (fun pc => pc.registered - pc.waits) = 1 := hw'
  omega

/-- An attempt to poll that misses an fd fails because of a worker that holds `POLLING`, has seen no
    net waiters, and is about to give up. -/
theorem missesPoll_holder (hr : (runtime P).Reach ok s) (h : missesPoll? a s = true) :
    .giveUp ∈ s.workers := by
  obtain ⟨w, ch, rfl, hw, hpolling, -, hall⟩ := missesPoll_inv h
  have hpos : 0 < s.total Pc.holdsPolling := by
    rw [reach_polling hr, hpolling]
    decide
  obtain ⟨j, pc, hj, hholds⟩ := Slots.exists_pos_of_sum_pos hpos
  have hjw : j ≠ w := by
    rintro rfl
    rw [hw] at hj
    cases hj
    cases hholds
  have hpast := hall pc (List.mem_eraseIdx_iff_getElem?.mpr ⟨j, hjw, hj⟩)
  -- of the points at which a worker holds `POLLING`, this one is past the look at the fds
  cases pc with
  | giveUp => exact List.mem_of_getElem? hj
  | pollNet | poll | lookup | release => cases hpast
  | _ => cases hholds

/-- Everybody is on the way to sleep, asleep, or has left, and nobody will find that it has to
    poll. -/
def State.Drowsy (s : State σ) : Prop :=
  ∀ pc ∈ s.workers, pc.willTest = false ∧ (s.sh.net.hasWaiters = true → pc.willLook = false)

/-- How many steps the worker is from its sleep. -/
def Pc.toSleep : Pc σ → Nat
  | .tryPoll => 4
  | .pollNet => 3
  | .giveUp => 2
  | .goIdle => 1
  | _ => 0

/-- What is left to do. -/
def State.work (s : State σ) :
    List (Task σ) × AList (fun _ : TaskId => Task σ) × NetPoller × Option Panic :=
  (s.sh.queue.runnable, s.sh.queue.waiting, s.sh.net, s.sh.aborted)

/-- On the way to sleep nobody holds the queue. -/
theorem State.Drowsy.queueFree (h : s.Drowsy) : queueFree s.workers = true := by
  refine List.all_eq_true.mpr fun pc hpc => ?_
  have ht := (h pc hpc).1
  cases pc <;> first | rfl | cases ht

/-- A step of a worker that notifies nobody and starts no other. -/
theorem next_quiet {w : Nat} {ch : Choice} {pc : Pc σ} (sh : Shared σ) (pc' : Pc σ)
    (hab : s.sh.aborted = none) (hw : s.workers[w]? = some pc)
    (hs : workerStep P ch (Poll.queueFree s.workers) s.sh pc = some { sh, pc := pc' }) :
    next P (.worker w ch) s = some { s with sh := sh, workers := s.workers.set w pc' } := by
  simp [next, hab, hw, hs, State.apply, applyNotify]

/-- **One step closer.**  When not everybody sleeps yet, the next one takes a step on its way, and
    leaves the work alone. -/
theorem State.Drowsy.step (P : Program σ) (h : s.Drowsy) (hab : s.sh.aborted = none)
    (hpos : 0 < s.total Pc.toSleep) :
    ∃ w s', next P (.worker w {}) s = some s' ∧ s'.Drowsy ∧
      s'.total Pc.toSleep < s.total Pc.toSleep ∧ s'.work = s.work ∧
      ∃ pc ∈ s'.workers, pc ≠ .exited := by
  obtain ⟨w, pc, hw, hsleep⟩ := Slots.exists_pos_of_sum_pos hpos
  obtain ⟨ht, hl⟩ := h pc (List.mem_of_getElem? hw)
  have hlt := (List.getElem?_eq_some_iff.mp hw).1
  -- a quiet step of this worker to a point that is closer
  have hquiet : ∀ e : Effect σ, workerStep P {} true s.sh pc = some e → e.notify = .none →
      e.spawn = none → e.pc.willTest = false →
      (s.sh.net.hasWaiters = true → e.pc.willLook = false) → e.pc.toSleep < pc.toSleep →
      e.pc ≠ .exited → e.sh.net = s.sh.net → e.sh.queue.runnable = s.sh.queue.runnable →
      e.sh.queue.waiting = s.sh.queue.waiting → e.sh.aborted = s.sh.aborted →
      ∃ w s', next P (.worker w {}) s = some s' ∧ s'.Drowsy ∧
        s'.total Pc.toSleep < s.total Pc.toSleep ∧ s'.work = s.work ∧
        ∃ pc ∈ s'.workers, pc ≠ .exited := by
    rintro ⟨sh, pc', n, sp⟩ hs rfl rfl ht' hl' hcloser hx hnet hrun hwait habort
    refine ⟨w, { s with sh := sh, workers := s.workers.set w pc' }, ?_, ?_, ?_, ?_, ?_⟩
    · exact next_quiet sh pc' hab hw (by rw [h.queueFree]; exact hs)
    · intro pc₁ hpc₁
      rcases List.mem_or_eq_of_mem_set hpc₁ with hpc₁ | rfl
      · have := h pc₁ hpc₁
        rw [← hnet] at this
        exact this
      · refine ⟨ht', fun hn => hl' ?_⟩
        rw [← hnet]
        exact hn
    · have := Slots.sum_map_set Pc.toSleep pc' hw
      show ((s.workers.set w pc').map Pc.toSleep).sum < (s.workers.map Pc.toSleep).sum
      simp only at hcloser
      omega
    · exact Prod.ext hrun (Prod.ext hwait (Prod.ext hnet habort))
    · exact ⟨pc', List.mem_of_getElem? (List.getElem?_set_self hlt), hx⟩
  cases pc with
  | tryPoll =>
    have hno : s.sh.net.hasWaiters = false := by
      by_contra hn
      cases hl (by simpa using hn)
    cases hp : s.sh.polling with
    | true =>
      exact hquiet { sh := s.sh, pc := .goIdle } (by simp [workerStep, hp]) rfl rfl rfl
        (fun _ => rfl) (by simp [Pc.toSleep]) (by simp) rfl rfl rfl rfl
    | false =>
      exact hquiet { sh := { s.sh with polling := true }, pc := .pollNet }
        (by simp [workerStep, hp]) rfl rfl rfl (fun hn => by rw [hno] at hn; cases hn)
        (by simp [Pc.toSleep]) (by simp) rfl rfl rfl rfl
  | pollNet =>
    have hno : s.sh.net.hasWaiters = false := by
      by_contra hn
      cases hl (by simpa using hn)
    exact hquiet { sh := s.sh, pc := .giveUp } (by simp [workerStep, hno]) rfl rfl rfl
      (fun _ => rfl) (by simp [Pc.toSleep]) (by simp) rfl rfl rfl rfl
  | giveUp =>
    exact hquiet { sh := { s.sh with polling := false }, pc := .goIdle } rfl rfl rfl rfl
      (fun _ => rfl) (by simp [Pc.toSleep]) (by simp) rfl rfl rfl rfl
  | goIdle =>
    exact hquiet (idleStep s.sh) rfl rfl rfl rfl (fun _ => rfl) 
      (by simp [idleStep, Pc.toSleep]) (by simp [idleStep]) rfl rfl rfl rfl
  | _ => cases hsleep

/-- From there everybody can fall asleep, with all the work undone. -/
theorem State.Drowsy.sleeps (P : Program σ) (h : s.Drowsy) (hab : s.sh.aborted = none)
    (hone : ∃ pc ∈ s.workers, pc ≠ .exited) :
    ∃ as t, (runtime P).run as s = some t ∧ t.Asleep ∧ t.work = s.work := by
  induction hm : s.total Pc.toSleep using Nat.strongRecOn generalizing s with
  | _ n ih =>
    rcases Nat.eq_zero_or_pos n with rfl | hpos
    · refine ⟨[], s, rfl, ⟨fun pc hpc => ?_, hone⟩, rfl⟩
      obtain ⟨w, hw⟩ := List.mem_iff_getElem?.mp hpc
      have hzero := Slots.le_sum_map Pc.toSleep hw
      have ht := (h pc hpc).1
      rw [show (s.workers.map Pc.toSleep).sum = 0 from hm] at hzero
      cases pc with
      | blocked => exact .inl rfl
      | exited => exact .inr rfl
      | tryPoll | pollNet | giveUp | goIdle => cases hzero
      | _ => cases ht
    · obtain ⟨w, s₁, hn, hd, hlt, hwork, hone₁⟩ := h.step P hab (hm ▸ hpos)
      have hab₁ : s₁.sh.aborted = none :=
        (congrArg (fun p => p.2.2.2) hwork).trans hab
      obtain ⟨as, t, hrun, hsleep, hwork'⟩ := ih _ (hm ▸ hlt) hd hab₁ hone₁ rfl
      refine ⟨.worker w {} :: as, t, ?_, hsleep, hwork'.trans hwork⟩
      rw [System.run_cons, show (runtime P).next (.worker w {}) s = some s₁ from hn]
      exact hrun

/-- **After a miss all can sleep for ever.**  Each step that a run in time leaves out leads to a
    state from which all workers can go to sleep, with no task left or with an fd registered. -/
theorem misses_asleep (h : missesEnd? a s = true ∨ missesPoll? a s = true)
    (hn : (runtime P).next a s = some s') :
    ∃ as t, (runtime P).run as s' = some t ∧ t.Asleep ∧
      (t.sh.queue.noTasks = true ∨ t.sh.net.hasWaiters = true) := by
  have hab : s.sh.aborted = none := by
    by_contra hab
    simp [runtime, next, Option.isSome_iff_ne_none.mpr hab] at hn
  -- the worker is now one step further on the way, and all others are past that point
  have hset : ∀ (w : Nat) (pc : Pc σ), (∀ pc' ∈ s.workers.eraseIdx w, pc'.willTest = false ∧
      (s.sh.net.hasWaiters = true → pc'.willLook = false)) → pc.willTest = false →
      (s.sh.net.hasWaiters = true → pc.willLook = false) → w < s.workers.length → pc ≠ .exited →
      s' = { s with workers := s.workers.set w pc } →
      ∃ as t, (runtime P).run as s' = some t ∧ t.Asleep ∧ t.work = s.work := by
    rintro w pc hall ht hl hlt hx rfl
    have hself := List.mem_of_getElem? (List.getElem?_set_self (a := pc) hlt)
    refine State.Drowsy.sleeps P (fun pc' hpc' => ?_) hab ⟨pc, hself, hx⟩
    obtain ⟨j, hj⟩ := List.mem_iff_getElem?.mp hpc'
    by_cases hjw : j = w
    · subst hjw
      rw [List.getElem?_set_self hlt] at hj
      cases hj
      exact ⟨ht, hl⟩
    · rw [List.getElem?_set_ne (Ne.symm hjw)] at hj
      exact hall pc' (List.mem_eraseIdx_iff_getElem?.mpr ⟨j, hjw, hj⟩)
  rcases h with h | h
  · obtain ⟨w, ch, rfl, hw, hq, hno, hidle, hall⟩ := missesEnd_inv h
    have hs' : s' = { s with workers := s.workers.set w .tryPoll } := by
      have ht : s.sh.queue.shouldTerminate s.sh.net.hasWaiters = false := by
        simp [Queue.shouldTerminate, hidle]
      have hstep : next P (.worker w ch) s = _ :=
        next_quiet s.sh .tryPoll hab hw (by simp [workerStep, ht])
      exact Option.some.inj (hn.symm.trans hstep)
    obtain ⟨as, t, hrun, hsleep, hwork⟩ := hset w .tryPoll
      (fun pc' hpc' => ⟨hall pc' hpc', fun hn => by rw [hno] at hn; cases hn⟩) rfl
      (fun hn => by rw [hno] at hn; cases hn) (List.getElem?_eq_some_iff.mp hw).1 (by simp) hs'
    refine ⟨as, t, hrun, hsleep, .inl ?_⟩
    have hrunnable : t.sh.queue.runnable = s.sh.queue.runnable := congrArg (·.1) hwork
    have hwaiting : t.sh.queue.waiting = s.sh.queue.waiting := congrArg (·.2.1) hwork
    rw [Queue.noTasks, hrunnable, hwaiting]
    exact hq
  · obtain ⟨w, ch, rfl, hw, hp, hnet, hall⟩ := missesPoll_inv h
    have hs' : s' = { s with workers := s.workers.set w .goIdle } := by
      have hstep : next P (.worker w ch) s = _ :=
        next_quiet s.sh .goIdle hab hw (by simp [workerStep, hp])
      exact Option.some.inj (hn.symm.trans hstep)
    -- past the look at the fds is past the test
    have hpast : ∀ pc ∈ s.workers.eraseIdx w, pc.willTest = false := by
      intro pc hpc
      by_contra ht
      have hlook : pc.willLook = true := Pc.willLook_of_willTest (by simpa using ht)
      rw [hall pc hpc] at hlook
      cases hlook
    obtain ⟨as, t, hrun, hsleep, hwork⟩ := hset w .goIdle
      (fun pc' hpc' => ⟨hpast pc' hpc', fun _ => hall pc' hpc'⟩) rfl (fun _ => rfl)
      (List.getElem?_eq_some_iff.mp hw).1 (by simp) hs'
    refine ⟨as, t, hrun, hsleep, .inr ?_⟩
    have hnet' : t.sh.net = s.sh.net := congrArg (·.2.2.1) hwork
    rw [hnet']
    exact hnet

end Runs

/-! ### Runs on small programs

The first run goes to sleep with a parked task, as it may. In the other two all workers are asleep
for ever, once in each window.
-/

/-- A closure that parks, and that nobody wakes. -/
def parkProgram : Program Bool where
  code b := if b then .gopark false else .done

/-- Two blocked workers are all asleep. -/
theorem asleep_of_workers {s : State Bool} (h : s.workers = [.blocked, .blocked]) : s.Asleep := by
  refine ⟨fun pc hpc => ?_, .blocked, by simp [h], by simp⟩
  rw [h] at hpc
  exact .inl (by simpa using hpc)

/-- Worker 1 goes to sleep after worker 0, while the task of `parkProgram` waits. -/
theorem asleep_with_work_parked :
    ∃ s, ((runtime parkProgram).guard fun a s => !missesEnd? a s && !missesPoll? a s).run
        (List.replicate 6 (Act.main {}) ++ List.replicate 11 (Act.worker 0 {}) ++
          List.replicate 6 (Act.worker 1 {}))
        (State.initial [.go true, .startRuntime 2]) = some s ∧ s.workers = [.blocked, .blocked] ∧
      s.Asleep ∧ s.sh.net.hasWaiters = false := by
  have h : (((runtime parkProgram).guard fun a s => !missesEnd? a s && !missesPoll? a s).run
      (List.replicate 6 (Act.main {}) ++ List.replicate 11 (Act.worker 0 {}) ++
        List.replicate 6 (Act.worker 1 {}))
      (State.initial [.go true, .startRuntime 2])).map (fun s => s.workers)
      = some [.blocked, .blocked] := by rfl
  obtain ⟨s, hs, hw⟩ := Option.map_eq_some_iff.mp h
  have hr : (runtime parkProgram).Reach InTime s :=
    System.run_guard_reach (fun a s h => by
      simp only [Bool.and_eq_true, Bool.not_eq_true'] at h
      exact ⟨h.1, h.2⟩) ⟨_, rfl⟩ hs
  exact ⟨s, hs, hw, asleep_of_workers hw, (asleep_with_work hr (asleep_of_workers hw)).2⟩

/-- A closure that waits for the fd 5 once. -/
def readProgram : Program Bool where
  code b := if b then .netPollRead 5 false none else .done

/-- **Two workers, no task.**  Each of them tests for termination while the other is not idle yet,
    and then both go to sleep: `start_runtime` never returns. -/
theorem asleep_without_tasks :
    ∃ s, (runtime readProgram).Reachable s ∧ s.Asleep ∧ s.sh.queue.runnable = [] ∧
      s.sh.queue.waiting.keys = [] ∧ s.sh.net.hasWaiters = false := by
  have h : ((runtime readProgram).run
      (List.replicate 4 (Act.main {}) ++ [Act.worker 0 {}, Act.worker 1 {}] ++
        List.replicate 2 (Act.worker 0 {}) ++ List.replicate 6 (Act.worker 1 {}) ++
        List.replicate 4 (Act.worker 0 {}))
      (State.initial [.startRuntime 2])).map (fun s =>
        (s.workers, s.sh.queue.runnable.isEmpty, s.sh.queue.waiting.keys, s.sh.net.hasWaiters))
      = some ([.blocked, .blocked], true, [], false) := by rfl
  obtain ⟨s, hs, hst⟩ := Option.map_eq_some_iff.mp h
  obtain ⟨hw, hst⟩ := Prod.mk.inj hst
  obtain ⟨hrun, hst⟩ := Prod.mk.inj hst
  obtain ⟨hwait, hnet⟩ := Prod.mk.inj hst
  exact ⟨s, System.run_reachable (M := runtime readProgram) ⟨_, rfl⟩ hs, asleep_of_workers hw,
    List.isEmpty_iff.mp hrun, hwait, hnet⟩

/-- **Nobody polls.**  Worker 1 holds `POLLING` when it finds no waiter, and has not given it up
    when worker 0, whose task has just registered the fd, wants to poll: both go to sleep. -/
theorem asleep_with_fd :
    ∃ s, (runtime readProgram).Reachable s ∧ s.Asleep ∧ s.sh.polling = false ∧
      s.sh.net.waitingFds.keys = [5] := by
  have h : ((runtime readProgram).run
      (List.replicate 6 (Act.main {}) ++ List.replicate 2 (Act.worker 0 {}) ++
        List.replicate 5 (Act.worker 1 {}) ++ List.replicate 8 (Act.worker 0 {}) ++
        List.replicate 2 (Act.worker 1 {}))
      (State.initial [.go true, .startRuntime 2])).map
        (fun s => (s.workers, s.sh.polling, s.sh.net.waitingFds.keys))
      = some ([.blocked, .blocked], false, [5]) := by rfl
  obtain ⟨s, hs, hst⟩ := Option.map_eq_some_iff.mp h
  obtain ⟨hw, hst⟩ := Prod.mk.inj hst
  obtain ⟨hp, hk⟩ := Prod.mk.inj hst
  exact ⟨s, System.run_reachable (M := runtime readProgram) ⟨_, rfl⟩ hs, asleep_of_workers hw, hp,
    hk⟩

end MyGoroutine.Poll
