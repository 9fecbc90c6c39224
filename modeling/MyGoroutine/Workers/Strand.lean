import MyGoroutine.Workers.Count

namespace MyGoroutine

/-!
# Runnable tasks during blocking I/O

`enter_blocking` trusts `idle_workers`: when the counter is not zero it spawns no worker and lets
an idle one take the runnable tasks.  That is right as long as every sleeping worker is either
woken for a task or finds `runnable` empty: then the awake workers are enough for the runnable
tasks.

* `dozes?` — the step puts a worker to sleep although a task is runnable;
* `State.Covered`, `reach_covered` — the awake workers without a task are as many as the runnable
  tasks, unless nobody sleeps;
* `enter_blocking_covered` — so somebody takes the tasks that `enter_blocking` leaves;
* `enter_blocking_strands` — the outcome after a worker has dozed off.
-/

variable {σ V : Type}

/-- The step is that of a worker which goes to sleep although a task is runnable. -/
def dozes? (a : Act) (s : State σ V) : Bool :=
  match a with
  | .worker w _ =>
    match s.workers[w]? with
    | some (.goIdle _ _) => !s.sh.queue.runnable.isEmpty
    | _ => false
  | _ => false

/-- No worker goes to sleep while a task is runnable. -/
def Wakeful (a : Act) (s : State σ V) : Prop := dozes? a s = false

/-- The worker is blocked in `condvar.wait`. -/
def Pc.asleep : Pc σ V → Nat
  | .blocked => 1
  | _ => 0

/-- Unless nobody sleeps, the workers that are awake, hold no task and look at the queue before they
    sleep are as many as the runnable tasks. -/
def State.Covered (s : State σ V) : Prop :=
  s.total Pc.asleep = 0 ∨ s.sh.queue.runnable.length + s.total Pc.asleep ≤ s.total Pc.looks

section Notify

variable {ws ws' : List (Pc σ V)} {n : Notify}

/-- `notify_one` wakes a worker if one sleeps. -/
theorem Notified.asleep_one (h : Notified ws .one ws') :
    (ws'.map Pc.asleep).sum + 1 = (ws.map Pc.asleep).sum ∨ (ws'.map Pc.asleep).sum = 0 := by
  cases h with
  | one h =>
    have := Slots.sum_map_set Pc.asleep .notified h
    simp only [Pc.asleep] at this
    exact .inl this
  | idle h =>
    refine .inr (Slots.sum_map_eq_zero fun pc hpc => ?_)
    cases pc <;> first | rfl | exact absurd rfl (h _ hpc)

/-- After `notify_all` nobody is asleep. -/
theorem Notified.asleep_all (h : Notified ws .all ws') : (ws'.map Pc.asleep).sum = 0 := by
  cases h
  refine Slots.sum_map_eq_zero fun pc hpc => ?_
  obtain ⟨pc', -, rfl⟩ := List.mem_map.mp hpc
  cases pc' <;> rfl

/-- Without a notification nobody is woken. -/
theorem Notified.asleep_none (h : Notified ws .none ws') : ws' = ws := by
  cases h
  rfl

end Notify

/-- A worker that is asleep will look at the queue when it is woken. -/
theorem asleep_le_looks (s : State σ V) : s.total Pc.asleep ≤ s.total Pc.looks :=
  List.sum_le_sum fun pc _ => by cases pc <;> simp [Pc.asleep, Pc.looks]

/-- A worker that is asleep is counted as idle. -/
theorem asleep_le_waits (s : State σ V) : s.total Pc.asleep ≤ s.total Pc.waits :=
  List.sum_le_sum fun pc _ => by cases pc <;> simp [Pc.asleep, Pc.waits]

section Runs

variable {P : Program σ V} {ch : Choice} {s s' : State σ V} {w : Nat} {pc : Pc σ V}
  {e : Effect σ V} {ws : List (Pc σ V)}

/-- A push with `notifyIdle` leaves one worker less asleep, if any sleeps. -/
theorem Notified.asleep_idle {q : GlobalQueue σ V} {ws' : List (Pc σ V)}
    (h : Notified ws q.notifyIdle ws') (hi : (ws.map Pc.asleep).sum ≤ q.idleWorkers) :
    (ws'.map Pc.asleep).sum + 1 = (ws.map Pc.asleep).sum ∨ (ws'.map Pc.asleep).sum = 0 := by
  unfold GlobalQueue.notifyIdle at h
  split at h
  · exact h.asleep_one
  · refine .inr ?_
    rw [h.asleep_none]
    omega

/-- **A step of a worker keeps the runnable tasks covered.** -/
theorem State.Covered.worker (h : s.Covered) (hc : s.Counted) (hw : s.workers[w]? = some pc)
    (hs : LoopStep s.sh pc e)
    (hwake : (∃ net timers, pc = .goIdle net timers) → s.sh.queue.runnable = [])
    (hn : Notified (s.workers.set w e.pc) e.notify ws) (hsh : s'.sh = e.sh)
    (hws : s'.workers = ws ++ (e.spawn.map fun id => Pc.start id).toList) : s'.Covered := by
  have hlooks : s'.total Pc.looks + pc.looks = s.total Pc.looks + e.pc.looks := by
    rw [State.total, hws]
    exact total_worker silent_looks hw hn
  have hws : s'.total Pc.asleep = (ws.map Pc.asleep).sum := by
    rw [State.total, hws, List.map_append, List.sum_append]
    cases e.spawn <;> rfl
  have hset := Slots.sum_map_set Pc.asleep e.pc hw
  have hle := asleep_le_looks s'
  have hidle := le_trans (asleep_le_waits s) hc.idle
  have hpc : pc.asleep ≤ pc.waits := by cases pc <;> simp [Pc.asleep, Pc.waits]
  have hpc' : e.pc.asleep ≤ e.pc.waits := by cases e.pc <;> simp [Pc.asleep, Pc.waits]
  unfold State.Covered at h ⊢
  unfold State.total at *
  rw [hsh]
  cases hs with
  | register hp hp' hnot hr =>
    have hl : pc.looks = 0 ∧ pc.asleep = 0 := by rw [hp]; exact ⟨rfl, rfl⟩
    have ha' : e.pc.asleep = 0 := by rw [hp']; rfl
    rw [hnot] at hn
    rw [hws, hn.asleep_none, hr]
    omega
  | stay hp hnot hr =>
    have := hp.waits
    have := hp.looks
    rw [hnot] at hn
    rw [hws, hn.asleep_none, hr]
    omega
  -- the new task needs one more worker that looks, and `notify_one` wakes one if any is asleep
  | push hp _ hnot hr =>
    have := hp.waits
    have := hp.looks
    rw [hnot] at hn
    have hone := hn.asleep_idle (by omega)
    rw [hws, hr, List.length_append, List.length_singleton]
    omega
  -- the worker puts its own task back, and looks at `runnable` next
  | pushBack hp hl _ hnot hr =>
    have := hp.waits
    rw [hnot] at hn
    rw [hws, hn.asleep_none, hr, List.length_append, List.length_singleton]
    omega
  -- one task and one worker that looks go together
  | pop hl _ hp' hnot hold hr =>
    have hl' : e.pc.looks = 0 := by rw [hp']; rfl
    have ha' : e.pc.asleep = 0 := by rw [hp']; rfl
    rw [hnot] at hn
    rw [hold, List.length_cons] at h
    rw [hws, hn.asleep_none, hr]
    omega
  | empty _ _ _ _ hr =>
    rw [hr]
    exact .inr (by simpa using hle)
  -- a worker goes to sleep only when `runnable` is empty
  | sleep hp _ _ hr =>
    rw [hr, hwake ⟨_, _, hp⟩]
    exact .inr (by simpa using hle)
  -- `notify_all` leaves nobody asleep
  | idleExit _ _ hnot | termExit _ _ hnot =>
    rw [hnot] at hn
    exact .inl (hws.trans hn.asleep_all)

/-- **The runnable tasks are covered**, in every state reached by a run in which no worker goes to
    sleep while a task is runnable. -/
theorem reach_covered (hr : (runtime P).Reach Wakeful s) : s.Covered := by
  refine hr.invariant ?_ ?_
  · rintro s ⟨caps, groups, calls, rfl⟩
    exact .inl rfl
  · intro s s' a hr h hok hn
    have hc := reach_counted hr
    have hidle := le_trans (asleep_le_waits s) hc.idle
    obtain ⟨-, hn⟩ := next_inv hn
    cases hn with
    | @worker w ch pc e ws hw hs hnot =>
      refine h.worker hc hw hs.loop ?_ hnot rfl rfl
      rintro ⟨net, timers, rfl⟩
      simpa [Wakeful, dozes?, hw] using hok
    | main hs =>
      cases hs with
      | @goPush id f rest ws hm _ hnot =>
        have hlooks := hnot.sum silent_looks
        have hone := hnot.asleep_idle hidle
        have hlen : (s.sh.pushNew id f).1.queue.runnable.length = s.sh.queue.runnable.length + 1 :=
          List.length_append
        unfold State.Covered State.total at h ⊢
        simp only [hlooks, hlen]
        omega
      | spawn =>
        unfold State.Covered State.total at h ⊢
        simpa [Pc.asleep, Pc.looks] using h
      | go | start | spawned | joined | join => exact h
    | @spurious w hw =>
      have h1 := Slots.sum_map_set Pc.asleep .notified hw
      have h2 := Slots.sum_map_set Pc.looks .notified hw
      simp only [Pc.asleep, Pc.looks] at h1 h2
      unfold State.Covered State.total at h ⊢
      show ((s.workers.set w .notified).map Pc.asleep).sum = 0 ∨ s.sh.queue.runnable.length
        + ((s.workers.set w .notified).map Pc.asleep).sum
        ≤ ((s.workers.set w .notified).map Pc.looks).sum
      omega
    | tick | setReadable => exact h

/-- The worker is inside a blocking call of an `io` wrapper. -/
def Pc.inBlocking : Pc σ V → Bool
  | .run t =>
    match t.code with
    | .blocking _ => true
    | _ => false
  | _ => false

/-- **Blocking I/O leaves no runnable task to sleepers.**  In every state reached by a run in which
    no worker goes to sleep while a task is runnable: when `enter_blocking` finds a runnable task,
    and `idle_workers` counts the workers in `condvar.wait` only, then it spawns a worker, or
    another worker is being started, or another one is neither asleep nor in a blocking call. -/
theorem enter_blocking_covered (hr : (runtime P).Reach Wakeful s) {t : Task σ V} {x k : σ}
    (hw : s.workers[w]? = some (.run t)) (hc : t.code = .user x) (hx : P.code x = .io k)
    (hcount : s.sh.queue.idleWorkers = s.total Pc.waits) (hrun : s.sh.queue.runnable ≠ [])
    (hn : (runtime P).next (.worker w ch) s = some s') :
    s'.workers[w]? = some (.run (t.goto (.spawnWorker k))) ∨
    ∃ (j : Nat) (pc : Pc σ V), j ≠ w ∧ s.workers[j]? = some pc ∧
      ((∃ id, pc = .start id) ∨
        pc.registered = 1 ∧ pc ≠ .blocked ∧ pc.inBlocking = false) := by
  obtain ⟨-, e, hs, hmove⟩ := next_worker hn hw
  cases hs with
  | run hs =>
    rcases hs.of_io hc hx with ⟨-, rfl⟩ | ⟨hidle, -⟩
    · exact .inl (hmove.at_ (by simp))
    · right
      have hpos : 0 < s.total Pc.waits := by
        rw [← hcount]
        exact Nat.pos_of_ne_zero (hidle.resolve_left hrun)
      have hother : ∀ {j pc}, s.workers[j]? = some pc → pc ≠ .run t → j ≠ w := by
        rintro j pc hj hne rfl
        rw [hw] at hj
        cases hj
        exact hne rfl
      rcases reach_covered hr with h0 | hcov
      · -- nobody sleeps, so a worker in `condvar.wait` has been notified
        obtain ⟨j, pc, hj, hpc⟩ := Slots.exists_pos_of_sum_pos hpos
        have hnb : pc ≠ .blocked := by
          rintro rfl
          have := Slots.le_sum_map Pc.asleep hj
          unfold State.total at h0
          rw [h0] at this
          exact absurd this (Nat.not_succ_le_zero 0)
        refine ⟨j, pc, hother hj ?_, hj, .inr ⟨?_, hnb, ?_⟩⟩
        · rintro rfl
          exact absurd hpc (Nat.lt_irrefl 0)
        · cases pc <;> first | rfl | exact absurd hpc (Nat.lt_irrefl 0)
        · cases pc <;> first | rfl | exact absurd hpc (Nat.lt_irrefl 0)
      · -- there are more workers that look at the queue than workers that sleep
        have hlt : s.total Pc.asleep < s.total Pc.looks := by
          have := List.length_pos_iff.mpr hrun
          omega
        obtain ⟨pc, hmem, hpc⟩ := List.exists_lt_of_sum_lt _ _ hlt
        obtain ⟨j, hj⟩ := List.mem_iff_getElem?.mp hmem
        refine ⟨j, pc, hother hj ?_, hj, .inr ⟨?_, ?_, ?_⟩⟩
        · rintro rfl
          exact absurd hpc (Nat.not_lt_zero _)
        · cases pc <;> first | rfl | exact absurd hpc (Nat.not_lt_zero _)
        · rintro rfl
          exact absurd hpc (Nat.lt_irrefl 1)
        · cases pc <;> first | rfl | exact absurd hpc (Nat.not_lt_zero _)

end Runs

/-! ### A worker that dozes off

Worker 1 has found the queue empty and is on its way to sleep when worker 0 queues a task: it is not
yet counted as idle, so nobody is notified, and it sleeps all the same.
-/

/-- The schedule up to the point at which the task of worker 0 is about to queue its child, and
    worker 1 has found nothing to do. -/
def strandPrefix : List Act :=
  List.replicate 6 (Act.main {}) ++ List.replicate 4 (Act.worker 0 {}) ++
    List.replicate 8 (Act.worker 1 {})

/-- The task of worker 0 at its `io` call. -/
def ioTask : Task Nat Unit := { id := 0, code := .user 1, state := .running }

/-- Worker 1 goes to sleep before the child is queued, and is notified of it. -/
theorem enter_blocking_covered_notified :
    ∃ s s', ((runtime ioProgram).guard fun a s => !dozes? a s).run
        (strandPrefix ++ [Act.worker 1 {}, Act.worker 0 { pick := 1 }])
        (State.initial [] 0 [.go 0, .startRuntime 2]) = some s ∧
      s.workers = [.run ioTask, .notified] ∧ s.sh.queue.runnable ≠ [] ∧
      (runtime ioProgram).next (Act.worker 0 {}) s = some s' ∧
      (s'.workers[0]? = some (.run (ioTask.goto (.spawnWorker 2))) ∨
        ∃ (j : Nat) (pc : Pc Nat Unit), j ≠ 0 ∧ s.workers[j]? = some pc ∧
          ((∃ id, pc = .start id) ∨
            pc.registered = 1 ∧ pc ≠ .blocked ∧ pc.inBlocking = false)) := by
  have h : (((runtime ioProgram).guard fun a s => !dozes? a s).run
      (strandPrefix ++ [Act.worker 1 {}, Act.worker 0 { pick := 1 }])
      (State.initial [] 0 [.go 0, .startRuntime 2])).map
        (fun s => (s.workers, s.sh.queue.idleWorkers, s.sh.queue.runnable.map (·.id),
          ((runtime ioProgram).next (Act.worker 0 {}) s).isSome))
      = some ([.run ioTask, .notified], 1, [1], true) := by rfl
  obtain ⟨s, hs, hst⟩ := Option.map_eq_some_iff.mp h
  obtain ⟨hw, hst⟩ := Prod.mk.inj hst
  obtain ⟨hi, hst⟩ := Prod.mk.inj hst
  obtain ⟨hrun, hn⟩ := Prod.mk.inj hst
  obtain ⟨s', hn⟩ := Option.isSome_iff_exists.mp hn
  have hne : s.sh.queue.runnable ≠ [] := by
    rintro h0
    rw [h0] at hrun
    cases hrun
  have hr : (runtime ioProgram).Reach Wakeful s :=
    System.run_guard_reach (fun a s h => by simpa [Wakeful] using h) ⟨[], 0, _, rfl⟩ hs
  exact ⟨s, s', hs, hw, hne, hn, enter_blocking_covered hr (by rw [hw]; rfl) rfl rfl
    (by rw [hi, State.total, hw]; rfl) hne hn⟩

/-- **A worker that dozes off.**  Worker 1 has seen an empty queue; the closure of worker 0 queues
    its child, and worker 1 goes to sleep all the same.  Then `enter_blocking` finds the child
    runnable and a worker idle, and spawns nobody: worker 0 blocks, worker 1 sleeps. -/
theorem enter_blocking_strands :
    ∃ s s', (runtime ioProgram).Reachable s ∧ s.workers = [.run ioTask, .blocked] ∧
      s.sh.queue.runnable ≠ [] ∧ (runtime ioProgram).next (Act.worker 0 {}) s = some s' ∧
      s'.workers = [.run (ioTask.goto (.blocking 2)), .blocked] := by
  have h : ((runtime ioProgram).run (strandPrefix ++ [Act.worker 0 {}, Act.worker 1 {}])
      (State.initial [] 0 [.go 0, .startRuntime 2])).map
        (fun s => (s.workers, s.sh.queue.runnable.map (·.id),
          ((runtime ioProgram).next (Act.worker 0 {}) s).map (·.workers)))
      = some ([.run ioTask, .blocked], [1],
          some [.run (ioTask.goto (.blocking 2)), .blocked]) := by rfl
  obtain ⟨s, hs, hst⟩ := Option.map_eq_some_iff.mp h
  obtain ⟨hw, hst⟩ := Prod.mk.inj hst
  obtain ⟨hrun, hn⟩ := Prod.mk.inj hst
  obtain ⟨s', hn, hw'⟩ := Option.map_eq_some_iff.mp hn
  refine ⟨s, s', System.run_reachable (M := runtime ioProgram) ⟨[], 0, _, rfl⟩ hs, hw, ?_, hn,
    hw'⟩
  intro h0
  rw [h0] at hrun
  cases hrun

end MyGoroutine
