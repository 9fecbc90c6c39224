import MyGoroutine.Sched.Live
import MyGoroutine.Workers.Count

namespace MyGoroutine

/-!
# `start_runtime` and the tasks it leaves

`start_runtime` joins its initial workers only.  In the first run that is enough: the first worker
to leave finds all registered workers asleep and the queues empty, so all tasks are done.  Every
worker that leaves through the idle path stays in `idle_workers`, though, and from then on the
termination test passes while somebody still runs a task.  The initial workers that are joined make
up for that, as long as no other worker takes a task.

* `MainPc.handles` — the initial workers that `start_runtime` has still to join;
* `takesLate?` — after an exit, a worker takes a task that `start_runtime` will not join;
* `State.Finishing`, `reach_finishing` — who can hold a task, and what is left in the queues;
* `start_runtime_done` — so all tasks are done when `start_runtime` returns;
* `start_runtime_early` — a return while a task runs on a worker that an earlier call has left.
-/

variable {σ V : Type}

/-- The workers that `start_runtime` has spawned and not joined yet. -/
def MainPc.handles : MainPc σ → List Nat
  | .spawn _ _ handles => handles
  | .join handles => handles
  | _ => []

/-- `start_runtime` is in progress. -/
def MainPc.inRun : MainPc σ → Bool
  | .spawn _ _ _ => true
  | .join _ => true
  | _ => false

/-- `start_runtime` has still to spawn a worker. -/
def MainPc.spawning : MainPc σ → Bool
  | .spawn i n _ => i < n
  | _ => false

/-- The worker is about to take a task from `runnable`. -/
def Pc.pops : Pc σ V → Bool
  | .top => true
  | .notified => true
  | .termNet => true
  | .termTimers => true
  | _ => false

/-- Some worker has left its loop, and in this step a worker takes a task that is none of the
    initial workers of the `start_runtime` in progress. -/
def takesLate? (a : Act) (s : State σ V) : Bool :=
  match a with
  | .worker w _ =>
    (s.workers[w]?.any Pc.pops && !s.sh.queue.runnable.isEmpty) && s.workers.any Pc.isExited
      && !s.main.pc.handles.contains w
  | _ => false

/-- After the first exit, only workers that will be joined take tasks. -/
def TakesInTurn (a : Act) (s : State σ V) : Prop := takesLate? a s = false

/-- The tasks that are left, in a state. -/
structure State.Finishing (s : State σ V) : Prop where
  /-- After the first exit, the tasks that run are on workers that will be joined. -/
  held : .exited ∈ s.workers → ∀ (w : Nat) (pc : Pc σ V) t, s.workers[w]? = some pc →
    pc.task? = some t → t.state ≠ .dead → w ∈ s.main.pc.handles
  /-- When all workers of the call have left, the queues are empty. -/
  queues : s.main.pc.inRun = true → s.main.pc.spawning = true ∨
    (∃ w ∈ s.main.pc.handles, ∃ pc, s.workers[w]? = some pc ∧ pc ≠ .exited) ∨
    .exited ∈ s.workers ∧ ∀ t, ¬ s.sh.queue.Has t
  starts : ∀ n, .startRuntime n ∈ s.main.rest → 1 ≤ n

/-! ### Workers and notifications

A step moves one worker, wakes some and spawns others. Of all this only two facts matter here:
nobody leaves by being woken, and nobody gets a task by being woken.
-/

section Notify

variable {ws ws' : List (Pc σ V)} {n : Notify} {i : Nat} {pc : Pc σ V}

/-- A worker that has not just been woken is where it was. -/
theorem Notified.of_getElem? (h : Notified ws n ws') (hi : ws'[i]? = some pc)
    (hne : pc ≠ .notified) : ws[i]? = some pc := by
  cases h with
  | none | idle => exact hi
  | @one j hj =>
    by_cases hij : j = i
    · subst hij
      rw [List.getElem?_set_self (List.getElem?_eq_some_iff.mp hj).1] at hi
      cases hi
      exact absurd rfl hne
    · rwa [List.getElem?_set_ne hij] at hi
  | all =>
    rw [List.getElem?_map] at hi
    obtain ⟨pc₀, h₀, rfl⟩ := Option.map_eq_some_iff.mp hi
    rw [h₀]
    cases pc₀ <;> first | rfl | exact absurd rfl hne

/-- No notification makes a worker leave. -/
theorem Notified.getElem?_ne_exited (h : Notified ws n ws') (hi : ws[i]? = some pc)
    (hne : pc ≠ .exited) : ∃ pc', ws'[i]? = some pc' ∧ pc' ≠ .exited := by
  have hlen : ws'.length = ws.length := by
    cases h <;> simp
  have hlt := (List.getElem?_eq_some_iff.mp hi).1
  refine ⟨_, List.getElem?_eq_getElem (hlen.symm ▸ hlt), fun hex => ?_⟩
  have hback := h.of_getElem? (List.getElem?_eq_getElem (hlen.symm ▸ hlt)) (by rw [hex]; simp)
  rw [hi, hex] at hback
  exact hne (Option.some.inj hback)

/-- `ws'` are the workers `ws`, some of them woken, and workers that are about to register. -/
structure Stirred (ws ws' : List (Pc σ V)) : Prop where
  exited : .exited ∈ ws' ↔ .exited ∈ ws
  alive : ∀ (i : Nat) (pc : Pc σ V), ws[i]? = some pc → pc ≠ .exited →
    ∃ pc', ws'[i]? = some pc' ∧ pc' ≠ .exited
  task : ∀ (i : Nat) (pc : Pc σ V) t, ws'[i]? = some pc → pc.task? = some t → ws[i]? = some pc

/-- Nothing has stirred. -/
theorem Stirred.refl (ws : List (Pc σ V)) : Stirred ws ws :=
  ⟨Iff.rfl, fun _ pc h hne => ⟨pc, h, hne⟩, fun _ _ _ h _ => h⟩

/-- A worker that is about to register has neither left nor got a task. -/
theorem Stirred.append_start (h : Stirred ws ws') (id : Nat) : Stirred ws (ws' ++ [.start id]) := by
  refine ⟨?_, fun i pc hi hne => ?_, fun i pc t hi ht => ?_⟩
  · rw [← h.exited]
    simp
  · obtain ⟨pc', hi', hne'⟩ := h.alive i pc hi hne
    refine ⟨pc', ?_, hne'⟩
    rw [List.getElem?_append_left (List.getElem?_eq_some_iff.mp hi').1]
    exact hi'
  · rcases Nat.lt_or_ge i ws'.length with hlt | hge
    · rw [List.getElem?_append_left hlt] at hi
      exact h.task i pc t hi ht
    · rw [List.getElem?_append_right hge] at hi
      cases List.mem_singleton.mp (List.mem_of_getElem? hi)
      cases ht

/-- After a step of the worker `i`, the workers that have left are the old ones, and maybe `i`. -/
theorem Stirred.exited_set {pc' : Pc σ V} (h : Stirred (ws.set i pc') ws')
    (hmem : .exited ∈ ws') : .exited ∈ ws ∨ pc' = .exited :=
  (List.mem_or_eq_of_mem_set (h.exited.mp hmem)).imp_right Eq.symm

/-- After a step of the worker `i`, the tasks are where they were, and on `i`. -/
theorem Stirred.task_set {pc' pc'' : Pc σ V} {j : Nat} {t : Task σ V}
    (h : Stirred (ws.set i pc') ws') (hj : ws'[j]? = some pc'') (ht : pc''.task? = some t) :
    (j = i ∧ pc'' = pc') ∨ (j ≠ i ∧ ws[j]? = some pc'') := by
  have hold := h.task j pc'' t hj ht
  by_cases hji : j = i
  · subst hji
    have hlt : j < ws.length := by simpa using (List.getElem?_eq_some_iff.mp hold).1
    rw [List.getElem?_set_self hlt] at hold
    exact .inl ⟨rfl, (Option.some.inj hold).symm⟩
  · rw [List.getElem?_set_ne (Ne.symm hji)] at hold
    exact .inr ⟨hji, hold⟩

/-- The condition variable wakes workers, and does nothing else to them. -/
theorem Notified.stirred (h : Notified ws n ws') : Stirred ws ws' := by
  refine ⟨⟨fun hmem => ?_, fun hmem => ?_⟩, fun i pc hi hne => h.getElem?_ne_exited hi hne,
    fun i pc t hi ht => h.of_getElem? hi (by rintro rfl; cases ht)⟩
  · obtain ⟨i, hi⟩ := List.mem_iff_getElem?.mp hmem
    exact List.mem_of_getElem? (h.of_getElem? hi (by simp))
  · obtain ⟨i, hi⟩ := List.mem_iff_getElem?.mp hmem
    exact List.mem_of_getElem? (h.getElem? hi (by simp))

/-- A new worker comes after the others. -/
theorem Notified.stirred_spawn (h : Notified ws n ws') (spawn : Option Nat) :
    Stirred ws (ws' ++ (spawn.map fun id => Pc.start id).toList) := by
  cases spawn with
  | none =>
    show Stirred ws (ws' ++ [])
    rw [List.append_nil]
    exact h.stirred
  | some id => exact h.stirred.append_start id

end Notify

/-! ### Steps of a worker

A worker gets its task from `runnable`, and leaves only when it finds all queues empty. So while a
call of `start_runtime` is in progress, either somebody whom the main thread will join has not left,
or no task is left in the queues.
-/

section Steps

variable {P : Program σ V} {ch : Choice} {free : Bool} {sh : Shared σ V} {pc : Pc σ V}
  {e : Effect σ V} {s s' : State σ V} {w : Nat}

/-- A worker gets a task by taking it from `runnable`. -/
theorem WorkerStep.takes (hs : WorkerStep P ch free sh pc e) (hnone : pc.task? = none)
    {u : Task σ V} (hu : e.pc.task? = some u) :
    pc.pops = true ∧ sh.queue.runnable.isEmpty = false := by
  have hpop : ∀ {sh' : Shared σ V} {otherwise : Pc σ V},
      (tryPop sh' otherwise).pc.task? = some u → sh'.queue.runnable = sh.queue.runnable →
      otherwise.task? = none → sh.queue.runnable.isEmpty = false := by
    intro sh' otherwise hu hr hother
    unfold tryPop at hu
    split at hu
    · rw [hother] at hu
      cases hu
    · rename_i h
      rw [← hr, h]
      rfl
  cases hs with
  | top | termNetYes | termStay => exact ⟨rfl, hpop hu rfl rfl⟩
  | notified =>
    refine ⟨rfl, ?_⟩
    simp only [wakeStep] at hu
    split at hu
    · cases hu
    · exact hpop hu rfl rfl
  | goIdle =>
    simp only [idleStep] at hu
    split at hu <;> cases hu
  | timersEmpty | timersWait =>
    rw [timersDone_task?] at hu
    cases hu
  | run | drop | park | requeue => cases hnone
  | _ => cases hu

/-- A queue without tasks has none. -/
theorem GlobalQueue.not_has_of_noTasks {q : GlobalQueue σ V} (h : q.noTasks = true)
    (t : Task σ V) : ¬ q.Has t := by
  simp only [GlobalQueue.noTasks, Bool.and_eq_true, List.isEmpty_iff] at h
  rintro (ht | ⟨i, ht⟩)
  · rw [h.1.1] at ht
    cases ht
  · rw [Slots.lookup_of_keys_nil h.1.2] at ht
    cases ht

/-- The tasks that run after a step of a worker are on workers that will be joined. -/
theorem State.Finishing.held_worker (h : s.Finishing) (hsh : s.Shaped) (hc : s.Counted)
    (hidle : .exited ∉ s.workers → s.sh.queue.idleWorkers = s.total Pc.waits)
    (hw : s.workers[w]? = some pc) (hs : WorkerStep P ch (queueFree s.workers) s.sh pc e)
    (hok : TakesInTurn (.worker w ch) s) (hst : Stirred (s.workers.set w e.pc) s'.workers)
    (hex : .exited ∈ s'.workers) {j : Nat} {pc' : Pc σ V} {t : Task σ V}
    (hj : s'.workers[j]? = some pc') (ht : pc'.task? = some t) (hd : t.state ≠ .dead) :
    j ∈ s.main.pc.handles := by
  rcases hst.task_set hj ht with ⟨rfl, rfl⟩ | ⟨hjw, hj'⟩
  · have hne : e.pc ≠ .exited := by
      intro he
      rw [he] at ht
      cases ht
    have hex' := (hst.exited_set hex).resolve_right hne
    cases hold : pc.task? with
    | some u =>
      refine h.held hex' j pc u hw hold ?_
      cases hs with
      | run =>
        cases hold
        exact (hsh.workers _ (List.mem_of_getElem? hw)).run
      | drop | park | requeue => cases ht
      | _ => cases hold
    | none =>
      -- the worker has just taken the task
      obtain ⟨hpops, hrunnable⟩ := hs.takes hold ht
      have hany : s.workers.any Pc.isExited = true := List.any_eq_true.mpr ⟨_, hex', rfl⟩
      by_contra hnot
      unfold TakesInTurn takesLate? at hok
      simp [hw, hpops, hrunnable, hany, hnot] at hok
  · by_cases hex' : .exited ∈ s.workers
    · exact h.held hex' j pc' t hj' ht hd
    · -- the worker is the first to leave, and then no other holds a task
      have he := (hst.exited_set hex).resolve_left hex'
      have hsleeps := first_exit (hidle hex') hc hw hs.loop he hj' hjw
      rw [awake_of_task? ht] at hsleeps
      cases hsleeps

/-- While a call is in progress, a step of a worker leaves a worker to join, or the queues empty. -/
theorem State.Finishing.queues_worker (h : s.Finishing) (hsh : s.Shaped)
    (hw : s.workers[w]? = some pc) (hs : WorkerStep P ch (queueFree s.workers) s.sh pc e)
    (hst : Stirred (s.workers.set w e.pc) s'.workers) (hsh' : s'.sh = e.sh)
    (hrun : s.main.pc.inRun = true) :
    s.main.pc.spawning = true ∨
      (∃ j ∈ s.main.pc.handles, ∃ pc', s'.workers[j]? = some pc' ∧ pc' ≠ .exited) ∨
      .exited ∈ s'.workers ∧ ∀ t, ¬ s'.sh.queue.Has t := by
  have hself : (s.workers.set w e.pc)[w]? = some e.pc :=
    List.getElem?_set_self (List.getElem?_eq_some_iff.mp hw).1
  by_cases he : e.pc = .exited
  · -- a worker leaves only when it has found the queues empty
    obtain ⟨hnone, -, -⟩ := hs.loop.exited_awake he
    have hq := (hs.loop.exited he).1
    refine .inr (.inr ⟨hst.exited.mpr ?_, fun t ht => ?_⟩)
    · exact List.mem_of_getElem? (hself.trans (congrArg some he))
    · rw [hsh'] at ht
      rcases hs.sched.has ht with ⟨u, hu, -⟩ | ⟨u, rfl, -⟩ | ⟨u, id, f, k, rfl, -⟩
      · exact GlobalQueue.not_has_of_noTasks hq u hu
      · cases hnone
      · cases hnone
  · have hwork := hst.alive w e.pc hself he
    rcases h.queues hrun with hspawn | ⟨j, hjh, pc', hj, hne⟩ | ⟨hex, hempty⟩
    · exact .inl hspawn
    · refine .inr (.inl ⟨j, hjh, ?_⟩)
      by_cases hjw : w = j
      · subst hjw
        exact hwork
      · exact hst.alive j pc' (by rw [List.getElem?_set_ne hjw]; exact hj) hne
    · by_cases hnew : ∃ t, s'.sh.queue.Has t
      · -- the worker has queued a task that it holds, or a child of it
        obtain ⟨t, ht⟩ := hnew
        rw [hsh'] at ht
        refine .inr (.inl ⟨w, ?_, hwork⟩)
        rcases hs.sched.has ht with ⟨u, hu, -⟩ | ⟨u, rfl, hd, -⟩ | ⟨u, id, f, k, rfl, -⟩
        · exact absurd hu (hempty u)
        · exact h.held hex w _ u hw rfl hd
        · exact h.held hex w _ u hw rfl (hsh.workers _ (List.mem_of_getElem? hw)).run
      · -- a worker that has left stays where it is
        obtain ⟨j, hj⟩ := List.mem_iff_getElem?.mp hex
        have hjw : w ≠ j := by
          rintro rfl
          rw [hw] at hj
          cases hj
          cases hs
        refine .inr (.inr ⟨hst.exited.mpr (List.mem_of_getElem? (i := j) ?_), fun t ht =>
          hnew ⟨t, ht⟩⟩)
        rw [List.getElem?_set_ne hjw]
        exact hj

/-- **A step of a worker** keeps the account of the tasks. -/
theorem State.Finishing.worker (h : s.Finishing) (hsh : s.Shaped) (hc : s.Counted)
    (hidle : .exited ∉ s.workers → s.sh.queue.idleWorkers = s.total Pc.waits)
    (hw : s.workers[w]? = some pc) (hs : WorkerStep P ch (queueFree s.workers) s.sh pc e)
    (hok : TakesInTurn (.worker w ch) s) (hst : Stirred (s.workers.set w e.pc) s'.workers)
    (hmove : WorkerMove s s' w pc e) : s'.Finishing where
  held hex j pc' t hj ht hd := by
    rw [hmove.main]
    exact h.held_worker hsh hc hidle hw hs hok hst hex hj ht hd
  queues hrun := by
    rw [hmove.main] at hrun ⊢
    exact h.queues_worker hsh hw hs hst hmove.sh hrun
  starts := by
    rw [hmove.main]
    exact h.starts

/-- The main thread stops to wait for a worker only when the worker has left. -/
theorem MainStep.handles (hs : MainStep s s') (hmem : w ∈ s.main.pc.handles) :
    w ∈ s'.main.pc.handles ∨ s.workers[w]? = some .exited := by
  cases hs with
  | go hm | start hm | goPush hm | joined hm =>
    rw [hm] at hmem
    cases hmem
  | spawn hm =>
    rw [hm] at hmem
    exact .inl (List.mem_append_left _ hmem)
  | spawned hm =>
    rw [hm] at hmem
    exact .inl hmem
  | join hm hv =>
    rw [hm] at hmem
    rcases List.mem_cons.mp hmem with rfl | hmem
    · exact .inr hv
    · exact .inl hmem

/-- The calls that the main thread has still to make are among those it had. -/
theorem MainStep.rest (hs : MainStep s s') {op : MainOp σ} (hop : op ∈ s'.main.rest) :
    op ∈ s.main.rest := by
  cases hs with
  | go hm | start hm =>
    rw [hm]
    exact List.mem_cons_of_mem _ hop
  | goPush hm | spawn hm | spawned hm | joined hm | join hm =>
    rw [hm]
    exact hop

/-- **A step of the main thread** keeps it. -/
theorem State.Finishing.main (h : s.Finishing) (hst : Stirred s.workers s'.workers)
    (hs : MainStep s s') : s'.Finishing := by
  refine ⟨fun hex w pc t hw ht hd => ?_, fun hrun => ?_, fun n hn => h.starts n (hs.rest hn)⟩
  · have hw' := hst.task w pc t hw ht
    -- the worker that is joined holds no task
    refine (hs.handles (h.held (hst.exited.mp hex) w pc t hw' ht hd)).resolve_right fun hv => ?_
    rw [hw'] at hv
    cases hv
    cases ht
  · cases hs with
    | go | goPush | joined => cases hrun
    | start hm => exact .inl (decide_eq_true (h.starts _ (by rw [hm]; exact List.mem_cons_self)))
    | spawn hm =>
      refine .inr (.inl ⟨s.workers.length, List.mem_append_right _ List.mem_cons_self, ?_⟩)
      exact ⟨_, List.getElem?_concat_length, by simp⟩
    | spawned hm hge =>
      have hq := h.queues (by rw [hm]; rfl)
      rw [hm] at hq
      rcases hq with hspawn | hq
      · exact absurd (of_decide_eq_true hspawn) (by omega)
      · exact .inr hq
    | join hm hv =>
      have hq := h.queues (by rw [hm]; rfl)
      rw [hm] at hq
      rcases hq with hspawn | ⟨w, hmem, pc, hw, hne⟩ | hq
      · cases hspawn
      · rcases List.mem_cons.mp hmem with rfl | hmem
        · rw [hv] at hw
          exact absurd (Option.some.inj hw).symm hne
        · exact .inr (.inl ⟨w, hmem, pc, hw, hne⟩)
      · exact .inr (.inr hq)

/-- A step that leaves the main thread alone and queues no task, one of the environment. -/
theorem State.Finishing.outer (h : s.Finishing) (hst : Stirred s.workers s'.workers)
    (hmain : s'.main = s.main) (hq : ∀ t, s'.sh.queue.Has t → s.sh.queue.Has t) :
    s'.Finishing := by
  refine ⟨fun hex w pc t hw ht hd => ?_, fun hrun => ?_, by rw [hmain]; exact h.starts⟩
  · rw [hmain]
    exact h.held (hst.exited.mp hex) w pc t (hst.task w pc t hw ht) ht hd
  · rw [hmain] at hrun ⊢
    rcases h.queues hrun with hspawn | ⟨w, hmem, pc, hw, hne⟩ | ⟨hex, hempty⟩
    · exact .inl hspawn
    · exact .inr (.inl ⟨w, hmem, hst.alive w pc hw hne⟩)
    · exact .inr (.inr ⟨hst.exited.mpr hex, fun t ht => hempty t (hq t ht)⟩)

end Steps

/-! ### Runs

A return that comes too early needs two calls: the worker that `enter_blocking` spawned in the first
call registers in the second one, where nobody joins it.
-/

section Runs

variable {P : Program σ V} {s : State σ V} {caps : List Nat} {groups : Nat}
  {calls : List (MainOp σ)}

/-- **The account of the tasks**, in every state reached. -/
theorem reach_finishing (hn : ∀ n, .startRuntime n ∈ calls → 1 ≤ n)
    (hr : ((runtime P).startingAt (.initial caps groups calls)).Reach TakesInTurn s) :
    s.Finishing := by
  refine hr.invariant ?_ ?_
  · rintro s rfl
    refine ⟨fun hex => absurd hex List.not_mem_nil, fun hrun => ?_, hn⟩
    cases hrun
  · intro s s' a hr h hok hn
    have hr' : (runtime P).Reachable s :=
      (System.startingAt_reach (show (runtime P).init _ from ⟨caps, groups, calls, rfl⟩)
        hr).reachable
    obtain ⟨-, hnext⟩ := next_inv (P := P) hn
    cases hnext with
    | worker hw hs hnot =>
      exact h.worker (reach_shaped hr') (reach_counted hr') (reach_idle_before_exit hr') hw hs hok
        (hnot.stirred_spawn _) (hnot.workerMove hw)
    | main hs =>
      refine h.main ?_ hs
      cases hs with
      | goPush _ _ hnot => exact hnot.stirred
      | spawn => exact (Stirred.refl _).append_start _
      | go | start | spawned | joined | join => exact Stirred.refl _
    | @spurious w hw =>
      have hnot : Notified s.workers .one (s.workers.set w .notified) := .one hw
      exact h.outer hnot.stirred rfl fun _ ht => ht
    | tick | setReadable => exact h.outer (Stirred.refl _) rfl fun _ ht => ht

/-- **`start_runtime` returns when all tasks are done.**  In every state reached by a run in which,
    once a worker has left its loop, only workers that will be joined take tasks: when
    `start_runtime` has joined its workers and is about to return, every task that was created has
    finished, and none is in `runnable`, in `waiting` or on a worker. -/
theorem start_runtime_done (hn : ∀ n, .startRuntime n ∈ calls → 1 ≤ n)
    (hr : ((runtime P).startingAt (.initial caps groups calls)).Reach TakesInTurn s)
    (hret : s.main.pc = .join []) :
    (∀ i, .created i ∈ s.sh.log → .died i ∈ s.sh.log) ∧ ∀ t, ¬ s.Live t := by
  have h := reach_finishing hn hr
  have hr' : (runtime P).Reachable s :=
    (System.startingAt_reach (show (runtime P).init _ from ⟨caps, groups, calls, rfl⟩)
      hr).reachable
  have hdone : .exited ∈ s.workers ∧ ∀ t, ¬ s.sh.queue.Has t := by
    rcases h.queues (by rw [hret]; rfl) with hspawn | ⟨w, hw, -⟩ | hdone
    · rw [hret] at hspawn
      cases hspawn
    · rw [hret] at hw
      cases hw
    · exact hdone
  have hlive : ∀ t, ¬ s.Live t := by
    rintro t (ht | ⟨pc, hpc, ht, hd⟩)
    · exact hdone.2 t ht
    · obtain ⟨w, hw⟩ := List.mem_iff_getElem?.mp hpc
      have := h.held hdone.1 w pc t hw ht hd
      rw [hret] at this
      cases this
  refine ⟨fun i hi => ?_, hlive⟩
  by_contra hd
  obtain ⟨t, ht, -⟩ := live_of_created (reach_shaped hr') (reach_placed hr') hi hd
  exact hlive t ht

end Runs

/-- One call of `start_runtime`, with one task and one worker. -/
theorem start_runtime_done_once :
    ∃ s, (((runtime emptyProgram).startingAt (.initial [] 0 [.go (), .startRuntime 1])).guard
          fun a s => !takesLate? a s).run
        (List.replicate 5 (Act.main {}) ++ List.replicate 13 (Act.worker 0 {}) ++ [Act.main {}])
        (.initial [] 0 [.go (), .startRuntime 1]) = some s ∧
      s.main.pc = .join [] ∧ .died 0 ∈ s.sh.log := by
  have h : ((((runtime emptyProgram).startingAt
        (.initial [] 0 [.go (), .startRuntime 1])).guard fun a s => !takesLate? a s).run
      (List.replicate 5 (Act.main {}) ++ List.replicate 13 (Act.worker 0 {}) ++ [Act.main {}])
      (.initial [] 0 [.go (), .startRuntime 1])).map
        (fun s => (s.main.pc, s.sh.log.any (·.isCreated 0)))
      = some (.join [], true) := by rfl
  obtain ⟨s, hs, hst⟩ := Option.map_eq_some_iff.mp h
  obtain ⟨hpc, hlog⟩ := Prod.mk.inj hst
  obtain ⟨ev, hev, hcr⟩ := List.any_eq_true.mp hlog
  have hr : ((runtime emptyProgram).startingAt
      (.initial [] 0 [.go (), .startRuntime 1])).Reach TakesInTurn s :=
    System.run_guard_reach (fun a s h => by simpa [TakesInTurn] using h) rfl hs
  refine ⟨s, hs, hpc, (start_runtime_done ?_ hr hpc).1 0 (isCreated_iff.mp hcr ▸ hev)⟩
  intro n hn
  simp at hn
  omega

/-- **A return while a task runs.**  The worker that `enter_blocking` spawns in the first run
    registers in the second one and takes its task.  The worker of the second call goes idle: the
    worker that left in the first run is still in `idle_workers`, the test says that everybody is
    idle, and `start_runtime` is about to return. -/
theorem start_runtime_early :
    ∃ s, ((runtime ioProgram).startingAt
          (.initial [] 0 [.go 0, .startRuntime 1, .go 3, .startRuntime 1])).Reachable s ∧
      s.main.pc = .join [] ∧ .created 2 ∈ s.sh.log ∧ .died 2 ∉ s.sh.log ∧
      ∃ t, s.workers[1]? = some (.run t) ∧ t.id = 2 := by
  have h : (((runtime ioProgram).startingAt
        (.initial [] 0 [.go 0, .startRuntime 1, .go 3, .startRuntime 1])).run
      (List.replicate 5 (Act.main {}) ++ List.replicate 23 (Act.worker 0 {}) ++
        List.replicate 7 (Act.main {}) ++ List.replicate 2 (Act.worker 1 {}) ++
        List.replicate 9 (Act.worker 2 {}) ++ [Act.main {}])
      (.initial [] 0 [.go 0, .startRuntime 1, .go 3, .startRuntime 1])).map
        (fun s => (s.main.pc, s.sh.log.any (·.isCreated 2), s.sh.log.any (·.isDied 2),
          s.workers[1]?))
      = some (.join [], true, false,
          some (.run { id := 2, code := .entry 3, state := .running })) := by rfl
  obtain ⟨s, hs, hst⟩ := Option.map_eq_some_iff.mp h
  obtain ⟨hpc, hst⟩ := Prod.mk.inj hst
  obtain ⟨hc, hst⟩ := Prod.mk.inj hst
  obtain ⟨hd, hw⟩ := Prod.mk.inj hst
  obtain ⟨ev, hev, hcr⟩ := List.any_eq_true.mp hc
  refine ⟨s, System.run_reachable (M := (runtime ioProgram).startingAt
    (.initial [] 0 [.go 0, .startRuntime 1, .go 3, .startRuntime 1])) rfl hs, hpc,
    isCreated_iff.mp hcr ▸ hev, fun hmem => ?_, _, hw, rfl⟩
  exact absurd (isDied_iff.mpr rfl) (List.any_eq_false.mp hd _ hmem)

end MyGoroutine
