import MyGoroutine.Sched.Launch
import MyGoroutine.Workers.Count

namespace MyGoroutine

/-!
# Nobody sleeps on runnable work

A worker may go to sleep while `runnable` holds a task: it takes the lock for the idle path
without looking at `runnable` again.  Still, not all workers are asleep then: whoever pushes a
task is awake, and looks at `runnable` before it sleeps itself.

* `State.Attended` — some worker attends to the runnable tasks;
* `reach_attended` — this holds of every state of a run in which the main thread makes its `go`
  calls first;
* `no_sleep_with_work` — so `runnable` is empty when all workers are asleep.
-/

variable {σ V : Type}

/-- While there are runnable tasks, some worker attends to them, or no worker has registered. -/
def State.Attended (s : State σ V) : Prop :=
  s.sh.queue.runnable ≠ [] →
    (∃ pc ∈ s.workers, pc.attends = true) ∨ ∀ pc ∈ s.workers, ∃ id, pc = .start id

section Runs

variable {P : Program σ V} {s s' : State σ V} {w : Nat} {pc : Pc σ V} {e : Effect σ V}
  {ws : List (Pc σ V)} {n : Notify}

/-- A notification wakes workers, and puts none to sleep. -/
theorem Notified.attends {ws' : List (Pc σ V)} (h : Notified ws n ws')
    (ha : ∃ pc ∈ ws, pc.attends = true) : ∃ pc ∈ ws', pc.attends = true := by
  obtain ⟨pc, hpc, ha⟩ := ha
  obtain ⟨i, hi⟩ := List.mem_iff_getElem?.mp hpc
  exact ⟨pc, List.mem_of_getElem? (h.getElem? hi (by rintro rfl; cases ha)), ha⟩

/-- After a step of `w` some worker attends, if `w` does, or somebody else did. -/
theorem attends_set (hw : s.workers[w]? = some pc)
    (h : e.pc.attends = true ∨
      (pc.attends = true → e.pc.attends = true) ∧ ∃ pc ∈ s.workers, pc.attends = true) :
    ∃ pc ∈ s.workers.set w e.pc, pc.attends = true := by
  have hlt := (List.getElem?_eq_some_iff.mp hw).1
  have hself : e.pc ∈ s.workers.set w e.pc :=
    List.mem_of_getElem? (List.getElem?_set_self hlt)
  rcases h with h | ⟨hkeep, pc', hpc', ha⟩
  · exact ⟨_, hself, h⟩
  · obtain ⟨j, hj⟩ := List.mem_iff_getElem?.mp hpc'
    by_cases hjw : w = j
    · subst hjw
      rw [hw] at hj
      cases hj
      exact ⟨_, hself, hkeep ha⟩
    · exact ⟨pc', List.mem_of_getElem? (by rw [List.getElem?_set_ne hjw]; exact hj), ha⟩

/-- **A step of a worker keeps the runnable tasks attended to.** -/
theorem State.Attended.worker (h : s.Attended) (hw : s.workers[w]? = some pc)
    (hs : LoopStep s.sh pc e) (hn : Notified (s.workers.set w e.pc) e.notify ws)
    (starts : List (Pc σ V)) :
    State.Attended { s with sh := e.sh, workers := ws ++ starts } := by
  intro hne
  left
  have hmem := List.mem_of_getElem? hw
  -- the worker has registered, so only the first alternative of `h` is left
  have hold : pc.registered = 1 → s.sh.queue.runnable ≠ [] → ∃ pc ∈ s.workers, pc.attends = true := by
    intro hreg hr
    rcases h hr with h | h
    · exact h
    · obtain ⟨id, rfl⟩ := h pc hmem
      cases hreg
  have hgoal : ∃ pc ∈ s.workers.set w e.pc, pc.attends = true := by
    cases hs with
    | register _ hpc' => exact attends_set hw (.inl (by rw [hpc']; rfl))
    | stay hpc _ hr =>
      exact attends_set hw (.inr ⟨hpc.attends, hold hpc.registered.1 (hr ▸ hne)⟩)
    | push hpc hatt | pushBack hpc _ hatt => exact attends_set hw (.inl (hpc.attends hatt))
    | pop _ _ hpc' => exact attends_set hw (.inl (by rw [hpc']; rfl))
    | empty _ _ _ _ hr => exact absurd hr hne
    | sleep hpc _ _ hr =>
      subst hpc
      exact attends_set hw (.inr ⟨fun ha => absurd ha (by simp [Pc.attends, Pc.looks]),
        hold rfl (hr ▸ hne)⟩)
    | idleExit _ _ _ _ hq _ hr | termExit _ _ _ hq _ hr =>
      refine absurd ?_ hne
      show e.sh.queue.runnable = []
      rw [hr]
      simp only [GlobalQueue.noTasks, Bool.and_eq_true, List.isEmpty_iff] at hq
      exact hq.1.1
  obtain ⟨pc', hpc', ha⟩ := hn.attends hgoal
  exact ⟨pc', List.mem_append_left _ hpc', ha⟩

/-- **The runnable tasks are attended to**, in every state reached when the main thread makes its
    `go` calls before it starts the runtime. -/
theorem reach_attended {caps : List Nat} {groups : Nat} {gos : List σ} {ns : List Nat}
    {ok : Act → State σ V → Prop}
    (hr : ((runtime P).startingAt (.initial caps groups (launch gos ns))).Reach ok s) :
    s.Attended := by
  refine hr.invariant ?_ ?_
  · rintro s rfl hne
    exact absurd rfl hne
  · intro s s' a hr h _ hn
    obtain ⟨-, hn⟩ := next_inv hn
    cases hn with
    | worker hw hs hnot => exact h.worker hw hs.loop hnot _
    | main hs =>
      cases hs with
      | @goPush id f rest ws hm _ hnot =>
        -- the main thread queues tasks only before there are workers
        have hnil : s.workers = [] := by
          cases reach_launched hr with
          | pushing hw | goPush hw => exact hw
          | started _ hm' => rw [hm] at hm'; cases hm'
        rw [hnil] at hnot
        intro _
        right
        intro pc hpc
        rw [show ws = [] from hnot.eq_nil] at hpc
        cases hpc
      | spawn =>
        intro hne
        rcases h hne with ⟨pc, hpc, ha⟩ | hall
        · exact .inl ⟨pc, List.mem_append_left _ hpc, ha⟩
        · refine .inr fun pc hpc => ?_
          rcases List.mem_append.mp hpc with hpc | hpc
          · exact hall pc hpc
          · exact ⟨_, List.mem_singleton.mp hpc⟩
      | go | start | spawned | joined | join => exact h
    | @spurious w hw =>
      intro hne
      have hlt := (List.getElem?_eq_some_iff.mp hw).1
      exact .inl ⟨_, List.mem_of_getElem? (List.getElem?_set_self hlt), rfl⟩
    | tick | setReadable => exact h

/-- **No global sleep with runnable work.**  In every state reached when the main thread makes its
    `go` calls before it starts the runtime: once a worker has registered, and while every
    registered worker that has not left its loop is blocked in `condvar.wait`, no task is
    runnable. -/
theorem no_sleep_with_work {caps : List Nat} {groups : Nat} {gos : List σ} {ns : List Nat}
    (hr : ((runtime P).startingAt (.initial caps groups (launch gos ns))).Reachable s)
    (hreg : ∃ pc ∈ s.workers, ∀ id, pc ≠ .start id)
    (hsleep : ∀ pc ∈ s.workers, pc.registered = 1 → pc = .blocked) :
    s.sh.queue.runnable = [] := by
  by_contra hne
  rcases reach_attended hr hne with ⟨pc, hpc, ha⟩ | hall
  · have hr : pc.registered = 1 := by
      cases pc <;> first | rfl | cases ha
    rw [hsleep pc hpc hr] at ha
    cases ha
  · obtain ⟨pc, hpc, hns⟩ := hreg
    obtain ⟨id, hid⟩ := hall pc hpc
    exact hns id hid

end Runs

/-- A task that parks, and that nobody wakes. -/
def parkProgram : Program Bool Unit where
  code b := if b then .gopark false else .done
  variant := .channel
  overflowChecks := true
  own b := by cases b <;> rfl

/-- The only worker sleeps while the task of `parkProgram` waits. -/
theorem no_sleep_with_work_parked :
    ∃ s, ((runtime parkProgram).startingAt (.initial [] 0 (launch [true] [1]))).run
        (List.replicate 5 (Act.main {}) ++ List.replicate 14 (Act.worker 0 {}))
        (.initial [] 0 (launch [true] [1])) = some s ∧
      s.workers = [.blocked] ∧ s.sh.queue.runnable = [] := by
  have h : (((runtime parkProgram).startingAt (.initial [] 0 (launch [true] [1]))).run
      (List.replicate 5 (Act.main {}) ++ List.replicate 14 (Act.worker 0 {}))
      (.initial [] 0 (launch [true] [1]))).map (fun s => s.workers) = some [.blocked] := by rfl
  obtain ⟨s, hs, hw⟩ := Option.map_eq_some_iff.mp h
  have hr := System.run_reachable
    (M := (runtime parkProgram).startingAt (.initial [] 0 (launch [true] [1]))) rfl hs
  exact ⟨s, hs, hw, no_sleep_with_work hr ⟨.blocked, by simp [hw], by simp⟩
    fun pc hpc _ => by simpa [hw] using hpc⟩

end MyGoroutine
