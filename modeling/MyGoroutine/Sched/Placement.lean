import MyGoroutine.Sched.Shape

namespace MyGoroutine

/-!
# Task conservation — every task is in exactly one place

A task created by `go` is once in `runnable`, or once in `waiting`, or on one worker, until
it has finished; then it is in no place.  This is a balance of counts, and every scheduling
step moves the two sides together:

* `GlobalQueue.held`, `Pc.holds` — how often a task id occurs in the queues and on a worker,
  counting the tasks whose code satisfies a predicate;
* `Pc.births` — the ids taken by `go` for children that are not queued yet;
* `State.Placed` — the balance of places, ids and closures;
* `reach_placed` — every state reached is balanced, whatever ids `goready` is called with.
-/

variable {σ V : Type}

/-! ### Counting occurrences

A task can be in `runnable`, in `waiting` or on a worker. To say that it is in one of them, its
occurrences are counted in all; the same counts, restricted to points of a kind, tell a task that is
not yet called from one that is.
-/

/-- One occurrence of the task id `i`, for a task whose code satisfies `p`. -/
def Task.counts (p : Code σ V → Bool) (i : TaskId) (t : Task σ V) : Nat :=
  if t.id = i ∧ p t.code = true then 1 else 0

/-- A task at another kind of point is not counted. -/
theorem counts_eq_zero {p : Code σ V → Bool} {i : TaskId} {t : Task σ V}
    (h : p t.code = false) : t.counts p i = 0 :=
  if_neg (by simp [h])

/-- A task that goes on to another kind of point is not counted any more. -/
theorem counts_goto_eq_zero {p : Code σ V → Bool} {i : TaskId} {t : Task σ V} {c : Code σ V}
    (h : p c = false) : (t.goto c).counts p i = 0 :=
  counts_eq_zero h

/-- Counting the tasks at any point counts the task itself. -/
theorem counts_true (i : TaskId) (t : Task σ V) :
    t.counts (fun _ => true) i = if t.id = i then 1 else 0 := by
  simp [Task.counts]

/-- How often the queues hold the task `i`. -/
def GlobalQueue.held (p : Code σ V → Bool) (i : TaskId) (q : GlobalQueue σ V) : Nat :=
  (q.runnable.map (Task.counts p i)).sum + ((q.waiting.lookup i).map (Task.counts p i)).getD 0

/-- How often a worker holds the task `i`; a task that has finished is not counted. -/
def Pc.holds (p : Code σ V → Bool) (i : TaskId) : Pc σ V → Nat
  | .run t => t.counts p i
  | .switched t => if t.state = .dead then 0 else t.counts p i
  | _ => 0

/-- The id `i` has been taken from `NEXT_TASK_ID`. -/
def issued (i nextTaskId : Nat) : Nat := if i < nextTaskId then 1 else 0

/-- One more id is given out. -/
theorem issued_succ (i n : Nat) : issued i (n + 1) = issued i n + (if n = i then 1 else 0) := by
  unfold issued
  split_ifs <;> omega

/-- The worker's task is in `go` with the id `i` for its child. -/
def Pc.births (i : TaskId) : Pc σ V → Nat
  | .run t => if t.code.birth = some i then 1 else 0
  | _ => 0

/-- The main thread is in `go` with the id `i`. -/
def MainPc.births (i : TaskId) (pc : MainPc σ) : Nat := if pc.pushes = some i then 1 else 0

/-- The event is the creation of the task. -/
def Event.isCreated (i : TaskId) : Event V → Bool
  | .created t => t == i
  | _ => false

/-- The event is the end of the task. -/
def Event.isDied (i : TaskId) : Event V → Bool
  | .died t => t == i
  | _ => false

/-- The event is the first step of the task. -/
def Event.isEntered (i : TaskId) : Event V → Bool
  | .entered t => t == i
  | _ => false

/-- The event is the creation of the task. -/
theorem isCreated_iff {i : TaskId} {e : Event V} : e.isCreated i = true ↔ e = .created i := by
  cases e <;> simp [Event.isCreated]

/-- The event is the end of the task. -/
theorem isDied_iff {i : TaskId} {e : Event V} : e.isDied i = true ↔ e = .died i := by
  cases e <;> simp [Event.isDied]

/-- The event is no dispatch of a task that `d` says has finished. -/
def Event.NoResume (d e : Event V) : Prop := ∀ i, d = .died i → e ≠ .dispatched i

/-- The creation of a task is seen from its own id only. -/
theorem isCreated_created (t i : TaskId) : (Event.created t : Event V).isCreated i = (t == i) := rfl

/-- The creation of a task is nobody's end. -/
theorem isDied_created (t i : TaskId) : (Event.created t : Event V).isDied i = false := rfl

/-- The creation of a task calls no closure yet. -/
theorem isEntered_created (t i : TaskId) : (Event.created t : Event V).isEntered i = false := rfl

@[simp] theorem isEntry_user (x : σ) : (Code.user x : Code σ V).isEntry = false := rfl
@[simp] theorem isEntry_goPush (id : TaskId) (f k : σ) :
    (Code.goPush id f k : Code σ V).isEntry = false := rfl
@[simp] theorem isEntry_park (p : Park σ V) : (Code.park p).isEntry = false := rfl
@[simp] theorem isEntry_parked (p : Park σ V) : (Code.parked p).isEntry = false := rfl

/-- The child of a `go` is about to be queued. -/
@[simp] theorem birth_goPush (id : TaskId) (f k : σ) :
    (Code.goPush id f k : Code σ V).birth = some id := rfl

/-- A task that can be switched out is not in the middle of a `go`. -/
theorem Code.birth_of_resumable {c : Code σ V} (h : c.resumable = true) : c.birth = none := by
  cases c <;> first | rfl | cases h

/-- A worker without a task holds none. -/
theorem Pc.holds_of_task? {p : Code σ V → Bool} {i : TaskId} {pc : Pc σ V}
    (h : pc.task? = none) : pc.holds p i = 0 := by
  cases pc <;> first | rfl | cases h

/-- A worker that holds a task which has not finished counts it. -/
theorem holds_eq_one {pc : Pc σ V} {t : Task σ V} (h : pc.task? = some t) (hd : t.state ≠ .dead) :
    pc.holds (fun _ => true) t.id = 1 := by
  cases pc <;> cases h
  · simp [Pc.holds, Task.counts]
  · simp [Pc.holds, Task.counts, hd]

/-- A worker without a task gives birth to none. -/
theorem Pc.births_of_task? {i : TaskId} {pc : Pc σ V} (h : pc.task? = none) :
    pc.births i = 0 := by
  cases pc <;> first | rfl | cases h

namespace GlobalQueue

variable {p : Code σ V → Bool} {i : TaskId} {q : GlobalQueue σ V}

/-- What the queue holds depends on its two stores only. -/
theorem held_congr {q' : GlobalQueue σ V} (hr : q'.runnable = q.runnable)
    (hw : q'.waiting = q.waiting) : q'.held p i = q.held p i := by
  rw [held, held, hr, hw]

/-- The state of a task plays no part in the count. -/
@[simp] theorem counts_withState (t : Task σ V) (st : TaskState) :
    (t.withState st).counts p i = t.counts p i := rfl

/-- A task that is pushed is held by the queue. -/
theorem held_pushBack (t : Task σ V) : (q.pushBack t).held p i = q.held p i + t.counts p i := by
  simp only [held, pushBack, List.map_append, List.sum_append, List.map_cons, List.map_nil,
    List.sum_cons, List.sum_nil]
  omega

/-- Waking a waiting task moves it from one place to another. -/
theorem held_wake {t : Task σ V} {id : TaskId} (ht : q.waiting.lookup id = some t)
    (hid : t.id = id) : (q.wake t id).held p i = q.held p i := by
  have hb := held_pushBack (p := p) (i := i) (q := q) (t.withState .runnable)
  simp only [held, pushBack, wake, Slots.lookup_erase_ite, counts_withState] at hb ⊢
  by_cases hi : i = id
  · subst hi
    simp only [if_true, ht, Option.map_some, Option.map_none, Option.getD_some,
      Option.getD_none] at hb ⊢
    omega
  · have h0 : t.counts p i = 0 := if_neg (fun h => hi (h.1.symm.trans hid))
    rw [if_neg hi]
    omega

/-- Storing a task that was not waiting adds one place. -/
theorem held_store {t : Task σ V} (ht : q.waiting.lookup t.id = none) :
    (q.store t).held p i = q.held p i + t.counts p i := by
  simp only [held, store, Slots.lookup_insert_ite]
  by_cases hi : i = t.id
  · subst hi
    simp [ht]
  · have h0 : t.counts p i = 0 := if_neg (fun h => hi h.1.symm)
    rw [if_neg hi]
    omega

/-- Popping the front takes one place. -/
theorem held_popFront {q' : GlobalQueue σ V} {t : Task σ V} {rest : List (Task σ V)}
    (hr : q.runnable = t :: rest) (hr' : q'.runnable = rest) (hw : q'.waiting = q.waiting) :
    q'.held p i + t.counts p i = q.held p i := by
  simp only [held, hr, hr', hw, List.map_cons, List.sum_cons]
  omega

end GlobalQueue

section Sections

variable {p : Code σ V → Bool} {i : TaskId} {sh : Shared σ V}

/-- `goready` moves a task inside the queue, and leaves a token otherwise. -/
theorem goready_held {waker : Waker} {id : TaskId} (h : sh.queue.Shaped) :
    (sh.goready waker id).1.queue.held p i = sh.queue.held p i := by
  unfold Shared.goready
  split
  · exact GlobalQueue.held_wake ‹_› (h.waiting _ _ ‹_›).1
  · rfl

/-- A parked task is held by the queue, be it in `waiting` or in `runnable`. -/
theorem parkTask_held {variant : Variant} {t : Task σ V}
    (ht : sh.queue.waiting.lookup t.id = none) :
    (sh.parkTask variant t).1.queue.held p i = sh.queue.held p i + t.counts p i := by
  unfold Shared.parkTask
  split
  · exact GlobalQueue.held_pushBack (t.withState .runnable)
  · exact GlobalQueue.held_store ht

/-- Parking gives out no id. -/
theorem parkTask_nextTaskId {variant : Variant} {t : Task σ V} :
    (sh.parkTask variant t).1.nextTaskId = sh.nextTaskId := by
  unfold Shared.parkTask
  split <;> rfl

/-- Events beside scheduling do not change a count of scheduling events. -/
theorem QuietLog.countP {log log' : List (Event V)} (h : QuietLog log log')
    {f : Event V → Bool} (hf : ∀ e, e.isSched = false → f e = false) :
    log'.countP f = log.countP f := by
  obtain ⟨es, rfl, hes⟩ := h
  have h0 : es.countP f = 0 := List.countP_eq_zero.mpr fun e he => by simp [hf e (hes e he)]
  rw [List.countP_append, h0, Nat.add_zero]

/-- A creation is an event of scheduling. -/
theorem isCreated_quiet (e : Event V) (h : e.isSched = false) : e.isCreated i = false := by
  cases e <;> first | rfl | cases h

/-- The end of a task is an event of scheduling. -/
theorem isDied_quiet (e : Event V) (h : e.isSched = false) : e.isDied i = false := by
  cases e <;> first | rfl | cases h

/-- The call of the closure is an event of scheduling. -/
theorem isEntered_quiet (e : Event V) (h : e.isSched = false) : e.isEntered i = false := by
  cases e <;> first | rfl | cases h

/-- `goready` adds no event that places, ids or closures depend on. -/
theorem goready_countP {waker : Waker} {id : TaskId} {f : Event V → Bool}
    (hg : f (.goready id waker) = false) (hw : f (.wake id) = false) :
    (sh.goready waker id).1.log.countP f = sh.log.countP f := by
  unfold Shared.goready
  split <;> simp [Shared.record, Shared.withQueue, hg, hw]

/-- Parking logs a wake-up at most. -/
theorem parkTask_countP {variant : Variant} {t : Task σ V} {f : Event V → Bool}
    (hw : f (.wake t.id) = false) :
    (sh.parkTask variant t).1.log.countP f = sh.log.countP f := by
  unfold Shared.parkTask
  split <;> simp [Shared.record, Shared.withQueue, hw]

end Sections

/-! ### The balance of one step

A task appears in a place when it is queued for the first time, and disappears when it dies; both
are events. All other steps take it out of one place and put it into another in the same section.
-/

section Step

variable {variant : Variant} {sh sh' : Shared σ V} {pc pc' : Pc σ V} {p : Code σ V → Bool}
  {i : TaskId}

/-- A worker that keeps its task keeps its counts, if `p` does not tell plain codes apart. -/
theorem SameTask.holds (h : SameTask pc pc') (hp : ∀ c c', c.plain → c'.plain → p c = p c') :
    pc'.holds p i = pc.holds p i := by
  cases h with
  | none h h' => rw [Pc.holds_of_task? h, Pc.holds_of_task? h']
  | run h h' ht hc => subst h; subst h'; simp [Pc.holds, Task.counts, hp _ _ hc ht]

/-- A worker that keeps its task gives birth to the same child. -/
theorem SameTask.births (h : SameTask pc pc') : pc'.births i = pc.births i := by
  cases h with
  | none h h' => rw [Pc.births_of_task? h, Pc.births_of_task? h']
  | run h h' ht hc => subst h; subst h'; simp [Pc.births, ht.2, hc.2]

/-- A switched-out task that is still alive is in no queue, when ids occur once. -/
theorem lookup_none_of_switched {t : Task σ V} (h : sh.queue.Shaped)
    (hone : ∀ i, sh.queue.held (fun _ => true) i + (Pc.switched t).holds (fun _ => true) i ≤ 1)
    (hd : t.state ≠ .dead) : sh.queue.waiting.lookup t.id = none := by
  cases hl : sh.queue.waiting.lookup t.id with
  | none => rfl
  | some u =>
    have hid := (h.waiting _ _ hl).1
    have := hone t.id
    simp [GlobalQueue.held, hl, Pc.holds, hd, Task.counts, hid] at this

/-- A worker that runs no task moves tasks, and changes no code. -/
theorem SchedStep.held_other (hs : SchedStep variant sh pc sh' pc')
    (h : sh.queue.Shaped) (hpc : ∀ t, pc ≠ .run t)
    (hone : ∀ i, sh.queue.held (fun _ => true) i + pc.holds (fun _ => true) i ≤ 1) :
    sh'.queue.held p i + pc'.holds p i = sh.queue.held p i + pc.holds p i := by
  cases hs with
  | quiet hs _ _ ht =>
    cases ht with
    | none h1 h2 =>
      rw [GlobalQueue.held_congr hs.runnable hs.waiting, Pc.holds_of_task? h1,
        Pc.holds_of_task? h2]
    | run h => exact absurd h (hpc _)
  | goready hs _ _ ht =>
    cases ht with
    | none h1 h2 =>
      rw [GlobalQueue.held_congr hs.runnable hs.waiting, goready_held h, Pc.holds_of_task? h1,
        Pc.holds_of_task? h2]
    | run h => exact absurd h (hpc _)
  | entry h | alloc h | create h | yield h | parkOut h | die h => exact absurd h (hpc _)
  | @dispatch t _ _ ht hr hrun hw =>
    have := GlobalQueue.held_popFront (p := p) (i := i) hr hrun hw
    rw [Pc.holds_of_task? ht]
    simpa [Pc.holds] using this
  | drop hp hd h' =>
    subst hp
    rw [Pc.holds_of_task? h']
    simp [Pc.holds, hd]
  | @park t _ hp hw h' =>
    subst hp
    have hd : t.state ≠ .dead := fun hd => by rw [hw] at hd; cases hd
    rw [parkTask_held (lookup_none_of_switched h hone hd), Pc.holds_of_task? h']
    simp [Pc.holds, hd]
  | @requeue t _ hp hd _ h' =>
    subst hp
    have := GlobalQueue.held_pushBack (p := p) (i := i) (q := sh.queue) (t.withState .runnable)
    rw [Pc.holds_of_task? h']
    simpa [Shared.requeue, Shared.withQueue, Pc.holds, hd] using this

/-- Nor does it add an event that places or closures depend on. -/
theorem SchedStep.countP_other (hs : SchedStep variant sh pc sh' pc') (hpc : ∀ t, pc ≠ .run t)
    (f : Event V → Bool) (hf : ∀ e, e.isSched = false → f e = false)
    (hg : ∀ id waker, f (.goready id waker) = false) (hw : ∀ id, f (.wake id) = false)
    (hd : ∀ id, f (.dispatched id) = false) : sh'.log.countP f = sh.log.countP f := by
  cases hs with
  | quiet _ _ hl => exact hl.countP hf
  | goready _ _ hl => rw [hl.countP hf, goready_countP (hg _ _) (hw _)]
  | entry h | alloc h | create h | yield h | parkOut h | die h => exact absurd h (hpc _)
  | dispatch _ _ _ _ _ _ hl => simp [hl, hd]
  | park => exact parkTask_countP (hw _)
  | drop | requeue => rfl

/-- **The balance of places.**  A step that adds a place logs a creation, and a step that
    takes one logs a death. -/
theorem SchedStep.live (hs : SchedStep variant sh pc sh' pc') (h : sh.queue.Shaped)
    (hpc : pc.Shaped)
    (hone : ∀ i, sh.queue.held (fun _ => true) i + pc.holds (fun _ => true) i ≤ 1) :
    sh'.queue.held (fun _ => true) i + pc'.holds (fun _ => true) i + sh'.log.countP (·.isDied i)
        + sh.log.countP (·.isCreated i)
      = sh.queue.held (fun _ => true) i + pc.holds (fun _ => true) i + sh.log.countP (·.isDied i)
        + sh'.log.countP (·.isCreated i) := by
  by_cases hrun : ∀ t, pc ≠ .run t
  · have h1 := hs.held_other (p := fun _ => true) (i := i) h hrun hone
    have h2 := hs.countP_other hrun (·.isDied i) isDied_quiet (fun _ _ => rfl) (fun _ => rfl)
      fun _ => rfl
    have h3 := hs.countP_other hrun (·.isCreated i) isCreated_quiet (fun _ _ => rfl) (fun _ => rfl)
      fun _ => rfl
    omega
  obtain ⟨u, hu⟩ : ∃ u, pc = .run u := by simpa using hrun
  cases hs with
  | quiet hs _ hl ht =>
    rw [GlobalQueue.held_congr hs.runnable hs.waiting, ht.holds (fun _ _ _ _ => rfl),
      hl.countP isDied_quiet, hl.countP isCreated_quiet]
  | entry hr =>
    subst hr
    simp [Shared.record, Pc.holds, Task.counts, Event.isDied, Event.isCreated]
  | alloc hr => subst hr; rfl
  -- a new task in `runnable`, and its `created` in the history
  | @create t id f k hr =>
    subst hr
    have := GlobalQueue.held_pushBack (p := fun _ => true) (i := i) (q := sh.queue) (Task.new id f)
    simp only [Shared.pushNew, Shared.record, Shared.withQueue, Pc.holds, this, Task.counts,
      Task.new_id, Task.goto_id, List.countP_append, List.countP_cons, List.countP_nil,
      Event.isDied, Event.isCreated, beq_iff_eq, and_true, Bool.false_eq_true, if_false]
    omega
  | goready hs _ hl ht =>
    rw [GlobalQueue.held_congr hs.runnable hs.waiting, goready_held h,
      ht.holds (fun _ _ _ _ => rfl), hl.countP isDied_quiet, hl.countP isCreated_quiet,
      goready_countP rfl rfl, goready_countP rfl rfl]
  | yield hr =>
    subst hr
    have hst : ¬ (TaskState.running = TaskState.dead) := by decide
    simp [Pc.holds, show _ = _ from hpc, Task.counts]
  | parkOut hr => subst hr; simp [Pc.holds, Task.counts]
  -- the task stays on its worker, but counts no longer
  | die hr =>
    subst hr
    simp only [Shared.record, Pc.holds, Task.counts, Task.withState_state, List.countP_append,
      List.countP_cons, List.countP_nil, Event.isDied, Event.isCreated, beq_iff_eq, and_true,
      Bool.false_eq_true, if_true, if_false]
    omega
  | dispatch h' | drop h' | park h' | requeue h' =>
    rw [hu] at h'
    cases h'

/-- **The balance of ids.**  Every id below `nextTaskId` is queued once or still in its `go`. -/
theorem SchedStep.ids (hs : SchedStep variant sh pc sh' pc') (h : sh.queue.Shaped) :
    sh'.log.countP (·.isCreated i) + pc'.births i + issued i sh.nextTaskId
      = sh.log.countP (·.isCreated i) + pc.births i + issued i sh'.nextTaskId := by
  cases hs with
  | quiet _ hn hl ht => rw [hl.countP isCreated_quiet, ht.births, hn]
  | entry hr hc =>
    subst hr
    simp [Shared.record, Pc.births, Event.isCreated, hc, Code.birth]
  | alloc hr hc =>
    subst hr
    simp only [Pc.births, Task.goto_code, hc.2, birth_goPush, Option.some.injEq, reduceCtorEq,
      if_false, issued_succ]
    omega
  | create hr hc =>
    subst hr
    simp only [Shared.pushNew, Shared.record, Shared.withQueue, Pc.births, Task.goto_code,
      birth_goPush, (plain_user _).2, hc, List.countP_append, List.countP_cons, List.countP_nil,
      Event.isCreated, beq_iff_eq, Option.some.injEq, reduceCtorEq, if_false]
    omega
  | goready _ hn hl ht =>
    rw [hl.countP isCreated_quiet, ht.births, hn, goready_countP rfl]
    rfl
  | yield hr hc => subst hr; simp [Pc.births, hc.2]
  | parkOut hr hc => subst hr; simp [Pc.births, hc, Code.birth]
  | die hr hc => subst hr; simp [Shared.record, Pc.births, hc.2, Event.isCreated]
  | @dispatch t _ _ ht hr _ _ _ hn hl =>
    have hb : t.code.birth = none :=
      Code.birth_of_resumable (h.runnable t (by rw [hr]; exact List.mem_cons_self)).2
    rw [Pc.births_of_task? ht, hl, hn]
    simp [Pc.births, hb, Event.isCreated]
  | drop hp _ h' => subst hp; rw [Pc.births_of_task? h']; rfl
  | park hp _ h' =>
    subst hp
    rw [Pc.births_of_task? h', parkTask_countP rfl, parkTask_nextTaskId]
    rfl
  | requeue hp _ _ h' => subst hp; rw [Pc.births_of_task? h']; rfl

/-- **The balance of closures.**  A task is queued with a closure that has not been called,
    and calling it is logged. -/
theorem SchedStep.closures (hs : SchedStep variant sh pc sh' pc') (h : sh.queue.Shaped)
    (hpc : pc.Shaped)
    (hone : ∀ i, sh.queue.held (fun _ => true) i + pc.holds (fun _ => true) i ≤ 1) :
    sh'.queue.held Code.isEntry i + pc'.holds Code.isEntry i + sh'.log.countP (·.isEntered i)
        + sh.log.countP (·.isCreated i)
      = sh.queue.held Code.isEntry i + pc.holds Code.isEntry i
        + sh.log.countP (·.isEntered i) + sh'.log.countP (·.isCreated i) := by
  by_cases hrun : ∀ t, pc ≠ .run t
  · have h1 := hs.held_other (p := Code.isEntry) (i := i) h hrun hone
    have h2 := hs.countP_other hrun (·.isEntered i) isEntered_quiet (fun _ _ => rfl) (fun _ => rfl)
      fun _ => rfl
    have h3 := hs.countP_other hrun (·.isCreated i) isCreated_quiet (fun _ _ => rfl) (fun _ => rfl)
      fun _ => rfl
    omega
  obtain ⟨u, hu⟩ : ∃ u, pc = .run u := by simpa using hrun
  cases hs with
  | quiet hs _ hl ht =>
    rw [GlobalQueue.held_congr hs.runnable hs.waiting, ht.holds fun _ _ hc hc' => hc.1.trans hc'.1.symm,
      hl.countP isEntered_quiet, hl.countP isCreated_quiet]
  -- the closure is called, and the task has left its entry for good
  | entry hr hc =>
    subst hr
    simp only [Shared.record, Pc.holds, Task.counts, Task.goto_id, Task.goto_code, hc,
      List.countP_append, List.countP_cons, List.countP_nil, Event.isEntered, Event.isCreated,
      beq_iff_eq, Code.isEntry, and_true, Bool.false_eq_true, and_false, if_false]
    omega
  | @alloc t f k hr hc =>
    subst hr
    have h0 : (t.goto (.goPush sh.nextTaskId f k)).counts Code.isEntry i = 0 :=
      counts_goto_eq_zero rfl
    simp [Pc.holds, counts_eq_zero hc.1, h0]
  -- the new task is at its entry, its parent is not
  | @create t id f k hr hc =>
    subst hr
    have := GlobalQueue.held_pushBack (p := Code.isEntry) (i := i) (q := sh.queue) (Task.new id f)
    simp only [Shared.pushNew, Shared.record, Shared.withQueue, Pc.holds, this, Task.counts,
      Task.new_id, Task.new_code, Task.goto_code, hc, Code.isEntry, List.countP_append,
      List.countP_cons, List.countP_nil, Event.isEntered, Event.isCreated, beq_iff_eq, and_true,
      Bool.false_eq_true, and_false, if_false]
    omega
  | goready hs _ hl ht =>
    rw [GlobalQueue.held_congr hs.runnable hs.waiting, goready_held h,
      ht.holds fun _ _ hc hc' => hc.1.trans hc'.1.symm, hl.countP isEntered_quiet,
      hl.countP isCreated_quiet, goready_countP rfl rfl, goready_countP rfl rfl]
  -- neither a task that gives up its worker nor one that ends is at its entry
  | @yield t k hr hc =>
    subst hr
    have h0 : (t.goto (.user k)).counts Code.isEntry i = 0 := counts_goto_eq_zero rfl
    simp [Pc.holds, counts_eq_zero hc.1, h0]
  | parkOut hr hc => subst hr; simp [Pc.holds, Task.counts, hc]
  | die hr hc =>
    subst hr
    simp [Shared.record, Pc.holds, counts_eq_zero hc.1, Event.isEntered, Event.isCreated]
  | dispatch h' | drop h' | park h' | requeue h' =>
    rw [hu] at h'
    cases h'

/-- Events that are no dispatches extend an ordered history. -/
theorem order_append {log es : List (Event V)} (h : log.Pairwise Event.NoResume)
    (hes : ∀ e ∈ es, ∀ i, e ≠ .dispatched i) : (log ++ es).Pairwise Event.NoResume := by
  refine List.pairwise_append.mpr ⟨h, ?_, fun _ _ e he i _ => hes e he i⟩
  exact List.pairwise_of_forall_mem_list fun _ _ e he i _ => hes e he i

/-- Events beside scheduling resume nobody after its death. -/
theorem QuietLog.order {log log' : List (Event V)} (hl : QuietLog log log')
    (h : log.Pairwise Event.NoResume) : log'.Pairwise Event.NoResume := by
  obtain ⟨es, rfl, hes⟩ := hl
  refine order_append h fun e he i hd => ?_
  subst hd
  simpa [Event.isSched] using hes _ he

/-- A `goready` call resumes nobody. -/
theorem goready_order {waker : Waker} {id : TaskId} (h : sh.log.Pairwise Event.NoResume) :
    (sh.goready waker id).1.log.Pairwise Event.NoResume := by
  unfold Shared.goready
  split <;> exact order_append h (by simp)

/-- No step dispatches a task whose death is logged. -/
theorem SchedStep.order (hs : SchedStep variant sh pc sh' pc')
    (hdead : ∀ i, .died i ∈ sh.log → sh.queue.held (fun _ => true) i = 0)
    (h : sh.log.Pairwise Event.NoResume) : sh'.log.Pairwise Event.NoResume := by
  cases hs with
  | quiet _ _ hl => exact hl.order h
  | goready _ _ hl => exact hl.order (goready_order h)
  | entry | create | die => exact order_append h (by simp)
  | alloc | yield | parkOut | drop | requeue => exact h
  | @dispatch t _ _ _ hr _ _ _ _ hl =>
    rw [hl]
    refine List.pairwise_append.mpr ⟨h, List.pairwise_singleton _ _, fun d hd e he i hdi hei => ?_⟩
    obtain rfl := List.mem_singleton.mp he
    cases hei
    have h0 := hdead t.id (hdi ▸ hd)
    simp [GlobalQueue.held, hr, Task.counts] at h0
  | park =>
    unfold Shared.parkTask
    split
    · exact order_append h (by simp)
    · exact h

end Step

/-! ### The balance of a state

Summed up over a run, a task has as many places as creations less deaths. As its id is given out
once, these are numbers below two.
-/

/-- How often a task occurs: in `runnable`, in `waiting`, and on the workers. -/
def State.places (s : State σ V) (i : TaskId) : Nat :=
  s.sh.queue.held (fun _ => true) i + s.total (Pc.holds (fun _ => true) i)

/-- The balance of a state. -/
structure State.Placed (s : State σ V) : Prop where
  live : ∀ i, s.places i + s.sh.log.countP (·.isDied i) = s.sh.log.countP (·.isCreated i)
  ids : ∀ i, s.sh.log.countP (·.isCreated i) + s.total (Pc.births i) + s.main.pc.births i
    = issued i s.sh.nextTaskId
  closures : ∀ i, s.sh.queue.held Code.isEntry i + s.total (Pc.holds Code.isEntry i)
    + s.sh.log.countP (·.isEntered i) = s.sh.log.countP (·.isCreated i)
  order : s.sh.log.Pairwise Event.NoResume

/-- An id is given out once at most. -/
theorem issued_le_one (i n : Nat) : issued i n ≤ 1 := by
  unfold issued
  split <;> omega

namespace State.Placed

variable {s : State σ V} (h : s.Placed)
include h

/-- A task is created once at most. -/
theorem created_le_one (i : TaskId) : s.sh.log.countP (·.isCreated i) ≤ 1 := by
  have := h.ids i
  have := issued_le_one i s.sh.nextTaskId
  omega

/-- A task is in one place at most. -/
theorem places_le_one (i : TaskId) : s.places i ≤ 1 := by
  have := h.live i
  have := h.created_le_one i
  omega

/-- Seen from one worker, a task occurs at most once. -/
theorem held_add_holds_le_one {w : Nat} {pc : Pc σ V} (hw : s.workers[w]? = some pc)
    (i : TaskId) : s.sh.queue.held (fun _ => true) i + pc.holds (fun _ => true) i ≤ 1 := by
  have := h.places_le_one i
  have : pc.holds (fun _ => true) i ≤ s.total (Pc.holds (fun _ => true) i) :=
    Slots.le_sum_map _ hw
  unfold State.places at *
  omega

/-- A task that has died is nowhere. -/
theorem places_of_died {i : TaskId} (hd : .died i ∈ s.sh.log) : s.places i = 0 := by
  have := h.live i
  have := h.created_le_one i
  have : 0 < s.sh.log.countP (·.isDied i) :=
    List.countP_pos_iff.mpr ⟨_, hd, by simp [Event.isDied]⟩
  omega

end State.Placed

/-- Blocking and waking a worker does not change the tasks it holds. -/
theorem silent_holds (p : Code σ V → Bool) (i : TaskId) : Silent (Pc.holds p i : Pc σ V → Nat) :=
  ⟨rfl, fun _ => rfl⟩

/-- Blocking and waking a worker does not change the tasks it gives birth to. -/
theorem silent_births (i : TaskId) : Silent (Pc.births i : Pc σ V → Nat) := ⟨rfl, fun _ => rfl⟩

/-- A step of a worker keeps the balance. -/
theorem State.Placed.worker {P : Program σ V} {s s' : State σ V} {w : Nat} {ch : Choice}
    {pc : Pc σ V} {e : Effect σ V} (hi : s.Placed) (hsh : s.Shaped)
    (hw : s.workers[w]? = some pc) (hs : WorkerStep P ch (queueFree s.workers) s.sh pc e)
    (hmove : WorkerMove s s' w pc e) : s'.Placed := by
  have hpc := hsh.workers _ (List.mem_of_getElem? hw)
  have hone := hi.held_add_holds_le_one hw
  have hsched := hs.sched
  have htot := hmove.total
  rw [← hmove.sh] at hsched
  refine ⟨fun i => ?_, fun i => ?_, fun i => ?_, hsched.order (fun i hd => ?_) hi.order⟩
  · have h1 := hsched.live (i := i) hsh.queue hpc hone
    have h2 := htot _ (silent_holds (fun _ => true) i)
    have h3 := hi.live i
    unfold State.places at *
    omega
  · have h1 := hsched.ids (i := i) hsh.queue
    have h2 := htot _ (silent_births i)
    have h3 := hi.ids i
    rw [hmove.main]
    omega
  · have h1 := hsched.closures (i := i) hsh.queue hpc hone
    have h2 := htot _ (silent_holds Code.isEntry i)
    have h3 := hi.closures i
    omega
  · have := hi.places_of_died hd
    unfold State.places at this
    omega

/-- The main thread and the environment keep the balance. -/
theorem State.Placed.outer {s s' : State σ V} (hi : s.Placed) (ho : OuterStep s s')
    (hmove : OuterMove s s') : s'.Placed := by
  have htot := hmove.total
  have hplaces : ∀ i, s'.places i
      = s'.sh.queue.held (fun _ => true) i + s.total (Pc.holds (fun _ => true) i) :=
    fun i => congrArg _ (htot _ (silent_holds _ i))
  cases ho with
  -- the id is out, and the main thread keeps it until it queues the task
  | go hsh hm hm' =>
    refine ⟨fun i => ?_, fun i => ?_, fun i => ?_, by rw [hsh]; exact hi.order⟩
    · rw [hplaces, hsh]; exact hi.live i
    · have h3 := hi.ids i
      rw [htot _ (silent_births i), hsh]
      simp only [MainPc.births, hm, hm', Option.some.injEq, reduceCtorEq, if_false,
        issued_succ] at h3 ⊢
      omega
    · rw [htot _ (silent_holds _ i), hsh]; exact hi.closures i
  | @push id f hsh hm hm' =>
    have hheld := fun p i => GlobalQueue.held_pushBack (p := p) (i := i) (q := s.sh.queue)
      (Task.new id f)
    have hq : s'.sh.queue = s.sh.queue.pushBack (Task.new id f) := by rw [hsh]; rfl
    have hlog : s'.sh.log = s.sh.log ++ [.created id] := by rw [hsh]; rfl
    refine ⟨fun i => ?_, fun i => ?_, fun i => ?_, ?_⟩
    · have h3 := hi.live i
      simp only [State.places] at h3
      simp only [hplaces, hq, hlog, hheld, Task.counts, Task.new_id, List.countP_append,
        List.countP_cons, List.countP_nil, isDied_created, isCreated_created, beq_iff_eq, and_true,
        Bool.false_eq_true, if_false]
      omega
    · have h3 := hi.ids i
      rw [htot _ (silent_births i), hlog, show s'.sh.nextTaskId = s.sh.nextTaskId by rw [hsh]; rfl]
      simp only [MainPc.births, hm, hm', Option.some.injEq, reduceCtorEq, if_false,
        List.countP_append, List.countP_cons, List.countP_nil, isCreated_created,
        beq_iff_eq] at h3 ⊢
      omega
    · have h3 := hi.closures i
      simp only [htot _ (silent_holds Code.isEntry i), hq, hlog, hheld, Task.counts, Task.new_id,
        Task.new_code, Code.isEntry, List.countP_append, List.countP_cons, List.countP_nil,
        isEntered_created, isCreated_created, beq_iff_eq, and_true, Bool.false_eq_true, if_false]
      omega
    · rw [hlog]; exact order_append hi.order (by simp)
  | same hsh hn hm =>
    have hheld := fun p i => GlobalQueue.held_congr (p := p) (i := i) hsh.runnable hsh.waiting
    refine ⟨fun i => ?_, fun i => ?_, fun i => ?_, by rw [hsh.log]; exact hi.order⟩
    · rw [hplaces, hheld, hsh.log]; exact hi.live i
    · rw [htot _ (silent_births i), hsh.log, MainPc.births, hm, hn]; exact hi.ids i
    · rw [htot _ (silent_holds _ i), hheld, hsh.log]; exact hi.closures i

/-- **Every state reached is balanced**, for every program, every interleaving and every id
    that `goready` is called with. -/
theorem reach_placed {P : Program σ V} {ok : Act → State σ V → Prop} {s : State σ V}
    (hr : (runtime P).Reach ok s) : s.Placed := by
  refine hr.invariant ?_ ?_
  · rintro s ⟨caps, groups, calls, rfl⟩
    constructor <;> simp [State.initial, State.places, State.total, GlobalQueue.held,
      GlobalQueue.new, MainPc.births, MainPc.pushes, issued]
  · intro s s' a hr hi _ hnext
    rcases (next_inv hnext).2.cases with ⟨w, ch, pc, e, -, hw, hs, hmove⟩ | ⟨ho, hmove⟩
    · exact hi.worker (reach_shaped hr) hw hs hmove
    · exact hi.outer ho hmove

end MyGoroutine
