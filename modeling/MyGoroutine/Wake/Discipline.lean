import MyGoroutine.Sched.Live
import MyGoroutine.Wake.Step

namespace MyGoroutine

/-!
# The wake discipline

Every park has one wake cause: an entry, or a `goready` call that somebody owes, or a token.
The balance below says so for every state, and with it the points of the tasks' codes agree
with their statuses.

* `State.open` — the parks of a task that have not been woken yet;
* `WakeStep.balance` — a step moves causes and open parks together;
* `WakeStep.evolves`, `WakeStep.own` — what a step does to the other tasks, and to its own;
* `State.Disciplined`, `reach_disciplined` — the discipline, in every state reached.
-/

variable {σ V : Type}

/-! ### Causes and open parks

Both sides of the balance are sums of small counts, over the workers and over the queue. For each
count there is a lemma about the changes that steps make to it.
-/

/-- The code is about to call `gopark`. -/
def Code.isPark : Code σ V → Bool
  | .park _ => true
  | _ => false

/-- The worker's task `i` is in a park that has not been stored yet. -/
def Pc.openPark (i : TaskId) : Pc σ V → Nat
  | .run t => if t.id = i ∧ t.code.isPark = true then 1 else 0
  | .switched t => if t.id = i ∧ t.state = .waiting then 1 else 0
  | _ => 0

/-- The `goready(i)` calls that the worker owes. -/
def Pc.owed (i : TaskId) (pc : Pc σ V) : Nat := pc.collected.count i

/-- The task `i` is in `waiting`. -/
def GlobalQueue.stored (q : GlobalQueue σ V) (i : TaskId) : Nat :=
  if (q.waiting.lookup i).isSome = true then 1 else 0

/-- The task `i` has a token in `pending_ready`. -/
def GlobalQueue.token (q : GlobalQueue σ V) (i : TaskId) : Nat :=
  if i ∈ q.pendingReady then 1 else 0

/-- The task `i` has an entry in some source. -/
def Shared.queued (sh : Shared σ V) (i : TaskId) : Nat :=
  if (sh.status i).queue?.isSome = true then 1 else 0

/-- The parks of the task `i` that have not been woken yet. -/
def State.open (s : State σ V) (i : TaskId) : Nat := s.sh.queue.stored i + s.total (Pc.openPark i)

/-- The wake causes of the task `i`. -/
def State.causes (s : State σ V) (i : TaskId) : Nat :=
  s.sh.queued i + s.total (Pc.owed i) + s.sh.queue.token i

/-- Blocking and waking a worker opens no park. -/
theorem silent_openPark (i : TaskId) : Silent (Pc.openPark i : Pc σ V → Nat) :=
  ⟨rfl, fun _ => rfl⟩

/-- Blocking and waking a worker does not change the `goready` calls it owes. -/
theorem silent_owed (i : TaskId) : Silent (Pc.owed i : Pc σ V → Nat) := ⟨rfl, fun _ => rfl⟩

/-- Between two parks a task is not about to park. -/
theorem isPark_of_calm {c : Code σ V} (h : c.calm = true) : c.isPark = false := by
  cases c <;> first | rfl | cases h

/-- Right after a park a task is not about to park again. -/
theorem isPark_of_settles {c : Code σ V} (h : c.settles = true) : c.isPark = false := by
  cases c <;> first | rfl | cases h

/-- A task that can be switched out has passed its call of `gopark`. -/
theorem isPark_of_resumable {c : Code σ V} (h : c.resumable = true) : c.isPark = false := by
  cases c <;> first | rfl | cases h

/-- A task that can be switched out owes nobody a `goready`. -/
theorem owes_of_resumable {c : Code σ V} (h : c.resumable = true) : c.owes = [] := by
  cases c <;> first | rfl | cases h

/-- A worker whose task is not about to park has no open park. -/
theorem openPark_run {t : Task σ V} {i : TaskId} (h : t.code.isPark = false) :
    (Pc.run t).openPark i = 0 :=
  if_neg (by simp [h])

/-- A worker without a task has no open park. -/
theorem openPark_of_task? {pc : Pc σ V} {i : TaskId} (h : pc.task? = none) :
    pc.openPark i = 0 := by
  cases pc <;> first | rfl | cases h

/-- A worker that has collected nobody owes nothing. -/
theorem owed_of_collected {pc : Pc σ V} {i : TaskId} (h : pc.collected = []) :
    pc.owed i = 0 := by
  rw [Pc.owed, h, List.count_nil]

/-- A worker whose task owes nothing owes nothing. -/
theorem owed_run {t : Task σ V} {i : TaskId} (h : t.code.owes = []) : (Pc.run t).owed i = 0 :=
  owed_of_collected h

/-- A worker has paid what it owes before it switches. -/
@[simp] theorem owed_switched (t : Task σ V) (i : TaskId) : (Pc.switched t).owed i = 0 :=
  owed_of_collected rfl

/-- `go` pushes the new task. -/
@[simp] theorem pushNew_queue (sh : Shared σ V) (id : TaskId) (f : σ) :
    (sh.pushNew id f).1.queue = sh.queue.pushBack (Task.new id f) := rfl

/-- A task that has yielded is pushed again. -/
@[simp] theorem requeue_queue (sh : Shared σ V) (t : Task σ V) :
    (sh.requeue t).queue = sh.queue.pushBack (t.withState .runnable) := rfl

/-- A worker with a calm task has no open park, before and after the step. -/
theorem CalmTask.openPark {pc pc' : Pc σ V} (h : CalmTask pc pc') (i : TaskId) :
    pc.openPark i = 0 ∧ pc'.openPark i = 0 := by
  cases h with
  | none h h' => exact ⟨openPark_of_task? h, openPark_of_task? h'⟩
  | run h h' ht hc =>
    subst h; subst h'
    exact ⟨openPark_run (isPark_of_calm ht), openPark_run (isPark_of_calm hc)⟩

namespace GlobalQueue

variable {q q' : GlobalQueue σ V} {t : Task σ V} {id : TaskId} {i : TaskId}

/-- The tokens are those in `pending_ready`. -/
theorem token_congr (h : q'.pendingReady = q.pendingReady) : q'.token i = q.token i := by
  rw [token, h, token]

/-- The stored tasks are those in `waiting`. -/
theorem stored_congr (h : q'.waiting = q.waiting) : q'.stored i = q.stored i := by
  rw [stored, h, stored]

/-- Waking a task that is stored uses no token. -/
@[simp] theorem token_wake : (q.wake t id).token i = q.token i := rfl

/-- Leaving a token stores nobody. -/
@[simp] theorem stored_addPending : (q.addPending id).stored i = q.stored i := rfl

/-- Taking a token stores nobody. -/
@[simp] theorem stored_takePending : (q.takePending t).stored i = q.stored i := rfl

/-- A push to `runnable` leaves no token. -/
@[simp] theorem token_pushBack : (q.pushBack t).token i = q.token i := rfl

/-- A push to `runnable` stores nobody in `waiting`. -/
@[simp] theorem stored_pushBack : (q.pushBack t).stored i = q.stored i := rfl

/-- Storing a task leaves no token. -/
@[simp] theorem token_store : (q.store t).token i = q.token i := rfl

/-- A task that is woken is taken out of `waiting`. -/
theorem stored_wake (h : q.waiting.lookup id = some t) :
    (q.wake t id).stored i + (if i = id then 1 else 0) = q.stored i := by
  simp only [stored, wake, Slots.lookup_erase_ite]
  by_cases hi : i = id
  · subst hi; simp [h]
  · simp [hi]

/-- `goready` leaves a token where there was none. -/
theorem token_addPending (h : q.token id = 0) :
    (q.addPending id).token i = q.token i + if i = id then 1 else 0 := by
  by_cases hi : i = id
  · subst hi
    rw [h, token, addPending, if_pos (Finset.mem_insert_self _ _), if_pos rfl]
  · simp [token, addPending, hi]

/-- The task that parks takes its token. -/
theorem token_takePending (h : t.id ∈ q.pendingReady) :
    (q.takePending t).token i + (if t.id = i then 1 else 0) = q.token i := by
  by_cases hi : t.id = i
  · subst hi
    simp [token, takePending, h]
  · simp [token, takePending, hi, Ne.symm hi]

/-- A task that parks without a token is stored. -/
theorem stored_store (h : q.waiting.lookup t.id = none) :
    (q.store t).stored i = q.stored i + if t.id = i then 1 else 0 := by
  simp only [stored, store, Slots.lookup_insert_ite]
  by_cases hi : t.id = i
  · subst hi; simp [h]
  · simp [hi, Ne.symm hi]

end GlobalQueue

section Balance

variable {variant : Variant} {sh sh' : Shared σ V} {pc pc' : Pc σ V}

/-- States with the same tasks have the same tokens. -/
theorem Shared.SameTasks.token (h : sh.SameTasks sh') (i : TaskId) :
    sh'.queue.token i = sh.queue.token i :=
  GlobalQueue.token_congr h.pendingReady

/-- States with the same tasks have stored the same tasks. -/
theorem Shared.SameTasks.stored (h : sh.SameTasks sh') (i : TaskId) :
    sh'.queue.stored i = sh.queue.stored i :=
  GlobalQueue.stored_congr h.waiting

/-- Whether a task is queued depends on its status only. -/
theorem queued_congr {i : TaskId} (h : sh'.status i = sh.status i) :
    sh'.queued i = sh.queued i := by
  rw [Shared.queued, h, Shared.queued]

/-- A task whose entry has been taken is not queued. -/
theorem queued_eq_zero {i : TaskId} (h : (sh.status i).queue? = none) : sh.queued i = 0 := by
  rw [Shared.queued, h]
  rfl

/-- A task between two parks is not queued. -/
theorem queued_of_idle {i : TaskId} (h : sh.status i = .idle) : sh.queued i = 0 :=
  queued_eq_zero (by rw [h]; rfl)

/-- The task's own status is settled. -/
theorem queued_settle {t : TaskId} (hq : (sh.status t).queue? = none)
    (hst : sh'.status t = .idle) (hst' : ∀ i, i ≠ t → sh'.status i = sh.status i) (i : TaskId) :
    sh'.queued i = sh.queued i := by
  by_cases hi : i = t
  · subst hi
    rw [queued_of_idle hst, queued_eq_zero hq]
  · exact queued_congr (hst' i hi)

/-- `goready` takes a task out of `waiting`, or leaves a token. -/
theorem goready_balance (waker : Waker) {id : TaskId} (htok : sh.queue.token id = 0) (i : TaskId) :
    (sh.goready waker id).1.queue.token i + sh.queue.stored i
      = sh.queue.token i + (sh.goready waker id).1.queue.stored i + if i = id then 1 else 0 := by
  unfold Shared.goready
  split
  · rename_i u hu
    have := GlobalQueue.stored_wake (i := i) hu
    simp only [Shared.record, Shared.withQueue, GlobalQueue.token_wake]
    omega
  · simp only [Shared.record, Shared.withQueue, GlobalQueue.stored_addPending,
      GlobalQueue.token_addPending htok]
    omega

/-- The park branch takes a token, or stores the task. -/
theorem parkTask_balance (variant : Variant) {t : Task σ V}
    (hw : sh.queue.waiting.lookup t.id = none) (i : TaskId) :
    (sh.parkTask variant t).1.queue.token i + sh.queue.stored i + (if t.id = i then 1 else 0)
      = sh.queue.token i + (sh.parkTask variant t).1.queue.stored i := by
  unfold Shared.parkTask
  split
  · rename_i hm
    have := GlobalQueue.token_takePending (i := i) hm
    simp only [Shared.record, Shared.withQueue, GlobalQueue.stored_takePending]
    omega
  · simp only [Shared.withQueue, GlobalQueue.token_store, GlobalQueue.stored_store hw]
    omega

/-- To store a task, or to put it back on `runnable`, changes no status. -/
theorem status_parkTask {t : Task σ V} (i : TaskId) :
    (sh.parkTask variant t).1.status i = sh.status i := by
  unfold Shared.parkTask
  split
  · exact status_of_neutral [.wake _] rfl (by simp [Event.neutral, Event.update]) i
  · rfl

/-- **The balance of one step.**  Causes and open parks move together. -/
theorem WakeStep.balance (hs : WakeStep variant sh pc sh' pc') (hsh : sh.queue.Shaped)
    (hpc : pc.Shaped) (htok : ∀ i, 0 < pc.owed i → sh.queue.token i = 0)
    (hcalm : ∀ t, pc = .run t → t.code.calm = true → sh.status t.id = .idle)
    (hset : ∀ t, pc = .run t → t.code.settles = true → (sh.status t.id).queue? = none)
    (hwait : ∀ t, pc = .switched t → t.state = .waiting →
      sh.queue.waiting.lookup t.id = none) (i : TaskId) :
    sh'.queued i + pc'.owed i + sh'.queue.token i + sh.queue.stored i + pc.openPark i
      = sh.queued i + pc.owed i + sh.queue.token i + sh'.queue.stored i + pc'.openPark i := by
  cases hs with
  | quiet hs hcol hpc =>
    obtain ⟨h1, h2⟩ := hpc.openPark i
    rw [queued_congr (hs.status i), hs.tasks.token, hs.tasks.stored, Pc.owed, hcol, h1, h2, Pc.owed]
  | @enqueue _ t p src h hc ho hp hs hst hst' =>
    subst h
    have hidle := hcalm t rfl hc
    rw [hs.token, hs.stored, openPark_run (isPark_of_calm hc), owed_run ho, owed_run rfl]
    simp only [Pc.openPark, Task.goto_id, Task.goto_code, Code.isPark, and_true]
    -- the task that enqueues itself opens a park, and its entry is the cause
    by_cases hi : t.id = i
    · subst hi
      have hq : sh'.queued t.id = 1 := by rw [Shared.queued, hst]; rfl
      rw [hq, queued_of_idle hidle, if_pos rfl]
      omega
    · rw [queued_congr (hst' i (Ne.symm hi)), if_neg hi]
  | release rs hnd hs hrel hst hcol hpc =>
    obtain ⟨h1, h2⟩ := hpc.openPark i
    rw [hs.token, hs.stored, Pc.owed, hcol, List.count_append, h1, h2, Pc.owed]
    -- the entry of a released task goes, and its id is among those the worker owes a `goready`
    by_cases hi : i ∈ rs
    · obtain ⟨src, why, hq, hr⟩ := hrel i hi
      rw [List.count_eq_one_of_mem hnd hi, Shared.queued, Shared.queued, hq, hr]
      simp only [Status.queue?, Option.isSome_none, Option.isSome_some, Bool.false_eq_true, if_true,
        if_false]
      omega
    · rw [List.count_eq_zero_of_not_mem hi, queued_congr (hst i hi)]
      omega
  | goready waker id hs hst hcol hpc =>
    obtain ⟨h1, h2⟩ := hpc.openPark i
    -- the id becomes a token, or takes the task out of `waiting`
    have hown : 0 < pc.owed id := by rw [Pc.owed, hcol]; simp
    have := goready_balance waker (htok id hown) i
    rw [queued_congr (hst i), hs.token, hs.stored, Pc.owed, Pc.owed, hcol, h1, h2,
      Slots.count_cons_ite]
    omega
  | settle h hc hc' ho hs hst hst' =>
    subst h
    rw [queued_settle (hset _ rfl hc) hst hst', hs.token, hs.stored,
      openPark_run (isPark_of_settles hc), openPark_run (isPark_of_calm hc'), owed_run ho,
      owed_run (Code.owes_of_settles hc)]
  | abort h hc _ hs hst hst' =>
    subst h
    rw [queued_settle (hset _ rfl hc) hst hst', hs.token, hs.stored]
  | settleNet h hc hs =>
    subst h
    rw [queued_congr (hs.status i), hs.tasks.token, hs.tasks.stored,
      openPark_run (by rw [hc]; rfl), openPark_run rfl, owed_run rfl, owed_run (by rw [hc]; rfl)]
  | create h hc =>
    subst h
    rw [queued_congr (show (sh.pushNew _ _).1.status i = sh.status i from
      status_of_neutral [.created _] rfl (by simp [Event.neutral, Event.update]) i),
      openPark_run (by rw [hc]; rfl), openPark_run rfl, owed_run rfl, owed_run (by rw [hc]; rfl),
      pushNew_queue, GlobalQueue.token_pushBack, GlobalQueue.stored_pushBack]
  | yield h hc ho =>
    subst h
    have hst : ∀ st, st = TaskState.running → ¬ st = .waiting := by rintro _ rfl; decide
    rw [openPark_run (isPark_of_calm hc), owed_run ho, owed_switched]
    simp [Pc.openPark, hst _ hpc]
  | parkOut h hc =>
    subst h
    rw [owed_run (by rw [hc]; rfl), owed_switched]
    simp [Pc.openPark, hc, Code.isPark]
  | die h hc ho =>
    subst h
    rw [queued_congr (show (sh.record [.died _]).status i = sh.status i from
      status_of_neutral [.died _] rfl (by simp [Event.neutral, Event.update]) i),
      openPark_run (isPark_of_calm hc), owed_run ho, owed_switched]
    simp [Pc.openPark, Shared.record]
  | @dispatch t rest _ h hcol hr hrun hw hp hst =>
    have hres := (hsh.runnable t (by rw [hr]; exact List.mem_cons_self)).2
    rw [queued_congr (hst i), GlobalQueue.token_congr hp, GlobalQueue.stored_congr hw,
      owed_of_collected hcol, openPark_of_task? h,
      openPark_run (t := t.withState .running) (isPark_of_resumable hres),
      owed_run (t := t.withState .running) (owes_of_resumable hres)]
  | drop h hd h' hcol =>
    subst h
    rw [openPark_of_task? h', owed_of_collected hcol, owed_switched]
    simp [Pc.openPark, hd]
  | @park t _ h hw h' hcol =>
    subst h
    have := parkTask_balance variant (hwait t rfl hw) i
    rw [queued_congr (status_parkTask i), openPark_of_task? h', owed_of_collected hcol,
      owed_switched]
    simp only [Pc.openPark, hw, and_true]
    omega
  | requeue h hd hw h' hcol =>
    subst h
    rw [openPark_of_task? h', owed_of_collected hcol, owed_switched, requeue_queue,
      GlobalQueue.token_pushBack, GlobalQueue.stored_pushBack,
      queued_congr (show (sh.requeue _).status i = sh.status i from rfl)]
    simp [Pc.openPark, hw]

end Balance

/-! ### What a step does to the other tasks

A step changes the statuses of other tasks in one way only: it takes out their entries. What their
codes and statuses have to do with each other does not change by that.
-/

/-- The status stays, or the task's entry is taken out. -/
def Evolves (st st' : Status V) : Prop :=
  st' = st ∨ ∃ src why, st = .queued src ∧ st' = .released src why

/-- The release of its entry still fits the point of a task's code. -/
theorem Code.agrees_evolves {c : Code σ V} {st st' : Status V} (h : c.agrees st)
    (he : Evolves st st') : c.agrees st' := by
  rcases he with rfl | ⟨src, why, rfl, rfl⟩
  · exact h
  · cases c with
    | park p | parked p =>
      obtain ⟨src', hw, hs⟩ := h
      exact ⟨src', hw, hs⟩
    | unregister fd k => obtain ⟨why', hw⟩ := h; cases hw
    | _ => cases h

section Others

variable {variant : Variant} {sh sh' : Shared σ V} {pc pc' : Pc σ V}

/-- **The statuses of the other tasks evolve.** -/
theorem WakeStep.evolves (hs : WakeStep variant sh pc sh' pc') {i : TaskId}
    (hi : ∀ t, pc = .run t → t.id ≠ i) : Evolves (sh.status i) (sh'.status i) := by
  cases hs with
  | quiet hs => exact .inl (hs.status i)
  | enqueue h _ _ _ _ _ hst' | settle h _ _ _ _ _ hst' | abort h _ _ _ _ hst' =>
    exact .inl (hst' i (Ne.symm (hi _ h)))
  | release rs _ _ hrel hst =>
    by_cases hmem : i ∈ rs
    · exact .inr (hrel i hmem)
    · exact .inl (hst i hmem)
  | goready _ _ _ hst => exact .inl (hst i)
  | settleNet _ _ hs => exact .inl (hs.status i)
  | create =>
    exact .inl (status_of_neutral [.created _] rfl (by simp [Event.neutral, Event.update]) i)
  | die =>
    exact .inl (status_of_neutral [.died _] rfl (by simp [Event.neutral, Event.update]) i)
  | dispatch _ _ _ _ _ _ hst => exact .inl (hst i)
  | yield | parkOut | drop | requeue => exact .inl rfl
  | park => exact .inl (status_parkTask i)

/-- **The worker's own task** agrees with its status after the step. -/
theorem WakeStep.own (hs : WakeStep variant sh pc sh' pc') (ha : sh'.aborted = none)
    (hrun : ∀ t, pc = .run t → t.code.agrees (sh.status t.id))
    (hset : ∀ t, pc = .run t → t.code.settles = true → (sh.status t.id).queue? = none)
    (hqueue : ∀ t, t ∈ sh.queue.runnable → t.code.agrees (sh.status t.id)) {u : Task σ V}
    (hu : pc'.task? = some u) (hd : u.state ≠ .dead) : u.code.agrees (sh'.status u.id) := by
  have hcalm : ∀ t c, pc = .run t → pc' = .run (t.goto c) → t.code.calm = true → c.calm = true →
      sh'.status t.id = sh.status t.id → u.code.agrees (sh'.status u.id) := by
    rintro t c rfl rfl ht hc hst
    cases hu
    refine (Code.agrees_of_calm hc).mpr ?_
    rw [Task.goto_id, hst]
    exact (Code.agrees_of_calm ht).mp (hrun t rfl)
  have htask : ∀ (hpc : CalmTask pc pc'), (∀ t, pc = .run t → t.code.calm = true →
      sh'.status t.id = sh.status t.id) → u.code.agrees (sh'.status u.id) := by
    intro hpc hst
    cases hpc with
    | none _ h' => rw [h'] at hu; cases hu
    | run h h' ht hc => exact hcalm _ _ h h' ht hc (hst _ h ht)
  cases hs with
  | quiet hs _ hpc => exact htask hpc fun t _ _ => hs.status t.id
  | goready _ _ _ hst _ hpc => exact htask hpc fun t _ _ => hst t.id
  | release rs _ _ hrel hst _ hpc =>
    -- a calm task has no entry, so it is none of the released
    refine htask hpc fun t h ht => hst t.id fun hmem => ?_
    obtain ⟨src, why, hq, -⟩ := hrel t.id hmem
    rw [(Code.agrees_of_calm ht).mp (hrun t h)] at hq
    cases hq
  | enqueue h _ _ hp _ hst =>
    cases hu
    exact ⟨_, hp, by rw [Task.goto_id, hst]; rfl⟩
  | settle h _ hc' _ _ hst =>
    cases hu
    exact (Code.agrees_of_calm hc').mpr hst
  | abort _ _ ha' => rw [ha] at ha'; cases ha'
  | @settleNet _ t fd k h hc hs =>
    -- the park is over, so `fd` is what the task was released from
    cases hu
    have hag := hrun t h
    have hq := hset t h (by rw [hc]; rfl)
    rw [hc] at hag
    obtain ⟨src, hw, hsrc⟩ := hag
    cases src <;> cases hw
    simp only [Task.goto_code, Task.goto_id, Code.agrees, hs.status]
    cases hst : sh.status t.id with
    | idle => rw [hst] at hsrc; cases hsrc
    | queued src => rw [hst] at hq; cases hq
    | released src why =>
      rw [hst] at hsrc
      cases hsrc
      exact ⟨why, rfl⟩
  | @create t id f k h hc =>
    refine hcalm t _ h rfl (by rw [hc]; rfl) rfl ?_
    exact status_of_neutral [.created _] rfl (by simp [Event.neutral, Event.update]) t.id
  | yield h hc =>
    cases hu
    exact (Code.agrees_of_calm hc).mp (hrun _ h)
  | parkOut h hc =>
    cases hu
    have := hrun _ h
    rw [hc] at this
    exact this
  | die => cases hu; exact absurd rfl hd
  | @dispatch t rest _ _ _ hr _ _ _ hst =>
    cases hu
    rw [Task.withState_id, Task.withState_code, hst]
    exact hqueue t (hr ▸ List.mem_cons_self)
  | drop _ _ h' | park _ _ h' | requeue _ _ _ h' => rw [h'] at hu; cases hu

end Others

/-- `epoll_wait` reports no fd twice. -/
theorem WorkerStep.events {P : Program σ V} {ch : Choice} {free : Bool} {sh : Shared σ V}
    {pc : Pc σ V} {e : Effect σ V} (hs : WorkerStep P ch free sh pc e) : e.pc.Events := by
  have htask : ∀ {pc : Pc σ V} {u}, pc.task? = some u → pc.Events := by
    intro pc u h
    cases pc <;> trivial
  have hpop : ∀ sh : Shared σ V, (tryPop sh .top).pc.Events := by
    intro sh
    unfold tryPop
    split <;> trivial
  cases hs with
  | run hs =>
    obtain ⟨u, hu⟩ := hs.task?
    exact htask hu
  | epollWait he =>
    simp only [NetPoller.epollWaitOk, Bool.or_eq_true, Bool.and_eq_true, List.isEmpty_iff,
      decide_eq_true_eq] at he
    rcases he with he | ⟨⟨hnd, -⟩, -⟩
    · rw [he]; exact List.nodup_nil
    · exact hnd
  | @timersEmpty ph | @timersWait ph => rcases ph with (_ | _) | _ <;> trivial
  | top =>
    unfold tryPop
    split <;> trivial
  | termNetYes | termStay => exact hpop _
  | goIdle =>
    simp only [idleStep]
    split <;> trivial
  | notified =>
    simp only [wakeStep]
    split
    · trivial
    · exact hpop _
  | _ => trivial

/-! ### The discipline

The balance says that each open park has one cause and each cause one open park. With the agreement
of codes and statuses it says of every live task where its wake-up will come from.
-/

/-- **The wake discipline** of a state. -/
structure State.Disciplined (s : State σ V) : Prop where
  /-- The data structures hold the entries of the queued tasks. -/
  sources : s.sh.Sources
  /-- Every open park has one cause, and every cause belongs to an open park. -/
  balance : ∀ i, s.causes i = s.open i
  /-- The codes of the live tasks agree with their statuses. -/
  agree : s.sh.aborted = none → ∀ t, s.Live t → t.code.agrees (s.sh.status t.id)
  /-- A task that is not queued yet has no status. -/
  unborn : ∀ i, .created i ∉ s.sh.log → s.sh.status i = .idle
  events : ∀ pc ∈ s.workers, pc.Events

section Places

variable {s : State σ V} {i : TaskId}

/-- What is stored is held by the queue. -/
theorem stored_le_held (h : s.sh.queue.Shaped) :
    s.sh.queue.stored i ≤ s.sh.queue.held (fun _ => true) i := by
  unfold GlobalQueue.stored GlobalQueue.held
  cases hl : s.sh.queue.waiting.lookup i with
  | none => simp
  | some t => simp [counts_true, (h.waiting i t hl).1]

/-- A park that is open belongs to a task that the worker holds. -/
theorem openPark_le_holds (pc : Pc σ V) : pc.openPark i ≤ pc.holds (fun _ => true) i := by
  cases pc <;> simp only [Pc.openPark, Pc.holds, counts_true, Nat.le_refl]
  case run t => by_cases hi : t.id = i <;> simp [hi]; split <;> omega
  case switched t =>
    by_cases hw : t.state = .waiting
    · simp [hw]
    · simp [hw]

/-- An open park of a task is the place of this task. -/
theorem open_le_places (h : s.Shaped) : s.open i ≤ s.places i :=
  Nat.add_le_add (stored_le_held h.queue) (List.sum_le_sum fun pc _ => openPark_le_holds pc)

/-- A task on a worker is in no other place, so its open parks are those of that worker. -/
theorem open_of_worker (h : s.Shaped) (hp : s.Placed) {w : Nat} {pc : Pc σ V}
    (hw : s.workers[w]? = some pc) (hone : pc.holds (fun _ => true) i = 1) :
    s.open i = pc.openPark i := by
  have hplaces := hp.places_le_one i
  have hset := Slots.sum_map_set (Pc.holds (fun _ => true) i) .blocked hw
  have hset' := Slots.sum_map_set (Pc.openPark i) .blocked hw
  have hle : ((s.workers.set w .blocked).map (Pc.openPark i)).sum
      ≤ ((s.workers.set w .blocked).map (Pc.holds (fun _ => true) i)).sum :=
    List.sum_le_sum fun pc _ => openPark_le_holds pc
  have hst := stored_le_held (i := i) h.queue
  have h0 : (Pc.blocked : Pc σ V).holds (fun _ => true) i = 0 := rfl
  have h1 : (Pc.blocked : Pc σ V).openPark i = 0 := rfl
  unfold State.places State.total at hplaces
  unfold State.open State.total
  omega

end Places

/-- A task in an open park is live. -/
theorem exists_live_of_open {s : State σ V} {i : TaskId} (hsh : s.Shaped) (h : 0 < s.open i) :
    ∃ t, s.Live t ∧ t.id = i := by
  by_cases hst : 0 < s.sh.queue.stored i
  · unfold GlobalQueue.stored at hst
    split at hst
    · obtain ⟨t, ht⟩ := Option.isSome_iff_exists.mp ‹_›
      exact ⟨t, .inl (.inr ⟨i, ht⟩), (hsh.queue.waiting i t ht).1⟩
    · omega
  · obtain ⟨w, pc, hw, hpc⟩ := Slots.exists_pos_of_sum_pos (l := s.workers) (f := Pc.openPark i)
      (by unfold State.open State.total at h; omega)
    have hmem := List.mem_of_getElem? hw
    cases pc with
    | run t =>
      have hid : t.id = i := by by_contra hne; simp [Pc.openPark, hne] at hpc
      exact ⟨t, .inr ⟨_, hmem, rfl, (hsh.workers _ hmem).run⟩, hid⟩
    | switched t =>
      have hid : t.id = i ∧ t.state = .waiting := by
        by_contra hne
        simp [Pc.openPark, hne] at hpc
      exact ⟨t, .inr ⟨_, hmem, rfl, by rw [hid.2]; decide⟩, hid.1⟩
    | _ => exact absurd hpc (Nat.lt_irrefl 0)

/-- A task with an entry in some source is live. -/
theorem State.Disciplined.exists_live {s : State σ V} (h : s.Disciplined) (hsh : s.Shaped)
    {i : TaskId} {src : Source} (hq : s.sh.status i = .queued src) : ∃ t, s.Live t ∧ t.id = i := by
  refine exists_live_of_open hsh ?_
  have hbal := h.balance i
  have hone : s.sh.queued i = 1 := by rw [Shared.queued, hq]; rfl
  unfold State.causes at hbal
  omega

section Disciplined

variable {P : Program σ V} {ch : Choice} {s s' : State σ V} {w : Nat} {pc : Pc σ V}
  {e : Effect σ V}

namespace State.Disciplined

variable (h : s.Disciplined) (hsh : s.Shaped) (hp : s.Placed) (hw : s.workers[w]? = some pc)
include h hsh hp hw

/-- After its park a task has no entry any more. -/
theorem queue?_of_settles {t : Task σ V} (hpc : pc = .run t) (hc : t.code.settles = true) :
    (s.sh.status t.id).queue? = none := by
  subst hpc
  have hopen := open_of_worker hsh hp hw (holds_run t)
  have hbal := h.balance t.id
  rw [hopen, openPark_run (isPark_of_settles hc)] at hbal
  unfold State.causes Shared.queued at hbal
  cases hq : (s.sh.status t.id).queue? with
  | none => rfl
  | some src => simp [hq] at hbal

/-- A task that is owed a `goready` has no token. -/
theorem token_of_owed {i : TaskId} (ho : 0 < pc.owed i) : s.sh.queue.token i = 0 := by
  have h1 := h.balance i
  have h2 := open_le_places (i := i) hsh
  have h3 := hp.places_le_one i
  have h4 := Slots.le_sum_map (Pc.owed i) hw
  unfold State.causes State.total at h1
  omega

omit hp in
/-- The code of the worker's task agrees with its status. -/
theorem agrees_of_run (ha : s.sh.aborted = none) {t : Task σ V} (hpc : pc = .run t) :
    t.code.agrees (s.sh.status t.id) := by
  subst hpc
  have hmem := List.mem_of_getElem? hw
  exact h.agree ha t (.inr ⟨_, hmem, rfl, (hsh.workers _ hmem).run⟩)

/-- The wake effect of a worker's step. -/
theorem wakes (hP : P.Structured) (hs : WorkerStep P ch (queueFree s.workers) s.sh pc e)
    (hinv : ∀ (c : ChanId) (m : Chan V), s.sh.chans[c]? = some m → m.val.Inv)
    (hfresh : s.sh.FreshReports pc) (ha : s.sh.aborted = none) :
    WakeStep P.variant s.sh pc e.sh e.pc ∧ e.sh.Sources :=
  hs.wakes hP h.sources hinv (fun _ ht => h.agrees_of_run hsh hw ha ht)
    (fun _ ht hc => h.queue?_of_settles hsh hp hw ht hc) (h.events _ (List.mem_of_getElem? hw))
    hfresh

/-- **A step of a worker keeps the discipline.** -/
theorem worker (hP : P.Structured) (hs : WorkerStep P ch (queueFree s.workers) s.sh pc e)
    (hinv : ∀ (c : ChanId) (m : Chan V), s.sh.chans[c]? = some m → m.val.Inv)
    (hfresh : s.sh.FreshReports pc) (ha : s.sh.aborted = none) (hmove : WorkerMove s s' w pc e) :
    s'.Disciplined := by
  have hpc := hsh.workers _ (List.mem_of_getElem? hw)
  have hrun : ∀ t, pc = .run t → t.code.agrees (s.sh.status t.id) :=
    fun t ht => h.agrees_of_run hsh hw ha ht
  have hset : ∀ t, pc = .run t → t.code.settles = true → (s.sh.status t.id).queue? = none :=
    fun t ht hc => h.queue?_of_settles hsh hp hw ht hc
  obtain ⟨hwake, hsrc⟩ := h.wakes hsh hp hw hP hs hinv hfresh ha
  rw [← hmove.sh] at hwake hsrc
  have hevolves : ∀ i, (∀ t, pc = .run t → t.id ≠ i) →
      Evolves (s.sh.status i) (s'.sh.status i) := fun i hi => hwake.evolves hi
  have hsched := hs.sched
  rw [← hmove.sh] at hsched
  obtain ⟨es, hlog⟩ := hsched.log_append
  refine ⟨hsrc, fun i => ?_, fun ha' t ht => ?_, fun i hi => ?_, ?_⟩
  · have h1 := hwake.balance hsh.queue hpc (fun i => h.token_of_owed hsh hp hw)
      (fun t ht hc => (Code.agrees_of_calm hc).mp (hrun t ht)) hset
      (fun t ht hst => lookup_none_of_switched hsh.queue
        (ht ▸ hp.held_add_holds_le_one hw) (by rw [hst]; decide)) i
    have h2 := hmove.total _ (silent_owed i)
    have h3 := hmove.total _ (silent_openPark i)
    have h4 := h.balance i
    unfold State.causes State.open at *
    omega
  · refine ht.worker (I := fun i c => c.agrees (s.sh.status i)) hsh hp hw hs hmove (h.agree ha)
      (fun u _ hu hd => hwake.own ha' hrun hset (fun v hv => h.agree ha v (.inl (.inl hv))) hu hd)
      (fun i c hi hc => Code.agrees_evolves hc (hevolves i hi)) fun i f hi hne _ => ?_
    rcases hevolves i hne with hst | ⟨src, why, hst, -⟩
    · rw [hst, h.unborn i hi]
      rfl
    · rw [h.unborn i hi] at hst
      cases hst
  · have hi' : .created i ∉ s.sh.log := fun hmem => hi (hlog ▸ List.mem_append_left _ hmem)
    have hidle := h.unborn i hi'
    rcases hevolves i (by
      rintro t rfl rfl
      exact hi' (created_of_worker hp hw rfl hpc.run)) with hst | ⟨src, why, hst, -⟩
    · rw [hst, hidle]
    · rw [hidle] at hst; cases hst
  · refine hmove.forall_mem Pc.Events ⟨fun _ => trivial, fun _ => trivial⟩
      (fun j pc' _ hj => h.events _ (List.mem_of_getElem? hj)) hs.events

end State.Disciplined

end Disciplined

/-- The main thread and the environment keep the discipline. -/
theorem State.Disciplined.outer {s s' : State σ V} (h : s.Disciplined) (hp : s.Placed)
    (ha : s.sh.aborted = none) (ho : OuterStep s s') (hmove : OuterMove s s') :
    s'.Disciplined := by
  have hbal : ∀ i, s'.sh.queued i = s.sh.queued i → s'.sh.queue.token i = s.sh.queue.token i →
      s'.sh.queue.stored i = s.sh.queue.stored i → s'.causes i = s'.open i := by
    intro i h1 h2 h3
    rw [State.causes, State.open, h1, h2, h3, hmove.total _ (silent_owed i),
      hmove.total _ (silent_openPark i)]
    exact h.balance i
  have hagree : (∀ i, s'.sh.status i = s.sh.status i) →
      ∀ t, s'.Live t → t.code.agrees (s'.sh.status t.id) := by
    intro hst t ht
    rw [hst]
    exact ht.outer (J := fun i c => c.agrees (s.sh.status i)) ho hmove (h.agree ha)
      (fun _ _ hc => hc)
      fun i f hpc => h.unborn i (not_created_of_main hp hpc)
  have hevents := hmove.forall_mem Pc.Events ⟨fun _ => trivial, fun _ => trivial⟩ h.events
  cases ho with
  | go hsh =>
    have hq : s'.sh.queue = s.sh.queue := by rw [hsh]
    have hst : ∀ i, s'.sh.status i = s.sh.status i := status_of_log (by rw [hsh])
    refine ⟨h.sources.same hst (fun _ _ => ?_) (by rw [hsh]), fun i => hbal i (queued_congr (hst i))
      (by rw [hq]) (by rw [hq]), fun _ => hagree hst, fun i hi => ?_, hevents⟩
    · rw [hsh]; exact entries_congr rfl rfl rfl
    · rw [hst]; exact h.unborn i (by rw [hsh] at hi; exact hi)
  | @push id f hsh =>
    have hq : s'.sh.queue = s.sh.queue.pushBack (Task.new id f) := by rw [hsh]; rfl
    have hlog : s'.sh.log = s.sh.log ++ [.created id] := by rw [hsh]; rfl
    have hst : ∀ i, s'.sh.status i = s.sh.status i :=
      status_of_neutral _ hlog (by simp [Event.neutral, Event.update])
    refine ⟨h.sources.same hst (fun _ _ => ?_) (by rw [hsh]; rfl),
      fun i => hbal i (queued_congr (hst i)) (by rw [hq]; rfl) (by rw [hq]; rfl),
      fun _ => hagree hst, fun i hi => ?_, hevents⟩
    · rw [hsh]; exact entries_congr rfl rfl rfl
    · rw [hst]
      exact h.unborn i fun hmem => hi (hlog ▸ List.mem_append_left _ hmem)
  | same hsh =>
    have hst : ∀ i, s'.sh.status i = s.sh.status i := status_of_log hsh.log
    refine ⟨h.sources.same hst (fun _ _ => entries_congr hsh.timerHeap hsh.chans hsh.groups)
      (by rw [hsh.net]), fun i => hbal i (queued_congr (hst i))
      (GlobalQueue.token_congr hsh.pendingReady) (GlobalQueue.stored_congr hsh.waiting),
      fun _ => hagree hst, fun i hi => ?_, hevents⟩
    rw [hst]
    exact h.unborn i (by rw [hsh.log] at hi; exact hi)

/-- Before the first step nobody waits, and nobody is owed anything. -/
theorem disciplined_initial (caps : List Nat) (groups : Nat) (calls : List (MainOp σ)) :
    (State.initial caps groups calls : State σ V).Disciplined where
  sources :=
    { entries := fun src i _ => by
        have hst : (State.initial (V := V) caps groups calls).sh.status i = .idle := rfl
        rw [hst]
        cases src with
        | timer | fd => rfl
        | recvq c | sendq c =>
          simp only [Shared.entries, State.initial, List.getElem?_map]
          cases caps[c]? <;> rfl
        | waiters g =>
          simp only [Shared.entries, State.initial, List.getElem?_replicate]
          split <;> rfl
      fds := fun fd i h => by simp [State.initial, NetPoller.new] at h }
  balance _ := rfl
  agree _ t ht := by
    rcases ht with (ht | ⟨i, ht⟩) | ⟨pc, hpc, -⟩
    · cases ht
    · simp [State.initial, GlobalQueue.new] at ht
    · cases hpc
  unborn _ _ := rfl
  events _ h := by cases h

/-- The step is no poll, or one that reports only fresh registrations. -/
def FreshPolls (a : Act) (s : State σ V) : Prop :=
  ∀ w ch pc, a = .worker w ch → s.workers[w]? = some pc → s.sh.FreshReports pc

/-- Where nobody waits for an fd a poll reports nothing. -/
theorem freshPolls_of_fds {s : State σ V} (h : s.sh.net.waitingFds = ∅) (a : Act) :
    FreshPolls a s := by
  intro w ch pc _ _ events _ x hx
  have := (mem_lookup hx).2
  rw [h] at this
  cases this

/-- **The discipline holds in every state reached**, as long as no poll reports a task whose
    registration has been reported before. -/
theorem reach_disciplined {P : Program σ V} (hP : P.Structured) {ok : Act → State σ V → Prop}
    (hok : ∀ a s, ok a s → FreshPolls a s) {s : State σ V} (hr : (runtime P).Reach ok s) :
    s.Disciplined := by
  refine hr.invariant ?_ ?_
  · rintro s ⟨caps, groups, calls, rfl⟩
    exact disciplined_initial caps groups calls
  · intro s s' a hr h hok' hn
    obtain ⟨ha, hn⟩ := next_inv hn
    rcases hn.cases with ⟨w, ch, pc, e, rfl, hw, hs, hmove⟩ | ⟨ho, hmove⟩
    · exact h.worker (reach_shaped hr) (reach_placed hr) hw hP hs (fun c m hm => reach_chanInv hr hm)
        (hok _ _ hok' w ch pc rfl hw) ha hmove
    · exact h.outer (reach_placed hr) ha ho hmove

end MyGoroutine
