import MyGoroutine.Step.Measure

namespace MyGoroutine

/-!
# The scheduling effect of a step

Seen from the scheduler, most of the steps of a worker do nothing: they touch neither the
task queues nor the tokens, and the task the worker runs stays where it is.  `SchedStep`
lists the remaining ones, and `WorkerStep.sched` is the refinement: each step of a worker
is one of them.

* `Code.isEntry`, `Code.birth` — the points of a task's code that scheduling depends on;
* `Event.isSched` — the events of the scheduler;
* `SameTask` — the worker keeps its task, if it has one;
* `SchedStep`, `TaskStep.sched`, `WorkerStep.sched`.
-/

variable {σ V : Type}

/-- The closure has not been called yet. -/
def Code.isEntry : Code σ V → Bool
  | .entry _ => true
  | _ => false

/-- The child that `go` has created but not queued yet. -/
def Code.birth : Code σ V → Option TaskId
  | .goPush id _ _ => some id
  | _ => none

/-- The code is at no point that scheduling depends on. -/
def Code.plain (c : Code σ V) : Prop := c.isEntry = false ∧ c.birth = none

/-- The event is one of the scheduler's. -/
def Event.isSched : Event V → Bool
  | .created _ => true
  | .dispatched _ => true
  | .entered _ => true
  | .died _ => true
  | .goready _ _ => true
  | .wake _ => true
  | _ => false

/-- The task a worker holds. -/
def Pc.task? : Pc σ V → Option (Task σ V)
  | .run t => some t
  | .switched t => some t
  | _ => none

/-- A step from `pc` to `pc'` that keeps the worker's task running, or during which the
    worker has no task. -/
inductive SameTask (pc pc' : Pc σ V) : Prop where
  | none (h : pc.task? = none) (h' : pc'.task? = none)
  | run {t c} (h : pc = .run t) (h' : pc' = .run (t.goto c)) (ht : t.code.plain) (hc : c.plain)

/-- The task queues and the tokens are the same. -/
structure Shared.SameTasks (sh sh' : Shared σ V) : Prop where
  runnable : sh'.queue.runnable = sh.queue.runnable
  waiting : sh'.queue.waiting = sh.queue.waiting
  pendingReady : sh'.queue.pendingReady = sh.queue.pendingReady

/-- A state has the same tasks as itself. -/
theorem Shared.SameTasks.refl (sh : Shared σ V) : Shared.SameTasks sh sh := ⟨rfl, rfl, rfl⟩

/-- The history has grown by events that are not the scheduler's. -/
def QuietLog (log log' : List (Event V)) : Prop :=
  ∃ es, log' = log ++ es ∧ ∀ e ∈ es, e.isSched = false

/-- Logging nothing is quiet. -/
theorem QuietLog.refl (log : List (Event V)) : QuietLog log log := ⟨[], by simp, by simp⟩

/-- What a step does to the tasks. -/
inductive SchedStep (variant : Variant) (sh : Shared σ V) (pc : Pc σ V) :
    Shared σ V → Pc σ V → Prop where
  /-- Nothing. -/
  | quiet {sh' pc'} (hs : sh.SameTasks sh') (hn : sh'.nextTaskId = sh.nextTaskId)
      (hl : QuietLog sh.log sh'.log) (hpc : SameTask pc pc') : SchedStep variant sh pc sh' pc'
  /-- The closure of a fresh task is called. -/
  | entry {t f} (h : pc = .run t) (hc : t.code = .entry f) :
      SchedStep variant sh pc (sh.record [.entered t.id]) (.run (t.goto (.user f)))
  /-- `go` takes an id for its child. -/
  | alloc {t f k} (h : pc = .run t) (hc : t.code.plain) :
      SchedStep variant sh pc { sh with nextTaskId := sh.nextTaskId + 1 }
        (.run (t.goto (.goPush sh.nextTaskId f k)))
  /-- `go` queues its child. -/
  | create {t id f k} (h : pc = .run t) (hc : t.code = .goPush id f k) :
      SchedStep variant sh pc (sh.pushNew id f).1 (.run (t.goto (.user k)))
  /-- `goready(id)`, after which the caller may return. -/
  | goready {waker id sh' pc'} (hs : (sh.goready waker id).1.SameTasks sh')
      (hn : sh'.nextTaskId = sh.nextTaskId)
      (hl : QuietLog (sh.goready waker id).1.log sh'.log) (hpc : SameTask pc pc') :
      SchedStep variant sh pc sh' pc'
  /-- The task yields. -/
  | yield {t k} (h : pc = .run t) (hc : t.code.plain) :
      SchedStep variant sh pc sh (.switched (t.goto (.user k)))
  /-- The task parks. -/
  | parkOut {t p} (h : pc = .run t) (hc : t.code = .park p) :
      SchedStep variant sh pc sh (.switched ((t.goto (.parked p)).withState .waiting))
  /-- The task finishes. -/
  | die {t} (h : pc = .run t) (hc : t.code.plain) :
      SchedStep variant sh pc (sh.record [.died t.id]) (.switched (t.withState .dead))
  /-- The worker pops a task and switches to it. -/
  | dispatch {t rest sh'} (h : pc.task? = none) (hr : sh.queue.runnable = t :: rest)
      (hrun : sh'.queue.runnable = rest) (hw : sh'.queue.waiting = sh.queue.waiting)
      (hp : sh'.queue.pendingReady = sh.queue.pendingReady)
      (hn : sh'.nextTaskId = sh.nextTaskId) (hl : sh'.log = sh.log ++ [.dispatched t.id]) :
      SchedStep variant sh pc sh' (.run (t.withState .running))
  /-- The worker drops a dead task. -/
  | drop {t pc'} (h : pc = .switched t) (hd : t.state = .dead) (h' : pc'.task? = none) :
      SchedStep variant sh pc sh pc'
  /-- The worker stores a parked task, or takes its token. -/
  | park {t pc'} (h : pc = .switched t) (hw : t.state = .waiting) (h' : pc'.task? = none) :
      SchedStep variant sh pc (sh.parkTask variant t).1 pc'
  /-- The worker queues a task that has yielded. -/
  | requeue {t pc'} (h : pc = .switched t) (hd : t.state ≠ .dead) (hw : t.state ≠ .waiting)
      (h' : pc'.task? = none) : SchedStep variant sh pc (sh.requeue t) pc'

/-! ### Effects of the helpers of a task's step

`Task.continue`, `raise` and `finish` build the effects of nearly all branches. The lemmas say what
the effect is field by field, so that no proof unfolds them.
-/

section Effects

variable {t : Task σ V} {sh : Shared σ V}

/-- The shared state of a step that goes on is the one given. -/
@[simp] theorem continue_sh (c : Code σ V) : (t.continue sh c).sh = sh := rfl
@[simp] theorem continue_pc (c : Code σ V) : (t.continue sh c).pc = .run (t.goto c) := rfl
@[simp] theorem continue_notify (c : Code σ V) : (t.continue sh c).notify = .none := rfl
@[simp] theorem continue_spawn (c : Code σ V) : (t.continue sh c).spawn = none := rfl

@[simp] theorem Task.goto_self : t.goto t.code = t := rfl

/-- The code after a panic: the handler's, or where the process aborted. -/
def Task.raiseCode (t : Task σ V) (p : Panic) : Handler σ → Code σ V
  | some f => .user (f p)
  | none => t.code

/-- After a panic the task goes on in its handler, or stays where it is. -/
@[simp] theorem raise_pc (p : Panic) (h : Handler σ) :
    (t.raise sh p h).pc = .run (t.goto (t.raiseCode p h)) := by
  cases h <;> rfl

/-- A panic is logged, and aborts the process when nobody catches it. -/
theorem raise_sh (p : Panic) (h : Handler σ) :
    (t.raise sh p h).sh
      = { sh.record [.panicked t.id p] with
          aborted := if h.isNone then some p else sh.aborted } := by
  cases h <;> rfl

/-- A panic aborts the process only if nobody catches it. -/
theorem raise_aborts {p q : Panic} {h : Handler σ} (hp : (t.raise sh q h).sh.aborted = some p)
    (ha : sh.aborted = none) : h = none ∧ q = p := by
  rw [raise_sh] at hp
  cases h with
  | some f =>
    have hp : sh.aborted = some p := hp
    rw [ha] at hp
    cases hp
  | none => exact ⟨rfl, Option.some.inj hp⟩

/-- A panic leaves the queue alone. -/
@[simp] theorem raise_queue (p : Panic) (h : Handler σ) :
    (t.raise sh p h).sh.queue = sh.queue := by
  rw [raise_sh]; rfl

/-- A panic logs itself. -/
@[simp] theorem raise_log (p : Panic) (h : Handler σ) :
    (t.raise sh p h).sh.log = sh.log ++ [.panicked t.id p] := by
  rw [raise_sh]; rfl

/-- A panic gives out no id. -/
@[simp] theorem raise_nextTaskId (p : Panic) (h : Handler σ) :
    (t.raise sh p h).sh.nextTaskId = sh.nextTaskId := by
  rw [raise_sh]; rfl

/-- The code after a section that owes the `goready` calls `ids`. -/
def finishCode (ids : List TaskId) (ret : Ret V) (k : σ) : Code σ V :=
  match ids with
  | [] => .user k
  | _ :: _ => .wake ids ret k

/-- At the end of a call the task owes its `goready` calls, or goes on. -/
@[simp] theorem finish_pc (ids : List TaskId) (ret : Ret V) (k : σ) :
    (t.finish sh ids ret k).pc = .run (t.goto (finishCode ids ret k)) := by
  cases ids <;> rfl

/-- A call that wakes nobody returns at once. -/
theorem finish_sh (ids : List TaskId) (ret : Ret V) (k : σ) :
    (t.finish sh ids ret k).sh
      = sh.record (if ids = [] then [.returned t.id ret] else []) := by
  cases ids <;> simp [Task.finish, Shared.record]

/-- Between two calls a task gives birth to nobody. -/
theorem plain_user (x : σ) : (Code.user x : Code σ V).plain := ⟨rfl, rfl⟩

/-- The end of a call gives birth to nobody. -/
theorem finishCode_plain (ids : List TaskId) (ret : Ret V) (k : σ) :
    (finishCode ids ret k : Code σ V).plain := by
  cases ids <;> exact ⟨rfl, rfl⟩

/-- A panic gives birth to nobody. -/
theorem raiseCode_plain (p : Panic) (h : Handler σ) (hc : t.code.plain) :
    (t.raiseCode p h).plain := by
  cases h
  · exact hc
  · exact ⟨rfl, rfl⟩

end Effects

/-! ### The refinement

As far as the tasks are concerned most steps do nothing: the branches of a channel, a wait group,
the heap or the poller are quiet. What remains is a small scheduler, and the proofs about places,
permits and orders are about it.
-/

section Refinement

variable {P : Program σ V} {ch : Choice} {free : Bool} {sh : Shared σ V} {t : Task σ V}
  {pc : Pc σ V} {e : Effect σ V}

/-- A section of a channel gives birth to nobody. -/
theorem ChanCall.plain {c : ChanId} {h : Handler σ} {sec : ChanSection}
    (hs : ChanCall P t c h sec) : t.code.plain := by
  cases hs with
  | send hc | sendResume hc | recv hc | recvResume hc | close hc => rw [hc]; exact ⟨rfl, rfl⟩

/-- The shape of the quiet steps of a task: it goes on at `c`, the queues are the same, and
    the history grew by `es`. -/
private theorem quiet_task {sh' : Shared σ V} {c : Code σ V} (es : List (Event V))
    (hs : sh'.queue = sh.queue) (hn : sh'.nextTaskId = sh.nextTaskId)
    (hl : sh'.log = sh.log ++ es) (hes : ∀ ev ∈ es, ev.isSched = false)
    (ht : t.code.plain) (hc : c.plain) :
    SchedStep P.variant sh (.run t) sh' (.run (t.goto c)) :=
  .quiet ⟨by rw [hs], by rw [hs], by rw [hs]⟩ hn ⟨es, hl, hes⟩ (.run rfl rfl ht hc)

/-- A panic is quiet. -/
private theorem quiet_raise {sh' : Shared σ V} {p : Panic} {h : Handler σ}
    (hs : sh'.queue = sh.queue) (hn : sh'.nextTaskId = sh.nextTaskId) (hl : sh'.log = sh.log)
    (ht : t.code.plain) :
    SchedStep P.variant sh (.run t) (t.raise sh' p h).sh (t.raise sh' p h).pc := by
  rw [raise_pc]
  exact quiet_task [.panicked t.id p] (by simp [hs]) (by simp [hn]) (by simp [hl])
    (by simp [Event.isSched]) ht (raiseCode_plain _ _ ht)

/-- Each step of a task is a scheduling step. -/
theorem TaskStep.sched (hs : TaskStep P ch free sh t e) :
    SchedStep P.variant sh (.run t) e.sh e.pc := by
  cases hs with
  | entry hc => exact .entry rfl hc
  | go hc => exact .alloc rfl (by rw [hc]; exact plain_user _)
  | gosched hc => exact .yield rfl (by rw [hc]; exact plain_user _)
  | chanPoisoned hs | chanClosed hs => exact quiet_raise rfl rfl rfl hs.plain
  | sleepOverflow hc | recvUnwrap hc | groupPanic hc | netFail hc =>
    exact quiet_raise rfl rfl rfl (by rw [hc]; exact plain_user _)
  | close hc | add hc =>
    rw [finish_pc, finish_sh, Shared.record_record]
    refine quiet_task _ rfl rfl rfl ?_ (by rw [hc]; exact plain_user _) (finishCode_plain _ _ _)
    split <;> simp [Event.isSched]
  | goready _ hc =>
    exact .goready (.refl _) (by simp only [Shared.goready]; split <;> rfl) (.refl _)
      (.run rfl rfl (by rw [hc]; exact plain_user _) (plain_user _))
  | done hc => exact .die rfl (by rw [hc]; exact plain_user _)
  | goPush _ hc => exact .create rfl hc
  | wakeLast _ hc =>
    exact .goready ⟨rfl, rfl, rfl⟩ (by simp only [Shared.goready]; split <;> rfl)
      ⟨[_], rfl, by simp [Event.isSched]⟩
      (.run rfl rfl (by rw [hc]; exact ⟨rfl, rfl⟩) (plain_user _))
  | wakeMore _ hc =>
    exact .goready (.refl _) (by simp only [Shared.goready]; split <;> rfl) (.refl _)
      (.run rfl rfl (by rw [hc]; exact ⟨rfl, rfl⟩) ⟨rfl, rfl⟩)
  | park hc => exact .parkOut rfl hc
  | currentTaskId hc | sleep hc | netAdd hc | ioSpawn _ hc | ioBlock _ hc | gopark hc
  | wakeNil hc | threadSpawn hc | blocking hc | resumeNet hc | resumeGopark hc =>
    exact quiet_task [] rfl rfl (by simp) (by simp) (by rw [hc]; exact ⟨rfl, rfl⟩) ⟨rfl, rfl⟩
  | spawnWorker _ hc =>
    exact .quiet ⟨rfl, rfl, rfl⟩ rfl (.refl _)
      (.run rfl rfl (by rw [hc]; exact ⟨rfl, rfl⟩) ⟨rfl, rfl⟩)
  | sendDelivered hc | sendBuffered hc | sendEnqueued hc | recvClosed hc | recvTake hc
  | recvRefill hc | recvBuf hc | recvEnqueued hc | waitZero hc | waitJoin hc | sleepPush hc
  | registerRead hc | unregister hc | resumeSleep hc | resumeSend hc | resumeRecv hc
  | resumeWait hc =>
    exact quiet_task _ rfl rfl rfl (by simp [Event.isSched]) (by rw [hc]; exact ⟨rfl, rfl⟩)
      ⟨rfl, rfl⟩

/-- `runnable.pop_front()` dispatches a task, or does nothing. -/
theorem tryPop_sched {sh₀ : Shared σ V} {otherwise : Pc σ V} (hpc : pc.task? = none)
    (ho : otherwise.task? = none) (hs : sh₀.SameTasks sh)
    (hn : sh.nextTaskId = sh₀.nextTaskId) (hl : sh.log = sh₀.log) :
    SchedStep P.variant sh₀ pc (tryPop sh otherwise).sh (tryPop sh otherwise).pc := by
  unfold tryPop
  split
  · exact .quiet hs hn ⟨[], by simp [hl], by simp⟩ (.none hpc ho)
  · rename_i t rest hr
    exact .dispatch hpc (show sh₀.queue.runnable = t :: rest from hs.runnable ▸ hr)
      (by simp [Shared.record, Shared.withQueue, GlobalQueue.popFront, hr]) hs.waiting
      hs.pendingReady hn (by simp [Shared.record, Shared.withQueue, hl])

/-- After `check_timers` the worker still has no task. -/
theorem timersDone_task? (ph : Phase) (w : Option Instant) :
    (timersDone ph w : Pc σ V).task? = none := by
  rcases ph with (_ | _) | _ <;> cases w <;> rfl

/-- **Each step of a worker is a scheduling step.** -/
theorem WorkerStep.sched (hs : WorkerStep P ch free sh pc e) :
    SchedStep P.variant sh pc e.sh e.pc := by
  cases hs with
  | register | casFail | casWin | pollNet | pollTimersNone | pollTimersSome | giveUp | timersNow
  | timeout | nothingLeft | epollWait | sleepStart | sleepSkip | sleepEnd | release | wakeDone
  | idleNet | idleTimers | termNetNo =>
    exact .quiet ⟨rfl, rfl, rfl⟩ rfl (.refl _) (.none rfl rfl)
  | timersEmpty | timersWait => exact .quiet (.refl _) rfl (.refl _) (.none rfl (timersDone_task? _ _))
  | timersPop =>
    exact .quiet ⟨rfl, rfl, rfl⟩ rfl ⟨[_], rfl, by simp [Event.isSched]⟩ (.none rfl rfl)
  | timersReady | wakeReady =>
    exact .goready (.refl _) (by simp only [Shared.goready]; split <;> rfl) (.refl _)
      (.none rfl rfl)
  | lookup =>
    refine .quiet ⟨rfl, rfl, rfl⟩ rfl ⟨_, rfl, fun ev hev => ?_⟩ (.none rfl rfl)
    obtain ⟨x, -, rfl⟩ := List.mem_map.mp hev
    rfl
  | top => exact tryPop_sched rfl rfl (.refl _) rfl rfl
  | termNetYes => exact tryPop_sched rfl rfl (.refl _) rfl rfl
  | termStay => exact tryPop_sched rfl rfl (.refl _) rfl rfl
  | termExit => exact .quiet ⟨rfl, rfl, rfl⟩ rfl (.refl _) (.none rfl rfl)
  | goIdle =>
    simp only [idleStep]
    split <;> exact .quiet ⟨rfl, rfl, rfl⟩ rfl (.refl _) (.none rfl rfl)
  | notified =>
    simp only [wakeStep]
    split
    · exact .quiet ⟨rfl, rfl, rfl⟩ rfl (.refl _) (.none rfl rfl)
    · exact tryPop_sched rfl rfl ⟨rfl, rfl, rfl⟩ rfl rfl
  | run hs => exact hs.sched
  | drop hd => exact .drop rfl hd rfl
  | park _ hw => exact .park rfl hw rfl
  | requeue _ hd hw => exact .requeue rfl hd hw rfl

/-- A worker that runs a task has a task after the step. -/
theorem TaskStep.task? (hs : TaskStep P ch free sh t e) : ∃ u, e.pc.task? = some u := by
  cases hs <;>
    first | exact ⟨_, rfl⟩ | exact ⟨_, by rw [raise_pc]; rfl⟩ | exact ⟨_, by rw [finish_pc]; rfl⟩

/-- The history only grows. -/
theorem SchedStep.log_append {variant : Variant} {sh' : Shared σ V} {pc' : Pc σ V}
    (hs : SchedStep variant sh pc sh' pc') : ∃ es, sh'.log = sh.log ++ es := by
  cases hs with
  | quiet _ _ hl => exact hl.imp fun _ h => h.1
  | goready _ _ hl =>
    obtain ⟨es, hl, -⟩ := hl
    rw [hl]
    unfold Shared.goready
    split <;> exact ⟨_, List.append_assoc _ _ _⟩
  | entry | create | die => exact ⟨_, rfl⟩
  | alloc | yield | parkOut | drop | requeue => exact ⟨[], (List.append_nil _).symm⟩
  | dispatch _ _ _ _ _ _ hl => exact ⟨_, hl⟩
  | park =>
    unfold Shared.parkTask
    split
    · exact ⟨_, rfl⟩
    · exact ⟨[], (List.append_nil _).symm⟩

end Refinement

end MyGoroutine
