import MyGoroutine.Model.WaitGroup
import MyGoroutine.Model.NetPoll
import MyGoroutine.Model.Queue

namespace MyGoroutine

/-!
# The shared state of a runtime, and its critical sections

`Shared` collects everything that lives outside the threads: the global queue, the
`POLLING` flag, the timer heap, the poller, and the channels and wait groups of the
program.  Beside them stand the environment (the clock, the readiness of the fds), the
panic that aborted the process, and `log`, the history of what has happened.  The history
is a ghost: no step reads it.

* `goready`, `pushRunnable`, `parkTask`, `tryPop` — the sections of the queue mutex that
  move tasks;
* `lockChan`, `lockGroup` — a section of a channel or of a wait group.
-/

/-- Who calls `goready`. -/
inductive Waker where
  /-- A task, for example at the end of a `send`. -/
  | task (t : TaskId)
  /-- `check_timers`. -/
  | timers
  /-- The worker that polled. -/
  | poller
deriving DecidableEq, Repr

/-- What the history records. -/
inductive Event (V : Type) where
  /-- `go` queued the task. -/
  | created (t : TaskId)
  /-- A worker popped the task and switched to it. -/
  | dispatched (t : TaskId)
  /-- `task_entry` called the closure. -/
  | entered (t : TaskId)
  /-- `task_finished`. -/
  | died (t : TaskId)
  /-- `goready(t)` is called. -/
  | goready (t : TaskId) (waker : Waker)
  /-- A parked task was put back on `runnable`. -/
  | wake (t : TaskId)
  /-- `sleep` pushed its entry. -/
  | timerPush (t : TaskId) (wakeTime : Instant)
  /-- `check_timers`, with its sample `now` of the clock, popped an entry. -/
  | timerPop (t : TaskId) (wakeTime now : Instant)
  /-- The first section of a `send`. -/
  | sent (c : ChanId) (t : TaskId) (data : V) (o : SendOutcome)
  /-- The first section of a `recv`. -/
  | received (c : ChanId) (t : TaskId) (o : RecvOutcome V)
  /-- The section of a `close`, with the waiters it drained. -/
  | closed (c : ChanId) (t : TaskId) (receivers : List TaskId) (senders : List (SendWaiter V))
  /-- The section of an `add`, with the waiters it collected. -/
  | added (g : GroupId) (t : TaskId) (delta : Int32) (woken : List TaskId)
  /-- `wait` registered the task. -/
  | joined (g : GroupId) (t : TaskId)
  /-- `register_read` stored the task in `waiting_fds`. -/
  | registered (t : TaskId) (fd : RawFd)
  /-- A poll collected the task for a ready fd. -/
  | reported (t : TaskId) (fd : RawFd)
  /-- A call of a runtime function returned. -/
  | returned (t : TaskId) (r : Ret V)
  /-- A call of a runtime function panicked. -/
  | panicked (t : TaskId) (p : Panic)

/-- What a section does to the threads blocked on the condition variable. -/
inductive Notify where
  /-- No notification. -/
  | none
  /-- `notify_one`. -/
  | one
  /-- `notify_all`. -/
  | all
deriving DecidableEq, Repr

/-- What the threads of the process share. -/
structure Shared (σ V : Type) where
  /-- Behind the queue mutex. -/
  queue : GlobalQueue σ V
  /-- The flag `POLLING`. -/
  polling : Bool
  /-- The entries of the `TIMER_HEAP`, in no particular order. -/
  timerHeap : List TimerEntry
  /-- The epoll instance and `waiting_fds`. -/
  net : NetPoller
  /-- The channels of the program. -/
  chans : List (Chan V)
  /-- The wait groups of the program. -/
  groups : List WaitGroup
  /-- Which fds have something to read; the outside world decides. -/
  readable : RawFd → Bool
  /-- What `Instant::now` would return. -/
  clock : Instant
  /-- The counter behind `TaskId::new`. -/
  nextTaskId : TaskId
  /-- The panic that no closure caught: it has left `task_entry` and aborted the process. -/
  aborted : Option Panic
  /-- The history; no step reads it. -/
  log : List (Event V)

variable {σ V : Type}

/-- `if q.idle_workers > 0 { condvar.notify_one() }`. -/
def GlobalQueue.notifyIdle (q : GlobalQueue σ V) : Notify :=
  if 0 < q.idleWorkers then .one else .none

namespace Shared

/-- The state after the history has grown. -/
def record (sh : Shared σ V) (es : List (Event V)) : Shared σ V :=
  { sh with log := sh.log ++ es }

/-- The state with another queue. -/
def withQueue (sh : Shared σ V) (q : GlobalQueue σ V) : Shared σ V := { sh with queue := q }

/-- Two entries in the history are logged one after the other. -/
@[simp] theorem record_record (sh : Shared σ V) (es fs : List (Event V)) :
    (sh.record es).record fs = sh.record (es ++ fs) := by
  simp [record]

/-- `goready(id)`. -/
def goready (waker : Waker) (id : TaskId) (sh : Shared σ V) : Shared σ V × Notify :=
  match sh.queue.waiting.lookup id with
  | some t =>
    ((sh.withQueue (sh.queue.wake t id)).record [.goready id waker, .wake id],
      sh.queue.notifyIdle)
  | none => ((sh.withQueue (sh.queue.addPending id)).record [.goready id waker], .none)

/-- The critical section of `go`: `runnable.push_back(task)`. -/
def pushNew (id : TaskId) (f : σ) (sh : Shared σ V) : Shared σ V × Notify :=
  ((sh.withQueue (sh.queue.pushBack (Task.new id f))).record [.created id],
    sh.queue.notifyIdle)

/-- The branch of the worker loop for a task that called `gopark`.  Only `channel.rs`
    notifies when it puts the task straight back on the runnable queue. -/
def parkTask (variant : Variant) (t : Task σ V) (sh : Shared σ V) : Shared σ V × Notify :=
  if t.id ∈ sh.queue.pendingReady then
    ((sh.withQueue (sh.queue.takePending t)).record [.wake t.id],
      if variant = .channel then sh.queue.notifyIdle else .none)
  else (sh.withQueue (sh.queue.store t), .none)

/-- The branch of the worker loop for a task that yielded. -/
def requeue (t : Task σ V) (sh : Shared σ V) : Shared σ V :=
  sh.withQueue (sh.queue.pushBack (t.withState .runnable))

/-- A section of the channel `c`. -/
def lockChan {β : Type} (c : ChanId) (body : ChanInner V → ChanInner V × Except Panic β)
    (sh : Shared σ V) : Option (Shared σ V × Except Panic β) :=
  sh.chans[c]?.map fun m =>
    let r := m.lock body
    ({ sh with chans := sh.chans.set c r.1 }, r.2)

/-- A section of the wait group `g`. -/
def lockGroup {β : Type} (g : GroupId)
    (body : WaitGroupInner → WaitGroupInner × Except Panic β) (sh : Shared σ V) :
    Option (Shared σ V × Except Panic β) :=
  sh.groups[g]?.map fun m =>
    let r := m.lock body
    ({ sh with groups := sh.groups.set g r.1 }, r.2)

/-- `has_timers`. -/
def hasTimers (sh : Shared σ V) : Bool := !sh.timerHeap.isEmpty

end Shared

end MyGoroutine
