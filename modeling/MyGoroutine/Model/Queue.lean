import MyGoroutine.Model.Task
import Mathlib.Data.List.AList
import Mathlib.Data.Finset.Basic

namespace MyGoroutine

/-!
# The global queue and the timer heap (`runtime/channel.rs`, `runtime/timer.rs`)

* `GlobalQueue` — what the workers share under the queue mutex, and its critical sections
  `goready`, `park`, `popFront`, `pushBack`;
* `shouldTerminate` — the termination test;
* `TimerEntry` — the heap entries with their reversed order.
-/

/-- Global task queue shared by all workers. -/
structure GlobalQueue (σ V : Type) where
  /-- The tasks ready to run, in the order of the queue. -/
  runnable : List (Task σ V)
  /-- The parked tasks. -/
  waiting : AList (fun _ : TaskId => Task σ V)
  /-- The tokens of `goready` calls that came before the task was parked. -/
  pendingReady : Finset TaskId
  /-- Number of idle workers (waiting on condvar). -/
  idleWorkers : Nat
  /-- Total number of workers. -/
  allWorkers : Nat
  /-- The id of the next worker that is spawned. -/
  nextWorkerId : Nat

namespace GlobalQueue

variable {σ V : Type}

/-- The queue as `global_queue` initialises it. -/
def new : GlobalQueue σ V where
  runnable := []
  waiting := ∅
  pendingReady := ∅
  idleWorkers := 0
  allWorkers := 0
  nextWorkerId := 0

/-- `runnable.push_back(task)`. -/
def pushBack (q : GlobalQueue σ V) (t : Task σ V) : GlobalQueue σ V :=
  { q with runnable := q.runnable ++ [t] }

/-- `waiting.remove(&id)` found `t`: the task goes to the runnable queue. -/
def wake (q : GlobalQueue σ V) (t : Task σ V) (id : TaskId) : GlobalQueue σ V :=
  { q with
    waiting := q.waiting.erase id
    runnable := q.runnable ++ [t.withState .runnable] }

/-- `pending_ready.insert(id)`. -/
def addPending (q : GlobalQueue σ V) (id : TaskId) : GlobalQueue σ V :=
  { q with pendingReady := insert id q.pendingReady }

/-- The park branch of the worker loop when it finds a token. -/
def takePending (q : GlobalQueue σ V) (t : Task σ V) : GlobalQueue σ V :=
  { q with
    pendingReady := q.pendingReady.erase t.id
    runnable := q.runnable ++ [t.withState .runnable] }

/-- The park branch of the worker loop without a token: `waiting.insert(task.id, task)`. -/
def store (q : GlobalQueue σ V) (t : Task σ V) : GlobalQueue σ V :=
  { q with waiting := q.waiting.insert t.id t }

/-- The queue after `runnable.pop_front()`. -/
def popFront (q : GlobalQueue σ V) : GlobalQueue σ V :=
  { q with runnable := q.runnable.tail }

/-- No task is runnable or waiting and no token is pending. -/
def noTasks (q : GlobalQueue σ V) : Bool :=
  q.runnable.isEmpty && q.waiting.keys.isEmpty && decide (q.pendingReady = ∅)

/-- The termination test; the idle path passes samples of `has_waiters` and `has_timers`
    taken before the lock, `should_terminate` reads them under the lock. -/
def shouldTerminate (q : GlobalQueue σ V) (hasNetWaiters hasTimerWaiters : Bool) : Bool :=
  q.noTasks && !hasNetWaiters && !hasTimerWaiters && decide (q.idleWorkers = q.allWorkers)

end GlobalQueue

/-- Entry in the timer heap. -/
structure TimerEntry where
  wakeTime : Instant
  taskId : TaskId
deriving DecidableEq, Repr

/-- `Ord for TimerEntry`: reversed, and blind to the task id. -/
def TimerEntry.cmp (a b : TimerEntry) : Ordering := compare b.wakeTime a.wakeTime

/-- `e` is an entry that `BinaryHeap::peek` may show: no entry compares greater. -/
def TimerEntry.isPeek (heap : List TimerEntry) (e : TimerEntry) : Bool :=
  decide (e ∈ heap) && heap.all (fun x => x.cmp e != .gt)

end MyGoroutine
