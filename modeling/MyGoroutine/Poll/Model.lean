import MyGoroutine.Model.Runtime

namespace MyGoroutine.Poll

/-!
# The poll runtime (`runtime/poll.rs`)

The first runtime with a poller is a program of its own: it has no timers, no tokens for a
`goready` that comes early, and it tests for termination before it polls.  The model follows that
of the later runtimes: one step of a worker runs to the next point at which another thread can
tell the difference.

* `Op`, `Code`, `Task` — the tasks of this runtime;
* `Queue`, `Shared` — its queue and shared state, with the critical sections;
* `taskStep`, `workerStep`, `mainStep`, `next` — the threads, and their interleaving;
* `runtime` — the transition system of a program.

`should_terminate` locks the poller while it holds the queue, at both of its calls (`checkNet`,
`termNet`); no other section of the queue can run in between (`queueFree`).
-/

/-- One operation of a closure on the runtime; `k` is where the closure goes on. -/
inductive Op (σ : Type) where
  /-- `go(f)`. -/
  | go (f : σ) (k : σ)
  /-- `gosched()`. -/
  | gosched (k : σ)
  /-- `current_task_id()`. -/
  | currentTaskId (k : TaskId → σ)
  /-- `gopark()`. -/
  | gopark (k : σ)
  /-- `goready(t)`. -/
  | goready (t : TaskId) (k : σ)
  /-- `net_poll_read(fd)`. -/
  | netPollRead (fd : RawFd) (k : σ) (h : Handler σ)
  /-- A wrapper of `io`: a call between `enter_blocking` and `exit_blocking`. -/
  | io (k : σ)
  /-- The closure returns. -/
  | done

/-- A program: the code of its closures. -/
structure Program (σ : Type) where
  code : σ → Op σ

/-- Why a task parks, with the rest of its code after `gopark` returns. -/
inductive Park (σ : Type) where
  /-- The closure has called `gopark`. -/
  | gopark (k : σ)
  /-- `net_poll_read` has. -/
  | netPollRead (fd : RawFd) (k : σ)

/-- What a task has left to run. -/
inductive Code (σ : Type) where
  /-- A fresh context: `task_entry` has not called the closure yet. -/
  | entry (f : σ)
  /-- In the closure, between two calls. -/
  | user (x : σ)
  /-- `go`: the child has its id, but is not queued yet. -/
  | goPush (id : TaskId) (f : σ) (k : σ)
  /-- `register_read` between `epoll_ctl` and the insertion into `waiting_fds`. -/
  | registerRead (fd : RawFd) (k : σ)
  /-- `unregister` between `epoll_ctl` and the removal from `waiting_fds`. -/
  | unregister (fd : RawFd) (k : σ)
  /-- `enter_blocking` found that it has to spawn a worker. -/
  | spawnWorker (k : σ)
  /-- `spawn_worker` before `thread::spawn`. -/
  | threadSpawn (workerId : Nat) (k : σ)
  /-- Inside the blocking call of an `io` wrapper. -/
  | blocking (k : σ)
  /-- About to call `gopark`. -/
  | park (p : Park σ)
  /-- Switched out inside `gopark`. -/
  | parked (p : Park σ)

/-- A task, with its context given by what it has left to run. -/
structure Task (σ : Type) where
  id : TaskId
  code : Code σ
  state : TaskState

variable {σ : Type}

/-- `Task::new`. -/
def Task.new (id : TaskId) (f : σ) : Task σ := { id, code := .entry f, state := .runnable }

/-- The task at another point of its code. -/
def Task.goto (t : Task σ) (c : Code σ) : Task σ := { t with code := c }

/-- The task in another state. -/
def Task.withState (t : Task σ) (st : TaskState) : Task σ := { t with state := st }

/-! ### The shared state

The fields are those of `GlobalQueue`, of the poller and of the atomics. This runtime has no timers
and no `pending_ready`: a `goready` for a task that is not in `waiting` is lost.
-/

/-- `GlobalQueue`. -/
structure Queue (σ : Type) where
  /-- The tasks ready to run, in the order of the queue. -/
  runnable : List (Task σ)
  /-- The parked tasks. -/
  waiting : AList (fun _ : TaskId => Task σ)
  /-- Number of idle workers (waiting on condvar). -/
  idleWorkers : Nat
  /-- Total number of workers. -/
  allWorkers : Nat
  /-- The id of the next worker that is spawned. -/
  nextWorkerId : Nat

namespace Queue

/-- The queue as `global_queue` initialises it. -/
def new : Queue σ where
  runnable := []
  waiting := ∅
  idleWorkers := 0
  allWorkers := 0
  nextWorkerId := 0

/-- `runnable.push_back(task)`. -/
def pushBack (q : Queue σ) (t : Task σ) : Queue σ := { q with runnable := q.runnable ++ [t] }

/-- `waiting.remove(&id)` found `t`: the task goes to the runnable queue. -/
def wake (q : Queue σ) (t : Task σ) (id : TaskId) : Queue σ :=
  { q with
    waiting := q.waiting.erase id
    runnable := q.runnable ++ [t.withState .runnable] }

/-- `waiting.insert(task.id, task)`. -/
def store (q : Queue σ) (t : Task σ) : Queue σ := { q with waiting := q.waiting.insert t.id t }

/-- No task is runnable or waiting. -/
def noTasks (q : Queue σ) : Bool := q.runnable.isEmpty && q.waiting.keys.isEmpty

/-- `should_terminate`, with what `has_waiters` returns. -/
def shouldTerminate (q : Queue σ) (hasWaiters : Bool) : Bool :=
  q.noTasks && !hasWaiters && decide (q.idleWorkers = q.allWorkers - 1)

/-- `if q.idle_workers > 0 { condvar.notify_one() }`. -/
def notifyIdle (q : Queue σ) : Notify := if 0 < q.idleWorkers then .one else .none

end Queue

/-- What the history records. -/
inductive Event where
  /-- `gopark` has set the task's state. -/
  | parked (t : TaskId)
  /-- `goready(t)` is called. -/
  | goready (t : TaskId)
  /-- `goready` found the task in `waiting` and put it on `runnable`. -/
  | wake (t : TaskId)
deriving DecidableEq

/-- What the threads of the process share. -/
structure Shared (σ : Type) where
  /-- Behind the queue mutex. -/
  queue : Queue σ
  /-- The flag `POLLING`. -/
  polling : Bool
  /-- The epoll instance and `waiting_fds`. -/
  net : NetPoller
  /-- Which fds have something to read; the outside world decides. -/
  readable : RawFd → Bool
  /-- The counter behind `TaskId::new`. -/
  nextTaskId : TaskId
  /-- The panic that no closure caught. -/
  aborted : Option Panic
  /-- The history; no step reads it. -/
  log : List Event

namespace Shared

/-- The state after the history has grown. -/
def record (sh : Shared σ) (es : List Event) : Shared σ := { sh with log := sh.log ++ es }

/-- The state with another queue. -/
def withQueue (sh : Shared σ) (q : Queue σ) : Shared σ := { sh with queue := q }

/-- `goready(id)`: without the task in `waiting` it does nothing. -/
def goready (id : TaskId) (sh : Shared σ) : Shared σ × Notify :=
  match sh.queue.waiting.lookup id with
  | some t =>
    ((sh.withQueue (sh.queue.wake t id)).record [.goready id, .wake id], sh.queue.notifyIdle)
  | none => (sh.record [.goready id], .none)

/-- The critical section of `go`. -/
def pushNew (id : TaskId) (f : σ) (sh : Shared σ) : Shared σ × Notify :=
  (sh.withQueue (sh.queue.pushBack (Task.new id f)), sh.queue.notifyIdle)

end Shared

/-! ### The workers

Each critical section of `worker_loop`, of `try_poll_network` and of a task's calls is one step. The
sections of `worker_loop` that call `should_terminate` take the poller's lock inside that of the
queue, so they are cut in two, with the queue held in between.
-/

/-- Where a worker thread is. -/
inductive Pc (σ : Type) where
  /-- The thread exists and is about to register. -/
  | start (workerId : Nat)
  /-- The top of the loop. -/
  | top
  /-- The first `should_terminate`, under the queue mutex, about to call `has_waiters`. -/
  | checkNet
  /-- About to `compare_exchange` on `POLLING`. -/
  | tryPoll
  /-- Holds `POLLING`, about to call `has_waiters`. -/
  | pollNet
  /-- About to clear `POLLING` and return `false`. -/
  | giveUp
  /-- Holds `POLLING`, about to call `poller.poll`. -/
  | poll
  /-- `epoll_wait` has returned, about to lock `waiting_fds`. -/
  | lookup (events : List RawFd)
  /-- About to clear `POLLING` before waking the ready tasks. -/
  | release (readyTasks : List TaskId)
  /-- About to call `goready` for the tasks that the poll has reported. -/
  | wakeReady (readyTasks : List TaskId)
  /-- About to lock the queue to go idle. -/
  | goIdle
  /-- Blocked in `condvar.wait`. -/
  | blocked
  /-- Woken up in `condvar.wait`, about to re-acquire the queue mutex. -/
  | notified
  /-- The second `should_terminate`, under the queue mutex, about to call `has_waiters`. -/
  | termNet
  /-- Running a task (`current_task`). -/
  | run (t : Task σ)
  /-- Switched back from a task, about to handle it. -/
  | switched (t : Task σ)
  /-- The thread has left its loop. -/
  | exited

/-- The result of a step of one thread. -/
structure Effect (σ : Type) where
  sh : Shared σ
  pc : Pc σ
  notify : Notify := .none
  spawn : Option Nat := none

/-- The task goes on at `c`. -/
def Task.continue (t : Task σ) (sh : Shared σ) (c : Code σ) : Effect σ :=
  { sh, pc := .run (t.goto c) }

/-- The task panics. -/
def Task.raise (t : Task σ) (sh : Shared σ) (p : Panic) (h : Handler σ) : Effect σ :=
  match h with
  | some f => t.continue sh (.user (f p))
  | none => { sh := { sh with aborted := some p }, pc := .run t }

/-- The closure's next operation. -/
def opStep (ch : Choice) (free : Bool) (t : Task σ) (sh : Shared σ) : Op σ → Option (Effect σ)
  | .go f k =>
    some (t.continue { sh with nextTaskId := sh.nextTaskId + 1 } (.goPush sh.nextTaskId f k))
  | .gosched k => some { sh, pc := .switched (t.goto (.user k)) }
  | .currentTaskId k => some (t.continue sh (.user (k t.id)))
  | .gopark k => some (t.continue sh (.park (.gopark k)))
  | .goready id k =>
    if free then
      let r := sh.goready id
      some { t.continue r.1 (.user k) with notify := r.2 }
    else none
  | .netPollRead fd k h =>
    if ch.addFails then some (t.raise sh .epollAddFailed h)
    else
      match sh.net.epollCtlAdd fd with
      | none => some (t.raise sh .epollAddFailed h)
      | some net => some (t.continue { sh with net } (.registerRead fd k))
  -- `enter_blocking`
  | .io k =>
    if free then
      some (t.continue sh
        (if !sh.queue.runnable.isEmpty && sh.queue.idleWorkers == 0 then .spawnWorker k
         else .blocking k))
    else none
  -- `task_finished`
  | .done => some { sh, pc := .switched (t.withState .dead) }

/-- One step of a running task. -/
def taskStep (P : Program σ) (ch : Choice) (free : Bool) (t : Task σ) (sh : Shared σ) :
    Option (Effect σ) :=
  match t.code with
  | .entry f => some (t.continue sh (.user f))
  | .user x => opStep ch free t sh (P.code x)
  | .goPush id f k =>
    if free then
      let r := sh.pushNew id f
      some { t.continue r.1 (.user k) with notify := r.2 }
    else none
  | .registerRead fd k =>
    some (t.continue { sh with net := sh.net.insert fd t.id } (.park (.netPollRead fd k)))
  | .unregister fd k => some (t.continue { sh with net := sh.net.remove fd } (.user k))
  | .spawnWorker k =>
    if free then
      some (t.continue
        (sh.withQueue { sh.queue with nextWorkerId := sh.queue.nextWorkerId + 1 })
        (.threadSpawn sh.queue.nextWorkerId k))
    else none
  | .threadSpawn workerId k => some { t.continue sh (.blocking k) with spawn := some workerId }
  | .blocking k => some (t.continue sh (.user k))
  -- `gopark`: the state changes, then the context is switched
  | .park p =>
    some { sh := sh.record [.parked t.id], pc := .switched ((t.goto (.parked p)).withState .waiting) }
  | .parked (.gopark k) => some (t.continue sh (.user k))
  | .parked (.netPollRead fd k) =>
    some (t.continue { sh with net := sh.net.epollCtlDel fd } (.unregister fd k))

/-- `runnable.pop_front()`: run the task, or go on at `otherwise`. -/
def tryPop (sh : Shared σ) (otherwise : Pc σ) : Effect σ :=
  match sh.queue.runnable with
  | [] => { sh, pc := otherwise }
  | t :: rest =>
    { sh := sh.withQueue { sh.queue with runnable := rest }, pc := .run (t.withState .running) }

/-- Leaving the worker loop: `notify_all`, then `all_workers -= 1`. -/
def exitLoop (sh : Shared σ) : Effect σ :=
  { sh := sh.withQueue { sh.queue with allWorkers := sh.queue.allWorkers - 1 }
    pc := .exited
    notify := .all }

/-- The top of the loop: `should_terminate` goes on to lock the poller only when the queue holds
    no task. -/
def topStep (sh : Shared σ) : Effect σ :=
  if sh.queue.noTasks then { sh, pc := .checkNet } else tryPop sh .tryPoll

/-- The idle path: `idle_workers += 1`, then `condvar.wait`. -/
def idleStep (sh : Shared σ) : Effect σ :=
  { sh := sh.withQueue { sh.queue with idleWorkers := sh.queue.idleWorkers + 1 }, pc := .blocked }

/-- The first part of the section after `condvar.wait`. -/
def wakeStep (sh : Shared σ) : Effect σ :=
  let sh := sh.withQueue { sh.queue with idleWorkers := sh.queue.idleWorkers - 1 }
  if sh.queue.noTasks then { sh, pc := .termNet } else tryPop sh .top

/-- What the worker does with the task that switched back to it. -/
def switchedStep (free : Bool) (t : Task σ) (sh : Shared σ) : Option (Effect σ) :=
  match t.state with
  | .dead => some { sh, pc := .top }
  | .waiting => if free then some { sh := sh.withQueue (sh.queue.store t), pc := .top } else none
  | _ =>
    if free then
      some { sh := sh.withQueue (sh.queue.pushBack (t.withState .runnable)), pc := .top }
    else none

/-- One step of a worker at `pc`; `free` tells that no other worker holds the queue mutex. -/
def workerStep (P : Program σ) (ch : Choice) (free : Bool) (sh : Shared σ) :
    Pc σ → Option (Effect σ)
  | .start _ =>
    if free then
      some
        { sh := sh.withQueue { sh.queue with allWorkers := sh.queue.allWorkers + 1 }
          pc := .top }
    else none
  | .top => if free then some (topStep sh) else none
  | .checkNet =>
    if sh.queue.shouldTerminate sh.net.hasWaiters then some (exitLoop sh)
    else some { sh, pc := .tryPoll }
  | .tryPoll =>
    if sh.polling then some { sh, pc := .goIdle }
    else some { sh := { sh with polling := true }, pc := .pollNet }
  | .pollNet => if sh.net.hasWaiters then some { sh, pc := .poll } else some { sh, pc := .giveUp }
  | .giveUp => some { sh := { sh with polling := false }, pc := .goIdle }
  | .poll =>
    if sh.net.epollWaitOk sh.readable ch.events then some { sh, pc := .lookup ch.events }
    else none
  | .lookup events => some { sh, pc := .release ((sh.net.lookup events).map (·.2)) }
  | .release ready => some { sh := { sh with polling := false }, pc := .wakeReady ready }
  | .wakeReady [] => some { sh, pc := .top }
  | .wakeReady (id :: ready) =>
    if free then
      let r := sh.goready id
      some { sh := r.1, pc := .wakeReady ready, notify := r.2 }
    else none
  | .goIdle => if free then some (idleStep sh) else none
  | .blocked => none
  | .notified => if free then some (wakeStep sh) else none
  | .termNet =>
    if sh.queue.shouldTerminate sh.net.hasWaiters then some (exitLoop sh)
    else some (tryPop sh .top)
  | .run t => taskStep P ch free t sh
  | .switched t => switchedStep free t sh
  | .exited => none

/-! ### The interleaving

In each step one thread moves, or the environment does something: an fd becomes readable, or a
worker wakes up in `condvar.wait` without a notification.
-/

/-- The whole program: what the threads share, the workers and the main thread. -/
structure State (σ : Type) where
  sh : Shared σ
  workers : List (Pc σ)
  main : Main σ

/-- The thread is in `condvar.wait`. -/
def Pc.isBlocked : Pc σ → Bool
  | .blocked => true
  | _ => false

/-- The worker holds the queue mutex between two steps. -/
def Pc.holdsQueue : Pc σ → Bool
  | .checkNet => true
  | .termNet => true
  | _ => false

/-- No worker holds the queue mutex between two steps. -/
def queueFree (ws : List (Pc σ)) : Bool := ws.all (fun pc => !pc.holdsQueue)

/-- `notify_all`, at one thread. -/
def Pc.wakeUp : Pc σ → Pc σ
  | .blocked => .notified
  | pc => pc

/-- The condition variable. -/
def applyNotify (pick : Nat) (ws : List (Pc σ)) : Notify → Option (List (Pc σ))
  | .none => some ws
  | .one =>
    if ws.any Pc.isBlocked then
      match ws[pick]? with
      | some .blocked => some (ws.set pick .notified)
      | _ => none
    else some ws
  | .all => some (ws.map Pc.wakeUp)

/-- One step of the main thread. -/
def mainStep (ch : Choice) (s : State σ) : Option (State σ) :=
  match s.main.pc, s.main.rest with
  | .idle, [] => none
  | .idle, .go f :: rest =>
    some { s with
      sh := { s.sh with nextTaskId := s.sh.nextTaskId + 1 }
      main := ⟨.goPush s.sh.nextTaskId f, rest⟩ }
  | .idle, .startRuntime n :: rest =>
    if queueFree s.workers then
      some { s with
        sh := s.sh.withQueue { s.sh.queue with nextWorkerId := n }
        main := ⟨.spawn 0 n [], rest⟩ }
    else none
  | .goPush id f, rest =>
    if queueFree s.workers then
      let r := s.sh.pushNew id f
      (applyNotify ch.pick s.workers r.2).map fun ws =>
        { sh := r.1, workers := ws, main := ⟨.idle, rest⟩ }
    else none
  | .spawn i n handles, rest =>
    if i < n then
      some { s with
        workers := s.workers ++ [.start i]
        main := ⟨.spawn (i + 1) n (handles ++ [s.workers.length]), rest⟩ }
    else some { s with main := ⟨.join handles, rest⟩ }
  | .join [], rest => some { s with main := ⟨.idle, rest⟩ }
  | .join (w :: handles), rest =>
    match s.workers[w]? with
    | some .exited => some { s with main := ⟨.join handles, rest⟩ }
    | _ => none

/-- A label: which thread moves, or what the environment does. -/
inductive Act where
  | worker (w : Nat) (ch : Choice)
  | main (ch : Choice)
  /-- A spurious wake-up of a thread in `condvar.wait`. -/
  | spurious (w : Nat)
  | setReadable (fd : RawFd) (b : Bool)

/-- Put the effect of worker `w`'s step into the state. -/
def State.apply (s : State σ) (w pick : Nat) (e : Effect σ) : Option (State σ) :=
  (applyNotify pick (s.workers.set w e.pc) e.notify).map fun ws =>
    { s with
      sh := e.sh
      workers := ws ++ (e.spawn.map fun id => Pc.start id).toList }

/-- One step of the whole program; an aborted process makes none. -/
def next (P : Program σ) (a : Act) (s : State σ) : Option (State σ) :=
  if s.sh.aborted.isSome then none
  else
    match a with
    | .worker w ch =>
      s.workers[w]?.bind fun pc =>
        (workerStep P ch (queueFree s.workers) s.sh pc).bind fun e => s.apply w ch.pick e
    | .main ch => mainStep ch s
    | .spurious w =>
      match s.workers[w]? with
      | some .blocked => some { s with workers := s.workers.set w .notified }
      | _ => none
    | .setReadable fd b =>
      some { s with sh := { s.sh with readable := fun x => if x = fd then b else s.sh.readable x } }

/-- The state before the main thread's first call. -/
def State.initial (calls : List (MainOp σ)) : State σ where
  sh :=
    { queue := .new
      polling := false
      net := .new
      readable := fun _ => false
      nextTaskId := 0
      aborted := none
      log := [] }
  workers := []
  main := ⟨.idle, calls⟩

/-- The transition system of a program. -/
def runtime (P : Program σ) : System (State σ) Act where
  init s := ∃ calls, s = .initial calls
  next := next P

end MyGoroutine.Poll
