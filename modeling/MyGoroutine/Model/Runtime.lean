import MyGoroutine.Lib.Transition
import MyGoroutine.Model.Shared

namespace MyGoroutine

/-!
# The runtime — workers, tasks and the main thread as one transition system

A worker thread is at one of the points `Pc` of `worker_loop`, `try_poll_network` and
`check_timers`; while it runs a task, the task's `Code` is its position.  One step of a
worker runs to the next point at which another thread can tell the difference: a mutex
section, an operation on `POLLING`, a reading of the clock, `thread::spawn`, a system call,
a context switch.

* `taskStep` — the steps of a running task: its own operations and the code of the
  runtime's functions they call;
* `workerStep` — the steps of a worker, `taskStep` included;
* `mainStep` — the main thread, which calls `go` and `start_runtime`;
* `Act`, `next` — the interleaving of all threads and of the environment;
* `runtime` — the transition system of a program.

The queue mutex is held over several steps in one place only: `should_terminate`, after a
wake-up, locks the poller and the timer heap while it holds the queue (`termNet`,
`termTimers`).  No other section of the queue can run in between (`queueFree`).
-/

/-- Where `check_timers` was called from in `try_poll_network`. -/
inductive Phase where
  /-- Before the poll, with the sample of `has_waiters`. -/
  | before (hasNetWaiters : Bool)
  /-- After the poll or sleep, with the tasks the poll reported. -/
  | after (readyTasks : List TaskId)

/-- Where a worker thread is. -/
inductive Pc (σ V : Type) where
  /-- The thread exists and is about to register. -/
  | start (workerId : Nat)
  /-- The top of the loop. -/
  | top
  /-- About to `compare_exchange` on `POLLING`. -/
  | tryPoll
  /-- Holds `POLLING`, about to call `has_waiters`. -/
  | pollNet
  /-- Holds `POLLING`, about to call `has_timers`. -/
  | pollTimers (hasNetWaiters : Bool)
  /-- Nothing to poll for: about to clear `POLLING` and return `false`. -/
  | giveUp
  /-- `check_timers`, before `Instant::now()`. -/
  | timersNow (ph : Phase)
  /-- `check_timers`, about to lock the heap. -/
  | timersLock (ph : Phase) (now : Instant)
  /-- `check_timers`, about to call `goready` for a popped entry. -/
  | timersReady (ph : Phase) (now : Instant) (id : TaskId)
  /-- About to compute the timeout for the next timer. -/
  | timeout (hasNetWaiters : Bool) (nextWake : Instant)
  /-- No timer is left and there is no net waiter: about to clear `POLLING` and return `true`. -/
  | nothingLeft
  /-- About to call `poller.poll` or `thread::sleep`. -/
  | poll (hasNetWaiters : Bool) (timeoutMs : Nat)
  | sleeping (wakeUp : Instant)
  /-- `epoll_wait` has returned, about to lock `waiting_fds`. -/
  | lookup (events : List RawFd)
  /-- About to clear `POLLING` before waking the ready tasks. -/
  | release (readyTasks : List TaskId)
  | wakeReady (readyTasks : List TaskId)
  /-- `try_poll_network` returned `false`: about to sample `has_waiters`. -/
  | idleNet
  /-- About to sample `has_timers`. -/
  | idleTimers (hasNetWaiters : Bool)
  /-- About to lock the queue to go idle. -/
  | goIdle (hasNetWaiters hasTimerWaiters : Bool)
  /-- Blocked in `condvar.wait`. -/
  | blocked
  /-- Woken up in `condvar.wait`, about to re-acquire the queue mutex. -/
  | notified
  /-- `should_terminate` under the queue mutex, about to call `has_waiters`. -/
  | termNet
  /-- `should_terminate` under the queue mutex, about to call `has_timers`. -/
  | termTimers
  /-- Running a task (`current_task`). -/
  | run (t : Task σ V)
  /-- Switched back from a task, about to handle it. -/
  | switched (t : Task σ V)
  | exited

/-- What the environment may choose in a step: the thread that `notify_one` wakes, the heap
    entry that `peek` shows among equal ones, the fds that `epoll_wait` reports, and whether
    `EPOLL_CTL_ADD` fails for a reason of its own. -/
structure Choice where
  pick : Nat := 0
  peek : TimerEntry := ⟨0, 0⟩
  events : List RawFd := []
  addFails : Bool := false

/-- The result of a step of one thread: the shared state, the thread's next point, and what
    the step does to the other threads. -/
structure Effect (σ V : Type) where
  sh : Shared σ V
  pc : Pc σ V
  notify : Notify := .none
  spawn : Option Nat := none

variable {σ V : Type}

/-! ### Steps of a running task

A method of `Chan` or `WaitGroup` is one section under its mutex, followed by the `goready` calls it
owes, each with a section of the queue of its own, and, if it parks, by the section after `gopark`.
Panics inside a section poison the mutex before they reach the closure.
-/

/-- The task goes on at `c`. -/
def Task.continue (t : Task σ V) (sh : Shared σ V) (c : Code σ V) : Effect σ V :=
  { sh, pc := .run (t.goto c) }

/-- The task panics: a `catch_unwind` of the closure catches the panic; without one it
    reaches the `extern "C"` function `task_entry`, and the process aborts. -/
def Task.raise (t : Task σ V) (sh : Shared σ V) (p : Panic) (h : Handler σ) : Effect σ V :=
  match h with
  | some f => t.continue (sh.record [.panicked t.id p]) (.user (f p))
  | none => { sh := { sh.record [.panicked t.id p] with aborted := some p }, pc := .run t }

/-- After a section whose method returns `ret` once it has made the `goready` calls `ids`. -/
def Task.finish (t : Task σ V) (sh : Shared σ V) (ids : List TaskId) (ret : Ret V) (k : σ) :
    Effect σ V :=
  match ids with
  | [] => t.continue (sh.record [.returned t.id ret]) (.user k)
  | _ :: _ => t.continue sh (.wake ids ret k)

/-- `Chan::send`, up to `gopark`. -/
def sendStep (t : Task σ V) (c : ChanId) (data : V) (k : σ) (h : Handler σ)
    (sh : Shared σ V) : Option (Effect σ V) :=
  (sh.lockChan c (·.send t.id data)).map fun
    | (sh, .error p) => t.raise sh p h
    | (sh, .ok o) =>
      let sh := sh.record [.sent c t.id data o]
      match o with
      | .delivered receiverId => t.finish sh [receiverId] (.send c) k
      | .buffered => t.finish sh [] (.send c) k
      | .enqueued => t.continue sh (.park (.send c k h))

/-- `Chan::recv`, up to `gopark`. -/
def recvStep (t : Task σ V) (c : ChanId) (k : Option V → σ) (h : Handler σ)
    (sh : Shared σ V) : Option (Effect σ V) :=
  (sh.lockChan c (·.recv t.id)).map fun
    | (sh, .error p) => t.raise sh p h
    | (sh, .ok o) =>
      let sh := sh.record [.received c t.id o]
      match o with
      | .closed => t.finish sh [] (.recv c none) (k none)
      | .fromSender sender data => t.finish sh [sender.taskId] (.recv c (some data)) (k (some data))
      | .fromBuf data => t.finish sh [] (.recv c (some data)) (k (some data))
      | .enqueued => t.continue sh (.park (.recv c k h))

/-- `Chan::close`. -/
def closeStep (t : Task σ V) (c : ChanId) (k : σ) (h : Handler σ) (sh : Shared σ V) :
    Option (Effect σ V) :=
  (sh.lockChan c (·.close)).map fun
    | (sh, .error p) => t.raise sh p h
    | (sh, .ok (receivers, senders)) =>
      t.finish (sh.record [.closed c t.id receivers senders])
        (receivers ++ senders.map (·.taskId)) (.close c) k

/-- `WaitGroup::add`. -/
def addStep (overflowChecks : Bool) (t : Task σ V) (g : GroupId) (delta : Int32) (k : σ)
    (h : Handler σ) (sh : Shared σ V) : Option (Effect σ V) :=
  (sh.lockGroup g (·.add overflowChecks delta)).map fun
    | (sh, .error p) => t.raise sh p h
    | (sh, .ok woken) => t.finish (sh.record [.added g t.id delta woken]) woken (.add g) k

/-- `WaitGroup::wait`, up to `gopark`. -/
def waitStep (t : Task σ V) (g : GroupId) (k : σ) (h : Handler σ) (sh : Shared σ V) :
    Option (Effect σ V) :=
  (sh.lockGroup g (·.wait t.id)).map fun
    | (sh, .error p) => t.raise sh p h
    | (sh, .ok false) => t.finish sh [] (.wait g) k
    | (sh, .ok true) => t.continue (sh.record [.joined g t.id]) (.park (.wait g k))

/-- The closure's next operation. -/
def opStep (P : Program σ V) (ch : Choice) (free : Bool) (t : Task σ V) (sh : Shared σ V) :
    Op σ V → Option (Effect σ V)
  | .go f k =>
    some (t.continue { sh with nextTaskId := sh.nextTaskId + 1 } (.goPush sh.nextTaskId f k))
  | .gosched k => some { sh, pc := .switched (t.goto (.user k)) }
  | .currentTaskId k => some (t.continue sh (.user (k t.id)))
  -- `Instant::now() + duration`
  | .sleep duration k h =>
    if sh.clock + duration ≤ Instant.last then
      some (t.continue sh (.sleepPush (sh.clock + duration) k))
    else some (t.raise sh .instantOverflow h)
  | .send c data k h => sendStep t c data k h sh
  | .recv c k h => recvStep t c k h sh
  | .close c k h => closeStep t c k h sh
  | .add g delta k h => addStep P.overflowChecks t g delta k h sh
  | .wait g k h => waitStep t g k h sh
  | .netPollRead fd k h =>
    if ch.addFails then some (t.raise sh .epollAddFailed h)
    else
      match sh.net.epollCtlAdd fd with
      | none => some (t.raise sh .epollAddFailed h)
      | some net => some (t.continue { sh with net } (.registerRead fd k))
  -- `enter_blocking`
  | .io k =>
    if free then
      some (t.continue sh
        (if !sh.queue.runnable.isEmpty && sh.queue.idleWorkers == 0 then .spawnWorker k
         else .blocking k))
    else none
  | .gopark k => some (t.continue sh (.park (.gopark k)))
  | .goready id k =>
    if free then
      let r := sh.goready (.task t.id) id
      some { t.continue r.1 (.user k) with notify := r.2 }
    else none
  -- `task_finished`
  | .done =>
    some { sh := sh.record [.died t.id], pc := .switched (t.withState .dead) }

/-- What follows `gopark` in the function that called it. -/
def resumeStep (t : Task σ V) (sh : Shared σ V) : Park σ V → Option (Effect σ V)
  | .sleep k => some (t.finish sh [] .sleep k)
  | .send c k h =>
    (sh.lockChan c (·.sendResume)).map fun
      | (sh, .error p) => t.raise sh p h
      | (sh, .ok ()) => t.finish sh [] (.send c) k
  | .recv c k h =>
    (sh.lockChan c (·.recvResume t.id)).map fun
      | (sh, .error p) => t.raise sh p h
      | (sh, .ok o) => t.finish sh [] (.recv c o) (k o)
  | .wait g k => some (t.finish sh [] (.wait g) k)
  | .netPollRead fd k =>
    some (t.continue { sh with net := sh.net.epollCtlDel fd } (.unregister fd k))
  | .gopark k => some (t.continue sh (.user k))

/-- One step of a running task. -/
def taskStep (P : Program σ V) (ch : Choice) (free : Bool) (t : Task σ V) (sh : Shared σ V) :
    Option (Effect σ V) :=
  match t.code with
  | .entry f => some (t.continue (sh.record [.entered t.id]) (.user f))
  | .user x => opStep P ch free t sh (P.code x)
  | .goPush id f k =>
    if free then
      let r := sh.pushNew id f
      some { t.continue r.1 (.user k) with notify := r.2 }
    else none
  | .sleepPush wakeTime k =>
    some (t.continue
      { sh.record [.timerPush t.id wakeTime] with
        timerHeap := { wakeTime, taskId := t.id } :: sh.timerHeap }
      (.park (.sleep k)))
  | .wake [] _ k => some (t.continue sh (.user k))
  | .wake (id :: ids) ret k =>
    if free then
      let r := sh.goready (.task t.id) id
      some { t.finish r.1 ids ret k with notify := r.2 }
    else none
  | .registerRead fd k =>
    some (t.continue ({ sh with net := sh.net.insert fd t.id }.record [.registered t.id fd])
      (.park (.netPollRead fd k)))
  | .unregister fd k =>
    some (t.finish { sh with net := sh.net.remove fd } [] (.netPollRead fd) k)
  | .spawnWorker k =>
    if free then
      some (t.continue
        (sh.withQueue { sh.queue with nextWorkerId := sh.queue.nextWorkerId + 1 })
        (.threadSpawn sh.queue.nextWorkerId k))
    else none
  | .threadSpawn workerId k => some { t.continue sh (.blocking k) with spawn := some workerId }
  | .blocking k => some (t.continue sh (.user k))
  -- `gopark`: the state changes, then the context is switched
  | .park p => some { sh, pc := .switched ((t.goto (.parked p)).withState .waiting) }
  | .parked p => resumeStep t sh p

/-! ### Steps of a worker

`worker_loop` and `try_poll_network`, cut at every lock and at every atomic. Where the source
evaluates `should_terminate` under the queue's lock and takes other locks in it, the queue stays
held from one step to the next.
-/

/-- `runnable.pop_front()`: run the task, or go on at `otherwise`. -/
def tryPop (sh : Shared σ V) (otherwise : Pc σ V) : Effect σ V :=
  match sh.queue.runnable with
  | [] => { sh, pc := otherwise }
  | t :: _ =>
    { sh := (sh.withQueue sh.queue.popFront).record [.dispatched t.id]
      pc := .run (t.withState .running) }

/-- Leaving the worker loop: `notify_all`, then `all_workers -= 1`. -/
def exitLoop (sh : Shared σ V) : Effect σ V :=
  { sh := sh.withQueue { sh.queue with allWorkers := sh.queue.allWorkers - 1 }
    pc := .exited
    notify := .all }

/-- The end of `check_timers`: it returns the next wake time. -/
def timersDone (ph : Phase) (nextWake : Option Instant) : Pc σ V :=
  match ph, nextWake with
  | .before net, some w => .timeout net w
  | .before true, none => .poll true 100
  | .before false, none => .nothingLeft
  | .after ready, _ => .release ready

/-- One turn of the loop of `check_timers` under the heap lock. -/
def timersStep (ch : Choice) (ph : Phase) (now : Instant) (sh : Shared σ V) :
    Option (Effect σ V) :=
  if sh.timerHeap.isEmpty then some { sh, pc := timersDone ph none }
  else if TimerEntry.isPeek sh.timerHeap ch.peek then
    if ch.peek.wakeTime ≤ now then
      some
        { sh := { sh with timerHeap := sh.timerHeap.erase ch.peek }.record
            [.timerPop ch.peek.taskId ch.peek.wakeTime now]
          pc := .timersReady ph now ch.peek.taskId }
    else some { sh, pc := timersDone ph (some ch.peek.wakeTime) }
  else none

/-- The timeout until the next timer, in milliseconds, at most 100. -/
def timeoutMs (nextWake now : Instant) : Nat :=
  if nextWake ≤ now then 0 else min ((nextWake - now) / 1000000) 100

/-- The idle path under the queue lock: `idle_workers += 1`, then exit or `condvar.wait`. -/
def idleStep (hasNetWaiters hasTimerWaiters : Bool) (sh : Shared σ V) : Effect σ V :=
  let sh := sh.withQueue { sh.queue with idleWorkers := sh.queue.idleWorkers + 1 }
  if sh.queue.shouldTerminate hasNetWaiters hasTimerWaiters then exitLoop sh
  else { sh, pc := .blocked }

/-- The first part of the section after `condvar.wait`: `should_terminate` goes on to lock
    the poller only when the queue holds no task. -/
def wakeStep (sh : Shared σ V) : Effect σ V :=
  let sh := sh.withQueue { sh.queue with idleWorkers := sh.queue.idleWorkers - 1 }
  if sh.queue.noTasks then { sh, pc := .termNet } else tryPop sh .top

/-- What the worker does with the task that switched back to it. -/
def switchedStep (P : Program σ V) (free : Bool) (t : Task σ V) (sh : Shared σ V) :
    Option (Effect σ V) :=
  match t.state with
  | .dead => some { sh, pc := .top }
  | .waiting =>
    if free then
      let r := sh.parkTask P.variant t
      some { sh := r.1, pc := .top, notify := r.2 }
    else none
  | _ => if free then some { sh := sh.requeue t, pc := .top } else none

/-- One step of a worker at `pc`; `free` tells that no other worker holds the queue mutex. -/
def workerStep (P : Program σ V) (ch : Choice) (free : Bool) (sh : Shared σ V) :
    Pc σ V → Option (Effect σ V)
  | .start _ =>
    if free then
      some
        { sh := sh.withQueue { sh.queue with allWorkers := sh.queue.allWorkers + 1 }
          pc := .top }
    else none
  | .top => if free then some (tryPop sh .tryPoll) else none
  | .tryPoll =>
    if sh.polling then some { sh, pc := .idleNet }
    else some { sh := { sh with polling := true }, pc := .pollNet }
  | .pollNet => some { sh, pc := .pollTimers sh.net.hasWaiters }
  | .pollTimers net =>
    if !net && !sh.hasTimers then some { sh, pc := .giveUp }
    else some { sh, pc := .timersNow (.before net) }
  | .giveUp => some { sh := { sh with polling := false }, pc := .idleNet }
  | .timersNow ph => some { sh, pc := .timersLock ph sh.clock }
  | .timersLock ph now => timersStep ch ph now sh
  | .timersReady ph now id =>
    if free then
      let r := sh.goready .timers id
      some { sh := r.1, pc := .timersLock ph now, notify := r.2 }
    else none
  | .timeout net nextWake => some { sh, pc := .poll net (timeoutMs nextWake sh.clock) }
  | .nothingLeft => some { sh := { sh with polling := false }, pc := .top }
  | .poll true _ =>
    if sh.net.epollWaitOk sh.readable ch.events then some { sh, pc := .lookup ch.events }
    else none
  | .poll false ms =>
    if 0 < ms then some { sh, pc := .sleeping (sh.clock + ms * 1000000) }
    else some { sh, pc := .timersNow (.after []) }
  | .sleeping wakeUp => if wakeUp ≤ sh.clock then some { sh, pc := .timersNow (.after []) } else none
  | .lookup events =>
    let found := sh.net.lookup events
    some
      { sh := sh.record (found.map fun x => .reported x.2 x.1)
        pc := .timersNow (.after (found.map (·.2))) }
  | .release ready => some { sh := { sh with polling := false }, pc := .wakeReady ready }
  | .wakeReady [] => some { sh, pc := .top }
  | .wakeReady (id :: ready) =>
    if free then
      let r := sh.goready .poller id
      some { sh := r.1, pc := .wakeReady ready, notify := r.2 }
    else none
  | .idleNet => some { sh, pc := .idleTimers sh.net.hasWaiters }
  | .idleTimers net => some { sh, pc := .goIdle net sh.hasTimers }
  | .goIdle net timers => if free then some (idleStep net timers sh) else none
  | .blocked => none
  | .notified => if free then some (wakeStep sh) else none
  | .termNet => if sh.net.hasWaiters then some (tryPop sh .top) else some { sh, pc := .termTimers }
  | .termTimers =>
    if sh.queue.shouldTerminate false sh.hasTimers then some (exitLoop sh)
    else some (tryPop sh .top)
  | .run t => taskStep P ch free t sh
  | .switched t => switchedStep P free t sh
  | .exited => none

/-! ### The main thread

The main thread makes its calls of `go` and `start_runtime` in order. `start_runtime` spawns its
workers one by one and then joins them in the same order.
-/

/-- A call of the main thread. -/
inductive MainOp (σ : Type) where
  /-- `go(f)`. -/
  | go (f : σ)
  /-- `start_runtime(num_threads)`. -/
  | startRuntime (numThreads : Nat)

/-- Where the main thread is. -/
inductive MainPc (σ : Type) where
  /-- Between two calls. -/
  | idle
  /-- `go`: the task has its id, but is not queued yet. -/
  | goPush (id : TaskId) (f : σ)
  /-- `start_runtime`: `i` of `n` threads are spawned. -/
  | spawn (i n : Nat) (handles : List Nat)
  /-- `start_runtime`: joining the initial workers. -/
  | join (handles : List Nat)

/-- The main thread: where it is and the calls it still has to make. -/
structure Main (σ : Type) where
  pc : MainPc σ
  rest : List (MainOp σ)

/-- The whole program: what the threads share, the workers and the main thread. -/
structure State (σ V : Type) where
  /-- What the threads share. -/
  sh : Shared σ V
  /-- The worker threads, in the order in which they were spawned. -/
  workers : List (Pc σ V)
  /-- The main thread. -/
  main : Main σ

/-- The thread has left its loop. -/
def Pc.isExited : Pc σ V → Bool
  | .exited => true
  | _ => false

/-- The thread is in `condvar.wait`. -/
def Pc.isBlocked : Pc σ V → Bool
  | .blocked => true
  | _ => false

/-- The worker holds the queue mutex between two steps. -/
def Pc.holdsQueue : Pc σ V → Bool
  | .termNet => true
  | .termTimers => true
  | _ => false

/-- No worker is inside a section of the queue mutex. -/
def queueFree (ws : List (Pc σ V)) : Bool := ws.all (fun pc => !pc.holdsQueue)

/-- A thread blocked on the condition variable is woken. -/
def Pc.wakeUp : Pc σ V → Pc σ V
  | .blocked => .notified
  | pc => pc

/-- The condition variable: `notify_one` wakes one of the blocked threads, if there is one,
    and `notify_all` wakes them all. -/
def applyNotify (pick : Nat) (ws : List (Pc σ V)) : Notify → Option (List (Pc σ V))
  | .none => some ws
  | .one =>
    if ws.any Pc.isBlocked then
      match ws[pick]? with
      | some .blocked => some (ws.set pick .notified)
      | _ => none
    else some ws
  | .all => some (ws.map Pc.wakeUp)

/-- One step of the main thread. -/
def mainStep (ch : Choice) (s : State σ V) : Option (State σ V) :=
  match s.main.pc, s.main.rest with
  | .idle, [] => none
  | .idle, .go f :: rest =>
    some { s with
      sh := { s.sh with nextTaskId := s.sh.nextTaskId + 1 }
      main := ⟨.goPush s.sh.nextTaskId f, rest⟩ }
  | .idle, .startRuntime n :: rest =>
    if queueFree s.workers then
      some { s with
        sh := s.sh.withQueue { s.sh.queue with nextWorkerId := n }
        main := ⟨.spawn 0 n [], rest⟩ }
    else none
  | .goPush id f, rest =>
    if queueFree s.workers then
      let r := s.sh.pushNew id f
      (applyNotify ch.pick s.workers r.2).map fun ws =>
        { sh := r.1, workers := ws, main := ⟨.idle, rest⟩ }
    else none
  | .spawn i n handles, rest =>
    if i < n then
      some { s with
        workers := s.workers ++ [.start i]
        main := ⟨.spawn (i + 1) n (handles ++ [s.workers.length]), rest⟩ }
    else some { s with main := ⟨.join handles, rest⟩ }
  | .join [], rest => some { s with main := ⟨.idle, rest⟩ }
  | .join (w :: handles), rest =>
    match s.workers[w]? with
    | some .exited => some { s with main := ⟨.join handles, rest⟩ }
    | _ => none

/-! ### The interleaving

One step of the program is a step of one thread, or a change that the environment makes: time
passes, an fd becomes readable or stops to be, a blocked worker wakes up by itself.
-/

/-- A label: which thread moves, with the choices of the environment, or what the
    environment does on its own. -/
inductive Act where
  /-- The worker takes a step, with the outside world's choices. -/
  | worker (w : Nat) (ch : Choice)
  /-- The main thread takes a step. -/
  | main (ch : Choice)
  /-- A spurious wake-up of a thread in `condvar.wait`. -/
  | spurious (w : Nat)
  /-- Time passes, in nanoseconds. -/
  | tick (d : Nat)
  /-- An fd becomes readable, or stops being so. -/
  | setReadable (fd : RawFd) (b : Bool)

/-- Put the effect of worker `w`'s step into the state. -/
def State.apply (s : State σ V) (w pick : Nat) (e : Effect σ V) : Option (State σ V) :=
  (applyNotify pick (s.workers.set w e.pc) e.notify).map fun ws =>
    { s with
      sh := e.sh
      workers := ws ++ (e.spawn.map fun id => Pc.start id).toList }

/-- One step of the whole program; an aborted process makes none. -/
def next (P : Program σ V) (a : Act) (s : State σ V) : Option (State σ V) :=
  if s.sh.aborted.isSome then none
  else
    match a with
    | .worker w ch =>
      s.workers[w]?.bind fun pc =>
        (workerStep P ch (queueFree s.workers) s.sh pc).bind fun e => s.apply w ch.pick e
    | .main ch => mainStep ch s
    | .spurious w =>
      match s.workers[w]? with
      | some .blocked => some { s with workers := s.workers.set w .notified }
      | _ => none
    | .tick d => some { s with sh := { s.sh with clock := s.sh.clock + d } }
    | .setReadable fd b =>
      some { s with sh := { s.sh with readable := fun x => if x = fd then b else s.sh.readable x } }

/-- The state before the main thread's first call: channels of the capacities `caps`,
    `groups` wait groups, and the calls `calls` of the main thread. -/
def State.initial (caps : List Nat) (groups : Nat) (calls : List (MainOp σ)) : State σ V where
  sh :=
    { queue := .new
      polling := false
      timerHeap := []
      net := .new
      chans := caps.map (Chan.withCapacity V)
      groups := List.replicate groups .new
      readable := fun _ => false
      clock := 0
      nextTaskId := 0
      aborted := none
      log := [] }
  workers := []
  main := ⟨.idle, calls⟩

/-- The transition system of a program. -/
def runtime (P : Program σ V) : System (State σ V) Act where
  init s := ∃ caps groups calls, s = .initial caps groups calls
  next := next P

end MyGoroutine
