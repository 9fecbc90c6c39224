import MyGoroutine.Lib.Transition
import MyGoroutine.Model.Script
import MyGoroutine.Model.Runtime

namespace MyGoroutine.Yield

/-!
# The first three runtimes (`runtime/green.rs`, `multi.rs`, `spawn.rs`)

All three have the same worker loop: pop a task from the front of the queue, switch to it, and
when it switches back, push it to the back again unless it is dead.  They differ in who runs the
loop: the calling thread (`green.rs`), `n` threads that `start_runtime` joins (`multi.rs`), or
these and the threads that `enter_blocking` spawns and nobody joins (`spawn.rs`).

* `taskStep` — the steps of a running task, `go`, `gosched`, `task_finished` and
  `enter_blocking` included;
* `loopStep` — the steps of `worker_loop`;
* `mainStep`, `next`, `threads` — the main thread, the interleaving of all threads, and the
  transition system of `multi.rs` and `spawn.rs`;
* `Green.next`, `green` — the single thread of `green.rs`.

One step of a thread runs to the next point at which another thread can tell the difference: a
section of the queue mutex, the `fetch_add` of `TaskId::new`, `thread::spawn`, `join`, or an
operation of the closure itself.
-/

/-- The three runtimes whose tasks only yield. -/
inductive Variant where
  /-- `runtime/green.rs`. -/
  | green
  /-- `runtime/multi.rs`. -/
  | multi
  /-- `runtime/spawn.rs`. -/
  | spawn
deriving DecidableEq, Repr

/-- A task; its saved context goes on with the script `context`. -/
structure Task (α : Type) where
  id : TaskId
  context : Script α
  state : TaskState

/-- Something that happens in a run. -/
inductive Event (α : Type) where
  /-- `go(f)` is called by the task `parent`, or by the main thread. -/
  | created (parent : Option TaskId) (id : TaskId) (f : Script α)
  /-- `tasks.push_back`. -/
  | enqueued (id : TaskId)
  /-- `tasks.pop_front`, and the switch to the task. -/
  | resumed (id : TaskId)
  /-- The closure does something of its own, -/
  | acted (id : TaskId) (a : α)
  /-- or does it inside an `io` wrapper. -/
  | blocked (id : TaskId) (a : α)
  /-- The task calls `gosched`. -/
  | yielded (id : TaskId)
  /-- Its closure returns. -/
  | finished (id : TaskId)
  /-- A worker prints that it shuts down. -/
  | shutDown (workerId : Nat)

/-- What the threads share: the queue, `NEXT_TASK_ID`, and the events so far.  The field
    `nextWorkerId` of the queue is there in `spawn.rs` only. -/
structure Shared (α : Type) where
  /-- The queue. -/
  tasks : List (Task α)
  /-- The id of the next worker that is spawned. -/
  nextWorkerId : Nat
  /-- The id of the next task. -/
  nextTaskId : TaskId
  /-- The history; no step reads it. -/
  log : List (Event α)

/-- The point at which a running task is. -/
inductive Code (α : Type) where
  | user (k : Script α)
  /-- `go`: the child has its id, but is not queued yet. -/
  | goPush (id : TaskId) (f k : Script α)
  /-- `enter_blocking` found that it has to spawn a worker. -/
  | spawnWorker (a : α) (k : Script α)
  /-- `spawn_worker` before `thread::spawn`. -/
  | threadSpawn (workerId : Nat) (a : α) (k : Script α)
  /-- Inside the blocking call. -/
  | blocking (a : α) (k : Script α)

/-- Where a thread is in `worker_loop`. -/
inductive Pc (α : Type) where
  | top
  /-- Running `current_task`. -/
  | run (t : Task α) (c : Code α)
  /-- Switched back from `current_task`, about to handle it. -/
  | switched (t : Task α)
  | exited

/-- The result of a step in `worker_loop`: the shared state, the thread's next point, and the id
    of the worker thread that the step spawns. -/
structure Effect (α : Type) where
  sh : Shared α
  pc : Pc α
  spawn : Option Nat := none

variable {α : Type}

/-- `Task::new`. -/
def Task.new (id : TaskId) (f : Script α) : Task α := { id, context := f, state := .runnable }

/-- The state after the history has grown. -/
def Shared.record (sh : Shared α) (es : List (Event α)) : Shared α := { sh with log := sh.log ++ es }

/-- `TaskId::new` for the closure `f`. -/
def Shared.create (sh : Shared α) (parent : Option TaskId) (f : Script α) : Shared α :=
  { sh with nextTaskId := sh.nextTaskId + 1 }.record [.created parent sh.nextTaskId f]

/-- `tasks.push_back(task)`. -/
def Shared.pushBack (sh : Shared α) (t : Task α) : Shared α :=
  { sh with tasks := sh.tasks ++ [t] }.record [.enqueued t.id]

/-! ### The worker loop

The loop is the same in the three files, but for what it prints at its end and for what a blocking
call does.
-/

/-- `switch_to_scheduler`: the context is saved, at the script `k`. -/
def Task.switchToScheduler (t : Task α) (k : Script α) : Pc α := .switched { t with context := k }

/-- `task_finished`. -/
def Task.finished (t : Task α) : Pc α := Task.switchToScheduler { t with state := .dead } .done

/-- A step of the running task `t`, which is at `c`. -/
def taskStep (v : Variant) (t : Task α) (sh : Shared α) : Code α → Effect α
  | .user .done => { sh := sh.record [.finished t.id], pc := t.finished }
  | .user (.act a k) => { sh := sh.record [.acted t.id a], pc := .run t (.user k) }
  | .user (.gosched k) => { sh := sh.record [.yielded t.id], pc := t.switchToScheduler k }
  | .user (.go f k) =>
    { sh := sh.create (some t.id) f, pc := .run t (.goPush sh.nextTaskId f k) }
  | .user (.io a k) =>
    match v with
    -- `enter_blocking` looks whether there is work for another worker.
    | .spawn => { sh, pc := .run t (if sh.tasks.isEmpty then .blocking a k else .spawnWorker a k) }
    -- The other two have no wrappers: the closure makes the blocking call itself.
    | _ => { sh, pc := .run t (.blocking a k) }
  | .goPush id f k => { sh := sh.pushBack (.new id f), pc := .run t (.user k) }
  | .spawnWorker a k =>
    { sh := { sh with nextWorkerId := sh.nextWorkerId + 1 }
      pc := .run t (.threadSpawn sh.nextWorkerId a k) }
  | .threadSpawn workerId a k => { sh, pc := .run t (.blocking a k), spawn := some workerId }
  | .blocking a k => { sh := sh.record [.blocked t.id a], pc := .run t (.user k) }

/-- The top of the loop: pop a task and switch to it, or break. -/
def popStep (shutDown : List (Event α)) (sh : Shared α) : Effect α :=
  match sh.tasks with
  | [] => { sh := sh.record shutDown, pc := .exited }
  | t :: tasks =>
    { sh := { sh with tasks }.record [.resumed t.id], pc := .run t (.user t.context) }

/-- The end of the loop: put the task back, or drop it. -/
def switchedStep (t : Task α) (sh : Shared α) : Effect α :=
  if t.state ≠ .dead then { sh := sh.pushBack t, pc := .top } else { sh, pc := .top }

/-- A step of `worker_loop`; the events `shutDown` are what it says at its end. -/
def loopStep (v : Variant) (shutDown : List (Event α)) (sh : Shared α) : Pc α → Option (Effect α)
  | .top => some (popStep shutDown sh)
  | .run t c => some (taskStep v t sh c)
  | .switched t => some (switchedStep t sh)
  | .exited => none

/-! ### `multi.rs` and `spawn.rs`

Several threads run the loop on one queue, under its mutex, so that a section is a step. In
`spawn.rs` a blocking call makes a worker spawn another one first, which nobody joins.
-/

/-- A worker thread.  `start_runtime` joins the initial ones; the others are detached. -/
structure Worker (α : Type) where
  workerId : Nat
  initial : Bool
  pc : Pc α

structure State (α : Type) where
  sh : Shared α
  workers : List (Worker α)
  main : Main (Script α)

/-- The queue before the first call. -/
def Shared.empty : Shared α := { tasks := [], nextWorkerId := 0, nextTaskId := 0, log := [] }

/-- One step of the main thread. -/
def mainStep (v : Variant) (s : State α) : Option (State α) :=
  match s.main.pc, s.main.rest with
  | .idle, [] => none
  | .idle, .go f :: rest =>
    some { s with sh := s.sh.create none f, main := ⟨.goPush s.sh.nextTaskId f, rest⟩ }
  | .idle, .startRuntime n :: rest =>
    some { s with
      sh := if v = .spawn then { s.sh with nextWorkerId := n } else s.sh
      main := ⟨.spawn 0 n [], rest⟩ }
  | .goPush id f, rest => some { s with sh := s.sh.pushBack (.new id f), main := ⟨.idle, rest⟩ }
  | .spawn i n handles, rest =>
    if i < n then
      some { s with
        workers := s.workers ++ [⟨i, true, .top⟩]
        main := ⟨.spawn (i + 1) n (handles ++ [s.workers.length]), rest⟩ }
    else some { s with main := ⟨.join handles, rest⟩ }
  | .join [], rest => some { s with main := ⟨.idle, rest⟩ }
  | .join (w :: handles), rest =>
    match s.workers[w]? with
    | some ⟨_, _, .exited⟩ => some { s with main := ⟨.join handles, rest⟩ }
    | _ => none

/-- Which thread moves. -/
inductive Act where
  | main
  | worker (w : Nat)
deriving DecidableEq, Repr

/-- Put the effect of a step of worker `w` into the state. -/
def State.apply (s : State α) (w : Nat) (x : Worker α) (e : Effect α) : State α :=
  { s with
    sh := e.sh
    workers := s.workers.set w { x with pc := e.pc } ++
      (e.spawn.map fun id => ⟨id, false, .top⟩).toList }

/-- One step of the whole program. -/
def next (v : Variant) (a : Act) (s : State α) : Option (State α) :=
  match a with
  | .main => mainStep v s
  | .worker w =>
    s.workers[w]?.bind fun x =>
      (loopStep v [.shutDown x.workerId] s.sh x.pc).map fun e => s.apply w x e

/-- The state before the main thread's first call. -/
def State.initial (calls : List (MainOp (Script α))) : State α :=
  { sh := .empty, workers := [], main := ⟨.idle, calls⟩ }

/-- The runs of the main thread with the calls `calls`. -/
def threads (v : Variant) (calls : List (MainOp (Script α))) : System (State α) Act where
  init s := s = .initial calls
  next := next v

/-! ### `green.rs`

One thread runs everything, the main function included, so there is only one run.
-/

namespace Green

/-- A call of the main thread. -/
inductive MainOp (α : Type) where
  | go (f : Script α)
  | startRuntime

/-- Where the thread is: in the main function, or in the worker loop, on some task's stack. -/
inductive Pc (α : Type) where
  | idle
  | goPush (id : TaskId) (f : Script α)
  | loop (pc : Yield.Pc α)

structure State (α : Type) where
  sh : Shared α
  pc : Pc α
  rest : List (MainOp α)

/-- The only step there is. -/
def next (s : State α) : Option (State α) :=
  match s.pc, s.rest with
  | .idle, [] => none
  | .idle, .go f :: rest =>
    some { sh := s.sh.create none f, pc := .goPush s.sh.nextTaskId f, rest }
  | .idle, .startRuntime :: rest => some { s with pc := .loop .top, rest }
  | .goPush id f, rest => some { sh := s.sh.pushBack (.new id f), pc := .idle, rest }
  -- `worker_loop` has returned, and `start_runtime` returns with it.
  | .loop .exited, rest => some { s with pc := .idle, rest }
  | .loop pc, rest => (loopStep .green [] s.sh pc).map fun e => { sh := e.sh, pc := .loop e.pc, rest }

/-- The state before the first call. -/
def State.initial (calls : List (MainOp α)) : State α := { sh := .empty, pc := .idle, rest := calls }

end Green

/-- The run of `green.rs` with the calls `calls`. -/
def green (calls : List (Green.MainOp α)) : System (Green.State α) Unit where
  init s := s = .initial calls
  next _ := Green.next

end MyGoroutine.Yield
