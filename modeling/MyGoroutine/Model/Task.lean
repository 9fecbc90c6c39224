import Mathlib.Logic.Basic

namespace MyGoroutine

/-!
# Tasks and the programs they run (`common.rs`)

A task is an id, a state and a context.  The saved context of a task (its callee-saved
registers and its stack) is modelled by the code that is left to run, `Code`: either the
user's closure at some point of it, or a point inside one of the runtime's functions.

* `Op` — what a closure can ask of the runtime at one of its points;
* `Program` — a closure's code: its local state `σ` determines the next operation, which waits with
  the primitives of the program's own runtime (`Op.parksBy`);
* `Park` — why a task calls `gopark`, and how its code goes on when `gopark` returns;
* `Code`, `Task` — a suspended or running task.

Values sent over channels have the type `V`.  Task ids are natural numbers: fewer than
`2^64` tasks are created, so `TaskId::new` never repeats an id.
-/

/-- `TaskId`. -/
abbrev TaskId := Nat
/-- `RawFd`. -/
abbrev RawFd := Int
/-- A point in time, in nanoseconds. -/
abbrev Instant := Nat
/-- The last point in time that `std::time::Instant` can hold: `i64::MAX` seconds and as many
    nanoseconds as do not make another second. -/
def Instant.last : Instant := 9223372036854775807 * 1000000000 + 999999999
/-- A channel of the program (the `Arc` behind a `Chan` handle). -/
abbrev ChanId := Nat
/-- A wait group of the program (the `Arc` behind a `WaitGroup` handle). -/
abbrev GroupId := Nat

/-- The state of a task. -/
inductive TaskState where
  /-- In the queue. -/
  | runnable
  /-- On a worker. -/
  | running
  /-- Parked, or about to be. -/
  | waiting
  /-- Its closure has returned. -/
  | dead
deriving DecidableEq, Repr

/-- The panics the runtime and its primitives can raise. -/
inductive Panic where
  /-- `send` on a closed channel. -/
  | sendOnClosed
  /-- `close` of a closed channel. -/
  | closeOfClosed
  /-- `lock().unwrap()` on a poisoned mutex. -/
  | poisoned
  /-- `add` has brought the counter below zero. -/
  | negativeCounter
  /-- The addition of `add` overflows, in a build that checks it. -/
  | addOverflow
  /-- `EPOLL_CTL_ADD` fails in `register_read`. -/
  | epollAddFailed
  /-- `buf.pop_front().unwrap()` on an empty buffer. -/
  | unwrapNone
  /-- `Instant::now() + duration` overflows in `sleep`. -/
  | instantOverflow
deriving DecidableEq, Repr

/-- The text of a panic, as the source and the standard library have it. -/
def Panic.message : Panic → String
  | .sendOnClosed => "send on closed channel"
  | .closeOfClosed => "close of closed channel"
  | .poisoned => "called `Result::unwrap()` on an `Err` value: PoisonError { .. }"
  | .negativeCounter => "sync: negative WaitGroup counter"
  | .addOverflow => "attempt to add with overflow"
  | .epollAddFailed => "epoll_ctl ADD failed"
  | .unwrapNone => "called `Option::unwrap()` on a `None` value"
  | .instantOverflow => "overflow when adding duration to instant"

/-- A closure that catches a panic can tell from its text which one it was. -/
theorem Panic.message_injective : Function.Injective Panic.message := by
  intro p q h
  cases p <;> cases q <;> first | rfl | exact absurd h (by decide)

/-- The `catch_unwind` around an operation, when the closure has one. -/
abbrev Handler (σ : Type) := Option (Panic → σ)

/-- One operation of a closure on the runtime; `k` is where the closure goes on. -/
inductive Op (σ V : Type) where
  /-- `go(f)`. -/
  | go (f : σ) (k : σ)
  /-- `gosched()`. -/
  | gosched (k : σ)
  /-- `current_task_id()`. -/
  | currentTaskId (k : TaskId → σ)
  /-- `sleep(duration)`, in nanoseconds. -/
  | sleep (duration : Nat) (k : σ) (h : Handler σ)
  /-- `c.send(data)`. -/
  | send (c : ChanId) (data : V) (k : σ) (h : Handler σ)
  /-- `c.recv()`. -/
  | recv (c : ChanId) (k : Option V → σ) (h : Handler σ)
  /-- `c.close()`. -/
  | close (c : ChanId) (k : σ) (h : Handler σ)
  /-- `g.add(delta)`; `g.done()` is `g.add(-1)`. -/
  | add (g : GroupId) (delta : Int32) (k : σ) (h : Handler σ)
  /-- `g.wait()`. -/
  | wait (g : GroupId) (k : σ) (h : Handler σ)
  /-- `net_poll_read(fd)`. -/
  | netPollRead (fd : RawFd) (k : σ) (h : Handler σ)
  /-- A wrapper of `io`: a call between `enter_blocking` and `exit_blocking`. -/
  | io (k : σ)
  /-- `gopark()`. -/
  | gopark (k : σ)
  /-- `goready(t)`. -/
  | goready (t : TaskId) (k : σ)
  /-- The closure returns. -/
  | done

/-- The two runtimes that share this code: `runtime/timer.rs` and `runtime/channel.rs`. -/
inductive Variant where
  /-- `runtime/timer.rs`. -/
  | timer
  /-- `runtime/channel.rs`. -/
  | channel
deriving DecidableEq, Repr

variable {σ V : Type}

/-- The operation parks the task, if it does, by the functions of this runtime: `Chan` is part of
    `channel.rs`, and `WaitGroup` imports `runtime::timer`.  In a task of the other runtime their
    `current_task_id` would find no task. -/
def Op.parksBy (variant : Variant) : Op σ V → Bool
  | .send _ _ _ _ => variant == .channel
  | .recv _ _ _ => variant == .channel
  | .wait _ _ _ => variant == .timer
  | _ => true

/-- A program: the code of its closures, the runtime it is linked with, and whether it is
    built with overflow checks.  It waits with the primitives of its own runtime. -/
structure Program (σ V : Type) where
  /-- What the closure at a point does next. -/
  code : σ → Op σ V
  /-- The runtime whose functions the closures call. -/
  variant : Variant
  /-- Whether an overflowing `add` panics or wraps. -/
  overflowChecks : Bool
  /-- No closure parks by a primitive of the other runtime. -/
  own : ∀ x, (code x).parksBy variant = true

/-- A finished call of a runtime function, with the value it returned. -/
inductive Ret (V : Type) where
  | sleep
  | send (c : ChanId)
  | recv (c : ChanId) (data : Option V)
  | close (c : ChanId)
  | add (g : GroupId)
  | wait (g : GroupId)
  | netPollRead (fd : RawFd)

/-- Why a task parks, with the rest of its code after `gopark` returns. -/
inductive Park (σ V : Type) where
  | sleep (k : σ)
  | send (c : ChanId) (k : σ) (h : Handler σ)
  | recv (c : ChanId) (k : Option V → σ) (h : Handler σ)
  | wait (g : GroupId) (k : σ)
  | netPollRead (fd : RawFd) (k : σ)
  | gopark (k : σ)

/-- What a task has left to run. -/
inductive Code (σ V : Type) where
  /-- A fresh context: `task_entry` has not called the closure yet. -/
  | entry (f : σ)
  /-- In the closure, between two calls. -/
  | user (x : σ)
  /-- `go`: the child has its id, but is not queued yet. -/
  | goPush (id : TaskId) (f : σ) (k : σ)
  /-- `sleep`: `wake_time` is computed, but not in the heap yet. -/
  | sleepPush (wakeTime : Instant) (k : σ)
  /-- The `goready` calls that a critical section still owes before its method returns `ret`. -/
  | wake (ids : List TaskId) (ret : Ret V) (k : σ)
  /-- `register_read` between `epoll_ctl` and the insertion into `waiting_fds`. -/
  | registerRead (fd : RawFd) (k : σ)
  /-- `unregister` between `epoll_ctl` and the removal from `waiting_fds`. -/
  | unregister (fd : RawFd) (k : σ)
  /-- `enter_blocking` found that it has to spawn a worker. -/
  | spawnWorker (k : σ)
  /-- `spawn_worker` before `thread::spawn`. -/
  | threadSpawn (workerId : Nat) (k : σ)
  /-- Inside the blocking call of an `io` wrapper. -/
  | blocking (k : σ)
  /-- About to call `gopark`. -/
  | park (p : Park σ V)
  /-- Switched out inside `gopark`; the code resumes where `gopark` returns. -/
  | parked (p : Park σ V)

/-- A task, with its context given by what it has left to run. -/
structure Task (σ V : Type) where
  /-- The task's id. -/
  id : TaskId
  /-- Where its context goes on. -/
  code : Code σ V
  /-- Its state, as the worker last saw or set it. -/
  state : TaskState

/-- `Task::new`: a fresh task with the closure `f`. -/
def Task.new (id : TaskId) (f : σ) : Task σ V := { id, code := .entry f, state := .runnable }

/-- The task at another point of its code. -/
def Task.goto (t : Task σ V) (c : Code σ V) : Task σ V := { t with code := c }

/-- The task in another state. -/
def Task.withState (t : Task σ V) (st : TaskState) : Task σ V := { t with state := st }

/-- Another point of its code leaves the task its id. -/
@[simp] theorem Task.goto_id (t : Task σ V) (c : Code σ V) : (t.goto c).id = t.id := rfl
@[simp] theorem Task.goto_code (t : Task σ V) (c : Code σ V) : (t.goto c).code = c := rfl
@[simp] theorem Task.goto_state (t : Task σ V) (c : Code σ V) : (t.goto c).state = t.state := rfl

/-- Another state leaves the task its id. -/
@[simp] theorem Task.withState_id (t : Task σ V) (st : TaskState) : (t.withState st).id = t.id := rfl
@[simp] theorem Task.withState_code (t : Task σ V) (st : TaskState) :
    (t.withState st).code = t.code := rfl
@[simp] theorem Task.withState_state (t : Task σ V) (st : TaskState) :
    (t.withState st).state = st := rfl

/-- A fresh task has the id it is given. -/
@[simp] theorem Task.new_id (id : TaskId) (f : σ) : (Task.new id f : Task σ V).id = id := rfl

/-- A fresh task starts with its closure. -/
@[simp] theorem Task.new_code (id : TaskId) (f : σ) :
    (Task.new id f : Task σ V).code = .entry f := rfl

/-- A fresh task is runnable. -/
@[simp] theorem Task.new_state (id : TaskId) (f : σ) :
    (Task.new id f : Task σ V).state = .runnable := rfl

end MyGoroutine
