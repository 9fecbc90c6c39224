import MyGoroutine.Lib.Transition
import MyGoroutine.Model.NetPoll

namespace MyGoroutine

/-!
# The kqueue poller (`netpoll/kqueue.rs`)

The poller of the BSDs has the same two pieces of state as the epoll one, but its filters are
one-shot: the kernel disarms a filter when it delivers its event.  Tasks that register fds and a
worker that polls are one transition system; neither `register_read` nor `poll` holds a lock over
its two steps.

* `KqueuePoller.keventAdd`, `insert` — the two steps of `register_read`;
* `KqueuePoller.keventOk`, `consume`, `lookup` — the two steps of `poll`;
* `Registrar`, `Kqueue.State`, `kqueue` — the interleaving.
-/

/-- The poller of `kqueue.rs`, with what the kernel keeps for it. -/
structure KqueuePoller where
  /-- The fds whose one-shot filter is armed. -/
  armed : List RawFd
  /-- Map from fd to waiting task. -/
  waitingFds : AList (fun _ : RawFd => TaskId)

namespace KqueuePoller

/-- No filter is armed. -/
def new : KqueuePoller := { armed := [], waitingFds := ∅ }

/-- `kevent` with `EV_ADD | EV_ONESHOT`. -/
def keventAdd (p : KqueuePoller) (fd : RawFd) : KqueuePoller :=
  if fd ∈ p.armed then p else { p with armed := p.armed ++ [fd] }

/-- `waiting_fds.insert(fd, task_id)`. -/
def insert (p : KqueuePoller) (fd : RawFd) (taskId : TaskId) : KqueuePoller :=
  { p with waitingFds := p.waitingFds.insert fd taskId }

/-- The events that `kevent` may deliver: every armed fd that is readable, unless more of them are
    ready than the 64 slots of `events`.  Nothing is delivered on `EINTR` or when the timeout
    passes first. -/
def keventOk (p : KqueuePoller) (readable : RawFd → Bool) (events : List RawFd) : Bool :=
  events.isEmpty ||
    (decide events.Nodup && events.all (fun fd => decide (fd ∈ p.armed) && readable fd) &&
      (if events.length = 64 then true
       else decide (events.length < 64) &&
        p.armed.all (fun fd => !readable fd || decide (fd ∈ events))))

/-- The kernel disarms the filters whose events it has delivered. -/
def consume (p : KqueuePoller) (events : List RawFd) : KqueuePoller :=
  { p with armed := p.armed.filter (· ∉ events) }

/-- The loop of `poll` over the delivered events: the fds that `waiting_fds` knows, with the tasks
    that wait for them. -/
def lookup (p : KqueuePoller) (events : List RawFd) : List (RawFd × TaskId) :=
  events.filterMap (fun fd => (p.waitingFds.lookup fd).map (fun t => (fd, t)))

end KqueuePoller

/-- Where a task is in `register_read`. -/
inductive RegisterPc where
  | before
  /-- `kevent` has returned, the map does not have the fd yet. -/
  | added
  | registered
deriving DecidableEq

/-- A task that calls `register_read`. -/
structure Registrar where
  fd : RawFd
  taskId : TaskId
  pc : RegisterPc

namespace Kqueue

/-- A poll that has returned: the events it consumed and what it reported. -/
structure Polled where
  events : List RawFd
  reported : List (RawFd × TaskId)

/-- The poller, the tasks that register, and a poll that may be under way. -/
structure State where
  /-- The poller. -/
  poller : KqueuePoller
  /-- Which fds have something to read. -/
  readable : RawFd → Bool
  /-- The tasks that call `register_read`. -/
  tasks : List Registrar
  /-- The events of the `poll` in progress. -/
  polling : Option (List RawFd)
  /-- The polls that have returned; no step reads it. -/
  log : List Polled

/-- What happens next. -/
inductive Act where
  /-- Task `i` calls `kevent`. -/
  | add (i : Nat)
  /-- Task `i` inserts its fd into the map. -/
  | insert (i : Nat)
  /-- `poll` calls `kevent`. -/
  | kevent (events : List RawFd)
  /-- `poll` looks the events up, and returns. -/
  | lookup
  /-- An fd becomes readable, or stops being so. -/
  | setReadable (fd : RawFd) (b : Bool)

/-- One step of a task, of the polling worker or of the outside world. -/
def next (a : Act) (s : State) : Option State :=
  match a with
  | .add i =>
    s.tasks[i]?.bind fun r =>
      if r.pc = .before then
        some { s with
          poller := s.poller.keventAdd r.fd
          tasks := s.tasks.set i { r with pc := .added } }
      else none
  | .insert i =>
    s.tasks[i]?.bind fun r =>
      if r.pc = .added then
        some { s with
          poller := s.poller.insert r.fd r.taskId
          tasks := s.tasks.set i { r with pc := .registered } }
      else none
  | .kevent events =>
    if s.polling.isNone && s.poller.keventOk s.readable events then
      some { s with poller := s.poller.consume events, polling := some events }
    else none
  | .lookup =>
    s.polling.map fun events =>
      { s with polling := none, log := s.log ++ [⟨events, s.poller.lookup events⟩] }
  | .setReadable fd b =>
    some { s with readable := fun x => if x = fd then b else s.readable x }

/-- The state before the calls of `register_read` with these fds and task ids. -/
def State.initial (calls : List (RawFd × TaskId)) : State where
  poller := .new
  readable := fun _ => false
  tasks := calls.map fun c => { fd := c.1, taskId := c.2, pc := .before }
  polling := none
  log := []

end Kqueue

/-- Tasks that register pairwise distinct fds, and a worker that polls. -/
def kqueue : System Kqueue.State Kqueue.Act where
  init s := ∃ calls, (calls.map Prod.fst).Nodup ∧ s = .initial calls
  next := Kqueue.next

end MyGoroutine
