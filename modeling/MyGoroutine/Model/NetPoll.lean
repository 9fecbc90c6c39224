import MyGoroutine.Model.Task
import Mathlib.Data.List.AList

namespace MyGoroutine

/-!
# The epoll poller (`netpoll/epoll.rs`)

The kernel's interest set and the map `waiting_fds` are two pieces of state; each method of
`NetPoller` updates or reads them in separate steps, which are the functions below.

* `epollCtlAdd`, `insert` — the two steps of `register_read`;
* `epollCtlDel`, `remove` — the two steps of `unregister`;
* `epollWaitOk`, `lookup` — the two steps of `poll`;
* `hasWaiters`.
-/

/-- The poller of `epoll.rs`, with what the kernel keeps for it. -/
structure NetPoller where
  /-- The fds registered with the epoll instance. -/
  interest : List RawFd
  /-- Map from fd to waiting task. -/
  waitingFds : AList (fun _ : RawFd => TaskId)

namespace NetPoller

/-- No fd is registered. -/
def new : NetPoller := { interest := [], waitingFds := ∅ }

/-- `EPOLL_CTL_ADD`: fails on an fd that is already registered. -/
def epollCtlAdd (p : NetPoller) (fd : RawFd) : Option NetPoller :=
  if fd ∈ p.interest then none else some { p with interest := p.interest ++ [fd] }

/-- `EPOLL_CTL_DEL`; its result is ignored. -/
def epollCtlDel (p : NetPoller) (fd : RawFd) : NetPoller :=
  { p with interest := p.interest.filter (· ≠ fd) }

/-- `waiting_fds.insert(fd, task_id)`. -/
def insert (p : NetPoller) (fd : RawFd) (taskId : TaskId) : NetPoller :=
  { p with waitingFds := p.waitingFds.insert fd taskId }

/-- `waiting_fds.remove(&fd)`. -/
def remove (p : NetPoller) (fd : RawFd) : NetPoller :=
  { p with waitingFds := p.waitingFds.erase fd }

/-- The fds that `epoll_wait` may report: level-triggered, every registered fd that is
    readable, unless more of them are ready than the 64 slots of `events`.  Nothing is
    reported on `EINTR` or when the timeout passes first. -/
def epollWaitOk (p : NetPoller) (readable : RawFd → Bool) (events : List RawFd) : Bool :=
  events.isEmpty ||
    (decide events.Nodup && events.all (fun fd => decide (fd ∈ p.interest) && readable fd) &&
      (if events.length = 64 then true
       else decide (events.length < 64) &&
        p.interest.all (fun fd => !readable fd || decide (fd ∈ events))))

/-- The loop of `poll` over the reported events: the fds that `waiting_fds` knows, with the
    tasks that wait for them. -/
def lookup (p : NetPoller) (events : List RawFd) : List (RawFd × TaskId) :=
  events.filterMap (fun fd => (p.waitingFds.lookup fd).map (fun t => (fd, t)))

/-- `has_waiters`. -/
def hasWaiters (p : NetPoller) : Bool := !p.waitingFds.keys.isEmpty

end NetPoller

end MyGoroutine
