import MyGoroutine.Lib.Slots
import MyGoroutine.Model.Runtime

namespace MyGoroutine

/-!
# Inversion — what one step can do

The step functions are executable matches; the proofs about them work with the inductive
relations of this file, which list once, branch by branch, what a step can do, with the
guards it has passed.

* `ChanCall` — a task that is about to enter a section of a channel;
* `TaskStep`, `taskStep_inv` — the steps of a running task;
* `StepKind`, `Program.kind` — the groups into which these steps fall;
* `ResumeStep`, `TaskStep.of_parked` — those of a task where `gopark` returns;
* `WorkerStep`, `workerStep_inv` — the steps of a worker;
* `Next`, `next_inv` — the steps of the whole program.
-/

variable {σ V : Type}

/-- The shared state with the channel `c` replaced. -/
def Shared.setChan (sh : Shared σ V) (c : ChanId) (m : Chan V) : Shared σ V :=
  { sh with chans := sh.chans.set c m }

/-- The shared state with the wait group `g` replaced. -/
def Shared.setGroup (sh : Shared σ V) (g : GroupId) (m : WaitGroup) : Shared σ V :=
  { sh with groups := sh.groups.set g m }

/-! ### Running tasks

One constructor for each branch of `taskStep` that can be taken, with what it changes. Sections that
panic are put together by the panic, since all that follows from it is the same.
-/

/-- The five sections of a channel. -/
inductive ChanSection where
  /-- The section of `send` before `gopark`. -/
  | send
  /-- The section of `send` after `gopark`. -/
  | sendResume
  /-- The section of `recv` before `gopark`. -/
  | recv
  /-- The section of `recv` after `gopark`. -/
  | recvResume
  /-- The section of `close`. -/
  | close
deriving DecidableEq

/-- The task is about to enter a section of `c`, with the panic handler `h`. -/
inductive ChanCall (P : Program σ V) (t : Task σ V) (c : ChanId) (h : Handler σ) :
    ChanSection → Prop where
  | send {x data k} (hc : t.code = .user x) (hx : P.code x = .send c data k h) :
      ChanCall P t c h .send
  | sendResume {k} (hc : t.code = .parked (.send c k h)) : ChanCall P t c h .sendResume
  | recv {x k} (hc : t.code = .user x) (hx : P.code x = .recv c k h) : ChanCall P t c h .recv
  | recvResume {k} (hc : t.code = .parked (.recv c k h)) : ChanCall P t c h .recvResume
  | close {x k} (hc : t.code = .user x) (hx : P.code x = .close c k h) : ChanCall P t c h .close

/-- The panic of a section that finds the channel closed. -/
def ChanSection.closedPanic : ChanSection → Panic
  | .close => .closeOfClosed
  | _ => .sendOnClosed

/-- What a running task `t` can do in one step. -/
inductive TaskStep (P : Program σ V) (ch : Choice) (free : Bool) (sh : Shared σ V)
    (t : Task σ V) : Effect σ V → Prop where
  /-- `task_entry` calls the closure. -/
  | entry {f} (hc : t.code = .entry f) :
      TaskStep P ch free sh t (t.continue (sh.record [.entered t.id]) (.user f))
  /-- `go` takes the next id for its child; the child is queued by a later step. -/
  | go {x f k} (hc : t.code = .user x) (hx : P.code x = .go f k) :
      TaskStep P ch free sh t
        (t.continue { sh with nextTaskId := sh.nextTaskId + 1 } (.goPush sh.nextTaskId f k))
  /-- `gosched` switches to the worker, with the task still `Running`. -/
  | gosched {x k} (hc : t.code = .user x) (hx : P.code x = .gosched k) :
      TaskStep P ch free sh t { sh, pc := .switched (t.goto (.user k)) }
  /-- `current_task_id` reads the worker's own task. -/
  | currentTaskId {x k} (hc : t.code = .user x) (hx : P.code x = .currentTaskId k) :
      TaskStep P ch free sh t (t.continue sh (.user (k t.id)))
  /-- `sleep` computes its wake time; the entry is pushed by a later step. -/
  | sleep {x d k h} (hc : t.code = .user x) (hx : P.code x = .sleep d k h)
      (hd : sh.clock + d ≤ Instant.last) :
      TaskStep P ch free sh t (t.continue sh (.sleepPush (sh.clock + d) k))
  /-- `Instant::now() + duration` lies past the last `Instant`: `sleep` panics. -/
  | sleepOverflow {x d k h} (hc : t.code = .user x) (hx : P.code x = .sleep d k h)
      (hd : Instant.last < sh.clock + d) :
      TaskStep P ch free sh t (t.raise sh .instantOverflow h)
  /-- `lock().unwrap()` on a poisoned channel. -/
  | chanPoisoned {c h m sec} (hs : ChanCall P t c h sec) (hm : sh.chans[c]? = some m)
      (hp : m.poisoned = true) : TaskStep P ch free sh t (t.raise sh .poisoned h)
  /-- `send` and `close` panic under the guard when the channel is closed, and poison it. -/
  | chanClosed {c h m sec} (hs : ChanCall P t c h sec) (hm : sh.chans[c]? = some m)
      (hp : m.poisoned = false) (hcl : m.val.closed = true)
      (hsec : sec ≠ .recv ∧ sec ≠ .recvResume) :
      TaskStep P ch free sh t (t.raise (sh.setChan c { m with poisoned := true }) sec.closedPanic h)
  /-- `recv` takes a sender's waiter and then unwraps the head of an empty buffer. -/
  | recvUnwrap {x c k h m w sendq} (hc : t.code = .user x) (hx : P.code x = .recv c k h)
      (hm : sh.chans[c]? = some m) (hp : m.poisoned = false) (hq : m.val.sendq = w :: sendq)
      (hcap : m.val.bufCap ≠ 0) (hb : m.val.buf = []) :
      TaskStep P ch free sh t
        (t.raise (sh.setChan c { val := { m.val with sendq }, poisoned := true }) .unwrapNone h)
  /-- `send` finds a parked receiver and leaves the value for it in `delivered`. -/
  | sendDelivered {x c data k h m r recvq} (hc : t.code = .user x)
      (hx : P.code x = .send c data k h) (hm : sh.chans[c]? = some m)
      (hp : m.poisoned = false) (hcl : m.val.closed = false) (hq : m.val.recvq = r :: recvq) :
      TaskStep P ch free sh t
        (t.continue
          ((sh.setChan c { m with
              val := { m.val with recvq, delivered := m.val.delivered.insert r data } }).record
            [.sent c t.id data (.delivered r)])
          (.wake [r] (.send c) k))
  /-- `send` finds room in the buffer. -/
  | sendBuffered {x c data k h m} (hc : t.code = .user x) (hx : P.code x = .send c data k h)
      (hm : sh.chans[c]? = some m) (hp : m.poisoned = false) (hcl : m.val.closed = false)
      (hq : m.val.recvq = []) (hb : m.val.buf.length < m.val.bufCap) :
      TaskStep P ch free sh t
        (t.continue
          ((sh.setChan c { m with val := { m.val with buf := m.val.buf ++ [data] } }).record
            [.sent c t.id data .buffered, .returned t.id (.send c)])
          (.user k))
  /-- `send` finds neither: it joins the `sendq` and parks. -/
  | sendEnqueued {x c data k h m} (hc : t.code = .user x) (hx : P.code x = .send c data k h)
      (hm : sh.chans[c]? = some m) (hp : m.poisoned = false) (hcl : m.val.closed = false)
      (hq : m.val.recvq = []) (hb : m.val.bufCap ≤ m.val.buf.length) :
      TaskStep P ch free sh t
        (t.continue
          ((sh.setChan c { m with
              val := { m.val with sendq := m.val.sendq ++ [⟨t.id, data⟩] } }).record
            [.sent c t.id data .enqueued])
          (.park (.send c k h)))
  /-- `recv` finds the channel closed and empty. -/
  | recvClosed {x c k h m} (hc : t.code = .user x) (hx : P.code x = .recv c k h)
      (hm : sh.chans[c]? = some m) (hp : m.poisoned = false) (hcl : m.val.closed = true)
      (hq : m.val.sendq = []) (hb : m.val.buf = []) :
      TaskStep P ch free sh t
        (t.continue (sh.record [.received c t.id .closed, .returned t.id (.recv c none)])
          (.user (k none)))
  /-- Unbuffered: `recv` takes the value from a parked sender. -/
  | recvTake {x c k h m w sendq} (hc : t.code = .user x) (hx : P.code x = .recv c k h)
      (hm : sh.chans[c]? = some m) (hp : m.poisoned = false) (hq : m.val.sendq = w :: sendq)
      (hcap : m.val.bufCap = 0) :
      TaskStep P ch free sh t
        (t.continue
          ((sh.setChan c { m with val := { m.val with sendq } }).record
            [.received c t.id (.fromSender w w.data)])
          (.wake [w.taskId] (.recv c (some w.data)) (k (some w.data))))
  /-- Buffered: `recv` takes the head of the buffer, and a parked sender's value refills it. -/
  | recvRefill {x c k h m w sendq d buf} (hc : t.code = .user x) (hx : P.code x = .recv c k h)
      (hm : sh.chans[c]? = some m) (hp : m.poisoned = false) (hq : m.val.sendq = w :: sendq)
      (hcap : m.val.bufCap ≠ 0) (hb : m.val.buf = d :: buf) :
      TaskStep P ch free sh t
        (t.continue
          ((sh.setChan c { m with
              val := { m.val with sendq, buf := buf ++ [w.data] } }).record
            [.received c t.id (.fromSender w d)])
          (.wake [w.taskId] (.recv c (some d)) (k (some d))))
  /-- `recv` takes the head of the buffer; nobody waits for its place. -/
  | recvBuf {x c k h m d buf} (hc : t.code = .user x) (hx : P.code x = .recv c k h)
      (hm : sh.chans[c]? = some m) (hp : m.poisoned = false) (hq : m.val.sendq = [])
      (hb : m.val.buf = d :: buf) :
      TaskStep P ch free sh t
        (t.continue
          ((sh.setChan c { m with val := { m.val with buf } }).record
            [.received c t.id (.fromBuf d), .returned t.id (.recv c (some d))])
          (.user (k (some d))))
  /-- `recv` finds nothing: it joins the `recvq` and parks. -/
  | recvEnqueued {x c k h m} (hc : t.code = .user x) (hx : P.code x = .recv c k h)
      (hm : sh.chans[c]? = some m) (hp : m.poisoned = false) (hcl : m.val.closed = false)
      (hq : m.val.sendq = []) (hb : m.val.buf = []) :
      TaskStep P ch free sh t
        (t.continue
          ((sh.setChan c { m with
              val := { m.val with recvq := m.val.recvq ++ [t.id] } }).record
            [.received c t.id .enqueued])
          (.park (.recv c k h)))
  /-- `close` drains both queues and goes on to wake the tasks in them. -/
  | close {x c k h m} (hc : t.code = .user x) (hx : P.code x = .close c k h)
      (hm : sh.chans[c]? = some m) (hp : m.poisoned = false) (hcl : m.val.closed = false) :
      TaskStep P ch free sh t
        (t.finish
          ((sh.setChan c { m with
              val := { m.val with closed := true, recvq := [], sendq := [] } }).record
            [.closed c t.id m.val.recvq m.val.sendq])
          (m.val.recvq ++ m.val.sendq.map (·.taskId)) (.close c) k)
  /-- A poisoned group, a negative counter or an overflowing addition: the waiters stay, and what is
      stored is the old counter or a negative one. -/
  | groupPanic {x g k h m m' p} (hc : t.code = .user x)
      (hx : (∃ d, P.code x = .add g d k h) ∨ P.code x = .wait g k h)
      (hm : sh.groups[g]? = some m) (hw : m'.val.waiters = m.val.waiters)
      (hn : m'.val.counter = m.val.counter ∨ m'.val.counter < 0) :
      TaskStep P ch free sh t (t.raise (sh.setGroup g m') p h)
  /-- `add` collects the waiters, or none of them. -/
  | add {x g d k h m woken inner} (hc : t.code = .user x) (hx : P.code x = .add g d k h)
      (hm : sh.groups[g]? = some m) (hp : m.poisoned = false)
      (ha : m.val.add P.overflowChecks d = (inner, .ok woken))
      (hw : woken ++ inner.waiters = m.val.waiters ∧ (woken = [] ∨ inner.waiters = [])) :
      TaskStep P ch free sh t
        (t.finish ((sh.setGroup g { m with val := inner }).record [.added g t.id d woken])
          woken (.add g) k)
  /-- `wait` at zero returns at once. -/
  | waitZero {x g k h m} (hc : t.code = .user x) (hx : P.code x = .wait g k h)
      (hm : sh.groups[g]? = some m) (hp : m.poisoned = false) (h0 : m.val.counter = 0) :
      TaskStep P ch free sh t
        (t.continue (sh.record [.returned t.id (.wait g)]) (.user k))
  /-- `wait` joins the waiters and parks. -/
  | waitJoin {x g k h m} (hc : t.code = .user x) (hx : P.code x = .wait g k h)
      (hm : sh.groups[g]? = some m) (hp : m.poisoned = false) (h0 : m.val.counter ≠ 0) :
      TaskStep P ch free sh t
        (t.continue
          ((sh.setGroup g { m with
              val := { m.val with waiters := m.val.waiters ++ [t.id] } }).record
            [.joined g t.id])
          (.park (.wait g k)))
  /-- `epoll_ctl` refuses the fd, and `register_read` panics. -/
  | netFail {x fd k h} (hc : t.code = .user x) (hx : P.code x = .netPollRead fd k h) :
      TaskStep P ch free sh t (t.raise sh .epollAddFailed h)
  /-- `epoll_ctl` adds the fd; `waiting_fds` is filled by a later step. -/
  | netAdd {x fd k h net} (hc : t.code = .user x) (hx : P.code x = .netPollRead fd k h)
      (hn : sh.net.epollCtlAdd fd = some net) :
      TaskStep P ch free sh t (t.continue { sh with net } (.registerRead fd k))
  /-- `enter_blocking` finds runnable tasks and no idle worker: it spawns one. -/
  | ioSpawn {x k} (hf : free = true) (hc : t.code = .user x) (hx : P.code x = .io k)
      (hr : sh.queue.runnable ≠ []) (hi : sh.queue.idleWorkers = 0) :
      TaskStep P ch free sh t (t.continue sh (.spawnWorker k))
  /-- `enter_blocking` needs no further worker. -/
  | ioBlock {x k} (hf : free = true) (hc : t.code = .user x) (hx : P.code x = .io k)
      (hr : sh.queue.runnable = [] ∨ sh.queue.idleWorkers ≠ 0) :
      TaskStep P ch free sh t (t.continue sh (.blocking k))
  /-- A bare `gopark` of the closure. -/
  | gopark {x k} (hc : t.code = .user x) (hx : P.code x = .gopark k) :
      TaskStep P ch free sh t (t.continue sh (.park (.gopark k)))
  /-- A bare `goready` of the closure. -/
  | goready {x id k} (hf : free = true) (hc : t.code = .user x)
      (hx : P.code x = .goready id k) :
      TaskStep P ch free sh t
        { t.continue (sh.goready (.task t.id) id).1 (.user k) with
          notify := (sh.goready (.task t.id) id).2 }
  /-- The closure returns: `task_finished`. -/
  | done {x} (hc : t.code = .user x) (hx : P.code x = .done) :
      TaskStep P ch free sh t
        { sh := sh.record [.died t.id], pc := .switched (t.withState .dead) }
  /-- `go` queues its child and notifies. -/
  | goPush {id f k} (hf : free = true) (hc : t.code = .goPush id f k) :
      TaskStep P ch free sh t
        { t.continue (sh.pushNew id f).1 (.user k) with notify := (sh.pushNew id f).2 }
  /-- `sleep` pushes its entry and parks. -/
  | sleepPush {w k} (hc : t.code = .sleepPush w k) :
      TaskStep P ch free sh t
        (t.continue
          { sh.record [.timerPush t.id w] with
            timerHeap := { wakeTime := w, taskId := t.id } :: sh.timerHeap }
          (.park (.sleep k)))
  /-- The section had nobody to wake. -/
  | wakeNil {ret k} (hc : t.code = .wake [] ret k) :
      TaskStep P ch free sh t (t.continue sh (.user k))
  /-- The last `goready` of the section, after which its method returns. -/
  | wakeLast {id ret k} (hf : free = true) (hc : t.code = .wake [id] ret k) :
      TaskStep P ch free sh t
        { t.continue ((sh.goready (.task t.id) id).1.record [.returned t.id ret]) (.user k) with
          notify := (sh.goready (.task t.id) id).2 }
  /-- One of several `goready` calls. -/
  | wakeMore {id id' ids ret k} (hf : free = true) (hc : t.code = .wake (id :: id' :: ids) ret k) :
      TaskStep P ch free sh t
        { t.continue (sh.goready (.task t.id) id).1 (.wake (id' :: ids) ret k) with
          notify := (sh.goready (.task t.id) id).2 }
  /-- `register_read` stores the task in `waiting_fds`; then `net_poll_read` parks. -/
  | registerRead {fd k} (hc : t.code = .registerRead fd k) :
      TaskStep P ch free sh t
        (t.continue ({ sh with net := sh.net.insert fd t.id }.record [.registered t.id fd])
          (.park (.netPollRead fd k)))
  /-- `unregister` removes the fd from `waiting_fds`, and `net_poll_read` returns. -/
  | unregister {fd k} (hc : t.code = .unregister fd k) :
      TaskStep P ch free sh t
        (t.continue
          ({ sh with net := sh.net.remove fd }.record [.returned t.id (.netPollRead fd)])
          (.user k))
  /-- `enter_blocking` takes an id for the new worker. -/
  | spawnWorker {k} (hf : free = true) (hc : t.code = .spawnWorker k) :
      TaskStep P ch free sh t
        (t.continue
          (sh.withQueue { sh.queue with nextWorkerId := sh.queue.nextWorkerId + 1 })
          (.threadSpawn sh.queue.nextWorkerId k))
  /-- `thread::spawn`: the detached worker starts. -/
  | threadSpawn {w k} (hc : t.code = .threadSpawn w k) :
      TaskStep P ch free sh t { t.continue sh (.blocking k) with spawn := some w }
  /-- The blocking call of an `io` wrapper returns. -/
  | blocking {k} (hc : t.code = .blocking k) :
      TaskStep P ch free sh t (t.continue sh (.user k))
  /-- `gopark`: the state becomes `Waiting`, and the task switches to the worker. -/
  | park {p} (hc : t.code = .park p) :
      TaskStep P ch free sh t
        { sh, pc := .switched ((t.goto (.parked p)).withState .waiting) }
  /-- `gopark` returns in `sleep`. -/
  | resumeSleep {k} (hc : t.code = .parked (.sleep k)) :
      TaskStep P ch free sh t
        (t.continue (sh.record [.returned t.id .sleep]) (.user k))
  /-- `gopark` returns in `send`, and the channel is still open. -/
  | resumeSend {c k h m} (hc : t.code = .parked (.send c k h)) (hm : sh.chans[c]? = some m)
      (hp : m.poisoned = false) (hcl : m.val.closed = false) :
      TaskStep P ch free sh t
        (t.continue (sh.record [.returned t.id (.send c)]) (.user k))
  /-- `gopark` returns in `recv`, which removes what `delivered` has for the task. -/
  | resumeRecv {c k h m} (hc : t.code = .parked (.recv c k h)) (hm : sh.chans[c]? = some m)
      (hp : m.poisoned = false) :
      TaskStep P ch free sh t
        (t.continue
          ((sh.setChan c { m with
              val := { m.val with delivered := m.val.delivered.erase t.id } }).record
            [.returned t.id (.recv c (m.val.delivered.lookup t.id))])
          (.user (k (m.val.delivered.lookup t.id))))
  /-- `gopark` returns in `wait`. -/
  | resumeWait {g k} (hc : t.code = .parked (.wait g k)) :
      TaskStep P ch free sh t
        (t.continue (sh.record [.returned t.id (.wait g)]) (.user k))
  /-- `gopark` returns in `net_poll_read`, and `unregister` starts with `EPOLL_CTL_DEL`. -/
  | resumeNet {fd k} (hc : t.code = .parked (.netPollRead fd k)) :
      TaskStep P ch free sh t
        (t.continue { sh with net := sh.net.epollCtlDel fd } (.unregister fd k))
  /-- `gopark` returns in the closure. -/
  | resumeGopark {k} (hc : t.code = .parked (.gopark k)) :
      TaskStep P ch free sh t (t.continue sh (.user k))

/-- The groups into which the steps of a running task fall. -/
inductive StepKind where
  /-- The section of a `send`, a `recv` or a `close`. -/
  | channel
  /-- The section of an `add` or a `wait`. -/
  | group
  /-- The first step of any other call, and the end of the closure. -/
  | call
  /-- A later step of a call, up to `gopark`. -/
  | inside
  /-- What a call does after `gopark`. -/
  | resume

/-- The group of the first step of an operation. -/
def Op.kind : Op σ V → StepKind
  | .send _ _ _ _ => .channel
  | .recv _ _ _ => .channel
  | .close _ _ _ => .channel
  | .add _ _ _ _ => .group
  | .wait _ _ _ => .group
  | _ => .call

/-- The group of the next step of a task at this point of its code. -/
def Program.kind (P : Program σ V) : Code σ V → StepKind
  | .user x => (P.code x).kind
  | .parked _ => .resume
  | _ => .inside

/-- At the beginning of a call, the operation decides. -/
theorem Program.kind_user {P : Program σ V} {t : Task σ V} {x : σ} {op : Op σ V}
    (hc : t.code = .user x) (hx : P.code x = op) : P.kind t.code = op.kind := by
  rw [hc, ← hx]
  rfl

/-- A section of a channel is the first step of its call, or the one after `gopark`. -/
theorem ChanCall.kind {P : Program σ V} {t : Task σ V} {c : ChanId} {h : Handler σ}
    {sec : ChanSection} (hs : ChanCall P t c h sec) :
    P.kind t.code = .channel ∨ P.kind t.code = .resume := by
  cases hs with
  | send hc hx | recv hc hx | close hc hx => exact .inl (Program.kind_user hc hx)
  | sendResume hc | recvResume hc => exact .inr (by rw [hc]; rfl)

/-- A section that leaves the channel as it was leaves the shared state as it was. -/
theorem Shared.setChan_self {sh : Shared σ V} {c : ChanId} {m : Chan V}
    (h : sh.chans[c]? = some m) : sh.setChan c m = sh := by
  rw [Shared.setChan, Slots.set_of_getElem? h]

/-- A section that leaves the wait group as it was leaves the shared state as it was. -/
theorem Shared.setGroup_self {sh : Shared σ V} {g : GroupId} {m : WaitGroup}
    (h : sh.groups[g]? = some m) : sh.setGroup g m = sh := by
  rw [Shared.setGroup, Slots.set_of_getElem? h]

section TaskInversion

variable {P : Program σ V} {ch : Choice} {free : Bool} {sh : Shared σ V} {t : Task σ V}
  {e : Effect σ V}

/-- A step through a section of `c`: the channel exists, and the effect is computed from the
    section's result. -/
private theorem lockChan_inv {β : Type} {c : ChanId}
    {body : ChanInner V → ChanInner V × Except Panic β}
    {f : Shared σ V × Except Panic β → Effect σ V}
    (h : (sh.lockChan c body).map f = some e) :
    ∃ m, sh.chans[c]? = some m ∧ e = f (sh.setChan c (m.lock body).1, (m.lock body).2) := by
  cases hm : sh.chans[c]? with
  | none => simp [Shared.lockChan, hm] at h
  | some m => exact ⟨m, rfl, by simpa [Shared.lockChan, hm, Shared.setChan] using h.symm⟩

/-- A step through a section of `g`: the wait group exists, and the effect is computed from the
    section's result. -/
private theorem lockGroup_inv {β : Type} {g : GroupId}
    {body : WaitGroupInner → WaitGroupInner × Except Panic β}
    {f : Shared σ V × Except Panic β → Effect σ V}
    (h : (sh.lockGroup g body).map f = some e) :
    ∃ m, sh.groups[g]? = some m ∧ e = f (sh.setGroup g (m.lock body).1, (m.lock body).2) := by
  cases hm : sh.groups[g]? with
  | none => simp [Shared.lockGroup, hm] at h
  | some m => exact ⟨m, rfl, by simpa [Shared.lockGroup, hm, Shared.setGroup] using h.symm⟩

/-- The branches of `Chan::send`. -/
private theorem sendStep_inv {x : σ} {c : ChanId} {data : V} {k : σ} {h : Handler σ}
    (hc : t.code = .user x) (hx : P.code x = .send c data k h)
    (hs : sendStep t c data k h sh = some e) : TaskStep P ch free sh t e := by
  obtain ⟨m, hm, rfl⟩ := lockChan_inv hs
  cases hp : m.poisoned with
  | true =>
    simp only [Mutex.lock, hp, if_true, Shared.setChan_self hm]
    exact .chanPoisoned (.send hc hx) hm hp
  | false =>
    simp only [Mutex.lock, hp, Bool.false_eq_true, if_false]
    cases hcl : m.val.closed with
    | true =>
      simp only [ChanInner.send, hcl, if_true]
      exact .chanClosed (.send hc hx) hm hp hcl (by simp)
    | false =>
      simp only [ChanInner.send, hcl, Bool.false_eq_true, if_false]
      cases hq : m.val.recvq with
      | cons r recvq =>
        have : TaskStep P ch free sh t _ := .sendDelivered hc hx hm hp hcl hq
        simpa [Task.finish, hp, hcl] using this
      | nil =>
        by_cases hb : m.val.buf.length < m.val.bufCap
        · have : TaskStep P ch free sh t _ := .sendBuffered hc hx hm hp hcl hq hb
          simpa [Task.finish, hb, hp, hq, hcl] using this
        · have : TaskStep P ch free sh t _ := .sendEnqueued hc hx hm hp hcl hq (by omega)
          simpa [Task.finish, hb, hp, hq, hcl] using this

/-- The branches of `Chan::recv`, up to `gopark`. -/
private theorem recvStep_inv {x : σ} {c : ChanId} {k : Option V → σ} {h : Handler σ}
    (hc : t.code = .user x) (hx : P.code x = .recv c k h)
    (hs : recvStep t c k h sh = some e) : TaskStep P ch free sh t e := by
  obtain ⟨m, hm, rfl⟩ := lockChan_inv hs
  cases hp : m.poisoned with
  | true =>
    simp only [Mutex.lock, hp, if_true, Shared.setChan_self hm]
    exact .chanPoisoned (.recv hc hx) hm hp
  | false =>
    simp only [Mutex.lock, hp, Bool.false_eq_true, if_false]
    cases hq : m.val.sendq with
    | cons w sendq =>
      by_cases hcap : m.val.bufCap = 0
      · have : TaskStep P ch free sh t _ := .recvTake hc hx hm hp hq hcap
        simpa [ChanInner.recv, Task.finish, hp, hq, hcap] using this
      · cases hb : m.val.buf with
        | nil =>
          have : TaskStep P ch free sh t _ := .recvUnwrap hc hx hm hp hq hcap hb
          simpa [ChanInner.recv, Task.finish, hp, hq, hcap, hb] using this
        | cons d buf =>
          have : TaskStep P ch free sh t _ := .recvRefill hc hx hm hp hq hcap hb
          simpa [ChanInner.recv, Task.finish, hp, hq, hcap, hb] using this
    | nil =>
      cases hb : m.val.buf with
      | cons d buf =>
        have : TaskStep P ch free sh t _ := .recvBuf hc hx hm hp hq hb
        simpa [ChanInner.recv, Task.finish, hp, hq, hb] using this
      | nil =>
        cases hcl : m.val.closed with
        | true =>
          have : TaskStep P ch free sh t _ := .recvClosed hc hx hm hp hcl hq hb
          have hself : sh.setChan c { val := m.val, poisoned := false } = sh := by
            rw [← hp]; exact Shared.setChan_self hm
          simpa [ChanInner.recv, Task.finish, hq, hb, hcl, hself] using this
        | false =>
          have : TaskStep P ch free sh t _ := .recvEnqueued hc hx hm hp hcl hq hb
          simpa [ChanInner.recv, Task.finish, hp, hq, hb, hcl] using this

/-- The branches of `Chan::close`. -/
private theorem closeStep_inv {x : σ} {c : ChanId} {k : σ} {h : Handler σ}
    (hc : t.code = .user x) (hx : P.code x = .close c k h)
    (hs : closeStep t c k h sh = some e) : TaskStep P ch free sh t e := by
  obtain ⟨m, hm, rfl⟩ := lockChan_inv hs
  cases hp : m.poisoned with
  | true =>
    simp only [Mutex.lock, hp, if_true, Shared.setChan_self hm]
    exact .chanPoisoned (.close hc hx) hm hp
  | false =>
    simp only [Mutex.lock, hp, Bool.false_eq_true, if_false, ChanInner.close]
    cases hcl : m.val.closed with
    | true =>
      simp only [if_true]
      exact .chanClosed (.close hc hx) hm hp hcl (by simp)
    | false =>
      have : TaskStep P ch free sh t _ := .close hc hx hm hp hcl
      simpa [hp, hcl] using this

/-- The branches of `WaitGroup::add`. -/
private theorem addStep_inv {x : σ} {g : GroupId} {d : Int32} {k : σ} {h : Handler σ}
    (hc : t.code = .user x) (hx : P.code x = .add g d k h)
    (hs : addStep P.overflowChecks t g d k h sh = some e) : TaskStep P ch free sh t e := by
  obtain ⟨m, hm, rfl⟩ := lockGroup_inv hs
  cases hp : m.poisoned with
  | true =>
    simp only [Mutex.lock, hp, if_true]
    exact .groupPanic hc (.inl ⟨d, hx⟩) hm rfl (.inl rfl)
  | false =>
    simp only [Mutex.lock, hp, Bool.false_eq_true, if_false]
    cases ha : m.val.add P.overflowChecks d with
    | mk inner r =>
      cases r with
      | error p =>
        have hpanic : inner.waiters = m.val.waiters ∧
            (inner.counter = m.val.counter ∨ inner.counter < 0) := by
          simp only [WaitGroupInner.add] at ha
          split at ha
          · cases ha
            exact ⟨rfl, .inl rfl⟩
          · split at ha
            · rename_i hneg
              cases ha
              exact ⟨rfl, .inr hneg⟩
            · split at ha <;> cases ha
        exact .groupPanic hc (.inl ⟨d, hx⟩) hm hpanic.1 hpanic.2
      | ok woken =>
        have hw : woken ++ inner.waiters = m.val.waiters ∧ (woken = [] ∨ inner.waiters = []) := by
          simp only [WaitGroupInner.add] at ha
          split at ha
          · cases ha
          · split at ha
            · cases ha
            · split at ha <;> (cases ha; simp)
        have : TaskStep P ch free sh t _ := .add hc hx hm hp ha hw
        simpa [hp] using this

/-- The branches of `WaitGroup::wait`, up to `gopark`. -/
private theorem waitStep_inv {x : σ} {g : GroupId} {k : σ} {h : Handler σ}
    (hc : t.code = .user x) (hx : P.code x = .wait g k h)
    (hs : waitStep t g k h sh = some e) : TaskStep P ch free sh t e := by
  obtain ⟨m, hm, rfl⟩ := lockGroup_inv hs
  cases hp : m.poisoned with
  | true =>
    simp only [Mutex.lock, hp, if_true]
    exact .groupPanic hc (.inr hx) hm rfl (.inl rfl)
  | false =>
    simp only [Mutex.lock, hp, Bool.false_eq_true, if_false]
    by_cases h0 : m.val.counter = 0
    · have : TaskStep P ch free sh t _ := .waitZero hc hx hm hp h0
      have hself : sh.setGroup g { val := m.val, poisoned := false } = sh := by
        rw [← hp]; exact Shared.setGroup_self hm
      simpa [WaitGroupInner.wait, Task.finish, h0, hself] using this
    · have : TaskStep P ch free sh t _ := .waitJoin hc hx hm hp h0
      simpa [WaitGroupInner.wait, Task.finish, h0, hp] using this

/-- The branches of an operation, whichever it is. -/
private theorem opStep_inv {x : σ} (hc : t.code = .user x)
    (hs : opStep P ch free t sh (P.code x) = some e) : TaskStep P ch free sh t e := by
  cases hx : P.code x <;> rw [hx] at hs <;> simp only [opStep] at hs
  case go => cases hs; exact .go hc hx
  case gosched => cases hs; exact .gosched hc hx
  case currentTaskId => cases hs; exact .currentTaskId hc hx
  case sleep =>
    split at hs
    · cases hs; exact .sleep hc hx ‹_›
    · cases hs; exact .sleepOverflow hc hx (Nat.lt_of_not_le ‹_›)
  case send => exact sendStep_inv hc hx hs
  case recv => exact recvStep_inv hc hx hs
  case close => exact closeStep_inv hc hx hs
  case add => exact addStep_inv hc hx hs
  case wait => exact waitStep_inv hc hx hs
  case netPollRead fd k h =>
    split at hs
    · cases hs; exact .netFail hc hx
    · split at hs
      · cases hs; exact .netFail hc hx
      · cases hs; exact .netAdd hc hx ‹_›
  case io k =>
    split at hs
    · rename_i hf
      cases hs
      split
      · rename_i h
        simp only [Bool.and_eq_true, Bool.not_eq_true', List.isEmpty_eq_false_iff,
          beq_iff_eq] at h
        exact .ioSpawn hf hc hx h.1 h.2
      · rename_i h
        refine .ioBlock hf hc hx ?_
        by_contra hn
        simp only [not_or, not_not] at hn
        simp [hn.1, hn.2] at h
    · cases hs
  case gopark => cases hs; exact .gopark hc hx
  case goready =>
    split at hs
    · cases hs; exact .goready ‹_› hc hx
    · cases hs
  case done => cases hs; exact .done hc hx

/-- The branches behind a call of `gopark`. -/
private theorem resumeStep_inv {p : Park σ V} (hc : t.code = .parked p)
    (hs : resumeStep t sh p = some e) : TaskStep P ch free sh t e := by
  cases p with
  | sleep k => cases hs; exact .resumeSleep hc
  | send c k h =>
    obtain ⟨m, hm, rfl⟩ := lockChan_inv hs
    cases hp : m.poisoned with
    | true =>
      simp only [Mutex.lock, hp, if_true, Shared.setChan_self hm]
      exact .chanPoisoned (.sendResume hc) hm hp
    | false =>
      simp only [Mutex.lock, hp, Bool.false_eq_true, if_false, ChanInner.sendResume]
      cases hcl : m.val.closed with
      | true =>
        simp only [if_true]
        exact .chanClosed (.sendResume hc) hm hp hcl (by simp)
      | false =>
        have : TaskStep P ch free sh t _ := .resumeSend hc hm hp hcl
        have hself : sh.setChan c { val := m.val, poisoned := false } = sh := by
          rw [← hp]; exact Shared.setChan_self hm
        simpa [Task.finish, hself] using this
  | recv c k h =>
    obtain ⟨m, hm, rfl⟩ := lockChan_inv hs
    cases hp : m.poisoned with
    | true =>
      simp only [Mutex.lock, hp, if_true, Shared.setChan_self hm]
      exact .chanPoisoned (.recvResume hc) hm hp
    | false =>
      have : TaskStep P ch free sh t _ := .resumeRecv hc hm hp
      simpa [Mutex.lock, ChanInner.recvResume, Task.finish, hp] using this
  | wait g k => cases hs; exact .resumeWait hc
  | netPollRead fd k => cases hs; exact .resumeNet hc
  | gopark k => cases hs; exact .resumeGopark hc

/-- **Inversion of a task's step.** -/
theorem taskStep_inv (hs : taskStep P ch free t sh = some e) : TaskStep P ch free sh t e := by
  unfold taskStep at hs
  split at hs
  case h_1 hc => cases hs; exact .entry hc
  case h_2 hc => exact opStep_inv hc hs
  case h_3 hc =>
    split at hs
    · cases hs; exact .goPush ‹_› hc
    · cases hs
  case h_4 hc => cases hs; exact .sleepPush hc
  case h_5 hc => cases hs; exact .wakeNil hc
  case h_6 id ids ret k hc =>
    split at hs
    · cases hs
      cases ids with
      | nil => exact .wakeLast ‹_› hc
      | cons id' ids => exact .wakeMore ‹_› hc
    · cases hs
  case h_7 hc => cases hs; exact .registerRead hc
  case h_8 hc => cases hs; exact .unregister hc
  case h_9 hc =>
    split at hs
    · cases hs; exact .spawnWorker ‹_› hc
    · cases hs
  case h_10 hc => cases hs; exact .threadSpawn hc
  case h_11 hc => cases hs; exact .blocking hc
  case h_12 hc => cases hs; exact .park hc
  case h_13 hc => exact resumeStep_inv hc hs

/-- What a task can do where `gopark` returns. -/
inductive ResumeStep (sh : Shared σ V) (t : Task σ V) : Park σ V → Effect σ V → Prop where
  /-- `sleep` returns. -/
  | sleep {k} :
      ResumeStep sh t (.sleep k) (t.continue (sh.record [.returned t.id .sleep]) (.user k))
  /-- `send` finds the channel poisoned. -/
  | sendPoisoned {c k h m} (hm : sh.chans[c]? = some m) (hp : m.poisoned = true) :
      ResumeStep sh t (.send c k h) (t.raise sh .poisoned h)
  /-- `send` finds the channel closed, whoever woke it. -/
  | sendClosed {c k h m} (hm : sh.chans[c]? = some m) (hp : m.poisoned = false)
      (hcl : m.val.closed = true) :
      ResumeStep sh t (.send c k h)
        (t.raise (sh.setChan c { m with poisoned := true }) .sendOnClosed h)
  /-- `send` returns. -/
  | send {c k h m} (hm : sh.chans[c]? = some m) (hp : m.poisoned = false)
      (hcl : m.val.closed = false) :
      ResumeStep sh t (.send c k h)
        (t.continue (sh.record [.returned t.id (.send c)]) (.user k))
  /-- `recv` finds the channel poisoned. -/
  | recvPoisoned {c k h m} (hm : sh.chans[c]? = some m) (hp : m.poisoned = true) :
      ResumeStep sh t (.recv c k h) (t.raise sh .poisoned h)
  /-- `recv` returns what was delivered to the task, or `None`. -/
  | recv {c k h m} (hm : sh.chans[c]? = some m) (hp : m.poisoned = false) :
      ResumeStep sh t (.recv c k h)
        (t.continue
          ((sh.setChan c { m with
              val := { m.val with delivered := m.val.delivered.erase t.id } }).record
            [.returned t.id (.recv c (m.val.delivered.lookup t.id))])
          (.user (k (m.val.delivered.lookup t.id))))
  /-- `wait` returns; it does not look at the counter again. -/
  | wait {g k} :
      ResumeStep sh t (.wait g k)
        (t.continue (sh.record [.returned t.id (.wait g)]) (.user k))
  /-- `net_poll_read` goes on to unregister its fd. -/
  | netPollRead {fd k} :
      ResumeStep sh t (.netPollRead fd k)
        (t.continue { sh with net := sh.net.epollCtlDel fd } (.unregister fd k))
  /-- The closure goes on. -/
  | gopark {k} : ResumeStep sh t (.gopark k) (t.continue sh (.user k))

/-- The step of a task that is parked. -/
theorem TaskStep.of_parked {p : Park σ V} (hs : TaskStep P ch free sh t e)
    (hp : t.code = .parked p) : ResumeStep sh t p e := by
  cases hs with
  | chanPoisoned hs hm hpo =>
    cases hs with
    | send hc | recv hc | close hc => rw [hp] at hc; cases hc
    | sendResume hc => rw [hp] at hc; cases hc; exact .sendPoisoned hm hpo
    | recvResume hc => rw [hp] at hc; cases hc; exact .recvPoisoned hm hpo
  | chanClosed hs hm hpo hcl hsec =>
    cases hs with
    | send hc | recv hc | close hc => rw [hp] at hc; cases hc
    | sendResume hc => rw [hp] at hc; cases hc; exact .sendClosed hm hpo hcl
    | recvResume => exact absurd rfl hsec.2
  | resumeSleep hc => rw [hp] at hc; cases hc; exact .sleep
  | resumeSend hc hm hpo hcl => rw [hp] at hc; cases hc; exact .send hm hpo hcl
  | resumeRecv hc hm hpo => rw [hp] at hc; cases hc; exact .recv hm hpo
  | resumeWait hc => rw [hp] at hc; cases hc; exact .wait
  | resumeNet hc => rw [hp] at hc; cases hc; exact .netPollRead
  | resumeGopark hc => rw [hp] at hc; cases hc; exact .gopark
  | entry hc | go hc | gosched hc | currentTaskId hc | sleep hc | sleepOverflow hc | recvUnwrap hc
  | sendDelivered hc | sendBuffered hc | sendEnqueued hc | recvClosed hc | recvTake hc
  | recvRefill hc | recvBuf hc | recvEnqueued hc | close hc | groupPanic hc | add hc | waitZero hc
  | waitJoin hc | netFail hc | netAdd hc | ioSpawn _ hc | ioBlock _ hc | gopark hc | goready _ hc
  | done hc | goPush _ hc | sleepPush hc | wakeNil hc | wakeLast _ hc | wakeMore _ hc
  | registerRead hc | unregister hc | spawnWorker _ hc | threadSpawn hc | blocking hc | park hc =>
    rw [hp] at hc
    cases hc

/-- The step of a task that is about to park. -/
theorem TaskStep.of_park {p : Park σ V} (hs : TaskStep P ch free sh t e)
    (hp : t.code = .park p) :
    e = { sh, pc := .switched ((t.goto (.parked p)).withState .waiting) } := by
  cases hs with
  | chanPoisoned hs | chanClosed hs =>
    cases hs with
    | send hc | recv hc | close hc | sendResume hc | recvResume hc => rw [hp] at hc; cases hc
  | park hc => rw [hp] at hc; cases hc; rfl
  | entry hc | go hc | gosched hc | currentTaskId hc | sleep hc | sleepOverflow hc | recvUnwrap hc
  | sendDelivered hc | sendBuffered hc | sendEnqueued hc | recvClosed hc | recvTake hc
  | recvRefill hc | recvBuf hc | recvEnqueued hc | close hc | groupPanic hc | add hc | waitZero hc
  | waitJoin hc | netFail hc | netAdd hc | ioSpawn _ hc | ioBlock _ hc | gopark hc | goready _ hc
  | done hc | goPush _ hc | sleepPush hc | wakeNil hc | wakeLast _ hc | wakeMore _ hc
  | registerRead hc | unregister hc | spawnWorker _ hc | threadSpawn hc | blocking hc
  | resumeSleep hc | resumeSend hc | resumeRecv hc | resumeWait hc | resumeNet hc
  | resumeGopark hc =>
    rw [hp] at hc
    cases hc

/-- The step of a task that unregisters its fd. -/
theorem TaskStep.of_unregister {fd : RawFd} {k : σ} (hs : TaskStep P ch free sh t e)
    (hp : t.code = .unregister fd k) :
    e = t.continue ({ sh with net := sh.net.remove fd }.record [.returned t.id (.netPollRead fd)])
      (.user k) := by
  cases hs with
  | unregister hc => rw [hp] at hc; cases hc; rfl
  | chanPoisoned hs | chanClosed hs =>
    cases hs <;> simp_all only [reduceCtorEq]
  | _ => simp_all only [reduceCtorEq]

/-- `enter_blocking`. -/
theorem TaskStep.of_io {x k : σ} (hs : TaskStep P ch free sh t e) (hp : t.code = .user x)
    (hop : P.code x = .io k) :
    ((sh.queue.runnable ≠ [] ∧ sh.queue.idleWorkers = 0) ∧ e = t.continue sh (.spawnWorker k)) ∨
    ((sh.queue.runnable = [] ∨ sh.queue.idleWorkers ≠ 0) ∧ e = t.continue sh (.blocking k)) := by
  cases hs with
  | ioSpawn _ hc hx hr hi =>
    rw [hp] at hc
    cases hc
    rw [hop] at hx
    cases hx
    exact .inl ⟨⟨hr, hi⟩, rfl⟩
  | ioBlock _ hc hx hr =>
    rw [hp] at hc
    cases hc
    rw [hop] at hx
    cases hx
    exact .inr ⟨hr, rfl⟩
  | chanPoisoned hs | chanClosed hs =>
    cases hs <;> simp_all
  | _ => simp_all

end TaskInversion

/-! ### Workers

One constructor for each branch of `workerStep`. The step of a running task is one of them.
-/

/-- What a worker at a point `pc` can do in one step. -/
inductive WorkerStep (P : Program σ V) (ch : Choice) (free : Bool) (sh : Shared σ V) :
    Pc σ V → Effect σ V → Prop where
  /-- `worker_loop` counts itself in `all_workers`. -/
  | register {id} (hf : free = true) :
      WorkerStep P ch free sh (.start id)
        { sh := sh.withQueue { sh.queue with allWorkers := sh.queue.allWorkers + 1 }, pc := .top }
  /-- `runnable.pop_front()`; without a task the worker goes on to `POLLING`. -/
  | top (hf : free = true) : WorkerStep P ch free sh .top (tryPop sh .tryPoll)
  /-- Another worker holds `POLLING`. -/
  | casFail (hp : sh.polling = true) : WorkerStep P ch free sh .tryPoll { sh, pc := .idleNet }
  /-- The worker takes `POLLING`. -/
  | casWin (hp : sh.polling = false) :
      WorkerStep P ch free sh .tryPoll { sh := { sh with polling := true }, pc := .pollNet }
  /-- The poller samples `has_waiters`. -/
  | pollNet : WorkerStep P ch free sh .pollNet { sh, pc := .pollTimers sh.net.hasWaiters }
  /-- Nothing is pending: `try_poll_network` will return `false`. -/
  | pollTimersNone (hh : sh.timerHeap = []) :
      WorkerStep P ch free sh (.pollTimers false) { sh, pc := .giveUp }
  /-- Something is pending: the timers are checked before the wait. -/
  | pollTimersSome {net} (h : net = true ∨ sh.timerHeap ≠ []) :
      WorkerStep P ch free sh (.pollTimers net) { sh, pc := .timersNow (.before net) }
  /-- `POLLING` is cleared before the worker goes idle. -/
  | giveUp : WorkerStep P ch free sh .giveUp { sh := { sh with polling := false }, pc := .idleNet }
  /-- `check_timers` samples the clock, once for the whole loop. -/
  | timersNow {ph} : WorkerStep P ch free sh (.timersNow ph) { sh, pc := .timersLock ph sh.clock }
  /-- The heap is empty: `check_timers` returns `None`. -/
  | timersEmpty {ph now} (hh : sh.timerHeap = []) :
      WorkerStep P ch free sh (.timersLock ph now) { sh, pc := timersDone ph none }
  /-- The earliest entry is due, and is popped. -/
  | timersPop {ph now} (hh : TimerEntry.isPeek sh.timerHeap ch.peek = true)
      (hw : ch.peek.wakeTime ≤ now) :
      WorkerStep P ch free sh (.timersLock ph now)
        { sh := { sh with timerHeap := sh.timerHeap.erase ch.peek }.record
            [.timerPop ch.peek.taskId ch.peek.wakeTime now]
          pc := .timersReady ph now ch.peek.taskId }
  /-- The earliest entry is not due: `check_timers` returns its wake time. -/
  | timersWait {ph now} (hh : TimerEntry.isPeek sh.timerHeap ch.peek = true)
      (hw : now < ch.peek.wakeTime) :
      WorkerStep P ch free sh (.timersLock ph now)
        { sh, pc := timersDone ph (some ch.peek.wakeTime) }
  /-- The task of the popped entry is made ready, with the heap unlocked. -/
  | timersReady {ph now id} (hf : free = true) :
      WorkerStep P ch free sh (.timersReady ph now id)
        { sh := (sh.goready .timers id).1
          pc := .timersLock ph now
          notify := (sh.goready .timers id).2 }
  /-- The timeout is computed from a second sample of the clock. -/
  | timeout {net w} :
      WorkerStep P ch free sh (.timeout net w) { sh, pc := .poll net (timeoutMs w sh.clock) }
  /-- The first check has emptied the heap and no fd waits: no poll, but `true`. -/
  | nothingLeft :
      WorkerStep P ch free sh .nothingLeft { sh := { sh with polling := false }, pc := .top }
  /-- `epoll_wait` returns. -/
  | epollWait {ms} (he : sh.net.epollWaitOk sh.readable ch.events = true) :
      WorkerStep P ch free sh (.poll true ms) { sh, pc := .lookup ch.events }
  /-- No fd waits: `thread::sleep` for the timeout. -/
  | sleepStart {ms} (h0 : 0 < ms) :
      WorkerStep P ch free sh (.poll false ms) { sh, pc := .sleeping (sh.clock + ms * 1000000) }
  /-- A zero timeout: there is no sleep. -/
  | sleepSkip : WorkerStep P ch free sh (.poll false 0) { sh, pc := .timersNow (.after []) }
  /-- `thread::sleep` returns at its end or later. -/
  | sleepEnd {u} (hu : u ≤ sh.clock) :
      WorkerStep P ch free sh (.sleeping u) { sh, pc := .timersNow (.after []) }
  /-- The loop of `poll` collects the tasks of the reported fds. -/
  | lookup {events} :
      WorkerStep P ch free sh (.lookup events)
        { sh := sh.record ((sh.net.lookup events).map fun x => .reported x.2 x.1)
          pc := .timersNow (.after ((sh.net.lookup events).map (·.2))) }
  /-- `POLLING` is cleared before the collected tasks are woken. -/
  | release {ready} :
      WorkerStep P ch free sh (.release ready)
        { sh := { sh with polling := false }, pc := .wakeReady ready }
  /-- All collected tasks are woken. -/
  | wakeDone : WorkerStep P ch free sh (.wakeReady []) { sh, pc := .top }
  /-- One collected task is made ready. -/
  | wakeReady {id ready} (hf : free = true) :
      WorkerStep P ch free sh (.wakeReady (id :: ready))
        { sh := (sh.goready .poller id).1
          pc := .wakeReady ready
          notify := (sh.goready .poller id).2 }
  /-- The idle path samples `has_waiters`, -/
  | idleNet : WorkerStep P ch free sh .idleNet { sh, pc := .idleTimers sh.net.hasWaiters }
  /-- and the heap, both before it locks the queue. -/
  | idleTimers {net} :
      WorkerStep P ch free sh (.idleTimers net) { sh, pc := .goIdle net sh.hasTimers }
  /-- The section of the idle path: count, test, and wait or exit. -/
  | goIdle {net timers} (hf : free = true) :
      WorkerStep P ch free sh (.goIdle net timers) (idleStep net timers sh)
  /-- `condvar.wait` returns, with the queue locked again. -/
  | notified (hf : free = true) : WorkerStep P ch free sh .notified (wakeStep sh)
  /-- The test after the wait fails on `has_waiters`. -/
  | termNetYes (hn : sh.net.hasWaiters = true) : WorkerStep P ch free sh .termNet (tryPop sh .top)
  /-- No fd waits; the test goes on to the heap. -/
  | termNetNo (hn : sh.net.hasWaiters = false) :
      WorkerStep P ch free sh .termNet { sh, pc := .termTimers }
  /-- The test succeeds, and the worker leaves its loop. -/
  | termExit (ht : sh.queue.shouldTerminate false sh.hasTimers = true) :
      WorkerStep P ch free sh .termTimers (exitLoop sh)
  /-- The test fails: the worker pops a task if there is one. -/
  | termStay (ht : sh.queue.shouldTerminate false sh.hasTimers = false) :
      WorkerStep P ch free sh .termTimers (tryPop sh .top)
  /-- The task of the worker takes a step. -/
  | run {t e} (hs : TaskStep P ch free sh t e) : WorkerStep P ch free sh (.run t) e
  /-- A dead task is dropped. -/
  | drop {t} (hd : t.state = .dead) : WorkerStep P ch free sh (.switched t) { sh, pc := .top }
  /-- A waiting task is stored, or requeued when its token is there. -/
  | park {t} (hf : free = true) (hw : t.state = .waiting) :
      WorkerStep P ch free sh (.switched t)
        { sh := (sh.parkTask P.variant t).1, pc := .top, notify := (sh.parkTask P.variant t).2 }
  /-- A task that only yielded goes to the back of the queue. -/
  | requeue {t} (hf : free = true) (hd : t.state ≠ .dead) (hw : t.state ≠ .waiting) :
      WorkerStep P ch free sh (.switched t) { sh := sh.requeue t, pc := .top }

section WorkerInversion

variable {P : Program σ V} {ch : Choice} {free : Bool} {sh : Shared σ V} {pc : Pc σ V}
  {e : Effect σ V}

/-- A worker takes a step of its task, or runs none. -/
theorem WorkerStep.task_or (hs : WorkerStep P ch free sh pc e) :
    (∃ t, pc = .run t ∧ TaskStep P ch free sh t e) ∨ ∀ t, pc ≠ .run t := by
  cases hs with
  | run hs => exact .inl ⟨_, rfl, hs⟩
  | _ => exact .inr fun t => nofun

/-- The branches of one turn of `check_timers`. -/
private theorem timersStep_inv {ph : Phase} {now : Instant}
    (hs : timersStep ch ph now sh = some e) :
    WorkerStep P ch free sh (.timersLock ph now) e := by
  unfold timersStep at hs
  split at hs
  · cases hs; exact .timersEmpty (List.isEmpty_iff.mp ‹_›)
  · split at hs
    · split at hs
      · cases hs; exact .timersPop ‹_› ‹_›
      · cases hs; exact .timersWait ‹_› (Nat.lt_of_not_le ‹_›)
    · cases hs

/-- The branches behind a context switch. -/
private theorem switchedStep_inv {t : Task σ V} (hs : switchedStep P free t sh = some e) :
    WorkerStep P ch free sh (.switched t) e := by
  unfold switchedStep at hs
  split at hs
  · cases hs; exact .drop ‹_›
  · split at hs
    · cases hs; exact .park ‹_› ‹_›
    · cases hs
  · split at hs
    · cases hs; exact .requeue ‹_› ‹_› ‹_›
    · cases hs

/-- **Inversion of a worker's step.** -/
theorem workerStep_inv (hs : workerStep P ch free sh pc = some e) :
    WorkerStep P ch free sh pc e := by
  cases pc <;> simp only [workerStep, Option.some.injEq, reduceCtorEq] at hs
  case start | top | timersReady | goIdle | notified =>
    split at hs
    · cases hs; constructor; assumption
    · cases hs
  case tryPoll =>
    split at hs
    · cases hs; exact .casFail ‹_›
    · cases hs; exact .casWin (Bool.eq_false_of_not_eq_true ‹_›)
  case pollTimers net =>
    split at hs
    · rename_i h
      simp only [Shared.hasTimers, Bool.not_not, Bool.and_eq_true, Bool.not_eq_true',
        List.isEmpty_iff] at h
      obtain ⟨rfl, hh⟩ := h
      cases hs; exact .pollTimersNone hh
    · rename_i h
      simp only [Shared.hasTimers, Bool.not_not, Bool.and_eq_true, Bool.not_eq_true',
        List.isEmpty_iff, not_and] at h
      cases hs
      refine .pollTimersSome ?_
      cases net
      · exact .inr (h rfl)
      · exact .inl rfl
  case timersLock => exact timersStep_inv hs
  case poll net ms =>
    cases net with
    | true =>
      simp only at hs
      split at hs
      · cases hs; exact .epollWait ‹_›
      · cases hs
    | false =>
      simp only at hs
      split at hs
      · cases hs; exact .sleepStart ‹_›
      · obtain rfl : ms = 0 := by omega
        cases hs; exact .sleepSkip
  case sleeping =>
    split at hs
    · cases hs; exact .sleepEnd ‹_›
    · cases hs
  case wakeReady ready =>
    cases ready with
    | nil => cases hs; exact .wakeDone
    | cons id ready =>
      simp only at hs
      split at hs
      · cases hs; exact .wakeReady ‹_›
      · cases hs
  case termNet =>
    split at hs
    · cases hs; exact .termNetYes ‹_›
    · cases hs; exact .termNetNo (Bool.eq_false_of_not_eq_true ‹_›)
  case termTimers =>
    split at hs
    · cases hs; exact .termExit ‹_›
    · cases hs; exact .termStay (Bool.eq_false_of_not_eq_true ‹_›)
  case run => exact .run (taskStep_inv hs)
  case switched => exact switchedStep_inv hs
  all_goals
    cases hs
    constructor

end WorkerInversion

/-! ### The whole program

A step of the program is one of a worker, put into the state, one of the main thread, or one of the
environment. The notified workers are those that the condition variable lets go on.
-/

/-- The threads after a section that notifies `n`, with `pick` the thread that `notify_one`
    wakes: none has moved, except that some have left `condvar.wait`. -/
inductive Notified (ws : List (Pc σ V)) : Notify → List (Pc σ V) → Prop where
  /-- Nobody is notified. -/
  | none : Notified ws .none ws
  /-- `notify_one` wakes one of the blocked threads. -/
  | one {i} (h : ws[i]? = some .blocked) : Notified ws .one (ws.set i .notified)
  /-- `notify_one` finds no blocked thread and is lost. -/
  | idle (h : ∀ pc ∈ ws, pc ≠ .blocked) : Notified ws .one ws
  /-- `notify_all`. -/
  | all : Notified ws .all (ws.map Pc.wakeUp)

/-- The test finds the workers in `condvar.wait`. -/
theorem Pc.isBlocked_iff (pc : Pc σ V) : pc.isBlocked = true ↔ pc = .blocked := by
  cases pc <;> simp [Pc.isBlocked]

/-- What the condition variable can do. -/
theorem applyNotify_inv {pick : Nat} {ws ws' : List (Pc σ V)} {n : Notify}
    (h : applyNotify pick ws n = some ws') : Notified ws n ws' := by
  cases n with
  | none => cases h; exact .none
  | one =>
    simp only [applyNotify] at h
    split at h
    · split at h
      · cases h; exact .one ‹_›
      · cases h
    · rename_i hb
      cases h
      refine .idle (fun pc hpc hbl => hb ?_)
      exact List.any_eq_true.mpr ⟨pc, hpc, (Pc.isBlocked_iff pc).mpr hbl⟩
  | all => cases h; exact .all

/-- What the main thread can do in one step. -/
inductive MainStep (s : State σ V) : State σ V → Prop where
  /-- `go` takes the next id. -/
  | go {f rest} (hm : s.main = ⟨.idle, .go f :: rest⟩) :
      MainStep s { s with
        sh := { s.sh with nextTaskId := s.sh.nextTaskId + 1 }
        main := ⟨.goPush s.sh.nextTaskId f, rest⟩ }
  /-- `start_runtime` reserves the ids of its workers. -/
  | start {n rest} (hm : s.main = ⟨.idle, .startRuntime n :: rest⟩)
      (hf : queueFree s.workers = true) :
      MainStep s { s with
        sh := s.sh.withQueue { s.sh.queue with nextWorkerId := n }
        main := ⟨.spawn 0 n [], rest⟩ }
  /-- `go` queues the task and notifies. -/
  | goPush {id f rest ws} (hm : s.main = ⟨.goPush id f, rest⟩)
      (hf : queueFree s.workers = true) (hn : Notified s.workers (s.sh.pushNew id f).2 ws) :
      MainStep s { sh := (s.sh.pushNew id f).1, workers := ws, main := ⟨.idle, rest⟩ }
  /-- The next worker thread is spawned. -/
  | spawn {i n handles rest} (hm : s.main = ⟨.spawn i n handles, rest⟩) (hi : i < n) :
      MainStep s { s with
        workers := s.workers ++ [.start i]
        main := ⟨.spawn (i + 1) n (handles ++ [s.workers.length]), rest⟩ }
  /-- All workers are spawned. -/
  | spawned {i n handles rest} (hm : s.main = ⟨.spawn i n handles, rest⟩) (hi : n ≤ i) :
      MainStep s { s with main := ⟨.join handles, rest⟩ }
  /-- All handles are joined: `start_runtime` returns. -/
  | joined {rest} (hm : s.main = ⟨.join [], rest⟩) :
      MainStep s { s with main := ⟨.idle, rest⟩ }
  /-- `join` returns once its thread has exited. -/
  | join {w handles rest} (hm : s.main = ⟨.join (w :: handles), rest⟩)
      (hw : s.workers[w]? = some .exited) :
      MainStep s { s with main := ⟨.join handles, rest⟩ }

/-- The branches of the main thread. -/
theorem mainStep_inv {ch : Choice} {s s' : State σ V} (h : mainStep ch s = some s') :
    MainStep s s' := by
  obtain ⟨sh, workers, ⟨pc, rest⟩⟩ := s
  simp only [mainStep] at h
  split at h
  · cases h
  · cases h; exact .go rfl
  · split at h
    · cases h; exact .start rfl ‹_›
    · cases h
  · split at h
    · obtain ⟨ws, hws, rfl⟩ := Option.map_eq_some_iff.mp h
      exact .goPush rfl ‹_› (applyNotify_inv hws)
    · cases h
  · split at h
    · cases h; exact .spawn rfl ‹_›
    · cases h; exact .spawned rfl (by omega)
  · cases h; exact .joined rfl
  · split at h
    · cases h; exact .join rfl ‹_›
    · cases h

/-- What the whole program can do in one step. -/
inductive Next (P : Program σ V) (s : State σ V) : Act → State σ V → Prop where
  /-- A worker takes a step: its effect, then the notification, then the thread it spawned. -/
  | worker {w ch pc e ws} (hw : s.workers[w]? = some pc)
      (hs : WorkerStep P ch (queueFree s.workers) s.sh pc e)
      (hn : Notified (s.workers.set w e.pc) e.notify ws) :
      Next P s (.worker w ch)
        { s with sh := e.sh, workers := ws ++ (e.spawn.map fun id => Pc.start id).toList }
  /-- The main thread takes a step. -/
  | main {ch s'} (hs : MainStep s s') : Next P s (.main ch) s'
  /-- A thread leaves `condvar.wait` without a notification. -/
  | spurious {w} (hw : s.workers[w]? = some .blocked) :
      Next P s (.spurious w) { s with workers := s.workers.set w .notified }
  /-- Time passes. -/
  | tick {d} : Next P s (.tick d) { s with sh := { s.sh with clock := s.sh.clock + d } }
  /-- An fd becomes readable, or stops being so. -/
  | setReadable {fd b} :
      Next P s (.setReadable fd b)
        { s with sh := { s.sh with readable := fun x => if x = fd then b else s.sh.readable x } }

/-- **Inversion of a step of the program.** -/
theorem next_inv {P : Program σ V} {a : Act} {s s' : State σ V} (h : next P a s = some s') :
    s.sh.aborted = none ∧ Next P s a s' := by
  unfold next at h
  split at h
  · cases h
  · rename_i ha
    refine ⟨by simpa using ha, ?_⟩
    cases a with
    | worker w ch =>
      obtain ⟨pc, hw, h⟩ := Option.bind_eq_some_iff.mp h
      obtain ⟨e, he, h⟩ := Option.bind_eq_some_iff.mp h
      obtain ⟨ws, hws, rfl⟩ := Option.map_eq_some_iff.mp h
      exact .worker hw (workerStep_inv he) (applyNotify_inv hws)
    | main ch => exact .main (mainStep_inv h)
    | spurious w =>
      simp only at h
      split at h
      · cases h; exact .spurious ‹_›
      · cases h
    | tick d => cases h; exact .tick
    | setReadable fd b => cases h; exact .setReadable

end MyGoroutine
