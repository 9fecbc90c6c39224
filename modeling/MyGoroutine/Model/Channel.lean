import MyGoroutine.Model.Task
import Mathlib.Data.List.AList

namespace MyGoroutine

/-!
# Channels — the critical sections of `Chan` (`runtime/channel.rs`)

Each method of `Chan` is one or two sections under the mutex of `ChanInner`, with the
calls of `goready` and `gopark` between them.  The sections are functions on `ChanInner`;
what the caller does after unlocking is told by their outcome.

* `Mutex.lock` — `lock().unwrap()`, a section, and the poisoning of the mutex when the
  section unwinds;
* `ChanInner.send`, `ChanInner.sendResume` — the two sections of `send`;
* `ChanInner.recv`, `ChanInner.recvResume` — the two sections of `recv`;
* `ChanInner.close` — the section of `close`.
-/

/-- A `std::sync::Mutex` that is not held: its value and its poison flag. -/
structure Mutex (α : Type) where
  val : α
  poisoned : Bool

/-- `lock().unwrap()` followed by a section.  On a poisoned mutex the `unwrap` panics before
    the section starts; a panic inside the section drops the guard while unwinding, which
    poisons the mutex and keeps what the section has written so far. -/
def Mutex.lock {α β : Type} (m : Mutex α) (section_ : α → α × Except Panic β) :
    Mutex α × Except Panic β :=
  if m.poisoned then (m, .error .poisoned)
  else
    match section_ m.val with
    | (a, .ok b) => ({ m with val := a }, .ok b)
    | (a, .error p) => ({ val := a, poisoned := true }, .error p)

/-- A sender waiting in the `sendq`. -/
structure SendWaiter (V : Type) where
  /-- The sender. -/
  taskId : TaskId
  /-- The value it wants to send. -/
  data : V

/-- What a channel has under its mutex. -/
structure ChanInner (V : Type) where
  /-- The buffered values. -/
  buf : List V
  /-- The capacity; zero for an unbuffered channel. -/
  bufCap : Nat
  /-- The parked senders, with their values. -/
  sendq : List (SendWaiter V)
  /-- The parked receivers. -/
  recvq : List TaskId
  /-- The values left for receivers that have not resumed yet. -/
  delivered : AList (fun _ : TaskId => V)
  /-- `close` has been called. -/
  closed : Bool

/-- A channel. -/
abbrev Chan (V : Type) := Mutex (ChanInner V)

/-- `Chan::with_capacity`; `Chan::new` is the capacity `0`. -/
def Chan.withCapacity (V : Type) (cap : Nat) : Chan V where
  val := { buf := [], bufCap := cap, sendq := [], recvq := [], delivered := ∅, closed := false }
  poisoned := false

/-- What the first section of `send` leaves to do. -/
inductive SendOutcome where
  /-- `goready(receiver_id)`, then return. -/
  | delivered (receiverId : TaskId)
  | buffered
  /-- The waiter is in the `sendq`: `gopark`. -/
  | enqueued
deriving DecidableEq

/-- What the first section of `recv` leaves to do. -/
inductive RecvOutcome (V : Type) where
  /-- Return `None`. -/
  | closed
  /-- The waiter left the `sendq`: `goready(sender_id)`, then return `Some(data)`. -/
  | fromSender (sender : SendWaiter V) (data : V)
  /-- Return `Some(data)`. -/
  | fromBuf (data : V)
  /-- The receiver is in the `recvq`: `gopark`. -/
  | enqueued

variable {V : Type}

namespace ChanInner

/-- `Chan::send`, the section before `gopark`. -/
def send (taskId : TaskId) (data : V) (inner : ChanInner V) :
    ChanInner V × Except Panic SendOutcome :=
  if inner.closed then (inner, .error .sendOnClosed)
  else
    match inner.recvq with
    | receiverId :: recvq =>
      ({ inner with recvq, delivered := inner.delivered.insert receiverId data },
        .ok (.delivered receiverId))
    | [] =>
      if inner.buf.length < inner.bufCap then
        ({ inner with buf := inner.buf ++ [data] }, .ok .buffered)
      else
        ({ inner with sendq := inner.sendq ++ [{ taskId, data }] }, .ok .enqueued)

/-- `Chan::send`, the section after `gopark`. -/
def sendResume (inner : ChanInner V) : ChanInner V × Except Panic Unit :=
  if inner.closed then (inner, .error .sendOnClosed) else (inner, .ok ())

/-- `Chan::recv`, the section before `gopark`. -/
def recv (taskId : TaskId) (inner : ChanInner V) : ChanInner V × Except Panic (RecvOutcome V) :=
  if inner.closed && inner.sendq.isEmpty && inner.buf.isEmpty then (inner, .ok .closed)
  else
    match inner.sendq with
    | sender :: sendq =>
      if inner.bufCap = 0 then ({ inner with sendq }, .ok (.fromSender sender sender.data))
      else
        match inner.buf with
        | data :: buf => ({ inner with sendq, buf := buf ++ [sender.data] },
            .ok (.fromSender sender data))
        -- `inner.buf.pop_front().unwrap()`
        | [] => ({ inner with sendq }, .error .unwrapNone)
    | [] =>
      match inner.buf with
      | data :: buf => ({ inner with buf }, .ok (.fromBuf data))
      | [] =>
        if inner.closed then (inner, .ok .closed)
        else ({ inner with recvq := inner.recvq ++ [taskId] }, .ok .enqueued)

/-- `Chan::recv`, the section after `gopark`. -/
def recvResume (taskId : TaskId) (inner : ChanInner V) :
    ChanInner V × Except Panic (Option V) :=
  ({ inner with delivered := inner.delivered.erase taskId },
    .ok (inner.delivered.lookup taskId))

/-- `Chan::close`: the receivers and senders it drains are woken after the section. -/
def close (inner : ChanInner V) :
    ChanInner V × Except Panic (List TaskId × List (SendWaiter V)) :=
  if inner.closed then (inner, .error .closeOfClosed)
  else ({ inner with closed := true, recvq := [], sendq := [] },
    .ok (inner.recvq, inner.sendq))

end ChanInner

end MyGoroutine
