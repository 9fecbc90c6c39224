import MyGoroutine.Model.Channel
import Mathlib.Algebra.Ring.Int.Defs

namespace MyGoroutine

/-!
# Wait groups — the critical sections of `WaitGroup` (`sync.rs`)

* `WaitGroupInner.add` — the section of `add` (and of `done`, which is `add(-1)`): the
  waiters it returns are woken after the section;
* `WaitGroupInner.wait` — the section of `wait` before `gopark`.

The counter is an `i32`: built with overflow checks the addition panics before it stores
anything, built without them it wraps.
-/

/-- What a wait group has under its mutex. -/
structure WaitGroupInner where
  /-- The `i32` counter. -/
  counter : Int32
  /-- The tasks that wait for zero. -/
  waiters : List TaskId

/-- A wait group. -/
abbrev WaitGroup := Mutex WaitGroupInner

/-- `WaitGroup::new`. -/
def WaitGroup.new : WaitGroup where
  val := { counter := 0, waiters := [] }
  poisoned := false

namespace WaitGroupInner

/-- The exact sum fits in an `i32`. -/
def addFits (a b : Int32) : Bool :=
  decide (-2 ^ 31 ≤ a.toInt + b.toInt) && decide (a.toInt + b.toInt < 2 ^ 31)

/-- `WaitGroup::add`. -/
def add (overflowChecks : Bool) (delta : Int32) (inner : WaitGroupInner) :
    WaitGroupInner × Except Panic (List TaskId) :=
  if overflowChecks && !addFits inner.counter delta then (inner, .error .addOverflow)
  else
    let inner := { inner with counter := inner.counter + delta }
    if inner.counter < 0 then (inner, .error .negativeCounter)
    else if inner.counter == 0 && !inner.waiters.isEmpty then
      ({ inner with waiters := [] }, .ok inner.waiters)
    else (inner, .ok [])

/-- `WaitGroup::wait`, the section before `gopark`; the answer tells whether to park. -/
def wait (taskId : TaskId) (inner : WaitGroupInner) : WaitGroupInner × Except Panic Bool :=
  if inner.counter == 0 then (inner, .ok false)
  else ({ inner with waiters := inner.waiters ++ [taskId] }, .ok true)

end WaitGroupInner

end MyGoroutine
