import MyGoroutine.Model.Task
import Mathlib.Data.Multiset.AddSub

namespace MyGoroutine

/-!
# Finite programs of the first three runtimes (`runtime/green.rs`, `multi.rs`, `spawn.rs`)

These runtimes know nothing but tasks that yield, spawn further tasks and block in a system
call.  A closure is modelled by the finite sequence of what it does, a `Script`; the closures
it passes to `go` are scripts themselves, nested to any depth.

* `Script` — what a closure does, step by step;
* `Script.steps`, `Script.trace` — the steps that one task with that closure makes, in program
  order, and the whole of what is seen of it, its resumptions included;
* `Script.yields` — how often the task yields;
* `Script.tree` — the closures of the task and of all tasks transitively spawned by it;
* `Script.size` — how long these tasks can keep the threads busy.
-/

/-- The finite sequence of what a closure does. -/
inductive Script (α : Type) where
  /-- The closure returns. -/
  | done
  /-- A computation of its own. -/
  | act (a : α) (k : Script α)
  /-- A blocking operation; in `spawn.rs` through a wrapper of `mod io`. -/
  | io (a : α) (k : Script α)
  | gosched (k : Script α)
  | go (f : Script α) (k : Script α)

/-- What is seen of one task. -/
inductive Seen (α : Type) where
  /-- The scheduler switches to the task. -/
  | resume
  | act (a : α)
  | io (a : α)
  | gosched
  | go (f : Script α)
  /-- The closure has returned, and the task is dead. -/
  | finish

namespace Script

variable {α : Type}

/-- What a task does from here on; after a yield it has to be resumed. -/
def steps : Script α → List (Seen α)
  | done => [.finish]
  | act a k => .act a :: k.steps
  | io a k => .io a :: k.steps
  | gosched k => .gosched :: .resume :: k.steps
  | go f k => .go f :: k.steps

/-- All that is seen of a task with this closure, from its first resumption to its end. -/
def trace (f : Script α) : List (Seen α) := .resume :: f.steps

/-- The number of times the closure calls `gosched`. -/
def yields : Script α → Nat
  | done => 0
  | act _ k => k.yields
  | io _ k => k.yields
  | gosched k => k.yields + 1
  | go _ k => k.yields

/-- The closures that are still to be passed to `go`, here and in the tasks spawned so. -/
def spawns : Script α → Multiset (Script α)
  | done => 0
  | act _ k => k.spawns
  | io _ k => k.spawns
  | gosched k => k.spawns
  | go f k => f ::ₘ (f.spawns + k.spawns)

/-- The closure itself and those of all tasks transitively spawned. -/
def tree (f : Script α) : Multiset (Script α) := f ::ₘ f.spawns

/-- The number of scheduling steps that a task with this closure takes up to its disposal, those of
    the tasks spawned by it included; a blocking operation may also spawn a worker thread, which
    makes one step more. -/
def size : Script α → Nat
  | done => 2
  | act _ k => 1 + k.size
  | io _ k => 5 + k.size
  | gosched k => 3 + k.size
  | go f k => 3 + f.size + k.size

end Script

/-- Is it a resumption? -/
def Seen.isResume {α : Type} : Seen α → Bool
  | .resume => true
  | _ => false

/-- A script that yields `n` times is resumed `n` times. -/
theorem Script.countP_steps {α : Type} (f : Script α) :
    f.steps.countP Seen.isResume = f.yields := by
  induction f with
  | done => rfl
  | act _ k ih => exact (List.countP_cons_of_neg Bool.false_ne_true).trans ih
  | io _ k ih => exact (List.countP_cons_of_neg Bool.false_ne_true).trans ih
  | gosched k ih =>
    show (Seen.gosched :: Seen.resume :: k.steps).countP Seen.isResume = k.yields + 1
    rw [List.countP_cons_of_neg Bool.false_ne_true, List.countP_cons_of_pos rfl, ih]
  | go _ k _ ih => exact (List.countP_cons_of_neg Bool.false_ne_true).trans ih

/-- A task is resumed once at its start and once after each yield. -/
theorem Script.countP_trace {α : Type} (f : Script α) :
    f.trace.countP Seen.isResume = f.yields + 1 := by
  rw [trace, List.countP_cons_of_pos rfl, countP_steps]

end MyGoroutine
