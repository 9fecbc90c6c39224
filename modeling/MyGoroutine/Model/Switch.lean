import MyGoroutine.Lib.Transition
import MyGoroutine.Model.Arch
import MyGoroutine.Model.Task

namespace MyGoroutine.Switch

/-!
# Who runs on which stack (`common.rs`, and `worker_loop` and `switch_to_scheduler` of the runtimes)

Every worker thread runs a scheduler, or the task in its `current_task` slot.  Memory and registers
are those of the machine; queues and the other tables hold `Task` values, which are moved: into the
slot of a worker and out of it again, with the `Context` inside.

* `Party` — what can be switched out: the scheduler of a worker, or a task;
* `Layout` — where the workers keep their contexts, slots and stacks;
* `State`, `Act`, `next` — the running party does what it likes to its registers and to memory that
  is not another party's stack or a context (`work`); a task is created (`go`), moved into a slot
  (`setCurrent`), entered, switched out (`switchToScheduler`), moved out again (`takeCurrent`) or
  dropped (`dropCurrent`);
* `machine` — the transition system of `n` workers.
-/

/-- Who runs on a thread. -/
inductive Party (n : Nat) where
  /-- The loop of worker `w`. -/
  | scheduler (w : Fin n)
  /-- A task. -/
  | task (id : TaskId)
deriving DecidableEq, Repr

/-- Where the workers keep what they have, all in different places. -/
structure Layout (P : Platform) (n : Nat) where
  /-- `Worker::context`. -/
  context : Fin n → Word
  /-- The context inside `Worker::current_task`. -/
  slot : Fin n → Word
  /-- The stack of the thread. -/
  stack : Fin n → Region
  /-- A worker's own places are apart from each other, -/
  context_slot : ∀ w, (P.contextAt (context w)).apart (P.contextAt (slot w)) = true
  context_stack : ∀ w, (P.contextAt (context w)).apart (stack w) = true
  slot_stack : ∀ w, (P.contextAt (slot w)).apart (stack w) = true
  /-- and from the places of the other workers. -/
  workers : ∀ w w', w ≠ w' →
    ∀ r ∈ [P.contextAt (context w), P.contextAt (slot w), stack w],
      ∀ r' ∈ [P.contextAt (context w'), P.contextAt (slot w'), stack w'], r.apart r' = true

/-- Where a `Task` value is. -/
inductive Place (P : Platform) (n : Nat) where
  /-- In a queue or a table, with its context. -/
  | queued (context : P.F → Word)
  /-- In `current_task` of worker `w`, its context in memory. -/
  | slot (w : Fin n)

/-- A task, as far as a switch is concerned with it. -/
structure Task (P : Platform) (n : Nat) where
  /-- The address of `_stack`. -/
  stack : Word
  place : Place P n

/-- The block that `prepare_stack` has allocated. -/
def Task.block {P : Platform} {n : Nat} (t : Task P n) : Region := ⟨t.stack, stackSize⟩

/-- What the history records. -/
inductive Event (P : Platform) (n : Nat) where
  /-- `go` has built the context of a task. -/
  | created (id : TaskId) (stack entry closurePtr : Word)
  /-- A call of `context_switch` on worker `w`, and what it goes on with.  The caller `old` expects
      the registers `out` when the call returns to `ret`; `new` finds the registers `file` at `pc`. -/
  | switched (w : Fin n) (old : Party n) (out : P.F → Word) (ret : Word) (new : Party n)
      (file : P.F → Word) (pc : Word)

/-- The memory, the threads and the tasks. -/
structure State (P : Platform) (n : Nat) where
  /-- The memory that the threads share. -/
  mem : Mem
  /-- The preserved registers of each thread. -/
  file : Fin n → P.F → Word
  /-- The task in `current_task`. -/
  slot : Fin n → Option TaskId
  /-- The thread runs the task, not the scheduler. -/
  onTask : Fin n → Bool
  /-- The tasks that there are. -/
  tasks : TaskId → Option (Task P n)
  /-- The id of the next task. -/
  nextId : TaskId
  /-- The history; no step reads it. -/
  log : List (Event P n)

/-- What the threads can do. -/
inductive Act (P : Platform) (n : Nat) where
  /-- The party that runs on worker `w` sets its registers and writes to memory. -/
  | work (w : Fin n) (file : P.F → Word) (writes : List (Word × BitVec 8))
  /-- A task is created, with its stack in a fresh block. -/
  | go (stack entry closurePtr : Word)
  /-- The worker puts a task into `current_task`, -/
  | setCurrent (w : Fin n) (id : TaskId)
  /-- and switches to it. -/
  | enter (w : Fin n) (ret : Word)
  /-- The running task switches back. -/
  | switchToScheduler (w : Fin n) (ret : Word)
  /-- The worker moves the task to a queue or a table, -/
  | takeCurrent (w : Fin n)
  /-- or drops it. -/
  | dropCurrent (w : Fin n)

section Steps

variable {P : Platform} {n : Nat} (L : Layout P n)

/-- All that the workers have. -/
def Layout.regions (w : Fin n) : List Region :=
  [P.contextAt (L.context w), P.contextAt (L.slot w), L.stack w]

/-- What the party that runs on worker `w` must not touch on its own worker: the scheduler's context
    and stack while a task runs, and the context of a task that does not. -/
def State.ownForeign (s : State P n) (w : Fin n) : List Region :=
  if s.onTask w then [P.contextAt (L.context w), L.stack w]
  else if (s.slot w).isSome then [P.contextAt (L.slot w)] else []

/-- The task `id` runs on worker `w`. -/
def State.runs (s : State P n) (w : Fin n) (id : TaskId) : Bool :=
  s.onTask w && decide (s.slot w = some id)

/-- The blocks of the tasks that are there, those that `skip` says aside. -/
def State.blocks (s : State P n) (skip : TaskId → Bool) : List Region :=
  (List.range s.nextId).flatMap fun id =>
    if skip id then [] else ((s.tasks id).map Task.block).toList

/-- The other parties' stacks, and all contexts but its own. -/
def State.foreign (s : State P n) (w : Fin n) : List Region :=
  ((List.finRange n).filter (· ≠ w)).flatMap L.regions ++ s.ownForeign L w ++ s.blocks (s.runs w)

/-- The block at `base` is one that the allocator may return. -/
def State.allocatable (s : State P n) (base : Word) : Bool :=
  decide (base.toNat + stackSize < 2 ^ 64) &&
    ((List.finRange n).flatMap L.regions ++ s.blocks fun _ => false).all
      fun r => r.apart ⟨base, stackSize⟩

/-- Write single bytes. -/
def writeBytes (m : Mem) (writes : List (Word × BitVec 8)) : Mem :=
  writes.foldl (fun m p x => if x = p.1 then p.2 else m x) m

/-- The processor of a thread; the other registers play no part. -/
def cpu (file : P.F → Word) (m : Mem) : Cpu P.F where
  regs
    | .saved f => file f
    | _ => 0
  mem := m

/-- The function `f`, changed at `i`. -/
def set {ι β : Type} [DecidableEq ι] (f : ι → β) (i : ι) (b : β) : ι → β :=
  fun j => if j = i then b else f j

/-- `context_switch(old, new)` on worker `w`, from the party `p` to the party `q`. -/
def State.switch (s : State P n) (w : Fin n) (p q : Party n) (old new ret : Word) : State P n :=
  let r := P.contextSwitch old new ret (cpu (s.file w) s.mem)
  { s with
    mem := r.1.mem
    file := set s.file w r.1.file
    onTask := set s.onTask w (!s.onTask w)
    log := s.log ++ [.switched w p (P.view (s.file w) ret) ret q r.1.file r.2] }

/-- One step of one thread. -/
def next (a : Act P n) (s : State P n) : Option (State P n) :=
  match a with
  | .work w file writes =>
    if writes.all fun p => (s.foreign L w).all fun r => !decide (p.1 ∈ r) then
      some { s with mem := writeBytes s.mem writes, file := set s.file w file }
    else none
  | .go stack entry closurePtr =>
    if s.allocatable L stack then
      let r := P.contextNew (prepareStack stack) entry closurePtr s.mem
      some { s with
        mem := r.1
        tasks := set s.tasks s.nextId (some ⟨stack, .queued r.2⟩)
        nextId := s.nextId + 1
        log := s.log ++ [.created s.nextId stack entry closurePtr] }
    else none
  | .setCurrent w id =>
    match s.onTask w, s.slot w, s.tasks id with
    | false, none, some ⟨stack, .queued c⟩ =>
      some { s with
        mem := P.writeContext s.mem (L.slot w) c
        slot := set s.slot w (some id)
        tasks := set s.tasks id (some ⟨stack, .slot w⟩) }
    | _, _, _ => none
  | .enter w ret =>
    match s.onTask w, s.slot w with
    | false, some id =>
      -- the call pushes its return address on the stack of the thread
      if (P.footprint (s.file w)).within (L.stack w) then
        some (s.switch w (.scheduler w) (.task id) (L.context w) (L.slot w) ret)
      else none
    | _, _ => none
  | .switchToScheduler w ret =>
    match s.onTask w, s.slot w with
    | true, some id =>
      -- the call pushes its return address on the stack of the task
      if (s.tasks id).any fun t => (P.footprint (s.file w)).within t.block then
        some (s.switch w (.task id) (.scheduler w) (L.slot w) (L.context w) ret)
      else none
    | _, _ => none
  | .takeCurrent w =>
    match s.onTask w, s.slot w with
    | false, some id =>
      (s.tasks id).map fun t =>
        { s with
          slot := set s.slot w none
          tasks := set s.tasks id (some { t with place := .queued (P.readContext s.mem (L.slot w)) }) }
    | _, _ => none
  | .dropCurrent w =>
    match s.onTask w, s.slot w with
    | false, some id => some { s with slot := set s.slot w none, tasks := set s.tasks id none }
    | _, _ => none

end Steps

/-- The transition system of `n` workers, in any memory and with any registers. -/
def machine (P : Platform) {n : Nat} (L : Layout P n) : System (State P n) (Act P n) where
  init s := ∃ mem file, s =
    { mem, file, slot := fun _ => none, onTask := fun _ => false, tasks := fun _ => none,
      nextId := 0, log := [] }
  next := next L

end MyGoroutine.Switch
