import MyGoroutine.Yield.Refine

namespace MyGoroutine.Yield

/-!
# Every run is finite

Each step of a thread uses up something: a piece of a closure, a place in the queue, a worker's
last look at it, a call of the main thread.  A task counts with all tasks that it will spawn, so
that `go` makes the sum smaller although the queue grows.

* `Code.size`, `Pc.size`, `Shared.size`, `mainSize` — the number of steps that are left, worker
  threads and children included;
* `loopStep_size`, `next_size` — each step makes the sum smaller;
* `run_length_le_size` — hence no interleaving is longer than the size of the main thread's calls.
-/

variable {α : Type}

/-- The number of steps from this point of the running task on. -/
def Code.size : Code α → Nat
  | .user k => k.size
  | .goPush _ f k => 2 + f.size + k.size
  | .spawnWorker _ k => 4 + k.size
  | .threadSpawn _ _ k => 3 + k.size
  | .blocking _ k => 1 + k.size

/-- A thread in the loop makes one step more, in which it leaves. -/
def Pc.size : Pc α → Nat
  | .top => 1
  | .run _ c => 1 + c.size
  | .switched t => if t.state = .dead then 2 else 3 + t.context.size
  | .exited => 0

/-- A queued task has to be popped. -/
def Shared.size (sh : Shared α) : Nat := (sh.tasks.map fun t => 1 + t.context.size).sum

/-- What the main thread still has to do in its call. -/
def mainPcSize : MainPc (Script α) → Nat
  | .idle => 0
  | .goPush _ f => 2 + f.size
  | .spawn i n handles => 3 * (n - i) + handles.length + 2
  | .join handles => handles.length + 1

/-- A call of `start_runtime` spawns, runs and joins each worker. -/
def callSize : MainOp (Script α) → Nat
  | .go f => 3 + f.size
  | .startRuntime n => 3 * n + 3

/-- What it has to do in all. -/
def mainSize (m : Main (Script α)) : Nat := mainPcSize m.pc + (m.rest.map callSize).sum

/-- What is left to do for anyone; every step makes it less. -/
def State.size (s : State α) : Nat :=
  s.sh.size + (s.workers.map fun x => x.pc.size).sum + mainSize s.main

section Loop

variable {v : Variant} {sh : Shared α} {es : List (Event α)} {pc : Pc α} {e : Effect α} {t : Task α}

/-- A log entry is no work. -/
@[simp] theorem Shared.size_record : (sh.record es).size = sh.size := rfl

/-- A task that is not queued yet is no work of the queue. -/
@[simp] theorem Shared.size_create (parent : Option TaskId) (f : Script α) :
    (sh.create parent f).size = sh.size := rfl

/-- The queue takes on the work of the task. -/
@[simp] theorem Shared.size_pushBack (t : Task α) :
    (sh.pushBack t).size = sh.size + (1 + t.context.size) := by
  simp [Shared.size, Shared.pushBack, Shared.record]

/-- The worker thread that a step spawns, if it does. -/
def Effect.spawned (e : Effect α) : Nat := (e.spawn.map fun _ => 1).getD 0

/-- Switching to the scheduler leaves the rest of the script to do. -/
theorem size_switchToScheduler (t : Task α) (k : Script α) :
    (t.switchToScheduler k).size ≤ 3 + k.size := by
  show (if t.state = .dead then 2 else 3 + k.size) ≤ 3 + k.size
  split <;> omega

/-- Each step of a task does some of its work. -/
theorem taskStep_size (c : Code α) :
    (taskStep v t sh c).sh.size + (taskStep v t sh c).pc.size + (taskStep v t sh c).spawned
      < sh.size + (1 + c.size) := by
  cases c with
  | user k =>
    cases k with
    | done => simp [taskStep, Effect.spawned, Task.finished, Task.switchToScheduler, Pc.size,
        Code.size, Script.size]
    | gosched k =>
      have := size_switchToScheduler t k
      simp only [taskStep, Effect.spawned, Code.size, Script.size,
        Shared.size_record, Option.map_none, Option.getD_none]
      omega
    | io a k =>
      cases v with
      | spawn =>
        by_cases h : sh.tasks.isEmpty <;>
          simp [taskStep, Effect.spawned, Pc.size, Code.size, Script.size, h]
      | _ =>
        simp only [taskStep, Effect.spawned, Pc.size, Code.size, Script.size, Option.map_none,
          Option.getD_none]
        omega
    | _ =>
      simp only [taskStep, Effect.spawned, Pc.size, Code.size, Script.size, Shared.size_record,
        Shared.size_create, Option.map_none, Option.getD_none]
      omega
  | spawnWorker a k =>
    have hsize : ({ sh with nextWorkerId := sh.nextWorkerId + 1 } : Shared α).size = sh.size := rfl
    simp only [taskStep, Effect.spawned, Pc.size, Code.size, hsize, Option.map_none,
      Option.getD_none]
    omega
  | _ =>
    simp only [taskStep, Effect.spawned, Pc.size, Code.size, Shared.size_record,
      Shared.size_pushBack, Task.new, Option.map_none, Option.map_some, Option.getD_none,
      Option.getD_some]
    omega

/-- Popping a task does some work. -/
theorem popStep_size : (popStep es sh).sh.size + (popStep es sh).pc.size < sh.size + 1 := by
  unfold popStep
  split
  · simp [Pc.size]
  · next t tasks hq =>
    simp [Shared.size, Shared.record, hq, Pc.size, Code.size]
    omega

/-- Switching back does some work. -/
theorem switchedStep_size :
    (switchedStep t sh).sh.size + (switchedStep t sh).pc.size < sh.size + (Pc.switched t).size := by
  by_cases ht : t.state = .dead
  · simp [switchedStep, Pc.size, ht]
  · simp [switchedStep, Pc.size, ht]
    omega

/-- **A step of `worker_loop` uses something up.** -/
theorem loopStep_size (hs : loopStep v es sh pc = some e) :
    e.sh.size + e.pc.size + e.spawned < sh.size + pc.size := by
  cases pc with
  | top =>
    obtain rfl := Option.some.inj hs
    have hspawn : (popStep es sh).spawned = 0 := by
      unfold popStep
      split <;> rfl
    rw [hspawn]
    exact popStep_size
  | run t c =>
    obtain rfl := Option.some.inj hs
    exact taskStep_size c
  | switched t =>
    obtain rfl := Option.some.inj hs
    have hspawn : (switchedStep t sh).spawned = 0 := by
      unfold switchedStep
      split <;> rfl
    rw [hspawn]
    exact switchedStep_size
  | exited => cases hs

end Loop

section Threads

variable {v : Variant} {calls : List (MainOp (Script α))} {s s' : State α} {a : Act}

/-- **Every step of every thread uses something up.** -/
theorem next_size (h : next v a s = some s') : s'.size < s.size := by
  cases next_inv h with
  | @worker w x e hw hs =>
    obtain ⟨rest, hsum, happly⟩ := s.sum_apply (fun y => y.pc.size) hw
    have hloop := loopStep_size hs
    have hsum' : ((s.apply w x e).workers.map fun y => y.pc.size).sum
        = e.pc.size + rest + e.spawned := happly e
    show e.sh.size + ((s.apply w x e).workers.map fun y => y.pc.size).sum + mainSize s.main
      < s.sh.size + (s.workers.map fun y => y.pc.size).sum + mainSize s.main
    rw [hsum, hsum']
    omega
  | main hs =>
    cases mainStep_inv hs with
    | @go f rest hm =>
      simp only [State.size, hm, mainSize, mainPcSize, Shared.size_create, List.map_cons,
        List.sum_cons, callSize]
      omega
    | @goPush id f rest hm =>
      simp only [State.size, hm, mainSize, mainPcSize, Shared.size_pushBack, Task.new]
      omega
    -- the workers to spawn are paid for by the call
    | @start n rest hm =>
      have hsh : (if v = .spawn then { s.sh with nextWorkerId := n } else s.sh).size = s.sh.size := by
        split <;> rfl
      simp only [State.size, hm, hsh, mainSize, mainPcSize, List.map_cons, List.sum_cons, callSize,
        List.length_nil]
      omega
    | @spawn i n handles rest hm hi =>
      simp only [State.size, hm, mainSize, mainPcSize, List.map_append, List.sum_append,
        List.map_cons, List.map_nil, List.sum_cons, List.sum_nil, Pc.size, List.length_append,
        List.length_cons, List.length_nil]
      omega
    | @spawned i n handles rest hm hi =>
      simp only [State.size, hm, mainSize, mainPcSize]
      omega
    | join hm hw hx =>
      simp only [State.size, hm, mainSize, mainPcSize, List.length_cons]
      omega
    | joined hm =>
      simp only [State.size, hm, mainSize, mainPcSize, List.length_nil]
      omega

/-- **Every interleaving is finite**: none is longer than the main thread's calls allow. -/
theorem run_length_le_size {as : List Act}
    (h : (threads v calls).run as (.initial calls) = some s) :
    as.length ≤ (calls.map callSize).sum := by
  have hlen := System.run_length_le (μ := State.size) (fun a s s' => next_size) h
  have hinit : (State.initial calls).size = (calls.map callSize).sum := by
    simp [State.size, State.initial, Shared.empty, Shared.size, mainSize, mainPcSize]
  omega

end Threads

end MyGoroutine.Yield
