import MyGoroutine.Lib.Slots
import MyGoroutine.Yield.Pool

namespace MyGoroutine.Yield

/-!
# The three runtimes refine the pool of live tasks

A live task is in the queue, on a worker, or in the hands of a `go` that has not queued it yet.
Collecting the live tasks from all these places makes every step of the runtimes a step of the
pool, in which at most one task goes on.

* `Shared.pool` — the pool that a state stands for;
* `loopStep_pool` — a step of `worker_loop` is a step of the pool;
* `Shared.AllDone`, `Pool.Inv.allDone` — where no task is left, all are done;
* `next_pool` — a step of the threads of `multi.rs` and `spawn.rs` is a step of the pool;
* `reach_pool` — hence `Pool.Inv` holds in every state reached.
-/

variable {α : Type}

/-- The queued or switched-out task `t`. -/
def Task.strand (t : Task α) : Strand α := ⟨t.id, true, t.context⟩

/-- The live tasks at a point of the running task `t`: itself, and the child it is about to
    queue. -/
def Code.strands (t : Task α) : Code α → Multiset (Strand α)
  | .user k => {⟨t.id, false, k⟩}
  | .goPush id f k => {⟨id, true, f⟩, ⟨t.id, false, k⟩}
  | .spawnWorker a k => {⟨t.id, false, .io a k⟩}
  | .threadSpawn _ a k => {⟨t.id, false, .io a k⟩}
  | .blocking a k => {⟨t.id, false, .io a k⟩}

/-- The live tasks that a thread in `worker_loop` holds. -/
def Pc.strands : Pc α → Multiset (Strand α)
  | .top => 0
  | .run t c => c.strands t
  | .switched t => if t.state = .dead then 0 else {t.strand}
  | .exited => 0

/-- The live tasks in the queue. -/
def Shared.strands (sh : Shared α) : Multiset (Strand α) := (sh.tasks : Multiset (Task α)).map Task.strand

/-- The pool of the queued tasks and the tasks `held` elsewhere. -/
def Shared.pool (sh : Shared α) (held : Multiset (Strand α)) : Pool α :=
  ⟨sh.strands + held, sh.nextTaskId, sh.log⟩

/-- The running task is not marked dead. -/
def Pc.Alive : Pc α → Prop
  | .run t _ => t.state ≠ .dead
  | _ => True

/-- No queued task is marked dead. -/
def Shared.Alive (sh : Shared α) : Prop := ∀ t ∈ sh.tasks, t.state ≠ .dead

/-! ### Steps of the worker loop

The pool of live tasks does not say where the tasks are. Most steps of the loop only move a task
from the queue to a thread or back, and are no steps of the pool.
-/

section Loop

variable {v : Variant} {sh : Shared α} {es : List (Event α)} {pc : Pc α} {e : Effect α}
  {t : Task α} {r : Multiset (Strand α)}

/-- A task that is pushed alive keeps the queue alive. -/
theorem Shared.Alive.pushBack (h : sh.Alive) (ht : t.state ≠ .dead) : (sh.pushBack t).Alive := by
  intro u hu
  rcases List.mem_append.mp hu with hu | hu
  · exact h u hu
  · rw [List.mem_singleton.mp hu]
    exact ht

/-- Only a task that is not dead is queued again. -/
theorem loopStep_alive (hs : loopStep v es sh pc = some e) (hsh : sh.Alive) (hpc : pc.Alive) :
    e.sh.Alive ∧ e.pc.Alive := by
  cases pc with
  | top =>
    obtain rfl := Option.some.inj hs
    unfold popStep
    split
    · exact ⟨hsh, trivial⟩
    · next t tasks ht =>
      have h : ∀ u ∈ t :: tasks, u.state ≠ .dead := ht ▸ hsh
      exact ⟨fun u hu => h u (List.mem_cons_of_mem t hu), h t List.mem_cons_self⟩
  | run t c =>
    obtain rfl := Option.some.inj hs
    cases c with
    | user k =>
      cases k with
      | io a k => cases v <;> exact ⟨hsh, hpc⟩
      | done => exact ⟨hsh, trivial⟩
      | gosched k => exact ⟨hsh, trivial⟩
      | act a k => exact ⟨hsh, hpc⟩
      | go f k => exact ⟨hsh, hpc⟩
    | goPush id f k => exact ⟨hsh.pushBack (by simp [Task.new]), hpc⟩
    | _ => exact ⟨hsh, hpc⟩
  | switched t =>
    obtain rfl := Option.some.inj hs
    unfold switchedStep
    split
    · next ht => exact ⟨hsh.pushBack ht, trivial⟩
    · exact ⟨hsh, trivial⟩
  | exited => cases hs

/-- A log entry changes no strand. -/
@[simp] theorem Shared.strands_record : (sh.record es).strands = sh.strands := rfl

@[simp] theorem Shared.nextTaskId_record : (sh.record es).nextTaskId = sh.nextTaskId := rfl

@[simp] theorem Shared.log_record : (sh.record es).log = sh.log ++ es := rfl

/-- Creating a task queues nothing yet. -/
@[simp] theorem Shared.strands_create (parent : Option TaskId) (f : Script α) :
    (sh.create parent f).strands = sh.strands := rfl

/-- Creating a task gives out an id. -/
@[simp] theorem Shared.nextTaskId_create (parent : Option TaskId) (f : Script α) :
    (sh.create parent f).nextTaskId = sh.nextTaskId + 1 := rfl

/-- Creating a task is logged. -/
@[simp] theorem Shared.log_create (parent : Option TaskId) (f : Script α) :
    (sh.create parent f).log = sh.log ++ [.created parent sh.nextTaskId f] := rfl

/-- The queue gains the strand of the task. -/
@[simp] theorem Shared.strands_pushBack (t : Task α) :
    (sh.pushBack t).strands = t.strand ::ₘ sh.strands := by
  simp [Shared.strands, Shared.pushBack, Shared.record, ← Multiset.coe_add, add_comm,
    ← Multiset.singleton_add]

@[simp] theorem Shared.nextTaskId_pushBack (t : Task α) :
    (sh.pushBack t).nextTaskId = sh.nextTaskId := rfl

@[simp] theorem Shared.log_pushBack (t : Task α) :
    (sh.pushBack t).log = sh.log ++ [.enqueued t.id] := rfl

/-- A finished task has no strand. -/
theorem strands_finished : t.finished.strands = 0 := by
  simp [Task.finished, Task.switchToScheduler, Pc.strands]

/-- A task that yields is still alive. -/
theorem strands_switchToScheduler (ht : t.state ≠ .dead) (k : Script α) :
    (t.switchToScheduler k).strands = {⟨t.id, true, k⟩} := by
  simp [Task.switchToScheduler, Pc.strands, ht, Task.strand]

/-- A step that at most moves a task from one place to another. -/
theorem Pool.Step.move (es : List (Event α)) {p p' : Pool α} (hs : p'.strands = p.strands)
    (hn : p'.nextId = p.nextId)
    (hl : p'.log = p.log ++ es) (hes : ∀ x ∈ es, x.Quiet) : Pool.Step p p' := by
  obtain ⟨_, _, _⟩ := p'
  subst hs hn hl
  exact .quiet hes _ _ _

/-- Queueing a task, which was held by some thread. -/
theorem Pool.Step.pushBack (sh : Shared α) (r : Multiset (Strand α)) (t : Task α) :
    Pool.Step (sh.pool ({t.strand} + r)) ((sh.pushBack t).pool r) := by
  refine .move [.enqueued t.id] ?_ rfl rfl fun x hx => ?_
  · show (sh.pushBack t).strands + r = sh.strands + ({t.strand} + r)
    rw [Shared.strands_pushBack, Multiset.singleton_add, Multiset.cons_add, Multiset.add_cons]
  · rw [List.mem_singleton.mp hx]
    exact ⟨rfl, rfl⟩

/-- A step of the task `x` to `x'`, while the others stay where they are. -/
theorem Pool.Step.advanceIn {x x' : Strand α} {ev : Event α} (h : Advance x ev x') :
    Pool.Step (sh.pool ({x} + r)) ((sh.record [ev]).pool ({x'} + r)) := by
  have := Pool.Step.advance h (sh.strands + r) sh.nextTaskId sh.log
  simpa [Shared.pool, Multiset.singleton_add, Multiset.add_cons] using this

/-- **A step of a task** is a step of the pool. -/
theorem taskStep_pool (ht : t.state ≠ .dead) (c : Code α) :
    Pool.Step (sh.pool (c.strands t + r))
      ((taskStep v t sh c).sh.pool ((taskStep v t sh c).pc.strands + r)) := by
  cases c with
  | user k =>
    cases k with
    | done =>
      show Pool.Step _ ((sh.record [.finished t.id]).pool (t.finished.strands + r))
      have := Pool.Step.finish t.id (sh.strands + r) sh.nextTaskId sh.log
      simpa [Shared.pool, Code.strands, strands_finished, Multiset.singleton_add,
        Multiset.add_cons] using this
    | act a k => exact .advanceIn (.act t.id a k)
    | io a k =>
      -- the task has entered the blocking operation, and has not done it yet
      cases v with
      | spawn =>
        show Pool.Step _ (sh.pool (Code.strands t (if _ then _ else _) + r))
        split <;> exact .refl _
      | _ => exact .refl _
    | gosched k =>
      show Pool.Step _ ((sh.record [.yielded t.id]).pool ((t.switchToScheduler k).strands + r))
      rw [strands_switchToScheduler ht]
      exact .advanceIn (.gosched t.id k)
    | go f k =>
      have := Pool.Step.go t.id f k (sh.strands + r) sh.nextTaskId sh.log
      simpa [Shared.pool, taskStep, Pc.strands, Code.strands, Multiset.singleton_add,
        Multiset.add_cons, Multiset.cons_add] using this
  | goPush id f k =>
    have := Pool.Step.pushBack sh ({⟨t.id, false, k⟩} + r) (Task.new id f)
    rwa [← add_assoc, Multiset.singleton_add] at this
  | spawnWorker a k => exact .refl _
  | threadSpawn w a k => exact .refl _
  | blocking a k => exact .advanceIn (.io t.id a k)

/-- **Popping a task** leaves the pool as it is. -/
theorem popStep_pool (hes : ∀ x ∈ es, x.Quiet) :
    Pool.Step (sh.pool r) ((popStep es sh).sh.pool ((popStep es sh).pc.strands + r)) := by
  unfold popStep
  split
  · refine .move es ?_ rfl rfl hes
    show sh.strands + (0 + r) = sh.strands + r
    rw [zero_add]
  · next t tasks hq =>
    have hst : sh.strands = t.strand ::ₘ (tasks : Multiset (Task α)).map Task.strand := by
      simp [Shared.strands, hq]
    have := Pool.Step.advance (.resume t.id t.context)
      ((tasks : Multiset (Task α)).map Task.strand + r) sh.nextTaskId sh.log
    rw [Shared.pool, hst, Multiset.cons_add]
    show Pool.Step _ ⟨(tasks : Multiset (Task α)).map Task.strand + ({⟨t.id, false, t.context⟩} + r),
      _, _⟩
    rw [Multiset.singleton_add, Multiset.add_cons]
    exact this

/-- **Switching back** leaves the pool as it is, or ends a strand. -/
theorem switchedStep_pool :
    Pool.Step (sh.pool ((Pc.switched t).strands + r)) ((switchedStep t sh).sh.pool r) := by
  by_cases ht : t.state = .dead
  · rw [switchedStep, if_neg (not_not.mpr ht), Pc.strands, if_pos ht, zero_add]
    exact .refl _
  · rw [switchedStep, if_pos ht, Pc.strands, if_neg ht]
    exact .pushBack sh r t

/-- **A step of `worker_loop` is a step of the pool**, whatever tasks `r` the other threads hold. -/
theorem loopStep_pool (hes : ∀ x ∈ es, x.Quiet) (hs : loopStep v es sh pc = some e)
    (hpc : pc.Alive) :
    Pool.Step (sh.pool (pc.strands + r)) (e.sh.pool (e.pc.strands + r)) := by
  cases pc with
  | top =>
    obtain rfl := Option.some.inj hs
    rw [show (Pc.top : Pc α).strands = 0 from rfl, zero_add]
    exact popStep_pool hes
  | run t c =>
    obtain rfl := Option.some.inj hs
    exact taskStep_pool hpc c
  | switched t =>
    obtain rfl := Option.some.inj hs
    have htop : (switchedStep t sh).pc.strands = 0 := by
      unfold switchedStep
      split <;> rfl
    rw [htop, zero_add]
    exact switchedStep_pool
  | exited => cases hs

end Loop

/-! ### When no task is left

An empty pool is the end: each task that was created has finished, and it has been resumed once and
once more for each yield.
-/

/-- Is it a resumption of the task `id`? -/
def Event.resumes (id : TaskId) : Event α → Bool
  | .resumed i => decide (i = id)
  | _ => false

/-- A resumption is seen from its task. -/
theorem Event.resumes_eq (id : TaskId) (e : Event α) :
    e.resumes id = (e.seenOf id).any Seen.isResume := by
  have hother : ∀ {i : TaskId} {y : Seen α}, y.isResume = false →
      (Option.any Seen.isResume (if i = id then some y else none)) = false := by
    intro i y hy
    split
    · exact hy
    · rfl
  cases e with
  | created parent i f =>
    cases parent with
    | none => rfl
    | some p => exact (hother rfl).symm
  | resumed i =>
    show decide (i = id) = Option.any Seen.isResume (if i = id then some .resume else none)
    split
    · next h => exact decide_eq_true h
    · next h => exact decide_eq_false h
  | enqueued i => rfl
  | shutDown i => rfl
  | _ => exact (hother rfl).symm

/-- The resumptions are counted from what is seen of the task. -/
theorem countP_resumes (id : TaskId) (l : List (Event α)) :
    l.countP (Event.resumes id) = (seen id l).countP Seen.isResume := by
  induction l with
  | nil => rfl
  | cons e l ih =>
    rw [List.countP_cons, e.resumes_eq, ih, seen, seen, List.filterMap_cons]
    cases e.seenOf id with
    | none => rfl
    | some y => rw [List.countP_cons]; rfl

/-- The tasks with the closures `fs`, and all tasks transitively spawned by them, are done. -/
structure Shared.AllDone (sh : Shared α) (fs : List (Script α)) : Prop where
  queue : sh.tasks = []
  /-- These are the tasks there have been. -/
  tasks : (closures sh.log : Multiset (Script α)) = (fs.map Script.tree).sum
  /-- Each has finished, after the steps of its program in order. -/
  finished : ∀ parent id f, .created parent id f ∈ sh.log → seen id sh.log = f.trace
  resumptions : ∀ parent id f, .created parent id f ∈ sh.log →
    sh.log.countP (Event.resumes id) = f.yields + 1

/-- **Where no task is left, all are done.** -/
theorem Pool.Inv.allDone {sh : Shared α} {held : Multiset (Strand α)} (hi : (sh.pool held).Inv)
    (h0 : (sh.pool held).strands = 0) : sh.AllDone (submitted sh.log) := by
  obtain ⟨htrees, hfin⟩ := hi.complete h0
  refine ⟨?_, htrees, hfin, fun parent id f hc => ?_⟩
  · have hq : (sh.tasks : Multiset (Task α)).map Task.strand = 0 :=
      Multiset.le_zero.mp (h0 ▸ Multiset.le_add_right _ held)
    simpa using hq
  · have hseen : seen id sh.log = f.trace := hfin parent id f hc
    rw [countP_resumes, hseen, Script.countP_trace]

/-! ### Steps of the whole program

The pool of a state gathers the tasks of the queue, of the workers and of the main thread. A step of
any thread is a step of the pool.
-/

/-- The live tasks in the hands of the main thread. -/
def mainStrands : MainPc (Script α) → Multiset (Strand α)
  | .goPush id f => {⟨id, true, f⟩}
  | _ => 0

/-- The live tasks that the workers and the main thread hold. -/
def State.held (s : State α) : Multiset (Strand α) :=
  (s.workers.map fun x => x.pc.strands).sum + mainStrands s.main.pc

/-- The pool that the state stands for. -/
def State.pool (s : State α) : Pool α := s.sh.pool s.held

/-- No queued or running task is marked dead. -/
def State.Alive (s : State α) : Prop := s.sh.Alive ∧ ∀ x ∈ s.workers, x.pc.Alive

section Threads

variable {v : Variant} {calls : List (MainOp (Script α))} {s s' : State α} {a : Act} {w : Nat}
  {x : Worker α} {e : Effect α}

/-- The steps of the threads are those of the code. -/
@[simp] theorem threads_next : (threads v calls).next = next v := rfl

/-- What one step of the program is. -/
inductive Next (v : Variant) (s : State α) : Act → State α → Prop where
  | worker {w : Nat} {x : Worker α} {e : Effect α} (hw : s.workers[w]? = some x)
      (hs : loopStep v [.shutDown x.workerId] s.sh x.pc = some e) :
      Next v s (.worker w) (s.apply w x e)
  | main {s' : State α} (hs : mainStep v s = some s') : Next v s .main s'

/-- The branches of a step. -/
theorem next_inv (h : next v a s = some s') : Next v s a s' := by
  cases a with
  | main => exact .main h
  | worker w =>
    obtain ⟨x, hx, h⟩ := Option.bind_eq_some_iff.mp h
    obtain ⟨e, he, rfl⟩ := Option.map_eq_some_iff.mp h
    exact .worker hx he

/-- What one step of the main thread is. -/
inductive MainStep (v : Variant) (s : State α) : State α → Prop where
  /-- `go` takes the next id, -/
  | go {f : Script α} {rest : List (MainOp (Script α))} (hm : s.main = ⟨.idle, .go f :: rest⟩) :
      MainStep v s { s with sh := s.sh.create none f, main := ⟨.goPush s.sh.nextTaskId f, rest⟩ }
  /-- and queues the task. -/
  | goPush {id : TaskId} {f : Script α} {rest : List (MainOp (Script α))}
      (hm : s.main = ⟨.goPush id f, rest⟩) :
      MainStep v s { s with sh := s.sh.pushBack (.new id f), main := ⟨.idle, rest⟩ }
  /-- `start_runtime` begins. -/
  | start {n : Nat} {rest : List (MainOp (Script α))}
      (hm : s.main = ⟨.idle, .startRuntime n :: rest⟩) :
      MainStep v s
        { s with
          sh := if v = .spawn then { s.sh with nextWorkerId := n } else s.sh
          main := ⟨.spawn 0 n [], rest⟩ }
  /-- The next worker thread is spawned. -/
  | spawn {i n : Nat} {handles : List Nat} {rest : List (MainOp (Script α))}
      (hm : s.main = ⟨.spawn i n handles, rest⟩) (hi : i < n) :
      MainStep v s
        { s with
          workers := s.workers ++ [⟨i, true, .top⟩]
          main := ⟨.spawn (i + 1) n (handles ++ [s.workers.length]), rest⟩ }
  /-- All workers are spawned. -/
  | spawned {i n : Nat} {handles : List Nat} {rest : List (MainOp (Script α))}
      (hm : s.main = ⟨.spawn i n handles, rest⟩) (hi : ¬ i < n) :
      MainStep v s { s with main := ⟨.join handles, rest⟩ }
  /-- `join` returns once its thread has exited. -/
  | join {w : Nat} {x : Worker α} {handles : List Nat} {rest : List (MainOp (Script α))}
      (hm : s.main = ⟨.join (w :: handles), rest⟩) (hw : s.workers[w]? = some x)
      (hx : x.pc = .exited) : MainStep v s { s with main := ⟨.join handles, rest⟩ }
  /-- All handles are joined: `start_runtime` returns. -/
  | joined {rest : List (MainOp (Script α))} (hm : s.main = ⟨.join [], rest⟩) :
      MainStep v s { s with main := ⟨.idle, rest⟩ }

/-- The branches of the main thread. -/
theorem mainStep_inv (h : mainStep v s = some s') : MainStep v s s' := by
  obtain ⟨sh, workers, ⟨pc, rest⟩⟩ := s
  cases pc with
  | idle =>
    cases rest with
    | nil => cases h
    | cons op rest =>
      cases op with
      | go f => cases h; exact .go rfl
      | startRuntime n => cases h; exact .start rfl
  | goPush id f => cases h; exact .goPush rfl
  | spawn i n handles =>
    simp only [mainStep] at h
    split at h
    · cases h; exact .spawn rfl ‹_›
    · cases h; exact .spawned rfl ‹_›
  | join handles =>
    cases handles with
    | nil => cases h; exact .joined rfl
    | cons w handles =>
      simp only [mainStep] at h
      split at h
      · next hw => cases h; exact .join rfl hw rfl
      · cases h

/-- The shutdown of a worker is quiet. -/
theorem worker_quiet (id : Nat) : ∀ y ∈ [(Event.shutDown id : Event α)], y.Quiet := by
  intro y hy
  rw [List.mem_singleton.mp hy]
  exact ⟨rfl, rfl⟩

/-- A quantity of the workers before and after a step of worker `w`. -/
theorem State.sum_apply {M : Type*} [AddCommMonoid M] (f : Worker α → M)
    (hw : s.workers[w]? = some x) :
    ∃ rest, (s.workers.map f).sum = f x + rest ∧
      ∀ e : Effect α, ((s.apply w x e).workers.map f).sum =
        f { x with pc := e.pc } + rest + (e.spawn.map fun id => f ⟨id, false, .top⟩).getD 0 := by
  obtain ⟨rest, hsum, hset⟩ := Slots.sum_map_split f hw
  refine ⟨rest, hsum, fun e => ?_⟩
  have hnew : ((e.spawn.map fun id => (⟨id, false, .top⟩ : Worker α)).toList.map f).sum
      = (e.spawn.map fun id => f ⟨id, false, .top⟩).getD 0 := by
    cases e.spawn <;> simp
  rw [State.apply, List.map_append, List.sum_append, hset, hnew]

/-- No dead task is ever queued again. -/
theorem next_alive (h : next v a s = some s') (hi : s.Alive) : s'.Alive := by
  have hmem : ∀ {t : Task α}, t.state ≠ .dead → (s.sh.pushBack t).Alive := hi.1.pushBack
  cases next_inv h with
  | @worker w x e hw hs =>
    obtain ⟨hsh, hpc⟩ := loopStep_alive hs hi.1 (hi.2 x (List.mem_of_getElem? hw))
    refine ⟨hsh, fun y hy => ?_⟩
    rcases List.mem_append.mp hy with hy | hy
    · rcases List.mem_or_eq_of_mem_set hy with hy | rfl
      · exact hi.2 y hy
      · exact hpc
    · obtain ⟨id, -, rfl⟩ := Option.map_eq_some_iff.mp (Option.mem_toList.mp hy)
      trivial
  | main hm =>
    cases mainStep_inv hm with
    | goPush hm => exact ⟨hmem (by simp [Task.new]), hi.2⟩
    | start hm =>
      refine ⟨?_, hi.2⟩
      show (if v = .spawn then _ else s.sh : Shared α).Alive
      split <;> exact hi.1
    | @spawn i n handles rest hm hlt =>
      refine ⟨hi.1, fun y hy => ?_⟩
      rcases List.mem_append.mp hy with hy | hy
      · exact hi.2 y hy
      · rw [List.mem_singleton.mp hy]
        trivial
    | _ => exact hi

/-- The pool, when the main thread holds no task. -/
theorem pool_of_main {m : Main (Script α)} (hm : s.main = m) :
    s.pool = s.sh.pool ((s.workers.map fun x => x.pc.strands).sum + mainStrands m.pc) := by
  rw [State.pool, State.held, hm]

/-- **A step of the program is a step of the pool.** -/
theorem next_pool (h : next v a s = some s') (hi : s.Alive) : Pool.Step s.pool s'.pool := by
  cases next_inv h with
  | @worker w x e hw hs =>
    obtain ⟨rest, hsum, happly⟩ := s.sum_apply (fun y => y.pc.strands) hw
    have hnew : (e.spawn.map fun id => (⟨id, false, .top⟩ : Worker α).pc.strands).getD 0 = 0 := by
      cases e.spawn <;> rfl
    have hheld : (s.apply w x e).held = e.pc.strands + (rest + mainStrands s.main.pc) := by
      rw [State.held, happly, hnew, add_zero, add_assoc]
      rfl
    rw [State.pool, State.pool, State.held, hsum, hheld, add_assoc]
    exact loopStep_pool (worker_quiet x.workerId) hs (hi.2 x (List.mem_of_getElem? hw))
  | main hs =>
    cases mainStep_inv hs with
    | @go f rest hm =>
      have := Pool.Step.submit f s.pool.strands s.sh.nextTaskId s.sh.log
      rw [pool_of_main hm] at this ⊢
      simpa [State.pool, State.held, Shared.pool, mainStrands, Multiset.add_cons,
        ← Multiset.singleton_add, add_left_comm, add_comm] using this
    | @goPush id f rest hm =>
      have := Pool.Step.pushBack s.sh (s.workers.map fun x => x.pc.strands).sum (Task.new id f)
      rw [add_comm] at this
      rw [pool_of_main hm]
      simpa [State.pool, State.held, mainStrands, Task.strand, Task.new] using this
    | start hm =>
      rw [pool_of_main hm]
      refine .move [] ?_ ?_ ?_ (by simp) <;>
        simp only [State.pool, State.held, mainStrands, Shared.pool, List.append_nil] <;>
        split <;> rfl
    | @spawn i n handles rest hm hlt =>
      rw [pool_of_main hm]
      refine .move [] ?_ rfl (List.append_nil _).symm (by simp)
      simp [State.pool, State.held, Shared.pool, mainStrands, Pc.strands]
    | _ hm =>
      rw [pool_of_main hm]
      exact .refl _

/-- **What holds of the pool holds in every state reached.** -/
theorem reach_pool {ok : Act → State α → Prop} (hr : (threads v calls).Reach ok s) :
    s.Alive ∧ s.pool.Inv := by
  refine hr.invariant (I := fun s => s.Alive ∧ s.pool.Inv) ?_ ?_
  · rintro _ rfl
    exact ⟨⟨by simp [State.initial, Shared.empty, Shared.Alive], by simp [State.initial]⟩,
      Pool.inv_empty⟩
  · intro s s' a _ hi _ hn
    exact ⟨next_alive hn hi.1, (next_pool hn hi.1).inv hi.2⟩

end Threads

/-! ### The calls of the main thread

Which closures have been submitted is seen from the calls that are still to come.
-/

/-- The closures that the calls pass to `go`. -/
def goes (calls : List (MainOp (Script α))) : List (Script α) :=
  calls.filterMap fun
    | .go f => some f
    | .startRuntime _ => none

section Calls

variable {v : Variant} {calls : List (MainOp (Script α))} {sh : Shared α} {es : List (Event α)}
  {pc : Pc α} {e : Effect α} {s s' : State α} {a : Act}

/-- A worker submits nothing. -/
theorem loopStep_submitted (hes : submitted es = []) (hs : loopStep v es sh pc = some e) :
    submitted e.sh.log = submitted sh.log := by
  have hrecord : ∀ {sh : Shared α} {es : List (Event α)}, submitted es = [] →
      submitted (sh.record es).log = submitted sh.log := by
    intro sh es h
    rw [Shared.log_record, submitted_append, h, List.append_nil]
  cases pc with
  | top =>
    obtain rfl := Option.some.inj hs
    unfold popStep
    split
    · exact hrecord hes
    · exact hrecord rfl
  | run t c =>
    obtain rfl := Option.some.inj hs
    cases c with
    | user k =>
      cases k with
      | io a k => cases v <;> rfl
      | _ => exact hrecord rfl
    | goPush id f k => exact hrecord rfl
    | blocking a k => exact hrecord rfl
    | _ => rfl
  | switched t =>
    obtain rfl := Option.some.inj hs
    unfold switchedStep
    split
    · exact hrecord rfl
    · rfl
  | exited => cases hs

/-- The closures submitted so far are those of the calls made so far. -/
theorem reach_submitted {ok : Act → State α → Prop} (hr : (threads v calls).Reach ok s) :
    ∃ made, calls = made ++ s.main.rest ∧ submitted s.sh.log = goes made := by
  refine hr.invariant
    (I := fun s => ∃ made, calls = made ++ s.main.rest ∧ submitted s.sh.log = goes made) ?_ ?_
  · rintro _ rfl
    exact ⟨[], rfl, rfl⟩
  · rintro s s' a _ ⟨made, hcalls, hlog⟩ _ hn
    cases next_inv hn with
    | worker hw hs => exact ⟨made, hcalls, (loopStep_submitted rfl hs).trans hlog⟩
    | main hs =>
      cases mainStep_inv hs with
      | @go f rest hm =>
        refine ⟨made ++ [.go f], by simp [hcalls, hm], ?_⟩
        show submitted (s.sh.log ++ [.created none s.sh.nextTaskId f]) = _
        rw [submitted_append, hlog, goes, goes, List.filterMap_append]
        rfl
      | @goPush id f rest hm =>
        refine ⟨made, by simp [hcalls, hm], ?_⟩
        rw [Shared.log_pushBack, submitted_append, hlog]
        exact List.append_nil _
      | @start n rest hm =>
        refine ⟨made ++ [.startRuntime n], by simp [hcalls, hm], ?_⟩
        have hgoes : goes (made ++ [.startRuntime n]) = goes made := by
          rw [goes, goes, List.filterMap_append]
          exact List.append_nil _
        rw [hgoes, ← hlog]
        split <;> rfl
      | _ hm => exact ⟨made, by simp [hcalls, hm], hlog⟩

end Calls

end MyGoroutine.Yield
