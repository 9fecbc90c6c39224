import MyGoroutine.Lib.History
import MyGoroutine.Yield.Joined

namespace MyGoroutine.Yield

/-!
# `green.rs` is a fair round-robin scheduler

There is one thread, so there is one run.  It is finite for the same reason as the runs of the
threaded runtimes, and it ends with all tasks done because the loop is left only when no task is
left.  Fairness is the order of the queue: a task comes out after exactly the tasks that were ahead
of it when it went in, whatever those tasks spawn meanwhile.

* `enqueuedIds`, `resumedIds`, `Shared.Fifo` — what went into the queue is what came out of it and
  what is still inside;
* `Green.State.pool`, `Green.next_pool` — the single thread refines the pool of live tasks;
* `Green.next_size` — each of its steps uses something up;
* `Green.round_robin` — `start_runtime` terminates with all tasks done, and the queue is fair.
-/

variable {α : Type}

/-! ### The order of the queue

A queue that is pushed at one end and popped at the other keeps the order, whoever uses it.
-/

/-- The task that is queued. -/
def Event.enqueued? : Event α → Option TaskId
  | .enqueued id => some id
  | _ => none

/-- The task that is resumed. -/
def Event.resumed? : Event α → Option TaskId
  | .resumed id => some id
  | _ => none

/-- The tasks that have been queued, in order. -/
def enqueuedIds (l : List (Event α)) : List TaskId := l.filterMap Event.enqueued?

/-- The tasks that have been resumed, in order. -/
def resumedIds (l : List (Event α)) : List TaskId := l.filterMap Event.resumed?

/-- The ids that were enqueued follow the history. -/
@[simp] theorem enqueuedIds_append (l l' : List (Event α)) :
    enqueuedIds (l ++ l') = enqueuedIds l ++ enqueuedIds l' :=
  List.filterMap_append

/-- The ids that were resumed follow the history. -/
@[simp] theorem resumedIds_append (l l' : List (Event α)) :
    resumedIds (l ++ l') = resumedIds l ++ resumedIds l' :=
  List.filterMap_append

/-- What went into the queue is what came out of it and what is still inside. -/
def Shared.Fifo (sh : Shared α) : Prop :=
  enqueuedIds sh.log = resumedIds sh.log ++ sh.tasks.map Task.id

section Fifo

variable {v : Variant} {sh : Shared α} {es : List (Event α)} {pc : Pc α} {e : Effect α}

/-- Events that neither queue nor resume a task. -/
theorem Shared.Fifo.record (h : sh.Fifo) (he : enqueuedIds es = []) (hr : resumedIds es = []) :
    (sh.record es).Fifo := by
  show enqueuedIds (sh.log ++ es) = resumedIds (sh.log ++ es) ++ sh.tasks.map Task.id
  rw [enqueuedIds_append, resumedIds_append, he, hr, List.append_nil, List.append_nil]
  exact h

/-- Creating a task keeps the order. -/
theorem Shared.Fifo.create (h : sh.Fifo) (parent : Option TaskId) (f : Script α) :
    (sh.create parent f).Fifo := by
  have h' : Shared.Fifo { sh with nextTaskId := sh.nextTaskId + 1 } := h
  exact h'.record rfl rfl

/-- A task that is pushed comes last. -/
theorem Shared.Fifo.pushBack (h : sh.Fifo) (t : Task α) : (sh.pushBack t).Fifo := by
  show enqueuedIds (sh.log ++ [.enqueued t.id])
    = resumedIds (sh.log ++ [.enqueued t.id]) ++ (sh.tasks ++ [t]).map Task.id
  have he : enqueuedIds [(Event.enqueued t.id : Event α)] = [t.id] := rfl
  have hr : resumedIds [(Event.enqueued t.id : Event α)] = [] := rfl
  rw [enqueuedIds_append, resumedIds_append, h, he, hr, List.map_append, List.append_nil,
    List.append_assoc]
  rfl

/-- The task that is popped was the first in line. -/
theorem popStep_fifo (h : sh.Fifo) (he : enqueuedIds es = []) (hr : resumedIds es = []) :
    (popStep es sh).sh.Fifo := by
  unfold popStep
  split
  · exact h.record he hr
  · next t tasks hq =>
    show enqueuedIds (sh.log ++ [.resumed t.id])
      = resumedIds (sh.log ++ [.resumed t.id]) ++ tasks.map Task.id
    have he : enqueuedIds [(Event.resumed t.id : Event α)] = [] := rfl
    have hr : resumedIds [(Event.resumed t.id : Event α)] = [t.id] := rfl
    rw [enqueuedIds_append, resumedIds_append, h, he, hr, hq, List.append_nil, List.append_assoc]
    rfl

/-- **The worker loop keeps the order of the queue.** -/
theorem loopStep_fifo (h : sh.Fifo) (he : enqueuedIds es = []) (hr : resumedIds es = [])
    (hs : loopStep v es sh pc = some e) : e.sh.Fifo := by
  cases pc with
  | top =>
    obtain rfl := Option.some.inj hs
    exact popStep_fifo h he hr
  | run t c =>
    obtain rfl := Option.some.inj hs
    cases c with
    | user k =>
      cases k with
      | io a k => cases v <;> exact h
      | go f k => exact h.create _ _
      | _ => exact h.record rfl rfl
    | goPush id f k => exact h.pushBack _
    | blocking a k => exact h.record rfl rfl
    | _ => exact h
  | switched t =>
    obtain rfl := Option.some.inj hs
    unfold switchedStep
    split
    · exact h.pushBack t
    · exact h
  | exited => cases hs

/-- The log only grows. -/
theorem loopStep_log (hs : loopStep v es sh pc = some e) : sh.log <+: e.sh.log := by
  have hrecord : ∀ {sh : Shared α} (es : List (Event α)), sh.log <+: (sh.record es).log :=
    fun es => List.prefix_append _ es
  cases pc with
  | top =>
    obtain rfl := Option.some.inj hs
    unfold popStep
    split <;> exact hrecord _
  | run t c =>
    obtain rfl := Option.some.inj hs
    cases c with
    | user k =>
      cases k with
      | io a k => cases v <;> exact List.prefix_rfl
      | _ => exact hrecord _
    | goPush id f k => exact hrecord _
    | blocking a k => exact hrecord _
    | _ => exact List.prefix_rfl
  | switched t =>
    obtain rfl := Option.some.inj hs
    unfold switchedStep
    split
    · exact hrecord _
    · exact List.prefix_rfl
  | exited => cases hs

end Fifo

namespace Green

/-! ### The single thread

With one thread every task that yields goes to the end of the queue, and every step uses something
up, so each call of `start_runtime` comes to its end.
-/

/-- The live tasks that the thread holds. -/
def Pc.strands : Pc α → Multiset (Strand α)
  | .idle => 0
  | .goPush id f => {⟨id, true, f⟩}
  | .loop pc => pc.strands

/-- The running task is not marked dead. -/
def Pc.Alive : Pc α → Prop
  | .loop pc => pc.Alive
  | _ => True

/-- The pool that the state stands for. -/
def State.pool (s : State α) : Pool α := s.sh.pool s.pc.strands

/-- What is left of the call that the thread is in. -/
def pcSize : Pc α → Nat
  | .idle => 0
  | .goPush _ f => 2 + f.size
  | .loop pc => 1 + pc.size

/-- What a call of the main thread leads to, in steps. -/
def callSize : MainOp α → Nat
  | .go f => 3 + f.size
  | .startRuntime => 3

/-- What is left to do; every step makes it less. -/
def State.size (s : State α) : Nat := s.sh.size + pcSize s.pc + (s.rest.map callSize).sum

/-- The closures that the calls pass to `go`. -/
def goes (calls : List (MainOp α)) : List (Script α) :=
  calls.filterMap fun
    | .go f => some f
    | .startRuntime => none

section Run

variable {calls : List (MainOp α)} {s s' : State α} {rest : List (MainOp α)}

/-- What one step of the thread is. -/
inductive Next (s : State α) : State α → Prop where
  /-- `go` takes the next id, -/
  | go {f : Script α} {rest : List (MainOp α)} (hpc : s.pc = .idle) (hrest : s.rest = .go f :: rest) :
      Next s { sh := s.sh.create none f, pc := .goPush s.sh.nextTaskId f, rest }
  /-- and queues the task. -/
  | goPush {id : TaskId} {f : Script α} (hpc : s.pc = .goPush id f) :
      Next s { sh := s.sh.pushBack (.new id f), pc := .idle, rest := s.rest }
  /-- `start_runtime` enters the worker loop. -/
  | start {rest : List (MainOp α)} (hpc : s.pc = .idle) (hrest : s.rest = .startRuntime :: rest) :
      Next s { s with pc := .loop .top, rest }
  /-- The loop, or the task it has switched to, takes a step. -/
  | loop {pc : Yield.Pc α} {e : Effect α} (hpc : s.pc = .loop pc)
      (hs : loopStep .green [] s.sh pc = some e) :
      Next s { sh := e.sh, pc := .loop e.pc, rest := s.rest }
  /-- The loop is left, and `start_runtime` returns. -/
  | returned (hpc : s.pc = .loop .exited) : Next s { s with pc := .idle }

/-- The branches of a step. -/
theorem next_inv (h : next s = some s') : Next s s' := by
  obtain ⟨sh, pc, rest⟩ := s
  cases pc with
  | idle =>
    cases rest with
    | nil => cases h
    | cons op rest =>
      cases op with
      | go f => cases h; exact .go rfl rfl
      | startRuntime => cases h; exact .start rfl rfl
  | goPush id f => cases h; exact .goPush rfl
  | loop pc =>
    cases pc with
    | exited => cases h; exact .returned rfl
    | _ =>
      simp only [next, Option.map_eq_some_iff] at h
      obtain ⟨e, he, rfl⟩ := h
      exact .loop rfl he

/-- No dead task is ever queued again. -/
theorem next_alive (h : next s = some s') (hsh : s.sh.Alive) (hpc : s.pc.Alive) :
    s'.sh.Alive ∧ s'.pc.Alive := by
  cases next_inv h with
  | loop hp hs => exact loopStep_alive hs hsh (by rw [hp] at hpc; exact hpc)
  | goPush hp => exact ⟨hsh.pushBack (by simp [Task.new]), trivial⟩
  | _ => exact ⟨hsh, trivial⟩

/-- **A step of the single thread is a step of the pool.** -/
theorem next_pool (h : next s = some s') (hpc : s.pc.Alive) : Pool.Step s.pool s'.pool := by
  cases next_inv h with
  | @go f rest hp hrest =>
    have := Pool.Step.submit f (s.sh.strands + 0) s.sh.nextTaskId s.sh.log
    simpa [State.pool, hp, Pc.strands, Shared.pool, Multiset.add_cons, ← Multiset.singleton_add,
      add_comm] using this
  | @goPush id f hp =>
    have := Pool.Step.pushBack s.sh 0 (Task.new id f)
    rw [State.pool, hp]
    exact this
  | start hp hrest =>
    rw [State.pool, hp]
    exact .refl _
  | @loop pc e hp hs =>
    rw [hp] at hpc
    have := loopStep_pool (r := 0) (by simp) hs hpc
    rw [State.pool, hp]
    simpa [State.pool, Pc.strands] using this
  | returned hp =>
    rw [State.pool, hp]
    exact .refl _

/-- **Every step uses something up.** -/
theorem next_size (h : next s = some s') : s'.size < s.size := by
  cases next_inv h with
  | @go f rest hp hrest =>
    simp only [State.size, hp, hrest, pcSize, Shared.size_create, List.map_cons, List.sum_cons,
      callSize]
    omega
  | @goPush id f hp =>
    simp only [State.size, hp, pcSize, Shared.size_pushBack, Task.new]
    omega
  | start hp hrest =>
    simp only [State.size, hp, hrest, pcSize, Yield.Pc.size, List.map_cons, List.sum_cons, callSize]
    omega
  | @loop pc e hp hs =>
    have := loopStep_size hs
    simp only [State.size, hp, pcSize]
    omega
  | returned hp =>
    simp only [State.size, hp, pcSize, Yield.Pc.size]
    omega

/-- What holds in every state of the run. -/
structure State.Good (calls : List (MainOp α)) (s : State α) : Prop where
  /-- No queued task is dead, -/
  queue : s.sh.Alive
  /-- and neither is the running one. -/
  pc : s.pc.Alive
  /-- The pool accounts for every task. -/
  pool : s.pool.Inv
  /-- The queue keeps its order. -/
  fifo : s.sh.Fifo
  /-- The submitted closures are those of the calls made so far. -/
  submitted : ∃ made, calls = made ++ s.rest ∧ submitted s.sh.log = goes made
  /-- The loop is left with the queue empty. -/
  left : s.pc = .loop .exited → s.sh.tasks = []

/-- The invariant holds in every state reached. -/
theorem reach_good (hr : (green calls).Reachable s) : s.Good calls := by
  refine hr.invariant (I := State.Good calls) ?_ ?_
  · rintro _ rfl
    exact ⟨by simp [State.initial, Shared.empty, Shared.Alive], trivial, Pool.inv_empty, rfl,
      ⟨[], rfl, rfl⟩, by simp [State.initial]⟩
  · intro s s' _ _ hi hn
    obtain ⟨hsh, hpc⟩ := next_alive hn hi.queue hi.pc
    have hpool := (next_pool hn hi.pc).inv hi.pool
    obtain ⟨made, hcalls, hlog⟩ := hi.submitted
    cases next_inv hn with
    | @go f rest hp hrest =>
      refine ⟨hsh, hpc, hpool, hi.fifo.create _ _, ⟨made ++ [.go f], by simp [hcalls, hrest], ?_⟩,
        fun hex => by cases hex⟩
      show Yield.submitted (s.sh.log ++ [.created none s.sh.nextTaskId f]) = _
      rw [submitted_append, hlog, goes, goes, List.filterMap_append]
      rfl
    | @goPush id f hp =>
      refine ⟨hsh, hpc, hpool, hi.fifo.pushBack _, ⟨made, hcalls, ?_⟩,
        fun hex => by cases hex⟩
      rw [Shared.log_pushBack, submitted_append, hlog]
      exact List.append_nil _
    | @start rest hp hrest =>
      refine ⟨hsh, hpc, hpool, hi.fifo, ⟨made ++ [.startRuntime], by simp [hcalls, hrest], ?_⟩,
        fun hex => by cases hex⟩
      rw [goes, List.filterMap_append]
      exact hlog.trans (List.append_nil _).symm
    | @loop pc e hp hs =>
      refine ⟨hsh, hpc, hpool, loopStep_fifo hi.fifo rfl rfl hs,
        ⟨made, hcalls, (loopStep_submitted rfl hs).trans hlog⟩, fun hex => ?_⟩
      -- the loop is left only when the queue is empty
      have hex : e.pc = .exited := Pc.loop.inj hex
      exact (loopStep_exits hs (by rw [hex]; rfl)).2.2
    | returned hp =>
      exact ⟨hsh, hpc, hpool, hi.fifo, ⟨made, hcalls, hlog⟩, fun hex => by cases hex⟩

/-- In the loop there is always a next step, and it stays in the loop until the loop is left. -/
theorem loop_step {pc : Yield.Pc α} (hp : s.pc = .loop pc) (hne : s.pc ≠ .loop .exited) :
    ∃ s', next s = some s' ∧ (∃ pc', s'.pc = .loop pc') ∧ s'.rest = s.rest := by
  obtain ⟨sh, spc, rest⟩ := s
  obtain rfl : spc = .loop pc := hp
  cases pc with
  | exited => exact absurd rfl hne
  | _ => exact ⟨_, rfl, ⟨_, rfl⟩, rfl⟩

/-- **`start_runtime` terminates**, with the queue empty. -/
theorem start_runtime_returns (hr : (green calls).Reachable s) (hpc : s.pc = .idle)
    (hrest : s.rest = .startRuntime :: rest) :
    ∃ as s', (green calls).run as s = some s' ∧ s'.pc = .idle ∧ s'.rest = rest ∧
      s'.sh.tasks = [] := by
  obtain ⟨sh, pc, srest⟩ := s
  obtain rfl : pc = .idle := hpc
  obtain rfl : srest = .startRuntime :: rest := hrest
  -- the loop is left after finitely many steps
  obtain ⟨as, t, hrun, ⟨-, htrest⟩, htpc⟩ := System.exists_run (M := green calls) (μ := State.size)
    (fun _ _ _ hn => next_size hn)
    (I := fun s => (∃ pc, s.pc = .loop pc) ∧ s.rest = rest) (Q := fun s => s.pc = .loop .exited)
    (fun _ s s' hI hg hn => by
      obtain ⟨⟨pc, hp⟩, hrest⟩ := hI
      obtain ⟨t, ht, htp, htr⟩ := loop_step hp hg
      obtain rfl : t = s' := Option.some.inj (ht.symm.trans hn)
      exact ⟨htp, htr.trans hrest⟩)
    (fun s hI hg => by
      obtain ⟨⟨pc, hp⟩, -⟩ := hI
      obtain ⟨t, ht, -⟩ := loop_step hp hg
      exact ⟨(), t, ht⟩)
    (s := ⟨sh, .loop .top, rest⟩) ⟨⟨.top, rfl⟩, rfl⟩
  have hcall : (green calls).run (() :: as) ⟨sh, .idle, .startRuntime :: rest⟩ = some t := hrun
  have hempty := (reach_good (System.Reachable.run hr hcall)).left htpc
  obtain ⟨tsh, tpc, trest⟩ := t
  obtain rfl : tpc = .loop .exited := htpc
  refine ⟨() :: as ++ [()], ⟨tsh, .idle, trest⟩, ?_, rfl, htrest, hempty⟩
  rw [System.run_append, hcall]
  rfl

/-- Between two calls, with the queue empty, all tasks are done. -/
theorem allDone_of_empty (hr : (green calls).Reachable s) (hpc : s.pc = .idle)
    (hq : s.sh.tasks = []) : ∃ made, calls = made ++ s.rest ∧ s.sh.AllDone (goes made) := by
  have hg := reach_good hr
  obtain ⟨made, hcalls, hsub⟩ := hg.submitted
  have hempty : s.pool.strands = 0 := by
    simp [State.pool, Shared.pool, hpc, Pc.strands, Shared.strands, hq]
  exact ⟨made, hcalls, hsub ▸ hg.pool.allDone hempty⟩

/-- The ids of the queued tasks differ. -/
theorem State.Good.nodup (h : s.Good calls) : (s.sh.tasks.map Task.id).Nodup := by
  have hle : ((s.sh.tasks : Multiset (Task α)).map Task.strand).map Strand.id
      ≤ s.pool.strands.map Strand.id := Multiset.map_le_map (Multiset.le_add_right _ _)
  have hnd := Multiset.nodup_of_le hle h.pool.nodup
  rw [Multiset.map_map] at hnd
  exact Multiset.coe_nodup.mp hnd

/-- **Fairness.**  A task enters the queue behind the tasks `ahead`.  In any run from there on the
    tasks resumed before it are among those ahead of it, each at most once and in the order of the
    queue; when it is resumed, all of them have been, and nothing else; and once the queue is empty
    it has been resumed. -/
theorem fair (hr : (green calls).Reachable s) {t : Task α} {ahead : List (Task α)}
    (hq : s.sh.tasks = ahead ++ [t]) {as : List Unit} (hrun : (green calls).run as s = some s') :
    ((ahead.map Task.id) ++ [t.id]).Nodup ∧
      ∃ out, resumedIds s'.sh.log = resumedIds s.sh.log ++ out ∧
        (t.id ∉ out → out <+: ahead.map Task.id) ∧
        (t.id ∈ out → ahead.map Task.id ++ [t.id] <+: out) ∧ (s'.sh.tasks = [] → t.id ∈ out) := by
  have hg := reach_good hr
  have hg' := reach_good (System.Reachable.run hr hrun)
  have hnd := hg.nodup
  rw [hq, List.map_append] at hnd
  refine ⟨hnd, ?_⟩
  -- what the run adds to the log
  have hlog : s.sh.log <+: s'.sh.log := by
    refine System.run_invariant (I := fun u => s.sh.log <+: u.sh.log) (fun _ u u' hn hu => ?_) hrun
      List.prefix_rfl
    refine hu.trans ?_
    cases next_inv hn with
    | loop hp hs => exact loopStep_log hs
    | go hp hrest => exact List.prefix_append _ _
    | goPush hp => exact List.prefix_append _ _
    | _ => exact List.prefix_rfl
  obtain ⟨es, hes⟩ := hlog
  refine ⟨resumedIds es, by rw [← hes, resumedIds_append], ?_⟩
  have hfifo : enqueuedIds s.sh.log = _ := hg.fifo
  have hfifo' : enqueuedIds s'.sh.log = _ := hg'.fifo
  rw [← hes, enqueuedIds_append, resumedIds_append, hfifo, hq, List.map_append, List.append_assoc,
    List.append_assoc, List.append_assoc] at hfifo'
  have horder : resumedIds es ++ s'.sh.tasks.map Task.id
      = ahead.map Task.id ++ t.id :: enqueuedIds es := by
    rw [← List.append_cancel_left hfifo']
    rfl
  have hnot : t.id ∉ ahead.map Task.id := by
    intro hmem
    exact List.disjoint_of_nodup_append hnd hmem (List.mem_singleton.mpr rfl)
  obtain ⟨h1, h2, h3⟩ := History.queue_order horder hnot
  exact ⟨h1, h2, fun hempty => h3 (by rw [hempty]; rfl)⟩

/-- **`green.rs` is a fair round-robin scheduler.**  The run is finite.  Each call of `start_runtime`
    returns, with the queue empty and all tasks done that have been submitted or spawned.  And a task
    that enters the queue behind the tasks `ahead` is resumed next when exactly these have been
    resumed since, each once and in the order of the queue. -/
theorem round_robin (calls : List (MainOp α)) :
    (∀ as s, (green calls).run as (.initial calls) = some s →
        as.length ≤ (calls.map callSize).sum) ∧
      (∀ s rest, (green calls).Reachable s → s.pc = .idle → s.rest = .startRuntime :: rest →
        ∃ as s', (green calls).run as s = some s' ∧ s'.pc = .idle ∧ s'.rest = rest ∧
          ∃ made, calls = made ++ rest ∧ s'.sh.AllDone (goes made)) ∧
      ∀ s ahead t as s', (green calls).Reachable s → s.sh.tasks = ahead ++ [t] →
        (green calls).run as s = some s' →
        (ahead.map Task.id ++ [t.id]).Nodup ∧
          ∃ out, resumedIds s'.sh.log = resumedIds s.sh.log ++ out ∧
            (t.id ∉ out → out <+: ahead.map Task.id) ∧
            (t.id ∈ out → ahead.map Task.id ++ [t.id] <+: out) ∧
            (s'.sh.tasks = [] → t.id ∈ out) := by
  refine ⟨fun as s hrun => ?_, fun s rest hr hpc hrest => ?_,
    fun s ahead t as s' hr hq hrun => fair hr hq hrun⟩
  · have hlen := System.run_length_le (μ := State.size) (fun _ _ _ hn => next_size hn) hrun
    have hinit : (State.initial calls).size = (calls.map callSize).sum := by
      simp [State.size, State.initial, Shared.empty, Shared.size, pcSize]
    omega
  · obtain ⟨as, s', hrun, hpc', hrest', hempty⟩ := start_runtime_returns hr hpc hrest
    exact ⟨as, s', hrun, hpc', hrest',
      hrest' ▸ allDone_of_empty (System.Reachable.run hr hrun) hpc' hempty⟩

end Run

/-- A parent that spawns two children, which yield once. -/
def nestedCalls : List (MainOp Nat) :=
  let child := .act 1 (.gosched (.act 2 .done))
  [.go (.go child (.go child .done)), .startRuntime]

/-- The second child enters the queue behind the first one, and both finish. -/
theorem round_robin_nested :
    (∃ s, (green nestedCalls).run (List.replicate 2 ()) (.initial nestedCalls) = some s ∧
      ∃ as s', (green nestedCalls).run as s = some s' ∧
        ∃ made, nestedCalls = made ++ [] ∧ s'.sh.AllDone (goes made)) ∧
      ∃ s, (green nestedCalls).run (List.replicate 8 ()) (.initial nestedCalls) = some s ∧
        ∃ s', (green nestedCalls).run (List.replicate 15 ()) s = some s' ∧ s'.sh.tasks = [] ∧
          ∃ out, resumedIds s'.sh.log = resumedIds s.sh.log ++ out ∧ [1, 2] <+: out := by
  obtain ⟨-, hreturns, hfair⟩ := round_robin nestedCalls
  constructor
  · have h : ((green nestedCalls).run (List.replicate 2 ()) (.initial nestedCalls)).map
        (fun s => (s.pc, s.rest)) = some (.idle, [.startRuntime]) := by rfl
    obtain ⟨s, hs, hst⟩ := Option.map_eq_some_iff.mp h
    obtain ⟨hpc, hrest⟩ := Prod.mk.inj hst
    obtain ⟨as, s', hrun, -, -, hdone⟩ := hreturns s [] (System.run_reachable rfl hs) hpc hrest
    exact ⟨s, hs, as, s', hrun, hdone⟩
  · have h : ((green nestedCalls).run (List.replicate 8 ()) (.initial nestedCalls)).map
        (fun s => (s.sh.tasks, ((green nestedCalls).run (List.replicate 15 ()) s).map
          fun s' => s'.sh.tasks))
        = some ([⟨1, .act 1 (.gosched (.act 2 .done)), .runnable⟩] ++
            [⟨2, .act 1 (.gosched (.act 2 .done)), .runnable⟩], some []) := by rfl
    obtain ⟨s, hs, hst⟩ := Option.map_eq_some_iff.mp h
    obtain ⟨hq, hst⟩ := Prod.mk.inj hst
    obtain ⟨s', hs', hq'⟩ := Option.map_eq_some_iff.mp hst
    obtain ⟨-, out, hout, -, hafter, hlast⟩ :=
      hfair s _ _ _ s' (System.run_reachable rfl hs) hq hs'
    exact ⟨s, hs, s', hs', hq', out, hout, hafter (hlast hq')⟩

end Green

end MyGoroutine.Yield
