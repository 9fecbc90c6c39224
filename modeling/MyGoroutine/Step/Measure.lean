import MyGoroutine.Lib.Slots
import MyGoroutine.Step.Inversion

namespace MyGoroutine

/-!
# Measures over the workers, and invariants of the shared state

Most invariants balance a quantity of the shared state against a measure summed over the
points of the workers.  A step of one worker moves the sum by what happens at that worker:
waking a blocked thread and spawning a thread do not count.

* `State.total` — a measure summed over the workers;
* `Silent`, `Kept` — the measures that waking up and spawning do not move, and the properties
  that they keep;
* `Next.cases` — a step is one worker's, and moves each silent total by what happens at that
  worker, or it is an `OuterStep`, which moves none;
* `Beside`, `Framed`, `WorkerStep.framed` — the parts of the shared state that only tasks touch;
* `Shared.Same`, `shared_invariant` — the invariant rule for properties that only look at
  the shared state.
-/

variable {σ V : Type}

/-- The measure `f` summed over the workers. -/
def State.total (f : Pc σ V → Nat) (s : State σ V) : Nat := (s.workers.map f).sum

/-- Waking up a blocked thread and spawning one do not move the measure. -/
structure Silent (f : Pc σ V → Nat) : Prop where
  wakeUp : f .notified = f .blocked
  start : ∀ id, f (.start id) = 0

/-- A silent measure does not see that a worker is woken. -/
theorem map_wakeUp {f : Pc σ V → Nat} (hf : Silent f) (pc : Pc σ V) : f pc.wakeUp = f pc := by
  cases pc <;> first | exact hf.wakeUp | rfl

/-- A notification does not move a silent measure. -/
theorem Notified.sum {f : Pc σ V → Nat} (hf : Silent f) {ws ws' : List (Pc σ V)} {n : Notify}
    (h : Notified ws n ws') : (ws'.map f).sum = (ws.map f).sum := by
  cases h with
  | none => rfl
  | one h =>
    have := Slots.sum_map_set f .notified h
    have := hf.wakeUp
    omega
  | idle => rfl
  | all =>
    rw [List.map_map]
    exact congrArg List.sum (List.map_congr_left fun pc _ => map_wakeUp hf pc)

/-- A step of worker `w` moves a silent total by the difference of its two points. -/
theorem total_worker {f : Pc σ V → Nat} (hf : Silent f) {ws ws' : List (Pc σ V)} {w : Nat}
    {pc pc' : Pc σ V} {n : Notify} {spawn : Option Nat} (hw : ws[w]? = some pc)
    (hn : Notified (ws.set w pc') n ws') :
    ((ws' ++ (spawn.map fun id => Pc.start id).toList).map f).sum + f pc
      = (ws.map f).sum + f pc' := by
  have hs := Slots.sum_map_set f pc' hw
  have hsp : (((spawn.map fun id => (Pc.start id : Pc σ V)).toList).map f).sum = 0 := by
    cases spawn <;> simp [hf.start]
  rw [List.map_append, List.sum_append, hsp, hn.sum hf]
  omega

/-- A notification preserves a property of every worker that waking up preserves. -/
theorem Notified.forall_mem {Q : Pc σ V → Prop} (hq : Q .blocked → Q .notified)
    {ws ws' : List (Pc σ V)} {n : Notify} (h : Notified ws n ws') (hall : ∀ pc ∈ ws, Q pc) :
    ∀ pc ∈ ws', Q pc := by
  cases h with
  | none => exact hall
  | one h =>
    intro pc hpc
    rcases List.mem_or_eq_of_mem_set hpc with hpc | rfl
    · exact hall pc hpc
    · exact hq (hall _ (List.mem_of_getElem? h))
  | idle => exact hall
  | all =>
    intro pc hpc
    obtain ⟨pc₀, hpc₀, rfl⟩ := List.mem_map.mp hpc
    have := hall pc₀ hpc₀
    cases pc₀ <;> first | exact this | exact hq this

/-- A notification leaves a worker alone that is not blocked. -/
theorem Notified.getElem? {ws ws' : List (Pc σ V)} {n : Notify} (h : Notified ws n ws') {i : Nat}
    {pc : Pc σ V} (hi : ws[i]? = some pc) (hb : pc ≠ .blocked) : ws'[i]? = some pc := by
  cases h with
  | none | idle => exact hi
  | @one j hj =>
    have hij : j ≠ i := by
      rintro rfl
      rw [hj] at hi
      cases hi
      exact hb rfl
    rw [List.getElem?_set_ne hij]
    exact hi
  | all =>
    rw [List.getElem?_map, hi]
    cases pc <;> first | rfl | exact absurd rfl hb

/-- Waking up a blocked thread and spawning one keep the property. -/
structure Kept (Q : Pc σ V → Prop) : Prop where
  wakeUp : Q .blocked → Q .notified
  start : ∀ id, Q (.start id)

/-- A step of worker `w` preserves a property that the other workers have. -/
theorem forall_worker {Q : Pc σ V → Prop} (hq : Kept Q) {ws ws' : List (Pc σ V)} {w : Nat}
    {pc' : Pc σ V} {n : Notify} {spawn : Option Nat} (hn : Notified (ws.set w pc') n ws')
    (hall : ∀ j pc, j ≠ w → ws[j]? = some pc → Q pc) (hpc : Q pc') :
    ∀ pc ∈ ws' ++ (spawn.map fun id => Pc.start id).toList, Q pc := by
  intro pc hmem
  rcases List.mem_append.mp hmem with hmem | hmem
  · refine hn.forall_mem hq.wakeUp (fun pc hmem => ?_) pc hmem
    obtain ⟨j, hj⟩ := List.mem_iff_getElem?.mp hmem
    by_cases hjw : j = w
    · subst hjw
      obtain rfl : pc' = pc := by
        rw [List.getElem?_set_self'] at hj
        cases h : ws[j]? <;> simp [h] at hj
        exact hj
      exact hpc
    · rw [List.getElem?_set_ne (Ne.symm hjw)] at hj
      exact hall j pc hjw hj
  · cases spawn with
    | none => simp at hmem
    | some id =>
      obtain rfl : pc = .start id := by simpa using hmem
      exact hq.start id

/-- Two shared states that differ at most in the clock, the readiness of the fds and the
    next ids. -/
structure Shared.Same (sh sh' : Shared σ V) : Prop where
  runnable : sh'.queue.runnable = sh.queue.runnable
  waiting : sh'.queue.waiting = sh.queue.waiting
  pendingReady : sh'.queue.pendingReady = sh.queue.pendingReady
  idleWorkers : sh'.queue.idleWorkers = sh.queue.idleWorkers
  allWorkers : sh'.queue.allWorkers = sh.queue.allWorkers
  polling : sh'.polling = sh.polling
  timerHeap : sh'.timerHeap = sh.timerHeap
  net : sh'.net = sh.net
  chans : sh'.chans = sh.chans
  groups : sh'.groups = sh.groups
  aborted : sh'.aborted = sh.aborted
  log : sh'.log = sh.log

/-- The id that the main thread is about to queue. -/
def MainPc.pushes : MainPc σ → Option TaskId
  | .goPush id _ => some id
  | _ => none

/-- A step that no worker makes, as far as tasks and measures can tell. -/
inductive OuterStep (s s' : State σ V) : Prop where
  /-- The main thread takes an id for a task. -/
  | go (hsh : s'.sh = { s.sh with nextTaskId := s.sh.nextTaskId + 1 })
      (hm : s.main.pc.pushes = none) (hm' : s'.main.pc.pushes = some s.sh.nextTaskId)
  /-- The main thread queues a task. -/
  | push {id f} (hsh : s'.sh = (s.sh.pushNew id f).1) (hm : s.main.pc.pushes = some id)
      (hm' : s'.main.pc.pushes = none) (hpc : s.main.pc = .goPush id f)
  | same (hsh : s.sh.Same s'.sh) (hn : s'.sh.nextTaskId = s.sh.nextTaskId)
      (hm : s'.main.pc.pushes = s.main.pc.pushes)

/-- Only a task aborts the process. -/
theorem OuterStep.aborted {s s' : State σ V} (ho : OuterStep s s') :
    s'.sh.aborted = s.sh.aborted := by
  cases ho with
  | go hsh => rw [hsh]
  | push hsh => rw [hsh]; rfl
  | same hsh => exact hsh.aborted

/-- How the state follows a step of worker `w` from `pc`, with the effect `e`. -/
structure WorkerMove (s s' : State σ V) (w : Nat) (pc : Pc σ V) (e : Effect σ V) : Prop where
  sh : s'.sh = e.sh
  main : s'.main = s.main
  total : ∀ f, Silent f → s'.total f + f pc = s.total f + f e.pc
  at_ : e.pc ≠ .blocked → s'.workers[w]? = some e.pc
  forall_mem : ∀ Q : Pc σ V → Prop, Kept Q →
    (∀ j pc', j ≠ w → s.workers[j]? = some pc' → Q pc') → Q e.pc → ∀ pc' ∈ s'.workers, Q pc'

/-- How the workers follow an outer step. -/
structure OuterMove (s s' : State σ V) : Prop where
  total : ∀ f, Silent f → s'.total f = s.total f
  forall_mem : ∀ Q : Pc σ V → Prop, Kept Q → (∀ pc ∈ s.workers, Q pc) → ∀ pc ∈ s'.workers, Q pc

/-- A step that leaves the workers alone. -/
theorem OuterMove.refl {s s' : State σ V} (h : s'.workers = s.workers) : OuterMove s s' where
  total f _ := by rw [State.total, h, State.total]
  forall_mem Q _ hall := by rw [h]; exact hall

/-- The state in which `Next.worker` puts the effect of a worker's step. -/
theorem Notified.workerMove {s : State σ V} {w : Nat} {pc : Pc σ V} {e : Effect σ V}
    {ws : List (Pc σ V)} (hn : Notified (s.workers.set w e.pc) e.notify ws)
    (hw : s.workers[w]? = some pc) :
    WorkerMove s
      { s with sh := e.sh, workers := ws ++ (e.spawn.map fun id => Pc.start id).toList } w pc e := by
  refine ⟨rfl, rfl, fun f hf => total_worker hf hw hn, fun hb => ?_,
    fun Q hq hall hpc => forall_worker hq hn hall hpc⟩
  have hset := hn.getElem? (by rw [List.getElem?_set_self', hw]; rfl) hb
  rw [List.getElem?_append_left (List.getElem?_eq_some_iff.mp hset).1]
  exact hset

/-- The state follows the step of a worker. -/
theorem Next.worker_move {P : Program σ V} {w : Nat} {ch : Choice} {s s' : State σ V}
    (h : Next P s (.worker w ch) s') :
    ∃ pc e, s.workers[w]? = some pc ∧ WorkerStep P ch (queueFree s.workers) s.sh pc e ∧
      WorkerMove s s' w pc e := by
  cases h with
  | worker hw hs hn => exact ⟨_, _, hw, hs, hn.workerMove hw⟩

/-- **A step is one worker's or an outer one.** -/
theorem Next.cases {P : Program σ V} {a : Act} {s s' : State σ V} (h : Next P s a s') :
    (∃ w ch pc e, a = .worker w ch ∧ s.workers[w]? = some pc ∧
      WorkerStep P ch (queueFree s.workers) s.sh pc e ∧ WorkerMove s s' w pc e) ∨
    (OuterStep s s' ∧ OuterMove s s') := by
  cases h with
  | worker hw hs hn =>
    obtain ⟨pc, e, hmove⟩ := Next.worker_move (P := P) (.worker hw hs hn)
    exact .inl ⟨_, _, pc, e, rfl, hmove⟩
  | main hs =>
    right
    cases hs with
    | go hm => exact ⟨.go rfl (by rw [hm]; rfl) rfl, .refl rfl⟩
    | start hm => exact ⟨.same (by constructor <;> rfl) rfl (by rw [hm]; rfl), .refl rfl⟩
    | goPush hm _ hn =>
      exact ⟨.push rfl (by rw [hm]; rfl) rfl (by rw [hm]), fun f hf => hn.sum hf,
        fun Q hq hall => hn.forall_mem hq.wakeUp hall⟩
    | spawn hm =>
      refine ⟨.same (by constructor <;> rfl) rfl (by rw [hm]; rfl), fun f hf => ?_,
        fun Q hq hall pc hpc => ?_⟩
      · simp [State.total, hf.start]
      · rcases List.mem_append.mp hpc with hpc | hpc
        · exact hall pc hpc
        · obtain rfl := List.mem_singleton.mp hpc
          exact hq.start _
    | spawned hm | joined hm | join hm =>
      exact ⟨.same (by constructor <;> rfl) rfl (by rw [hm]; rfl), .refl rfl⟩
  | spurious hw =>
    refine .inr ⟨.same (by constructor <;> rfl) rfl rfl, fun f hf => ?_,
      fun Q hq hall pc hpc => ?_⟩
    · have := Slots.sum_map_set f .notified hw
      have := hf.wakeUp
      simp only [State.total]
      omega
    · rcases List.mem_or_eq_of_mem_set hpc with hpc | rfl
      · exact hall pc hpc
      · exact hq.wakeUp (hall _ (List.mem_of_getElem? hw))
  | tick | setReadable => exact .inr ⟨.same (by constructor <;> rfl) rfl rfl, .refl rfl⟩

/-- The step of a given worker. -/
theorem next_worker {P : Program σ V} {s s' : State σ V} {w : Nat} {ch : Choice} {pc : Pc σ V}
    (hn : (runtime P).next (.worker w ch) s = some s') (hw : s.workers[w]? = some pc) :
    s.sh.aborted = none ∧
      ∃ e, WorkerStep P ch (queueFree s.workers) s.sh pc e ∧ WorkerMove s s' w pc e := by
  obtain ⟨ha, hn⟩ := next_inv (a := .worker w ch) hn
  refine ⟨ha, ?_⟩
  obtain ⟨pc', e, hw', hs, hmove⟩ := hn.worker_move
  rw [hw] at hw'
  cases hw'
  exact ⟨e, hs, hmove⟩

/-! ### Frames

What a worker without a task leaves alone: a proof about the channels, the wait groups or the poller
does not have to look at the worker loop.
-/

/-- A part of the shared state that the queue and the history are not in. -/
structure Beside {β : Type} (f : Shared σ V → β) : Prop where
  queue : ∀ sh q, f (sh.withQueue q) = f sh
  record : ∀ sh es, f (sh.record es) = f sh

/-- Nor are `POLLING` and the timers. -/
structure Framed {β : Type} (f : Shared σ V → β) : Prop extends Beside f where
  polling : ∀ sh b, f { sh with polling := b } = f sh
  timerHeap : ∀ sh heap, f { sh with timerHeap := heap } = f sh

section Frames

variable {β : Type} {f : Shared σ V → β} {P : Program σ V} {ch : Choice} {free : Bool}
  {sh : Shared σ V} {pc : Pc σ V} {e : Effect σ V}

/-- `goready` leaves what is beside the queue alone. -/
theorem Beside.goready (hf : Beside f) (sh : Shared σ V) (waker : Waker) (id : TaskId) :
    f (sh.goready waker id).1 = f sh := by
  unfold Shared.goready
  split <;> exact (hf.record _ _).trans (hf.queue _ _)

/-- `pop_front` leaves what is beside the queue alone. -/
theorem Beside.tryPop (hf : Beside f) (sh : Shared σ V) (otherwise : Pc σ V) :
    f (tryPop sh otherwise).sh = f sh := by
  unfold MyGoroutine.tryPop
  split
  · rfl
  · exact (hf.record _ _).trans (hf.queue _ _)

/-- **A worker that runs no task** touches the queue, the history, `POLLING` and the timers. -/
theorem WorkerStep.framed (hf : Framed f) (hs : WorkerStep P ch free sh pc e)
    (hpc : ∀ t, pc ≠ .run t) : f e.sh = f sh := by
  cases hs with
  | run => exact absurd rfl (hpc _)
  | timersReady | wakeReady => exact hf.goready _ _ _
  | top | termNetYes | termStay => exact hf.tryPop _ _
  | register | termExit | requeue => exact hf.queue _ _
  | casWin | giveUp | nothingLeft | release => exact hf.polling _ _
  | timersPop => exact (hf.record _ _).trans (hf.timerHeap _ _)
  | lookup => exact hf.record _ _
  | notified =>
    simp only [wakeStep]
    split
    · exact hf.queue _ _
    · exact (hf.tryPop _ _).trans (hf.queue _ _)
  | goIdle =>
    simp only [idleStep]
    split
    · exact (hf.queue _ _).trans (hf.queue _ _)
    · exact hf.queue _ _
  | park =>
    unfold Shared.parkTask
    split
    · exact (hf.record _ _).trans (hf.queue _ _)
    · exact hf.queue _ _
  | _ => rfl

/-- Only tasks change the channels. -/
theorem framed_chans : Framed (Shared.chans : Shared σ V → List (Chan V)) :=
  ⟨⟨fun _ _ => rfl, fun _ _ => rfl⟩, fun _ _ => rfl, fun _ _ => rfl⟩

/-- Only tasks change the wait groups. -/
theorem framed_groups : Framed (Shared.groups : Shared σ V → List WaitGroup) :=
  ⟨⟨fun _ _ => rfl, fun _ _ => rfl⟩, fun _ _ => rfl, fun _ _ => rfl⟩

/-- Only tasks change the interest set and `waiting_fds`. -/
theorem framed_net : Framed (Shared.net : Shared σ V → NetPoller) :=
  ⟨⟨fun _ _ => rfl, fun _ _ => rfl⟩, fun _ _ => rfl, fun _ _ => rfl⟩

/-- Only tasks abort the process. -/
theorem framed_aborted : Framed (Shared.aborted : Shared σ V → Option Panic) :=
  ⟨⟨fun _ _ => rfl, fun _ _ => rfl⟩, fun _ _ => rfl, fun _ _ => rfl⟩

/-- `POLLING` is beside the queue. -/
theorem beside_polling : Beside (Shared.polling : Shared σ V → Bool) :=
  ⟨fun _ _ => rfl, fun _ _ => rfl⟩

/-- The timer heap is beside the queue. -/
theorem beside_timerHeap : Beside (Shared.timerHeap : Shared σ V → List TimerEntry) :=
  ⟨fun _ _ => rfl, fun _ _ => rfl⟩

/-- The clock is beside the queue. -/
theorem beside_clock : Beside (Shared.clock : Shared σ V → Instant) :=
  ⟨fun _ _ => rfl, fun _ _ => rfl⟩

end Frames

/-! ### The invariant rule

For properties of the shared state alone, which the main thread and the environment hardly touch.
-/

/-- **Invariant rule for the shared state.** -/
theorem shared_invariant {P : Program σ V} {ok : Act → State σ V → Prop}
    {I : Shared σ V → Prop}
    (h0 : ∀ caps groups calls, I (State.initial (σ := σ) (V := V) caps groups calls).sh)
    (hsame : ∀ sh sh', Shared.Same sh sh' → I sh → I sh')
    (hpush : ∀ id f sh, I sh → I (sh.pushNew id f).1)
    (hstep : ∀ s ch pc e, (runtime P).Reach ok s → I s.sh → pc ∈ s.workers →
      WorkerStep P ch (queueFree s.workers) s.sh pc e → I e.sh)
    {s : State σ V} (hr : (runtime P).Reach ok s) : I s.sh := by
  refine hr.invariant (I := fun s => I s.sh) ?_ ?_
  · rintro s ⟨caps, groups, calls, rfl⟩
    exact h0 caps groups calls
  · intro s s' a hr hi _ hn
    rcases (next_inv hn).2.cases with ⟨w, ch, pc, e, -, hw, hs, hmove⟩ | ⟨ho, -⟩
    · rw [hmove.sh]
      exact hstep s _ _ _ hr hi (List.mem_of_getElem? hw) hs
    · cases ho with
      | go hsh => exact hsame _ _ (by rw [hsh]; constructor <;> rfl) hi
      | push hsh => rw [hsh]; exact hpush _ _ _ hi
      | same hsh => exact hsame _ _ hsh hi

end MyGoroutine
