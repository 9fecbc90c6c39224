import MyGoroutine.Lib.History
import MyGoroutine.Sched.Run

namespace MyGoroutine

/-!
# The order of the runnable queue

`go`, `gosched`, `goready` and the park branch put a task at the end of `runnable`, whichever worker
makes the call, and every worker takes the first one.

* `Event.dispatched?`, `dispatches` — the tasks that a history dispatches;
* `Shared.Serves` — what a stretch of a run does to the queue;
* `SchedStep.serves`, `next_serves`, `run_serves` — steps and runs;
* `dispatched_in_turn` — a queued task is dispatched when its turn is;
* `yieldProgram` — a program whose tasks yield.
-/

open History (Passed)

variable {σ V : Type}

/-- The task that a worker pops. -/
def Event.dispatched? : Event V → Option TaskId
  | .dispatched t => some t
  | _ => none

/-- The tasks that the events dispatch, in order. -/
def dispatches (es : List (Event V)) : List TaskId := es.filterMap Event.dispatched?

/-- Events beside scheduling dispatch nobody. -/
theorem dispatches_quiet {es : List (Event V)} (h : ∀ e ∈ es, e.isSched = false) :
    dispatches es = [] := by
  refine List.filterMap_eq_nil_iff.mpr fun e he => ?_
  have := h e he
  cases e <;> first | rfl | cases this

/-- From `sh` to `sh'` the history dispatches the tasks that have left the queue at its front. -/
def Shared.Serves (sh sh' : Shared σ V) : Prop :=
  ∃ es ts, sh'.log = sh.log ++ es ∧ dispatches es = ts.map (·.id) ∧
    Passed sh.queue.runnable ts sh'.queue.runnable

namespace Shared.Serves

variable {sh sh₁ sh' : Shared σ V}

/-- Serving in order goes on from state to state. -/
theorem trans (h : sh.Serves sh₁) (h' : sh₁.Serves sh') : sh.Serves sh' := by
  obtain ⟨es, ts, hl, hes, hq⟩ := h
  obtain ⟨es', ts', hl', hes', hq'⟩ := h'
  refine ⟨es ++ es', ts ++ ts', by rw [hl', hl, List.append_assoc], ?_, hq.trans hq'⟩
  rw [List.map_append, ← hes, ← hes']
  exact List.filterMap_append

/-- Nothing is dispatched. -/
theorem quiet {es : List (Event V)} (hl : sh'.log = sh.log ++ es) (hes : dispatches es = [])
    (hq : Passed sh.queue.runnable [] sh'.queue.runnable) : sh.Serves sh' :=
  ⟨es, [], hl, hes, hq⟩

/-- A step that leaves `runnable` alone serves nobody. -/
theorem of_quietLog (hl : QuietLog sh.log sh'.log)
    (hr : sh'.queue.runnable = sh.queue.runnable) : sh.Serves sh' := by
  obtain ⟨es, hl, hes⟩ := hl
  exact quiet hl (dispatches_quiet hes) (hr ▸ .refl _)

/-- Standing still serves nobody. -/
theorem refl (sh : Shared σ V) : sh.Serves sh := of_quietLog (.refl _) rfl

end Shared.Serves

section Steps

variable {variant : Variant} {sh sh' : Shared σ V} {pc pc' : Pc σ V}

/-- `goready` pushes at the back, or does nothing to `runnable`. -/
theorem goready_serves (waker : Waker) (id : TaskId) : sh.Serves (sh.goready waker id).1 := by
  unfold Shared.goready
  split
  · exact .quiet rfl rfl (.push _ _)
  · exact .quiet rfl rfl (.refl _)

/-- `go` pushes at the back. -/
theorem pushNew_serves (id : TaskId) (f : σ) : sh.Serves (sh.pushNew id f).1 :=
  .quiet rfl rfl (.push _ _)

/-- A task that parks with a token is pushed at the back. -/
theorem parkTask_serves (t : Task σ V) : sh.Serves (sh.parkTask variant t).1 := by
  unfold Shared.parkTask
  split
  · exact .quiet rfl rfl (.push _ _)
  · exact .of_quietLog (.refl _) rfl

/-- **A scheduling step** pops the first task, or puts one at the end, or leaves the queue alone. -/
theorem SchedStep.serves (hs : SchedStep variant sh pc sh' pc') : sh.Serves sh' := by
  cases hs with
  | quiet hs _ hl => exact .of_quietLog hl hs.runnable
  | goready hs _ hl => exact (goready_serves _ _).trans (.of_quietLog hl hs.runnable)
  | create => exact pushNew_serves _ _
  | park => exact parkTask_serves _
  | requeue => exact .quiet (List.append_nil _).symm rfl (.push _ _)
  | @dispatch t rest _ _ hr hrun _ _ _ hl =>
    refine ⟨[.dispatched t.id], [t], hl, rfl, ?_⟩
    rw [hr, hrun]
    exact .pop _ _
  | entry | die => exact .quiet rfl rfl (.refl _)
  | alloc | yield | parkOut | drop => exact .quiet (List.append_nil _).symm rfl (.refl _)

end Steps

section Runs

variable {P : Program σ V} {a : Act} {as : List Act} {s s' : State σ V}

/-- **Each step serves the queue in order.** -/
theorem next_serves (hn : (runtime P).next a s = some s') : s.sh.Serves s'.sh := by
  rcases (next_inv hn).2.cases with ⟨w, ch, pc, e, -, -, hs, hmove⟩ | ⟨ho, -⟩
  · rw [hmove.sh]
    exact hs.sched.serves
  · cases ho with
    | go hsh => rw [hsh]; exact .quiet (List.append_nil _).symm rfl (.refl _)
    | push hsh => rw [hsh]; exact pushNew_serves _ _
    | same hsh => exact .quiet (by rw [hsh.log, List.append_nil]) rfl (hsh.runnable ▸ .refl _)

/-- **Each run serves the queue in order.** -/
theorem run_serves (hrun : (runtime P).run as s = some s') : s.sh.Serves s'.sh :=
  System.run_invariant (I := fun t => s.sh.Serves t.sh)
    (fun _ _ _ hn h => h.trans (next_serves hn)) hrun (.refl _)

/-- **A queued task is dispatched when its turn is.**  On any number of workers, in every run from
    any state: the task behind `n` others in `runnable` is the one dispatched after exactly `n`
    others, and as long as it is not, every dispatch brings it one place forward.  No task that is
    created, yields or is woken later is dispatched before it. -/
theorem dispatched_in_turn {n : Nat} {t : Task σ V} (hrun : (runtime P).run as s = some s')
    (ht : s.sh.queue.runnable[n]? = some t) :
    ∃ es, s'.sh.log = s.sh.log ++ es ∧
      if n < (dispatches es).length then (dispatches es)[n]? = some t.id
      else s'.sh.queue.runnable[n - (dispatches es).length]? = some t := by
  obtain ⟨es, ts, hl, hes, hq⟩ := run_serves hrun
  refine ⟨es, hl, ?_⟩
  have hturn := hq.turn ht
  rw [hes, List.length_map, List.getElem?_map]
  split at hturn
  · rw [if_pos ‹_›, hturn]
    rfl
  · rwa [if_neg ‹_›]

end Runs

/-- Closures that yield once. -/
def yieldProgram : Program Bool Unit where
  code
    | true => .gosched false
    | false => .done
  variant := .channel
  overflowChecks := false
  own b := by cases b <;> rfl

/-- The third task is dispatched third, after the first one has yielded. -/
theorem dispatched_in_turn_yield :
    ∃ s s', (runtime yieldProgram).run (List.replicate 9 (.main {}))
        (State.initial [] 0 [.go true, .go true, .go true, .startRuntime 2]) = some s ∧
      (runtime yieldProgram).run (List.replicate 5 (.worker 0 {}) ++ List.replicate 2 (.worker 1 {})
        ++ [.worker 0 {}]) s = some s' ∧
      ∃ es, s'.sh.log = s.sh.log ++ es ∧
        if 2 < (dispatches es).length then (dispatches es)[2]? = some 2
        else s'.sh.queue.runnable[2 - (dispatches es).length]? = some (Task.new 2 true) := by
  have h : ((runtime yieldProgram).run (List.replicate 9 (Act.main {}))
      (State.initial [] 0 [.go true, .go true, .go true, .startRuntime 2])).bind (fun s =>
        ((runtime yieldProgram).run (List.replicate 5 (Act.worker 0 {}) ++
          List.replicate 2 (Act.worker 1 {}) ++ [Act.worker 0 {}]) s).map fun s' =>
            (s.sh.queue.runnable[2]?, dispatches s'.sh.log))
      = some (some (Task.new 2 true), [0, 1, 2]) := by rfl
  obtain ⟨s, hs, h⟩ := Option.bind_eq_some_iff.mp h
  obtain ⟨s', hs', h⟩ := Option.map_eq_some_iff.mp h
  exact ⟨s, s', hs, hs', dispatched_in_turn hs' (Prod.mk.inj h).1⟩

end MyGoroutine
