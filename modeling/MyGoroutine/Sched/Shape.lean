import MyGoroutine.Step.Sched

namespace MyGoroutine

/-!
# The shape of tasks in each place

The state of a task and the point its code has reached follow from where the task is: a
queued task is `runnable` and can be resumed, a task in `waiting` stands under its own id
inside `gopark`, a task on a worker is `running`.

* `GlobalQueue.Shaped`, `Pc.Shaped` — the shape of the queues and of a worker;
* `SchedStep.shaped` — a scheduling step keeps the shape;
* `reach_shaped` — every state reached has it.
-/

variable {σ V : Type}

/-- A point at which a task can be switched to. -/
def Code.resumable : Code σ V → Bool
  | .entry _ => true
  | .user _ => true
  | .parked _ => true
  | _ => false

/-- The point inside `gopark`. -/
def Code.isParked : Code σ V → Bool
  | .parked _ => true
  | _ => false

/-- The code is in the user's closure. -/
def Code.isUser : Code σ V → Bool
  | .user _ => true
  | _ => false

/-- The queued tasks can be resumed, and the stored ones are parked. -/
structure GlobalQueue.Shaped (q : GlobalQueue σ V) : Prop where
  runnable : ∀ t ∈ q.runnable, t.state = .runnable ∧ t.code.resumable = true
  waiting : ∀ i t, q.waiting.lookup i = some t →
    t.id = i ∧ t.state = .waiting ∧ t.code.isParked = true

/-- The shape of a task that has just been switched out. -/
def Task.SwitchedOut (t : Task σ V) : Prop :=
  t.state = .dead ∨ (t.state = .waiting ∧ t.code.isParked = true) ∨
    (t.state = .running ∧ t.code.isUser = true)

/-- The state of a worker's task fits what the worker does with it. -/
def Pc.Shaped : Pc σ V → Prop
  | .run t => t.state = .running
  | .switched t => t.SwitchedOut
  | _ => True

/-- Nothing is asked of a worker without a task. -/
theorem Pc.shaped_of_task? {pc : Pc σ V} (h : pc.task? = none) : pc.Shaped := by
  cases pc <;> trivial

/-- A parked task can be resumed. -/
theorem Code.resumable_of_isParked {c : Code σ V} (h : c.isParked = true) :
    c.resumable = true := by
  cases c <;> first | rfl | cases h

/-- A task between two calls can be resumed. -/
theorem Code.resumable_of_isUser {c : Code σ V} (h : c.isUser = true) : c.resumable = true := by
  cases c <;> first | rfl | cases h

namespace GlobalQueue.Shaped

variable {q : GlobalQueue σ V} (h : q.Shaped)
include h

/-- Queueing a task that can be resumed. -/
theorem pushBack {t : Task σ V} (ht : t.state = .runnable ∧ t.code.resumable = true) :
    (q.pushBack t).Shaped where
  runnable u hu := by
    rcases List.mem_append.mp hu with hu | hu
    · exact h.runnable u hu
    · obtain rfl := List.mem_singleton.mp hu
      exact ht
  waiting := h.waiting

/-- `goready` on a waiting task. -/
theorem wake {t : Task σ V} {id : TaskId} (ht : q.waiting.lookup id = some t) :
    (q.wake t id).Shaped where
  runnable := (h.pushBack (t := t.withState .runnable)
    ⟨rfl, Code.resumable_of_isParked (h.waiting _ _ ht).2.2⟩).runnable
  waiting i u hu := by
    simp only [GlobalQueue.wake, Slots.lookup_erase_ite] at hu
    split at hu
    · cases hu
    · exact h.waiting i u hu

/-- Storing a parked task in `waiting`. -/
theorem store {t : Task σ V} (ht : t.state = .waiting ∧ t.code.isParked = true) :
    (q.store t).Shaped where
  runnable := h.runnable
  waiting i u hu := by
    simp only [GlobalQueue.store, Slots.lookup_insert_ite] at hu
    split at hu
    · cases hu
      exact ⟨Eq.symm ‹_›, ht⟩
    · exact h.waiting i u hu

/-- The tokens and counters do not matter. -/
theorem congr {q' : GlobalQueue σ V} (hr : q'.runnable = q.runnable)
    (hw : q'.waiting = q.waiting) : q'.Shaped where
  runnable := by rw [hr]; exact h.runnable
  waiting := by rw [hw]; exact h.waiting

end GlobalQueue.Shaped

section Step

variable {variant : Variant} {sh sh' : Shared σ V} {pc pc' : Pc σ V}

/-- `goready` keeps the shape of the queue: a task in `runnable` is runnable. -/
theorem goready_shaped {waker : Waker} {id : TaskId} (h : sh.queue.Shaped) :
    (sh.goready waker id).1.queue.Shaped := by
  unfold Shared.goready
  split
  · exact h.wake ‹_›
  · exact h.congr rfl rfl

/-- `go` keeps the shape of the queue. -/
theorem pushNew_shaped {id : TaskId} {f : σ} (h : sh.queue.Shaped) :
    (sh.pushNew id f).1.queue.Shaped :=
  h.pushBack ⟨rfl, rfl⟩

/-- Parking keeps the shape of the queue: a task in `waiting` is parked. -/
theorem parkTask_shaped {t : Task σ V} (h : sh.queue.Shaped)
    (ht : t.state = .waiting ∧ t.code.isParked = true) :
    (sh.parkTask variant t).1.queue.Shaped := by
  unfold Shared.parkTask
  split
  · exact (h.pushBack (t := t.withState .runnable)
      ⟨rfl, Code.resumable_of_isParked ht.2⟩).congr rfl rfl
  · exact h.store ht

/-- A worker that keeps its task keeps its shape. -/
theorem SameTask.shaped (h : SameTask pc pc') (hpc : pc.Shaped) : pc'.Shaped := by
  cases h with
  | none _ h' => exact Pc.shaped_of_task? h'
  | run h h' => subst h; subst h'; exact hpc

/-- **A scheduling step keeps the shape** of the queues and of the worker. -/
theorem SchedStep.shaped (hs : SchedStep variant sh pc sh' pc') (h : sh.queue.Shaped)
    (hpc : pc.Shaped) : sh'.queue.Shaped ∧ pc'.Shaped := by
  cases hs with
  | quiet hs _ _ ht => exact ⟨h.congr hs.runnable hs.waiting, ht.shaped hpc⟩
  | entry hr => subst hr; exact ⟨h, hpc⟩
  | alloc hr => subst hr; exact ⟨h, hpc⟩
  | create hr => subst hr; exact ⟨pushNew_shaped h, hpc⟩
  | goready hs _ _ ht =>
    exact ⟨(goready_shaped h).congr hs.runnable hs.waiting, ht.shaped hpc⟩
  | yield hr => subst hr; exact ⟨h, .inr (.inr ⟨hpc, rfl⟩)⟩
  | parkOut hr => exact ⟨h, .inr (.inl ⟨rfl, rfl⟩)⟩
  | die hr => exact ⟨h, .inl rfl⟩
  | dispatch _ hr hrun hw =>
    refine ⟨⟨fun u hu => h.runnable u ?_, by rw [hw]; exact h.waiting⟩, rfl⟩
    rw [hrun] at hu
    rw [hr]
    exact List.mem_cons_of_mem _ hu
  | drop _ _ h' => exact ⟨h, Pc.shaped_of_task? h'⟩
  | park hp hw h' =>
    subst hp
    rcases hpc with hd | ht | hy
    · rw [hw] at hd; cases hd
    · exact ⟨parkTask_shaped h ht, Pc.shaped_of_task? h'⟩
    · rw [hw] at hy; cases hy.1
  | requeue hp hd hw h' =>
    subst hp
    rcases hpc with hd' | ht | hy
    · exact absurd hd' hd
    · exact absurd ht.1 hw
    · exact ⟨h.pushBack ⟨rfl, Code.resumable_of_isUser hy.2⟩, Pc.shaped_of_task? h'⟩

end Step

/-- The shape of a state. -/
structure State.Shaped (s : State σ V) : Prop where
  queue : s.sh.queue.Shaped
  workers : ∀ pc ∈ s.workers, pc.Shaped

/-- Every state reached has the shape. -/
theorem reach_shaped {P : Program σ V} {ok : Act → State σ V → Prop} {s : State σ V}
    (hr : (runtime P).Reach ok s) : s.Shaped := by
  refine hr.invariant ?_ ?_
  · rintro s ⟨caps, groups, calls, rfl⟩
    refine ⟨⟨by simp [State.initial, GlobalQueue.new], fun i t h => ?_⟩, by simp [State.initial]⟩
    simp [State.initial, GlobalQueue.new] at h
  · intro s s' a _ hi _ hnext
    have hkept : Kept (Pc.Shaped : Pc σ V → Prop) := ⟨fun _ => trivial, fun _ => trivial⟩
    rcases (next_inv hnext).2.cases with ⟨w, ch, pc, e, -, hw, hs, hmove⟩ | ⟨ho, hmove⟩
    · obtain ⟨hq, hpc⟩ := hs.sched.shaped hi.queue (hi.workers _ (List.mem_of_getElem? hw))
      exact ⟨hmove.sh ▸ hq, hmove.forall_mem _ hkept
        (fun j pc' _ hj => hi.workers _ (List.mem_of_getElem? hj)) hpc⟩
    · refine ⟨?_, hmove.forall_mem _ hkept hi.workers⟩
      cases ho with
      | go hsh => rw [hsh]; exact hi.queue
      | push hsh => rw [hsh]; exact pushNew_shaped hi.queue
      | same hsh => exact hi.queue.congr hsh.runnable hsh.waiting

end MyGoroutine
