import MyGoroutine.Sched.Shape

namespace MyGoroutine

/-!
# The codes of the tasks

Tasks move between the queues and the workers, but only a step of the task itself changes the
point its code has reached.

* `GlobalQueue.Has`, `State.Holds` — the tasks in the queues, and all tasks of a state;
* `SchedStep.has` — where the tasks in the queues come from;
* `reach_codes` — the invariant rule for a property of every task's code.
-/

variable {σ V : Type}

section Queues

variable {variant : Variant} {sh sh' : Shared σ V} {pc pc' : Pc σ V}

/-- The queues hold a task. -/
def GlobalQueue.Has (q : GlobalQueue σ V) (t : Task σ V) : Prop :=
  t ∈ q.runnable ∨ ∃ i, q.waiting.lookup i = some t

/-- Which tasks the queue has depends on its two stores only. -/
theorem GlobalQueue.Has.congr {q q' : GlobalQueue σ V} {t : Task σ V} (h : q'.Has t)
    (hr : q'.runnable = q.runnable) (hw : q'.waiting = q.waiting) : q.Has t := by
  unfold GlobalQueue.Has at *
  rwa [hr, hw] at h

/-- The same task at the same point of its code. -/
def Task.Same (t u : Task σ V) : Prop := u.id = t.id ∧ u.code = t.code

/-- `goready` moves a task from `waiting` to `runnable`, and changes its state at most. -/
theorem goready_has {waker : Waker} {id : TaskId} {u : Task σ V}
    (h : (sh.goready waker id).1.queue.Has u) : ∃ t, sh.queue.Has t ∧ t.Same u := by
  unfold Shared.goready at h
  split at h
  · rename_i t ht
    rcases h with h | ⟨i, h⟩
    · rcases List.mem_append.mp h with h | h
      · exact ⟨u, .inl h, rfl, rfl⟩
      · obtain rfl := List.mem_singleton.mp h
        exact ⟨t, .inr ⟨id, ht⟩, rfl, rfl⟩
    · simp only [Shared.record, Shared.withQueue, GlobalQueue.wake, Slots.lookup_erase_ite] at h
      split at h
      · cases h
      · exact ⟨u, .inr ⟨i, h⟩, rfl, rfl⟩
  · exact ⟨u, h, rfl, rfl⟩

/-- A push adds its task. -/
theorem pushBack_has {q : GlobalQueue σ V} {t u : Task σ V} (h : (q.pushBack t).Has u) :
    q.Has u ∨ u = t := by
  rcases h with h | h
  · rcases List.mem_append.mp h with h | h
    · exact .inl (.inl h)
    · exact .inr (List.mem_singleton.mp h)
  · exact .inl (.inr h)

/-- Parking adds its task, and changes its state at most. -/
theorem parkTask_has {t u : Task σ V} (h : (sh.parkTask variant t).1.queue.Has u) :
    (∃ v, sh.queue.Has v ∧ v.Same u) ∨ t.Same u := by
  unfold Shared.parkTask at h
  split at h
  · rcases pushBack_has (q := sh.queue) (t := t.withState .runnable) (h.congr rfl rfl) with h | rfl
    · exact .inl ⟨u, h, rfl, rfl⟩
    · exact .inr ⟨rfl, rfl⟩
  · rcases h with h | ⟨i, h⟩
    · exact .inl ⟨u, .inl h, rfl, rfl⟩
    · simp only [Shared.withQueue, GlobalQueue.store, Slots.lookup_insert_ite] at h
      split at h
      · cases h; exact .inr ⟨rfl, rfl⟩
      · exact .inl ⟨u, .inr ⟨i, h⟩, rfl, rfl⟩

/-- **Where the tasks in the queues come from**: they were there before, the worker has put
    its live task back, or the worker has created one. -/
theorem SchedStep.has (hs : SchedStep variant sh pc sh' pc') {u : Task σ V}
    (h : sh'.queue.Has u) :
    (∃ t, sh.queue.Has t ∧ t.Same u) ∨
      (∃ t, pc = .switched t ∧ t.state ≠ .dead ∧ t.Same u) ∨
      ∃ t id f k, pc = .run t ∧ t.code = .goPush id f k ∧ u = Task.new id f := by
  cases hs with
  | quiet hs => exact .inl ⟨u, h.congr hs.runnable hs.waiting, rfl, rfl⟩
  | goready hs => exact .inl (goready_has (h.congr hs.runnable hs.waiting))
  | create hr hc =>
    rcases pushBack_has h with h | rfl
    · exact .inl ⟨u, h, rfl, rfl⟩
    · exact .inr (.inr ⟨_, _, _, _, hr, hc, rfl⟩)
  | entry | alloc | yield | parkOut | die | drop => exact .inl ⟨u, h, rfl, rfl⟩
  | dispatch _ hr hrun hw =>
    rcases h with h | ⟨i, h⟩
    · rw [hrun] at h
      exact .inl ⟨u, .inl (by rw [hr]; exact List.mem_cons_of_mem _ h), rfl, rfl⟩
    · rw [hw] at h
      exact .inl ⟨u, .inr ⟨i, h⟩, rfl, rfl⟩
  | park hp hw =>
    rcases parkTask_has h with h | h
    · exact .inl h
    · exact .inr (.inl ⟨_, hp, by rw [hw]; decide, h⟩)
  | requeue hp hd =>
    rcases pushBack_has h with h | rfl
    · exact .inl ⟨u, h, rfl, rfl⟩
    · exact .inr (.inl ⟨_, hp, hd, rfl, rfl⟩)

/-- A worker that runs no task gets one from the queue only, at the same point of its code. -/
theorem SchedStep.task? (hs : SchedStep variant sh pc sh' pc') (hpc : ∀ t, pc ≠ .run t)
    {u : Task σ V} (hu : pc'.task? = some u) : ∃ t, sh.queue.Has t ∧ t.Same u := by
  cases hs with
  | quiet _ _ _ ht | goready _ _ _ ht =>
    cases ht with
    | none _ h' => rw [h'] at hu; cases hu
    | run h => exact absurd h (hpc _)
  | entry h | alloc h | create h | yield h | parkOut h | die h => exact absurd h (hpc _)
  | @dispatch t _ _ _ hr =>
    cases hu
    exact ⟨t, .inl (by rw [hr]; exact List.mem_cons_self), rfl, rfl⟩
  | drop _ _ h' | park _ _ h' | requeue _ _ _ h' => rw [h'] at hu; cases hu

end Queues

/-- The tasks of a state. -/
def State.Holds (s : State σ V) (t : Task σ V) : Prop :=
  s.sh.queue.Has t ∨ ∃ pc ∈ s.workers, pc.task? = some t

/-- **Invariant rule for codes.**  What holds of a fresh task's code, and survives every step
    of the task itself, holds of the code of every task in every state reached. -/
theorem reach_codes {P : Program σ V} {ok : Act → State σ V → Prop} {p : Code σ V → Prop}
    (hentry : ∀ f, p (.entry f))
    (hstep : ∀ s ch t e u, (runtime P).Reach ok s → (Pc.run t) ∈ s.workers →
      TaskStep P ch (queueFree s.workers) s.sh t e → p t.code → e.pc.task? = some u → p u.code)
    {s : State σ V} (hr : (runtime P).Reach ok s) : ∀ t, s.Holds t → p t.code := by
  refine hr.invariant (I := fun s => ∀ t, s.Holds t → p t.code) ?_ ?_
  · rintro s ⟨caps, groups, calls, rfl⟩ t ((ht | ⟨i, ht⟩) | ⟨pc, hpc, -⟩)
    · cases ht
    · simp [State.initial, GlobalQueue.new] at ht
    · cases hpc
  · intro s s' a hr h _ hn
    have hkept : Kept (fun pc : Pc σ V => ∀ u, pc.task? = some u → p u.code) :=
      ⟨by simp [Pc.task?], by simp [Pc.task?]⟩
    rcases (next_inv hn).2.cases with ⟨w, ch, pc, e, -, hw, hs, hmove⟩ | ⟨ho, hmove⟩
    · have hmem := List.mem_of_getElem? hw
      rintro t (ht | ⟨pc', hpc', ht⟩)
      · rw [hmove.sh] at ht
        -- a queued task was queued, or held by the worker, or is new and at its entry
        rcases hs.sched.has ht with ⟨v, hv, -, hc⟩ | ⟨v, rfl, -, -, hc⟩ | ⟨v, id, f, k, -, -, rfl⟩
        · rw [hc]; exact h v (.inl hv)
        · rw [hc]; exact h v (.inr ⟨_, hmem, rfl⟩)
        · exact hentry f
      · refine hmove.forall_mem _ hkept
          (fun j pc' _ hj u hu => h u (.inr ⟨pc', List.mem_of_getElem? hj, hu⟩)) ?_ pc' hpc' t ht
        intro u hu
        rcases hs.task_or with ⟨t, rfl, htask⟩ | hpc
        · exact hstep s ch t e u hr hmem htask (h t (.inr ⟨_, hmem, rfl⟩)) hu
        · obtain ⟨v, hv, -, hc⟩ := hs.sched.task? hpc hu
          rw [hc]; exact h v (.inl hv)
    · rintro t (ht | ⟨pc', hpc', ht⟩)
      · cases ho with
        | go hsh => rw [hsh] at ht; exact h t (.inl ht)
        | push hsh =>
          rw [hsh] at ht
          rcases pushBack_has ht with ht | rfl
          · exact h t (.inl ht)
          · exact hentry _
        | same hsh => exact h t (.inl (ht.congr hsh.runnable hsh.waiting))
      · exact hmove.forall_mem _ hkept (fun pc hpc u hu => h u (.inr ⟨pc, hpc, hu⟩)) pc' hpc' t ht

end MyGoroutine
