import MyGoroutine.Sched.Codes
import MyGoroutine.Sched.Conservation

namespace MyGoroutine

/-!
# Live tasks

A task that has not finished is in the queues or on a worker, under an id of its own.

* `State.Live` — the tasks that have not finished;
* `id_ne_of_has`, `id_ne_of_workers` — two of them have different ids;
* `State.Live.worker`, `State.Live.outer` — the step rules for a property of the live tasks and
  of something that changes with the state;
* `State.codes` — how many live tasks of an id are at a kind of point, and `codes_run`,
  `codes_other`, `codes_outer`: only the step of a task moves its count.
-/

variable {σ V : Type}

/-- The tasks that have not finished. -/
def State.Live (s : State σ V) (t : Task σ V) : Prop :=
  s.sh.queue.Has t ∨ ∃ pc ∈ s.workers, pc.task? = some t ∧ t.state ≠ .dead

/-- A running task is not dead. -/
theorem Pc.Shaped.run {t : Task σ V} (h : (Pc.run t).Shaped) : t.state ≠ .dead := by
  rw [show t.state = .running from h]
  decide

section Places

variable {s : State σ V} {i : TaskId}

/-- A worker holds the task that it runs. -/
theorem holds_run (t : Task σ V) : (Pc.run t).holds (fun _ => true) t.id = 1 := by
  simp [Pc.holds, counts_true]

/-- A task in the queues is on no worker. -/
theorem id_ne_of_has (h : s.Shaped) (hp : s.Placed) {w : Nat} {pc : Pc σ V} {t u : Task σ V}
    (hw : s.workers[w]? = some pc) (ht : pc.task? = some t) (hd : t.state ≠ .dead)
    (hu : s.sh.queue.Has u) : t.id ≠ u.id := by
  intro hid
  have h1 := hp.held_add_holds_le_one hw u.id
  have h2 : pc.holds (fun _ => true) u.id = 1 := hid ▸ holds_eq_one ht hd
  have h3 : 0 < s.sh.queue.held (fun _ => true) u.id := by
    rcases hu with hu | ⟨i, hu⟩
    · have : u.counts (fun _ => true) u.id ≤ (s.sh.queue.runnable.map
          (Task.counts (fun _ => true) u.id)).sum :=
        List.single_le_sum (by simp) _ (List.mem_map_of_mem hu)
      rw [counts_true, if_pos rfl] at this
      unfold GlobalQueue.held
      omega
    · obtain rfl := (h.queue.waiting i u hu).1
      simp [GlobalQueue.held, hu, counts_true]
  omega

/-- Two workers hold different tasks. -/
theorem id_ne_of_workers (hp : s.Placed) {w j : Nat} {pc pc' : Pc σ V} {t u : Task σ V}
    (hw : s.workers[w]? = some pc) (hj : s.workers[j]? = some pc') (hne : j ≠ w)
    (ht : pc.task? = some t) (hd : t.state ≠ .dead) (hu : pc'.task? = some u)
    (hd' : u.state ≠ .dead) : t.id ≠ u.id := by
  intro hid
  have h1 := hp.places_le_one u.id
  have h2 := Slots.add_le_sum_map (Pc.holds (fun _ => true) u.id) hw hj (Ne.symm hne)
  have h3 : pc.holds (fun _ => true) u.id = 1 := hid ▸ holds_eq_one ht hd
  have h4 : pc'.holds (fun _ => true) u.id = 1 := holds_eq_one hu hd'
  unfold State.places State.total at h1
  omega

/-- A task that has not finished was created. -/
theorem created_of_worker (hp : s.Placed) {w : Nat} {pc : Pc σ V} {t : Task σ V}
    (hw : s.workers[w]? = some pc) (ht : pc.task? = some t) (hd : t.state ≠ .dead) :
    .created t.id ∈ s.sh.log := by
  have h1 := hp.live t.id
  have h2 := Slots.le_sum_map (Pc.holds (fun _ => true) t.id) hw
  have h3 := holds_eq_one ht hd
  unfold State.places State.total at h1
  obtain ⟨e, he, hc⟩ := List.countP_pos_iff.mp
    (show 0 < s.sh.log.countP (·.isCreated t.id) by omega)
  exact isCreated_iff.mp hc ▸ he

/-- The child of a `go` in progress is not created yet. -/
theorem not_created_of_births (hp : s.Placed) {w : Nat} {t : Task σ V} {id : TaskId} {f k : σ}
    (hw : s.workers[w]? = some (.run t)) (hc : t.code = .goPush id f k) :
    .created id ∉ s.sh.log := by
  intro hmem
  have h1 := hp.ids id
  have h2 := issued_le_one id s.sh.nextTaskId
  have h3 := Slots.le_sum_map (Pc.births id) hw
  have h4 : (Pc.run t).births id = 1 := by simp [Pc.births, hc, Code.birth]
  have h5 : 0 < s.sh.log.countP (·.isCreated id) :=
    List.countP_pos_iff.mpr ⟨_, hmem, isCreated_iff.mpr rfl⟩
  unfold State.total at h1
  omega

/-- A task that has not finished was created, and it has not died. -/
theorem not_died_of_live (hsh : s.Shaped) (hp : s.Placed) {t : Task σ V} (ht : s.Live t) :
    .created t.id ∈ s.sh.log ∧ .died t.id ∉ s.sh.log := by
  have hpos : 0 < s.places t.id := by
    rcases ht with (ht | ⟨i, ht⟩) | ⟨pc, hpc, ht, hd⟩
    · have : t.counts (fun _ => true) t.id ≤ (s.sh.queue.runnable.map
          (Task.counts (fun _ => true) t.id)).sum :=
        List.single_le_sum (by simp) _ (List.mem_map_of_mem ht)
      rw [counts_true, if_pos rfl] at this
      unfold State.places GlobalQueue.held
      omega
    · obtain rfl := (hsh.queue.waiting i t ht).1
      have : 1 ≤ s.sh.queue.held (fun _ => true) t.id := by
        simp [GlobalQueue.held, ht, counts_true]
      unfold State.places
      omega
    · obtain ⟨w, hw⟩ := List.mem_iff_getElem?.mp hpc
      have h1 := Slots.le_sum_map (Pc.holds (fun _ => true) t.id) hw
      have h2 := holds_eq_one ht hd
      unfold State.places State.total
      omega
  refine ⟨?_, fun hdied => ?_⟩
  · have h1 := hp.live t.id
    obtain ⟨e, he, hc⟩ := List.countP_pos_iff.mp
      (show 0 < s.sh.log.countP (·.isCreated t.id) by omega)
    exact isCreated_iff.mp hc ▸ he
  · have := hp.places_of_died hdied
    omega

/-- A task that was created and has not died is live. -/
theorem live_of_created (hsh : s.Shaped) (hp : s.Placed) (hc : .created i ∈ s.sh.log)
    (hd : .died i ∉ s.sh.log) : ∃ t, s.Live t ∧ t.id = i := by
  have h1 := hp.live i
  have h2 : 0 < s.sh.log.countP (·.isCreated i) :=
    List.countP_pos_iff.mpr ⟨_, hc, isCreated_iff.mpr rfl⟩
  have h3 : s.sh.log.countP (·.isDied i) = 0 :=
    List.countP_eq_zero.mpr fun e he hdied => hd (isDied_iff.mp hdied ▸ he)
  obtain ⟨l, hl⟩ := exists_at hsh (show 0 < s.places i by omega)
  cases l with
  | runnable n =>
    obtain ⟨t, hn, ht⟩ := hl
    exact ⟨t, .inl (.inl (List.mem_of_getElem? hn)), ht⟩
  | waiting =>
    obtain ⟨t, hw, ht⟩ := hl
    exact ⟨t, .inl (.inr ⟨i, hw⟩), ht⟩
  | worker w =>
    obtain ⟨pc, t, hw, ht, hid, hdead⟩ := hl
    exact ⟨t, .inr ⟨pc, List.mem_of_getElem? hw, ht, hdead⟩, hid⟩

/-- The task that a worker runs keeps its id. -/
theorem SchedStep.run_id {variant : Variant} {sh sh' : Shared σ V} {pc' : Pc σ V} {t u : Task σ V}
    (hs : SchedStep variant sh (.run t) sh' pc') (hu : pc'.task? = some u) : u.id = t.id := by
  have hsame : SameTask (.run t) pc' → u.id = t.id := fun h => by
    cases h with
    | none h => cases h
    | run h h' =>
      cases h
      subst h'
      cases hu
      rfl
  cases hs with
  | quiet _ _ _ h | goready _ _ _ h => exact hsame h
  | entry h | alloc h | create h | yield h | parkOut h | die h =>
    cases h
    cases hu
    rfl
  | dispatch h | drop h | park h | requeue h => cases h

/-- A task dies in a step of its own only. -/
theorem SchedStep.died {variant : Variant} {sh sh' : Shared σ V} {pc pc' : Pc σ V}
    (hs : SchedStep variant sh pc sh' pc') (h : .died i ∈ sh'.log) :
    .died i ∈ sh.log ∨ ∃ t, pc = .run t ∧ t.id = i := by
  have hquiet : ∀ {log log' : List (Event V)}, QuietLog log log' → .died i ∈ log' →
      .died i ∈ log := by
    rintro log log' ⟨es, rfl, hes⟩ hmem
    refine (List.mem_append.mp hmem).resolve_right fun hmem => ?_
    cases hes _ hmem
  cases hs with
  | quiet _ _ hl => exact .inl (hquiet hl h)
  | goready _ _ hl =>
    have h := hquiet hl h
    unfold Shared.goready at h
    split at h <;> exact .inl (by simpa [Shared.record, Shared.withQueue] using h)
  | dispatch _ _ _ _ _ _ hl =>
    rw [hl] at h
    exact .inl (by simpa using h)
  | park =>
    unfold Shared.parkTask at h
    split at h
    · exact .inl (by simpa [Shared.record, Shared.withQueue] using h)
    · exact .inl h
  | die hpc =>
    refine (List.mem_append.mp h).imp_right fun h => ⟨_, hpc, ?_⟩
    simpa [eq_comm] using h
  | entry | create =>
    exact .inl (by simpa [Shared.record, Shared.pushNew, Shared.withQueue] using h)
  | alloc | yield | parkOut | drop | requeue => exact .inl h

end Places

/-! ### Step rules

A property of all live tasks is kept by a step when it holds of the task that moves and of a child
that is queued, and the others' tasks keep it: the two rules below say this once for workers and
once for everybody else.
-/

section Rules

variable {P : Program σ V} {ch : Choice} {s s' : State σ V} {w : Nat} {pc : Pc σ V}
  {e : Effect σ V} {I J : TaskId → Code σ V → Prop} {t : Task σ V}

/-- **Step rule for workers.**  A property of the live tasks before the step becomes one after it
    when the step takes care of the worker's own task, of the others, and of new tasks. -/
theorem State.Live.worker (ht : s'.Live t) (hsh : s.Shaped) (hp : s.Placed)
    (hw : s.workers[w]? = some pc) (hs : WorkerStep P ch (queueFree s.workers) s.sh pc e)
    (hmove : WorkerMove s s' w pc e) (h : ∀ t, s.Live t → I t.id t.code)
    (hown : ∀ u, (∃ t, pc = .run t) → e.pc.task? = some u → u.state ≠ .dead → J u.id u.code)
    (hother : ∀ i c, (∀ t, pc = .run t → t.id ≠ i) → I i c → J i c)
    (hnew : ∀ i f, .created i ∉ s.sh.log → (∀ t, pc = .run t → t.id ≠ i) →
      (∃ t k, pc = .run t ∧ t.code = .goPush i f k) → J i (.entry f)) :
    J t.id t.code := by
  have hpc := hsh.workers _ (List.mem_of_getElem? hw)
  -- no queued task is the one that runs
  have hqueue : ∀ v, s.sh.queue.Has v → ∀ u, pc = .run u → u.id ≠ v.id := by
    rintro v hv u rfl
    exact id_ne_of_has hsh hp hw rfl hpc.run hv
  rcases ht with ht | ⟨pc', hpc', hu, hd⟩
  · rw [hmove.sh] at ht
    -- in the queue: it was there, or the worker has put it there, or it is new
    rcases hs.sched.has ht with ⟨v, hv, hid, hcode⟩ | ⟨v, hv, hd, hid, hcode⟩ |
      ⟨v, id, f, k, hv, hc, rfl⟩
    · rw [hid, hcode]
      exact hother _ _ (hqueue v hv) (h v (.inl hv))
    · rw [hid, hcode]
      subst hv
      exact hother _ _ (by simp) (h v (.inr ⟨_, List.mem_of_getElem? hw, rfl, hd⟩))
    · subst hv
      have hborn : .created id ∉ s.sh.log := not_created_of_births hp hw hc
      refine hnew id f hborn ?_ ⟨v, k, rfl, hc⟩
      rintro u hu rfl
      cases hu
      exact hborn (created_of_worker hp hw rfl hpc.run)
  · -- on a worker: another one, or the worker of the step
    refine hmove.forall_mem (fun pc' => ∀ u, pc'.task? = some u → u.state ≠ .dead →
      J u.id u.code) ⟨by simp [Pc.task?], by simp [Pc.task?]⟩ ?_ ?_ pc' hpc' t hu hd
    · intro j pc' hj hpc' u hu hd
      refine hother _ _ ?_ (h u (.inr ⟨_, List.mem_of_getElem? hpc', hu, hd⟩))
      rintro v rfl
      exact id_ne_of_workers hp hw hpc' hj rfl hpc.run hu hd
    · intro u hu hd
      rcases hs.task_or with ⟨t, ht, -⟩ | hno
      · exact hown u ⟨t, ht⟩ hu hd
      · obtain ⟨v, hv, hid, hcode⟩ := hs.sched.task? hno hu
        rw [hid, hcode]
        exact hother _ _ (hqueue v hv) (h v (.inl hv))

/-- **Step rule for the main thread and the environment.** -/
theorem State.Live.outer (ht : s'.Live t) (ho : OuterStep s s') (hmove : OuterMove s s')
    (h : ∀ t, s.Live t → I t.id t.code) (hkeep : ∀ i c, I i c → J i c)
    (hnew : ∀ i f, s.main.pc = .goPush i f → J i (.entry f)) : J t.id t.code := by
  rcases ht with ht | ⟨pc, hpc, ht, hd⟩
  · cases ho with
    | go hsh =>
      rw [hsh] at ht
      exact hkeep _ _ (h t (.inl ht))
    | push hsh _ _ hpc =>
      rw [hsh] at ht
      rcases pushBack_has ht with ht | rfl
      · exact hkeep _ _ (h t (.inl ht))
      · exact hnew _ _ hpc
    | same hsh => exact hkeep _ _ (h t (.inl (ht.congr hsh.runnable hsh.waiting)))
  · exact hmove.forall_mem (fun pc => ∀ u, pc.task? = some u → u.state ≠ .dead → J u.id u.code)
      ⟨by simp [Pc.task?], by simp [Pc.task?]⟩
      (fun pc hpc u hu hd => hkeep _ _ (h u (.inr ⟨pc, hpc, hu, hd⟩))) pc hpc t ht hd

/-- A task that the main thread is about to queue was not created before. -/
theorem not_created_of_main (hp : s.Placed) {id : TaskId} {f : σ} (hm : s.main.pc = .goPush id f) :
    .created id ∉ s.sh.log := by
  intro hmem
  have h1 := hp.ids id
  have h2 := issued_le_one id s.sh.nextTaskId
  have h3 : s.main.pc.births id = 1 := if_pos (by rw [hm]; rfl)
  have h4 : 0 < s.sh.log.countP (·.isCreated id) :=
    List.countP_pos_iff.mpr ⟨_, hmem, isCreated_iff.mpr rfl⟩
  omega

end Rules

/-! ### Counting codes

How many tasks are at points of a kind. As a task is in one place, the count is none or one, and
only the task that moves can change it.
-/

/-- How many live tasks `i` have a code that satisfies `p`: none or one. -/
def State.codes (s : State σ V) (p : Code σ V → Bool) (i : TaskId) : Nat :=
  s.sh.queue.held p i + s.total (Pc.holds p i)

section Counting

variable {variant : Variant} {sh sh' : Shared σ V} {pc' : Pc σ V} {p : Code σ V → Bool}
  {i : TaskId} {t : Task σ V}

/-- A running task leaves the codes of the queued tasks alone, except that a child is queued. -/
theorem SchedStep.held_run (hs : SchedStep variant sh (.run t) sh' pc') (h : sh.queue.Shaped)
    (hp : ∀ f, p (.entry f) = false) : sh'.queue.held p i = sh.queue.held p i := by
  cases hs with
  | quiet hs => exact GlobalQueue.held_congr hs.runnable hs.waiting
  | goready hs => rw [GlobalQueue.held_congr hs.runnable hs.waiting, goready_held h]
  | @create _ id f =>
    have := GlobalQueue.held_pushBack (p := p) (i := i) (q := sh.queue) (Task.new id f)
    rwa [counts_eq_zero (hp f), Nat.add_zero] at this
  | dispatch h => cases h
  | drop h | park h | requeue h => cases h
  | _ => rfl

variable {P : Program σ V} {ch : Choice} {s s' : State σ V} {w : Nat} {pc : Pc σ V}
  {e : Effect σ V}

/-- The step of a task moves its own count. -/
theorem codes_run (hsh : s.Shaped) (hp : ∀ f, p (.entry f) = false)
    (hs : WorkerStep P ch (queueFree s.workers) s.sh (.run t) e)
    (hmove : WorkerMove s s' w (.run t) e) :
    s'.codes p i + t.counts p i = s.codes p i + e.pc.holds p i := by
  have h1 := hs.sched.held_run (i := i) hsh.queue hp
  have h2 := hmove.total _ (silent_holds p i)
  unfold State.codes
  rw [hmove.sh, h1]
  simp only [Pc.holds] at h2 ⊢
  omega

/-- No other step of a worker moves a count. -/
theorem codes_other (hsh : s.Shaped) (hp : s.Placed) (hw : s.workers[w]? = some pc)
    (hpc : ∀ t, pc ≠ .run t) (hs : WorkerStep P ch (queueFree s.workers) s.sh pc e)
    (hmove : WorkerMove s s' w pc e) : s'.codes p i = s.codes p i := by
  have h1 := hs.sched.held_other (p := p) (i := i) hsh.queue hpc (hp.held_add_holds_le_one hw)
  have h2 := hmove.total _ (silent_holds p i)
  unfold State.codes
  rw [hmove.sh]
  omega

/-- Nor does a step of the main thread or of the environment. -/
theorem codes_outer (hp : ∀ f, p (.entry f) = false) (ho : OuterStep s s')
    (hmove : OuterMove s s') : s'.codes p i = s.codes p i := by
  unfold State.codes
  rw [hmove.total _ (silent_holds p i)]
  cases ho with
  | go hsh => rw [hsh]
  | @push id f hsh =>
    have := GlobalQueue.held_pushBack (p := p) (i := i) (q := s.sh.queue) (Task.new id f)
    rw [counts_eq_zero (hp f), Nat.add_zero] at this
    rw [hsh]
    exact congrArg (· + _) this
  | same hsh => rw [GlobalQueue.held_congr hsh.runnable hsh.waiting]

end Counting

end MyGoroutine
