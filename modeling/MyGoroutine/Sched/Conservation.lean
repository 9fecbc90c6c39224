import MyGoroutine.Sched.Placement

namespace MyGoroutine

/-!
# Task conservation — the places of a task

The balance of counts, read as a statement about places: a task that `go` has queued and
that has not finished is in exactly one place, a task that has finished is in none.

* `Place`, `State.At` — the places of a task;
* `at_pos`, `at_unique` — a count of one is one place;
* `task_conservation` — the law, for every reachable state of every program.
-/

variable {σ V : Type}

/-- A place for a task: a position of `runnable`, the map `waiting`, or a worker, which runs
    the task or is about to handle it. -/
inductive Place where
  | runnable (n : Nat)
  | waiting
  | worker (w : Nat)
deriving DecidableEq

/-- The task `i` is at a place.  A worker that is about to drop a finished task does not
    count as its place. -/
def State.At (s : State σ V) (i : TaskId) : Place → Prop
  | .runnable n => ∃ t, s.sh.queue.runnable[n]? = some t ∧ t.id = i
  | .waiting => ∃ t, s.sh.queue.waiting.lookup i = some t ∧ t.id = i
  | .worker w => ∃ pc t, s.workers[w]? = some pc ∧ pc.task? = some t ∧ t.id = i ∧ t.state ≠ .dead

/-- A worker that counts a task holds it, and the task has not finished. -/
theorem task?_of_holds {i : TaskId} {pc : Pc σ V} (hpc : pc.Shaped)
    (h : 0 < pc.holds (fun _ => true) i) :
    ∃ t, pc.task? = some t ∧ t.id = i ∧ t.state ≠ .dead := by
  cases pc <;> simp only [Pc.holds, counts_true, Nat.lt_irrefl] at h
  case run t =>
    refine ⟨t, rfl, by by_contra hi; simp [hi] at h, fun hd => ?_⟩
    rw [show t.state = .running from hpc] at hd
    cases hd
  case switched t =>
    by_cases hd : t.state = .dead
    · simp [hd] at h
    · exact ⟨t, rfl, by by_contra hi; simp [hi] at h, hd⟩

section Places

variable {s : State σ V} {i : TaskId}

/-- A task that is counted is at a place. -/
theorem exists_at (hsh : s.Shaped) (h : 0 < s.places i) : ∃ l, s.At i l := by
  unfold State.places GlobalQueue.held State.total at h
  by_cases hr : 0 < (s.sh.queue.runnable.map (Task.counts (fun _ => true) i)).sum
  · obtain ⟨n, t, hn, ht⟩ := Slots.exists_pos_of_sum_pos hr
    refine ⟨.runnable n, t, hn, ?_⟩
    by_contra hi
    simp [counts_true, hi] at ht
  · by_cases hw : 0 < (s.workers.map (Pc.holds (fun _ => true) i)).sum
    · obtain ⟨w, pc, hw, hpc⟩ := Slots.exists_pos_of_sum_pos hw
      obtain ⟨t, ht⟩ := task?_of_holds (hsh.workers _ (List.mem_of_getElem? hw)) hpc
      exact ⟨.worker w, pc, t, hw, ht⟩
    · cases hl : s.sh.queue.waiting.lookup i with
      | none => simp only [hl, Option.map_none, Option.getD_none] at h; omega
      | some t => exact ⟨.waiting, t, hl, (hsh.queue.waiting _ _ hl).1⟩

/-- The part of the count that a place accounts for. -/
private theorem at_counts {l : Place} (h : s.At i l) :
    match l with
    | .runnable n => ∃ t, s.sh.queue.runnable[n]? = some t ∧ t.counts (fun _ => true) i = 1
    | .waiting =>
      ((s.sh.queue.waiting.lookup i).map (Task.counts (fun _ => true) i)).getD 0 = 1
    | .worker w => ∃ pc, s.workers[w]? = some pc ∧ pc.holds (fun _ => true) i = 1 := by
  cases l with
  | runnable n =>
    obtain ⟨t, hn, ht⟩ := h
    exact ⟨t, hn, by simp [counts_true, ht]⟩
  | waiting =>
    obtain ⟨t, hl, ht⟩ := h
    simp [hl, counts_true, ht]
  | worker w =>
    obtain ⟨pc, t, hw, ht, rfl, hd⟩ := h
    exact ⟨pc, hw, holds_eq_one ht hd⟩

/-- A task that is somewhere is counted. -/
theorem places_pos_of_at {l : Place} (h : s.At i l) : 0 < s.places i := by
  have hc := at_counts h
  unfold State.places GlobalQueue.held State.total
  cases l with
  | runnable n =>
    obtain ⟨t, hn, ht⟩ := hc
    have := Slots.le_sum_map (Task.counts (fun _ => true) i) hn
    omega
  | waiting =>
    simp only at hc
    omega
  | worker w =>
    obtain ⟨pc, hw, hpc⟩ := hc
    have := Slots.le_sum_map (Pc.holds (fun _ => true) i) hw
    omega

/-- A task that is counted at most once is at most at one place. -/
theorem at_unique (h : s.places i ≤ 1) {l l' : Place} (hl : s.At i l) (hl' : s.At i l') :
    l = l' := by
  have hc := at_counts hl
  have hc' := at_counts hl'
  unfold State.places GlobalQueue.held State.total at h
  cases l with
  | runnable n =>
    obtain ⟨t, hn, ht⟩ := hc
    have h1 := Slots.le_sum_map (Task.counts (fun _ => true) i) hn
    cases l' with
    | runnable n' =>
      obtain ⟨t', hn', ht'⟩ := hc'
      by_contra hne
      -- at two indices the task would be counted twice
      have := Slots.add_le_sum_map (Task.counts (fun _ => true) i) hn hn' (fun e => hne (by rw [e]))
      omega
    | waiting => simp only at hc'; omega
    | worker w' =>
      obtain ⟨pc', hw', hpc'⟩ := hc'
      have := Slots.le_sum_map (Pc.holds (fun _ => true) i) hw'
      omega
  | waiting =>
    simp only at hc
    cases l' with
    | runnable n' =>
      obtain ⟨t', hn', ht'⟩ := hc'
      have := Slots.le_sum_map (Task.counts (fun _ => true) i) hn'
      omega
    | waiting => rfl
    | worker w' =>
      obtain ⟨pc', hw', hpc'⟩ := hc'
      have := Slots.le_sum_map (Pc.holds (fun _ => true) i) hw'
      omega
  | worker w =>
    obtain ⟨pc, hw, hpc⟩ := hc
    have h1 := Slots.le_sum_map (Pc.holds (fun _ => true) i) hw
    cases l' with
    | runnable n' =>
      obtain ⟨t', hn', ht'⟩ := hc'
      have := Slots.le_sum_map (Task.counts (fun _ => true) i) hn'
      omega
    | waiting => simp only at hc'; omega
    | worker w' =>
      obtain ⟨pc', hw', hpc'⟩ := hc'
      by_contra hne
      -- and so on two workers
      have := Slots.add_le_sum_map (Pc.holds (fun _ => true) i) hw hw' (fun e => hne (by rw [e]))
      omega

end Places

/-- **Task conservation.**  In every reachable state a task that `go` has queued and that has
    not finished is at exactly one place, and a task that has finished is at none; `waiting`
    holds tasks under their own ids; no history dispatches a task after its death, queues one
    id twice, or enters a closure twice. -/
theorem task_conservation {P : Program σ V} {s : State σ V} (hr : (runtime P).Reachable s)
    (i : TaskId) :
    (.created i ∈ s.sh.log → .died i ∉ s.sh.log → ∃! l, s.At i l) ∧
    (.died i ∈ s.sh.log → ∀ l, ¬ s.At i l) ∧
    (∀ t, s.sh.queue.waiting.lookup i = some t → t.id = i) ∧
    (∀ before after, s.sh.log = before ++ .died i :: after → .dispatched i ∉ after) ∧
    s.sh.log.countP (·.isCreated i) ≤ 1 ∧ s.sh.log.countP (·.isEntered i) ≤ 1 := by
  have hp := reach_placed hr
  refine ⟨fun hc hd => ?_, fun hd l hl => ?_,
    fun t ht => ((reach_shaped hr).queue.waiting _ _ ht).1, fun before after hlog hmem => ?_,
    hp.created_le_one i, ?_⟩
  · have hpos : 0 < s.sh.log.countP (·.isCreated i) :=
      List.countP_pos_iff.mpr ⟨_, hc, by simp [Event.isCreated]⟩
    have hd0 : s.sh.log.countP (·.isDied i) = 0 :=
      List.countP_eq_zero.mpr fun e he hdied => hd (isDied_iff.mp hdied ▸ he)
    have := hp.live i
    obtain ⟨l, hl⟩ := exists_at (reach_shaped hr) (i := i) (by omega)
    exact ⟨l, hl, fun l' hl' => at_unique (hp.places_le_one i) hl' hl⟩
  · have h0 := hp.places_of_died hd
    have := places_pos_of_at hl
    omega
  · have ho := hp.order
    rw [hlog] at ho
    exact (List.pairwise_cons.mp (List.pairwise_append.mp ho).2.1).1 _ hmem i rfl rfl
  · have := hp.closures i
    have := hp.created_le_one i
    omega

/-- One task that sleeps once. -/
def napProgram : Program Bool Unit where
  code awake := if awake then .sleep 5 false none else .done
  variant := .channel
  overflowChecks := true
  own b := by cases b <;> rfl

/-- The sleeping task, stored in `waiting`, is at one place. -/
theorem task_conservation_nap :
    ∃ s, (runtime napProgram).run
        (List.replicate 5 (.main {}) ++ List.replicate 7 (.worker 0 {}))
        (State.initial [] 0 [.go true, .startRuntime 1]) = some s ∧
      (.created 0 ∈ s.sh.log ∧ .died 0 ∉ s.sh.log) ∧ ∃! l, s.At 0 l := by
  have h : ((runtime napProgram).run
      (List.replicate 5 (Act.main {}) ++ List.replicate 7 (Act.worker 0 {}))
      (State.initial [] 0 [.go true, .startRuntime 1])).map
        (fun s => (s.sh.log.countP (·.isCreated 0), s.sh.log.countP (·.isDied 0)))
      = some (1, 0) := by rfl
  obtain ⟨s, hs, hlog⟩ := Option.map_eq_some_iff.mp h
  obtain ⟨hcount, hdied⟩ := Prod.mk.inj hlog
  have hc : .created 0 ∈ s.sh.log := by
    obtain ⟨e, he, hec⟩ := List.countP_pos_iff.mp (hcount ▸ Nat.one_pos)
    exact isCreated_iff.mp hec ▸ he
  have hd : .died 0 ∉ s.sh.log := fun hmem =>
    List.countP_eq_zero.mp hdied _ hmem (isDied_iff.mpr rfl)
  have hr := System.run_reachable (M := runtime napProgram) ⟨[], 0, _, rfl⟩ hs
  exact ⟨s, hs, ⟨hc, hd⟩, (task_conservation hr 0).1 hc hd⟩

end MyGoroutine
