import MyGoroutine.Lib.History
import MyGoroutine.Poll.Step

namespace MyGoroutine.Poll

/-!
# `goready` during a park

`gopark` changes the state of the task and switches to the worker loop, which stores the task in
`waiting`.  A `goready` that comes between the two finds nothing to wake and leaves no trace; the
later runtimes keep a token for it.

* `Pc.parking` — the task that a worker is about to store;
* `hasty?` — a `goready` for such a task;
* `ParkStep`, `park_inv` — the steps of a worker, as the parked tasks see them;
* `State.Parks`, `reach_parks` — without hasty calls a parked task has had no `goready`;
* `goready_wakes` — so each `goready` since the park has put the task on `runnable`;
* `goready_lost` — a hasty call.
-/

open History

variable {σ : Type}

/-- The task that has called `gopark`, and that the worker is about to store in `waiting`. -/
def Pc.parking : Pc σ → Option TaskId
  | .switched t => if t.state = .waiting then some t.id else none
  | _ => none

/-- The task that the worker's next step calls `goready` for. -/
def goreadyOf (P : Program σ) : Pc σ → Option TaskId
  | .wakeReady (id :: _) => some id
  | .run t =>
    match t.code with
    | .user x =>
      match P.code x with
      | .goready id _ => some id
      | _ => none
    | _ => none
  | _ => none

/-- The step is a `goready` for a task that a worker is about to store. -/
def hasty? (P : Program σ) (a : Act) (s : State σ) : Bool :=
  match a with
  | .worker w _ =>
    match s.workers[w]?.bind (goreadyOf P) with
    | some id => s.workers.any fun pc => decide (pc.parking = some id)
    | none => false
  | _ => false

/-- No `goready` is called for a task between its `gopark` and its insertion into `waiting`. -/
def Patient (P : Program σ) (a : Act) (s : State σ) : Prop := hasty? P a s = false

/-- The event is a `gopark` of the task. -/
def Event.isParked (i : TaskId) : Event → Bool
  | .parked t => t == i
  | _ => false

/-- A worker's step, as the parked tasks see it. -/
inductive ParkStep (P : Program σ) (sh : Shared σ) (pc : Pc σ) (e : Effect σ) : Prop where
  | quiet (hpc : pc.parking = none ∧ e.pc.parking = none)
      (hw : e.sh.queue.waiting = sh.queue.waiting) (hl : e.sh.log = sh.log)
  /-- A task parks. -/
  | park {t} (hpc : pc.parking = none ∧ e.pc.parking = some t)
      (hw : e.sh.queue.waiting = sh.queue.waiting) (hl : e.sh.log = sh.log ++ [.parked t])
  | goready {id} (hid : goreadyOf P pc = some id) (hpc : pc.parking = none ∧ e.pc.parking = none)
      (hw : e.sh.queue.waiting = (sh.goready id).1.queue.waiting)
      (hl : e.sh.log = (sh.goready id).1.log)
  /-- The worker stores the task that has parked. -/
  | store {t} (hpc : pc.parking = some t.id ∧ e.pc.parking = none)
      (hw : e.sh.queue.waiting = sh.queue.waiting.insert t.id t) (hl : e.sh.log = sh.log)

/-- A worker that runs a task runs one in the state `Running`. -/
def Pc.Running : Pc σ → Prop
  | .run t => t.state = .running
  | _ => True

section Inversion

variable {P : Program σ} {ch : Choice} {free : Bool} {sh : Shared σ} {t : Task σ} {pc : Pc σ}
  {e : Effect σ}

/-- A step of a task. -/
private theorem taskStep_park (hs : taskStep P ch free t sh = some e) (ht : t.state = .running) :
    ParkStep P sh (.run t) e ∧ e.pc.Running := by
  have hraise : ∀ p h, ParkStep P sh (.run t) (t.raise sh p h) ∧ (t.raise sh p h).pc.Running := by
    intro p h
    cases h <;> exact ⟨.quiet ⟨rfl, rfl⟩ rfl rfl, ht⟩
  unfold taskStep at hs
  split at hs
  case h_2 x hc =>
    cases hx : P.code x <;> rw [hx] at hs <;> simp only [opStep] at hs
    case gosched k =>
      cases hs
      exact ⟨.quiet ⟨rfl, if_neg (by show ¬ t.state = .waiting; rw [ht]; decide)⟩ rfl rfl, trivial⟩
    case goready id k =>
      split at hs <;> cases hs
      exact ⟨.goready (by simp only [goreadyOf, hc, hx]) ⟨rfl, rfl⟩ rfl rfl, ht⟩
    case netPollRead =>
      split at hs
      · cases hs; exact hraise _ _
      · split at hs <;> cases hs
        · exact hraise _ _
        · exact ⟨.quiet ⟨rfl, rfl⟩ rfl rfl, ht⟩
    case io =>
      split at hs <;> cases hs
      exact ⟨.quiet ⟨rfl, rfl⟩ rfl rfl, ht⟩
    case done => cases hs; exact ⟨.quiet ⟨rfl, rfl⟩ rfl rfl, trivial⟩
    all_goals
      cases hs
      exact ⟨.quiet ⟨rfl, rfl⟩ rfl rfl, ht⟩
  case h_3 | h_6 =>
    split at hs <;> cases hs
    exact ⟨.quiet ⟨rfl, rfl⟩ rfl rfl, ht⟩
  case h_9 => cases hs; exact ⟨.park ⟨rfl, rfl⟩ rfl rfl, trivial⟩
  all_goals
    cases hs
    exact ⟨.quiet ⟨rfl, rfl⟩ rfl rfl, ht⟩

/-- **The steps of a worker**, as the parked tasks see them. -/
theorem park_inv (hs : workerStep P ch free sh pc = some e) (hrun : pc.Running) :
    ParkStep P sh pc e ∧ e.pc.Running := by
  -- `pop_front` parks nobody
  have hpop : ∀ (pc' o : Pc σ) (sh' : Shared σ), pc'.parking = none → o.parking = none →
      o.Running → sh'.queue.waiting = sh.queue.waiting → sh'.log = sh.log →
      ParkStep P sh pc' (tryPop sh' o) ∧ (tryPop sh' o).pc.Running := by
    intro pc' o sh' hpc ho hor hw hl
    unfold tryPop
    split
    · exact ⟨.quiet ⟨hpc, ho⟩ hw hl, hor⟩
    · exact ⟨.quiet ⟨hpc, rfl⟩ hw hl, rfl⟩
  cases pc with
  | start =>
    simp only [workerStep] at hs
    split at hs <;> cases hs
    exact ⟨.quiet ⟨rfl, rfl⟩ rfl rfl, trivial⟩
  | top =>
    simp only [workerStep] at hs
    split at hs <;> cases hs
    unfold topStep
    split
    · exact ⟨.quiet ⟨rfl, rfl⟩ rfl rfl, trivial⟩
    · exact hpop _ _ _ rfl rfl trivial rfl rfl
  | checkNet | tryPoll | pollNet | poll =>
    simp only [workerStep] at hs
    split at hs <;> cases hs <;> exact ⟨.quiet ⟨rfl, rfl⟩ rfl rfl, trivial⟩
  | termNet =>
    simp only [workerStep] at hs
    split at hs <;> cases hs
    · exact ⟨.quiet ⟨rfl, rfl⟩ rfl rfl, trivial⟩
    · exact hpop _ _ _ rfl rfl trivial rfl rfl
  | giveUp | lookup | release =>
    cases hs
    exact ⟨.quiet ⟨rfl, rfl⟩ rfl rfl, trivial⟩
  | wakeReady ready =>
    cases ready with
    | nil => cases hs; exact ⟨.quiet ⟨rfl, rfl⟩ rfl rfl, trivial⟩
    | cons id ready =>
      simp only [workerStep] at hs
      split at hs <;> cases hs
      exact ⟨.goready rfl ⟨rfl, rfl⟩ rfl rfl, trivial⟩
  | goIdle =>
    simp only [workerStep] at hs
    split at hs <;> cases hs
    exact ⟨.quiet ⟨rfl, rfl⟩ rfl rfl, trivial⟩
  | notified =>
    simp only [workerStep] at hs
    split at hs <;> cases hs
    simp only [wakeStep]
    split
    · exact ⟨.quiet ⟨rfl, rfl⟩ rfl rfl, trivial⟩
    · exact hpop _ _ _ rfl rfl trivial rfl rfl
  | run t => exact taskStep_park hs hrun
  -- the worker stores the task that has called `gopark`
  | switched t =>
    simp only [workerStep, switchedStep] at hs
    split at hs
    · cases hs
      exact ⟨.quiet ⟨if_neg (by simp [*]), rfl⟩ rfl rfl, trivial⟩
    · split at hs <;> cases hs
      exact ⟨.store ⟨if_pos ‹_›, rfl⟩ rfl rfl, trivial⟩
    · split at hs <;> cases hs
      exact ⟨.quiet ⟨if_neg ‹_›, rfl⟩ rfl rfl, trivial⟩
  | blocked | exited => cases hs

end Inversion

/-! ### Parked tasks

A task is parked from the step in which its code calls `gopark`; the worker stores it in a later
section. The invariant says where a parked task is, and what the history since its park contains.
-/

/-- How often a worker is about to store the task `i`. -/
def Pc.parks (i : TaskId) (pc : Pc σ) : Nat := if pc.parking = some i then 1 else 0

/-- The task `i` is parked: a worker is about to store it, or it is in `waiting`. -/
def State.IsParked (s : State σ) (i : TaskId) : Prop :=
  0 < s.total (Pc.parks i) ∨ (s.sh.queue.waiting.lookup i).isSome = true

/-- What the history says of the parked tasks, and of those that are not parked any more. -/
structure State.Parks (s : State σ) : Prop where
  running : ∀ pc ∈ s.workers, pc.Running
  /-- A parked task has had no `goready` since it called `gopark`. -/
  parked : ∀ i, s.IsParked i →
    .parked i ∈ s.sh.log ∧ .goready i ∉ since (Event.isParked i) s.sh.log
  /-- A task that has called `gopark` is parked until it is woken. -/
  woken : ∀ i, .parked i ∈ s.sh.log →
    s.IsParked i ∨ .wake i ∈ since (Event.isParked i) s.sh.log

section Histories

variable {log es : List Event} {i : TaskId}

/-- Other events leave the last park where it is. -/
theorem since_parked_append (hes : ∀ e ∈ es, e ≠ .parked i) :
    since (Event.isParked i) (log ++ es) = since (Event.isParked i) log ++ es := by
  refine since_append _ fun e he => ?_
  cases e with
  | parked t =>
    by_cases hti : t = i
    · exact absurd (hti ▸ rfl) (hes _ he)
    · simp [Event.isParked, hti]
  | goready | wake => rfl

/-- A park starts the count afresh. -/
theorem since_parked_self : since (Event.isParked i) (log ++ [.parked i]) = [] :=
  since_concat_of_marker _ (by simp [Event.isParked])

end Histories

section Runs

variable {P : Program σ} {s s' : State σ} {w : Nat} {ch : Choice} {pc : Pc σ} {e : Effect σ}
  {ws : List (Pc σ)}

/-- A patient `goready` finds no worker that is about to store the task. -/
theorem Patient.none_parks (h : Patient P (.worker w ch) s) (hw : s.workers[w]? = some pc)
    {id : TaskId} (hid : goreadyOf P pc = some id) : s.total (Pc.parks id) = 0 := by
  refine Slots.sum_map_eq_zero fun pc' hpc' => if_neg fun hp => ?_
  simp only [Patient, hasty?, hw, Option.bind_some, hid, List.any_eq_false,
    decide_eq_true_eq] at h
  exact h pc' hpc' hp

/-- A step that leaves the history alone, and every task parked or not as it was. -/
theorem State.Parks.still (h : s.Parks) (hrun : ∀ pc ∈ s'.workers, pc.Running)
    (hp : ∀ i, s'.IsParked i ↔ s.IsParked i) (hl : s'.sh.log = s.sh.log) : s'.Parks where
  running := hrun
  parked i hi := by
    rw [hl]
    exact h.parked i ((hp i).mp hi)
  woken i hi := by
    rw [hl] at hi ⊢
    rw [hp]
    exact h.woken i hi

/-- A step after which the same tasks are parked, and the history is the same. -/
theorem State.Parks.congr (h : s.Parks) (hrun : ∀ pc ∈ s'.workers, pc.Running)
    (ht : ∀ i, s'.total (Pc.parks i) = s.total (Pc.parks i))
    (hw : s'.sh.queue.waiting = s.sh.queue.waiting) (hl : s'.sh.log = s.sh.log) : s'.Parks :=
  h.still hrun (fun i => by rw [State.IsParked, ht, hw, State.IsParked]) hl

/-- The task `t` calls `gopark`. -/
theorem State.Parks.park (h : s.Parks) {t : TaskId} (hrun : ∀ pc ∈ s'.workers, pc.Running)
    (hp : ∀ i, s'.IsParked i ↔ s.IsParked i ∨ t = i)
    (hl : s'.sh.log = s.sh.log ++ [.parked t]) : s'.Parks := by
  refine ⟨hrun, fun i hi => ?_, fun i hi => ?_⟩ <;> rw [hl] at *
  · by_cases hti : t = i
    · -- its last `gopark` is the last event, with nothing after it
      subst hti
      exact ⟨by simp, by rw [since_parked_self]; simp⟩
    · obtain ⟨h1, h2⟩ := h.parked i (((hp i).mp hi).resolve_right hti)
      refine ⟨List.mem_append_left _ h1, ?_⟩
      rw [since_parked_append (by simp [hti])]
      simpa using h2
  · by_cases hti : t = i
    · exact .inl ((hp i).mpr (.inr hti))
    · rw [since_parked_append (by simp [hti])]
      rcases h.woken i (by simpa [Ne.symm hti] using hi) with h1 | h1
      · exact .inl ((hp i).mpr (.inl h1))
      · exact .inr (List.mem_append_left _ h1)

/-- A `goready`, after which its task is not parked. -/
theorem State.Parks.goready (h : s.Parks) {id : TaskId} {es : List Event}
    (hrun : ∀ pc ∈ s'.workers, pc.Running) (hp : ∀ i, s'.IsParked i ↔ s.IsParked i ∧ i ≠ id)
    (hl : s'.sh.log = s.sh.log ++ .goready id :: es) (hes : es = [.wake id] ∨ es = [])
    (hwake : s.IsParked id → es = [.wake id]) : s'.Parks := by
  have hno : ∀ i, ∀ e ∈ Event.goready id :: es, e ≠ .parked i := by
    intro i e he
    rcases hes with rfl | rfl
    · rcases List.mem_pair.mp he with rfl | rfl <;> simp
    · rw [List.mem_singleton.mp he]
      simp
  refine ⟨hrun, fun i hi => ?_, fun i hi => ?_⟩ <;> rw [hl] at * <;>
    rw [since_parked_append (hno i)]
  · obtain ⟨hi, hne⟩ := (hp i).mp hi
    obtain ⟨h1, h2⟩ := h.parked i hi
    refine ⟨List.mem_append_left _ h1, ?_⟩
    rcases hes with rfl | rfl <;> simpa [hne] using h2
  · have hold : .parked i ∈ s.sh.log :=
      (List.mem_append.mp hi).resolve_right fun hi => absurd rfl (hno i _ hi)
    rcases h.woken i hold with h1 | h1
    · by_cases hne : i = id
      · -- the task itself was parked, so this `goready` woke it
        subst hne
        right
        rw [hwake h1]
        simp
      · exact .inl ((hp i).mpr ⟨h1, hne⟩)
    · exact .inr (List.mem_append_left _ h1)

/-- `goready` takes its task out of `waiting`, and writes `wake` only if it was there. -/
theorem goready_waiting (sh : Shared σ) (id : TaskId) :
    ∃ es, (sh.goready id).1.log = sh.log ++ .goready id :: es ∧ (es = [.wake id] ∨ es = []) ∧
      ((sh.queue.waiting.lookup id).isSome = true → es = [.wake id]) ∧
      ∀ i, ((sh.goready id).1.queue.waiting.lookup i).isSome = true ↔
        (sh.queue.waiting.lookup i).isSome = true ∧ i ≠ id := by
  unfold Shared.goready
  cases hlk : sh.queue.waiting.lookup id with
  | some t =>
    refine ⟨[.wake id], rfl, .inl rfl, fun _ => rfl, fun i => ?_⟩
    simp only [Shared.record, Shared.withQueue, Queue.wake, Slots.lookup_erase_ite]
    by_cases hi : i = id
    · subst hi; simp
    · simp [hi]
  | none =>
    refine ⟨[], rfl, .inr rfl, fun h => ?_, fun i => ?_⟩
    · simp at h
    · by_cases hi : i = id
      · subst hi; simp [hlk, Shared.record]
      · simp [hi, Shared.record]

/-- **A step of a worker keeps the parked tasks**, if it is no hasty `goready`. -/
theorem State.Parks.worker (h : s.Parks) (hw : s.workers[w]? = some pc)
    (hs : ParkStep P s.sh pc e) (hok : Patient P (.worker w ch) s)
    (hrun : ∀ pc ∈ s'.workers, pc.Running)
    (ht : ∀ i, s'.total (Pc.parks i) + pc.parks i = s.total (Pc.parks i) + e.pc.parks i)
    (hsh : s'.sh = e.sh) : s'.Parks := by
  have hnone : ∀ {pc : Pc σ} (i : TaskId), pc.parking = none → pc.parks i = 0 :=
    fun i h => if_neg (by simp [h])
  have hsome : ∀ {pc : Pc σ} {t : TaskId} (i : TaskId), pc.parking = some t →
      pc.parks i = if t = i then 1 else 0 := by
    intro pc t i h
    rw [Pc.parks, h]
    simp
  cases hs with
  | quiet hpc hwait hl =>
    refine h.congr hrun (fun i => ?_) (by rw [hsh, hwait]) (by rw [hsh, hl])
    have := ht i
    rwa [hnone i hpc.1, hnone i hpc.2] at this
  | @park t hpc hwait hl =>
    refine h.park hrun (fun i => ?_) (by rw [hsh, hl])
    have := ht i
    rw [hnone i hpc.1, hsome i hpc.2, Nat.add_zero] at this
    rw [State.IsParked, State.IsParked, hsh, hwait, this]
    by_cases hti : t = i <;> simp [hti]
  | @goready id hid hpc hwait hl =>
    -- nobody is about to store the task, so it is woken if it is parked
    have hzero := hok.none_parks hw hid
    have htot : ∀ i, s'.total (Pc.parks i) = s.total (Pc.parks i) := by
      intro i
      have := ht i
      rwa [hnone i hpc.1, hnone i hpc.2] at this
    obtain ⟨es, hes, hnil, hwake, hlk⟩ := goready_waiting s.sh id
    refine h.goready hrun (fun i => ?_) (by rw [hsh, hl, hes]) hnil fun hp => hwake ?_
    · rw [State.IsParked, State.IsParked, htot, hsh, hwait, hlk]
      by_cases hi : i = id
      · subst hi; simp [hzero]
      · simp [hi]
    · exact hp.resolve_left (by rw [hzero]; exact lt_irrefl 0)
  | @store t hpc hwait hl =>
    -- the task leaves the worker and enters `waiting`, so it is parked before and after
    refine h.still hrun (fun i => ?_) (by rw [hsh, hl])
    have h1 := ht i
    have h2 := Slots.le_sum_map (Pc.parks i) hw
    rw [hsome i hpc.1] at h1 h2
    rw [hnone i hpc.2] at h1
    unfold State.IsParked
    rw [hsh, hwait, Slots.lookup_insert_ite]
    unfold State.total at *
    by_cases hti : t.id = i
    · subst hti
      simp only [if_true] at h1 h2 ⊢
      simp only [Option.isSome_some, or_true, true_iff]
      left
      omega
    · simp only [hti, Ne.symm hti, if_false, Nat.add_zero] at h1 ⊢
      rw [h1]

/-- **The parked tasks in every state reached** by a run without hasty `goready` calls. -/
theorem reach_parks (hr : (runtime P).Reach (Patient P) s) : s.Parks := by
  refine hr.invariant ?_ ?_
  · rintro s ⟨calls, rfl⟩
    refine ⟨by simp [State.initial], fun i hi => ?_, by simp [State.initial]⟩
    simp [State.IsParked, State.initial, State.total, Queue.new] at hi
  · intro s s' a _ h hok hn
    cases next_inv hn with
    | @worker w ch pc e ws hw hs hnot =>
      obtain ⟨hstep, hrun⟩ := park_inv hs (h.running _ (List.mem_of_getElem? hw))
      refine h.worker hw hstep hok (fun pc' hpc' => ?_)
        (fun i => total_worker rfl (fun _ => rfl) hw hnot) rfl
      rcases List.mem_append.mp hpc' with hpc' | hpc'
      · refine hnot.forall_mem (Q := Pc.Running) trivial (fun pc'' hpc'' => ?_) pc' hpc'
        rcases List.mem_or_eq_of_mem_set hpc'' with hpc'' | rfl
        · exact h.running _ hpc''
        · exact hrun
      · cases hsp : e.spawn with
        | none => simp [hsp] at hpc'
        | some id =>
          obtain rfl : pc' = .start id := by simpa [hsp] using hpc'
          trivial
    | push _ hnot =>
      exact h.congr (hnot.forall_mem trivial h.running) (fun i => hnot.sum rfl) rfl rfl
    | spawn =>
      refine h.congr (fun pc hpc => ?_) (fun i => by simp [State.total, Pc.parks, Pc.parking])
        rfl rfl
      rcases List.mem_append.mp hpc with hpc | hpc
      · exact h.running _ hpc
      · obtain rfl := List.mem_singleton.mp hpc
        trivial
    | main | setReadable => exact h.congr h.running (fun _ => rfl) rfl rfl
    | @spurious w hw =>
      refine h.congr (fun pc hpc => ?_) (fun i => ?_) rfl rfl
      · rcases List.mem_or_eq_of_mem_set hpc with hpc | rfl
        · exact h.running _ hpc
        · trivial
      · exact Slots.sum_map_set (Pc.parks i) .notified hw

/-- **No `goready` is lost.**  In every state reached by a run in which no `goready` is called for a
    task between its `gopark` and its insertion into `waiting`: a task that has been readied since
    its last `gopark` has been put on `runnable` for it, and is not left parked. -/
theorem goready_wakes (hr : (runtime P).Reach (Patient P) s) {i : TaskId}
    (hp : .parked i ∈ s.sh.log) (hg : .goready i ∈ since (Event.isParked i) s.sh.log) :
    ¬ s.IsParked i ∧ .wake i ∈ since (Event.isParked i) s.sh.log := by
  have h := reach_parks hr
  have hno : ¬ s.IsParked i := fun hi => (h.parked i hi).2 hg
  exact ⟨hno, (h.woken i hp).resolve_left hno⟩

end Runs

/-! ### A park and a `goready`

Both runs park the first task and wake it from the second. In the second run the `goready` comes
before the worker has stored the task.
-/

/-- A closure that parks, and one that wakes the first task. -/
def readyProgram : Program Nat where
  code
    | 0 => .gopark 2
    | 1 => .goready 0 2
    | _ => .done

/-- The first task is stored before the second one wakes it. -/
theorem goready_wakes_ready :
    ∃ s, ((runtime readyProgram).guard fun a s => !hasty? readyProgram a s).run
        (List.replicate 8 (Act.main {}) ++ List.replicate 6 (Act.worker 0 {}) ++
          List.replicate 4 (Act.worker 1 {}))
        (State.initial [.go 0, .go 1, .startRuntime 2]) = some s ∧
      s.sh.log = [.parked 0, .goready 0, .wake 0] ∧ ¬ s.IsParked 0 := by
  have h : (((runtime readyProgram).guard fun a s => !hasty? readyProgram a s).run
      (List.replicate 8 (Act.main {}) ++ List.replicate 6 (Act.worker 0 {}) ++
        List.replicate 4 (Act.worker 1 {}))
      (State.initial [.go 0, .go 1, .startRuntime 2])).map (fun s => s.sh.log)
      = some [.parked 0, .goready 0, .wake 0] := by rfl
  obtain ⟨s, hs, hlog⟩ := Option.map_eq_some_iff.mp h
  have hr : (runtime readyProgram).Reach (Patient readyProgram) s :=
    System.run_guard_reach (fun a s h => by simpa [Patient] using h) ⟨_, rfl⟩ hs
  exact ⟨s, hs, hlog,
    (goready_wakes hr (i := 0) (by rw [hlog]; simp) (by rw [hlog]; decide)).1⟩

/-- **A lost `goready`.**  The second task calls `goready` when the first has called `gopark` and
    worker 0 has not stored it yet: the call does nothing, and the task waits for ever, while both
    workers sleep. -/
theorem goready_lost :
    ∃ s, (runtime readyProgram).Reachable s ∧ s.workers = [.blocked, .blocked] ∧
      s.sh.queue.waiting.keys = [0] ∧ .parked 0 ∈ s.sh.log ∧
      .goready 0 ∈ since (Event.isParked 0) s.sh.log ∧
      .wake 0 ∉ since (Event.isParked 0) s.sh.log := by
  have h : ((runtime readyProgram).run
      (List.replicate 8 (Act.main {}) ++ List.replicate 5 (Act.worker 0 {}) ++
        List.replicate 4 (Act.worker 1 {}) ++ [Act.worker 0 {}] ++ List.replicate 7 (Act.worker 1 {}) ++
        List.replicate 5 (Act.worker 0 {}))
      (State.initial [.go 0, .go 1, .startRuntime 2])).map
        (fun s => (s.workers, s.sh.queue.waiting.keys, s.sh.log))
      = some ([.blocked, .blocked], [0], [.parked 0, .goready 0]) := by rfl
  obtain ⟨s, hs, hst⟩ := Option.map_eq_some_iff.mp h
  obtain ⟨hw, hst⟩ := Prod.mk.inj hst
  obtain ⟨hk, hlog⟩ := Prod.mk.inj hst
  refine ⟨s, System.run_reachable (M := runtime readyProgram) ⟨_, rfl⟩ hs, hw, hk, ?_, ?_, ?_⟩ <;>
    rw [hlog] <;> decide

end MyGoroutine.Poll
