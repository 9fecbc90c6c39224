import MyGoroutine.Chan.Fifo
import MyGoroutine.Group.Basic

namespace MyGoroutine

/-!
# The calls of an `add`

An `add` that collects waiters calls `goready` for them one after another, outside the lock.  The
history tells how far each task is with the calls of the `add` it is in.

* `Event.goreadyBy` — the call of `goready` by a given task;
* `addCallOf` — the `add` that a task is in, and the calls it still has to make;
* `Event.AddLaw` — a task calls whom its `add` has collected, and returns when all are called;
* `State.AddCalls`, `reach_addCalls` — the law and the codes, in every state reached;
* `calls_of_law` — the calls between the section of an `add` and its return.
-/

open History

variable {σ V : Type}

/-- The task that the task `u` calls `goready` for. -/
def Event.goreadyBy (u : TaskId) : Event V → List TaskId
  | .goready x (.task t) => if t = u then [x] else []
  | _ => []

/-- What an event does to the `add` that the task `u` is in. -/
def Event.addCall (u : TaskId) (st : Option (GroupId × List TaskId)) :
    Event V → Option (GroupId × List TaskId)
  | .added g t _ woken => if t = u then some (g, woken) else st
  | .goready _ (.task t) => if t = u then st.map fun x => (x.1, x.2.tail) else st
  | .returned t _ => if t = u then none else st
  | _ => st

/-- The `add` that the task `u` is in after the history `log`, with the calls it still owes. -/
def addCallOf (u : TaskId) (log : List (Event V)) : Option (GroupId × List TaskId) :=
  log.foldl (Event.addCall u) none

/-- The `add` that a task is in at a point of its code. -/
def Code.addCall : Code σ V → Option (GroupId × List TaskId)
  | .wake ids (.add g) _ => some (g, ids)
  | _ => none

/-- A task in the middle of an `add` owes its waiters a `goready`. -/
theorem Code.wake_of_addCall {c : Code σ V} {g : GroupId} {ids : List TaskId}
    (h : c.addCall = some (g, ids)) : ∃ k, c = .wake ids (.add g) k := by
  cases c with
  | wake ids' ret k =>
    cases ret <;> cases h
    exact ⟨k, rfl⟩
  | _ => cases h

/-- The event is right, given the history before it: a task calls `goready` for the next of the
    tasks that its `add` has collected, and returns from `add` when none is left. -/
def Event.AddLaw (before : List (Event V)) : Event V → Prop
  | .added _ t _ _ => addCallOf t before = none
  | .goready x (.task t) => ∃ g ids, addCallOf t before = some (g, x :: ids)
  | .returned t r =>
    addCallOf t before = none ∨ ∃ g, addCallOf t before = some (g, []) ∧ r = .add g
  | _ => True

/-- The event is no part of an `add`, nor of any other call. -/
def Event.offAdd : Event V → Bool
  | .added _ _ _ _ => false
  | .goready _ (.task _) => false
  | .returned _ _ => false
  | _ => true

section Histories

variable {log es : List (Event V)} {e : Event V} {u : TaskId}

/-- An event off the calls of `add` leaves the call of the task alone. -/
theorem addCall_of_offAdd (h : e.offAdd = true) (st : Option (GroupId × List TaskId)) :
    e.addCall u st = st := by
  cases e with
  | goready x waker => cases waker <;> first | rfl | cases h
  | _ => first | rfl | cases h

/-- The law says nothing about an event off the calls of `add`. -/
theorem addLaw_of_offAdd (h : e.offAdd = true) : e.AddLaw log := by
  cases e with
  | goready x waker => cases waker <;> trivial
  | _ => trivial

/-- The call that a task is in is read off the history event by event. -/
theorem addCallOf_append (u : TaskId) (log es : List (Event V)) :
    addCallOf u (log ++ es) = es.foldl (Event.addCall u) (addCallOf u log) :=
  List.foldl_append

/-- One more event moves the call that the task is in. -/
theorem addCallOf_concat (u : TaskId) (log : List (Event V)) (e : Event V) :
    addCallOf u (log ++ [e]) = e.addCall u (addCallOf u log) :=
  addCallOf_append u log [e]

/-- Events off the calls of `add` leave the call of the task alone. -/
theorem addCallOf_offAdd (h : ∀ e ∈ es, e.offAdd = true) :
    addCallOf u (log ++ es) = addCallOf u log := by
  induction es using List.reverseRecOn with
  | nil => rw [List.append_nil]
  | append_singleton es e ih =>
    rw [← List.append_assoc, addCallOf_concat, addCall_of_offAdd (h e (by simp))]
    exact ih fun e' he => h e' (List.mem_append_left _ he)

/-- **The calls of an `add`**: those made so far and those still owed are the collected tasks. -/
theorem calls_of_law {before mid : List (Event V)} {g : GroupId} {d : Int32} {woken : List TaskId}
    (hlaw : Each Event.AddLaw (before ++ .added g u d woken :: mid))
    (hmid : ∀ r, .returned u r ∉ mid) :
    ∃ owed, addCallOf u (before ++ .added g u d woken :: mid) = some (g, owed) ∧
      gather (Event.goreadyBy u) mid ++ owed = woken := by
  induction mid using List.reverseRecOn with
  | nil => exact ⟨woken, by rw [addCallOf_concat]; exact if_pos rfl, rfl⟩
  | append_singleton mid e ih =>
    have hsplit : before ++ .added g u d woken :: (mid ++ [e])
        = (before ++ .added g u d woken :: mid) ++ [e] := by simp
    rw [hsplit] at hlaw ⊢
    obtain ⟨owed, howed, hcalls⟩ := ih hlaw.init fun r hr => hmid r (List.mem_append_left _ hr)
    have he := hlaw _ e [] rfl
    rw [addCallOf_concat, gather_append, howed]
    -- an event of another task, or of no `add`, changes neither side
    have hsame : e.addCall u (some (g, owed)) = some (g, owed) → e.goreadyBy u = [] →
        ∃ owed', e.addCall u (some (g, owed)) = some (g, owed') ∧
          gather (Event.goreadyBy u) mid ++ gather (Event.goreadyBy u) [e] ++ owed' = woken :=
      fun h1 h2 => ⟨owed, h1, by simp [h2, hcalls]⟩
    cases e with
    | goready x waker =>
      cases waker with
      | task t =>
        by_cases ht : t = u
        · subst ht
          obtain ⟨g', ids, hids⟩ := he
          rw [howed] at hids
          cases hids
          exact ⟨ids, if_pos rfl, by simpa [Event.goreadyBy] using hcalls⟩
        · exact hsame (if_neg ht) (if_neg ht)
      | timers | poller => exact hsame rfl rfl
    | added g' t =>
      by_cases ht : t = u
      · subst ht
        rw [show addCallOf t _ = none from he] at howed
        cases howed
      · exact hsame (if_neg ht) rfl
    | returned t r =>
      have ht : t ≠ u := by
        rintro rfl
        exact hmid r (by simp)
      exact hsame (if_neg ht) rfl
    | _ => exact hsame rfl rfl

end Histories

/-! ### Steps

An `add` collects the waiters under its lock and calls `goready` for them one by one afterwards,
while other tasks go on. Read off the history of the task that calls it, the calls come in the order
of the list and the last one is followed by the return.
-/

/-- What a step of the task `t` means for the calls of `add`. -/
structure AddStep (sh : Shared σ V) (t : Task σ V) (e : Effect σ V) : Prop where
  law : Each Event.AddLaw e.sh.log
  others : ∀ i, i ≠ t.id → addCallOf i e.sh.log = addCallOf i sh.log
  own : (∃ c, e.pc = .run (t.goto c) ∧ addCallOf t.id e.sh.log = c.addCall) ∨
    (∃ u, e.pc = .switched u) ∧ addCallOf t.id e.sh.log = none

section Steps

variable {P : Program σ V} {ch : Choice} {free : Bool} {sh : Shared σ V} {t : Task σ V}
  {pc : Pc σ V} {e : Effect σ V}

/-- A step between two calls. -/
private theorem AddStep.off {c : Code σ V} (es : List (Event V)) (hlaw : Each Event.AddLaw sh.log)
    (hl : e.sh.log = sh.log ++ es) (hes : ∀ e ∈ es, e.offAdd = true)
    (hown : addCallOf t.id sh.log = none) (hpc : e.pc = .run (t.goto c)) (hc : c.addCall = none) :
    AddStep sh t e := by
  refine ⟨?_, fun i _ => ?_, .inl ⟨c, hpc, ?_⟩⟩
  · rw [hl]
    exact hlaw.append fun _ e he => addLaw_of_offAdd (hes e he)
  · rw [hl, addCallOf_offAdd hes]
  · rw [hl, addCallOf_offAdd hes, hown, hc]

/-- A step that switches the task out. -/
private theorem AddStep.switch {u : Task σ V} (es : List (Event V))
    (hlaw : Each Event.AddLaw sh.log) (hl : e.sh.log = sh.log ++ es)
    (hes : ∀ e ∈ es, e.offAdd = true) (hown : addCallOf t.id sh.log = none)
    (hpc : e.pc = .switched u) : AddStep sh t e := by
  refine ⟨?_, fun i _ => ?_, .inr ⟨⟨u, hpc⟩, ?_⟩⟩
  · rw [hl]
    exact hlaw.append fun _ e he => addLaw_of_offAdd (hes e he)
  · rw [hl, addCallOf_offAdd hes]
  · rw [hl, addCallOf_offAdd hes, hown]

/-- The return of a call that owes nothing. -/
private theorem AddStep.returns {k : σ} {r : Ret V} (hlaw : Each Event.AddLaw sh.log)
    (hl : e.sh.log = sh.log ++ [.returned t.id r]) (hown : addCallOf t.id sh.log = none)
    (hpc : e.pc = .run (t.goto (.user k))) : AddStep sh t e := by
  refine ⟨?_, fun i hi => ?_, .inl ⟨.user k, hpc, ?_⟩⟩
  · rw [hl]
    exact hlaw.concat (.inl hown)
  · rw [hl, addCallOf_concat]
    exact if_neg (Ne.symm hi)
  · rw [hl, addCallOf_concat]
    exact if_pos rfl

/-- The call of `goready` for the next of the collected tasks. -/
private theorem AddStep.goready {x : TaskId} {ids : List TaskId} {g : GroupId}
    (hlaw : Each Event.AddLaw sh.log) (hown : addCallOf t.id sh.log = some (g, x :: ids)) :
    Each Event.AddLaw (sh.goready (.task t.id) x).1.log ∧
      (∀ i, i ≠ t.id → addCallOf i (sh.goready (.task t.id) x).1.log = addCallOf i sh.log) ∧
      addCallOf t.id (sh.goready (.task t.id) x).1.log = some (g, ids) := by
  obtain ⟨es, hl, hes⟩ : ∃ es, (sh.goready (.task t.id) x).1.log
      = (sh.log ++ [.goready x (.task t.id)]) ++ es ∧ ∀ e ∈ es, e.offAdd = true := by
    unfold Shared.goready
    split
    · exact ⟨[.wake x], by simp [Shared.record, Shared.withQueue], by simp [Event.offAdd]⟩
    · exact ⟨[], by simp [Shared.record, Shared.withQueue], by simp⟩
  rw [hl]
  have hcall : (Event.goready x (.task t.id)).AddLaw sh.log := ⟨g, ids, hown⟩
  refine ⟨(hlaw.concat hcall).append fun _ e he => addLaw_of_offAdd (hes e he), fun i hi => ?_, ?_⟩
  · rw [addCallOf_offAdd hes, addCallOf_concat]
    exact if_neg (Ne.symm hi)
  · rw [addCallOf_offAdd hes, addCallOf_concat, hown]
    exact if_pos rfl

/-- **A step of a task keeps the law of its `add`.** -/
theorem TaskStep.addCalls (hP : P.Grouped) (hs : TaskStep P ch free sh t e)
    (hc : t.code.grouped = true) (hlaw : Each Event.AddLaw sh.log)
    (hown : addCallOf t.id sh.log = t.code.addCall) : AddStep sh t e := by
  have hop : ∀ {x op}, P.code x = op → op.grouped = true := fun {x op} hx => hx ▸ hP x
  have hidle : ∀ {c}, t.code = c → c.addCall = none → addCallOf t.id sh.log = none := by
    rintro c rfl hnone
    rw [hown, hnone]
  cases hs with
  | recvUnwrap _ hx | sendDelivered _ hx | sendBuffered _ hx | sendEnqueued _ hx | recvClosed _ hx
  | recvTake _ hx | recvRefill _ hx | recvBuf _ hx | recvEnqueued _ hx | close _ hx | netFail _ hx
  | netAdd _ hx | ioSpawn _ _ hx | ioBlock _ _ hx | gopark _ hx | goready _ _ hx => cases hop hx
  | chanPoisoned hs | chanClosed hs => exact (hs.not_grouped hP hc).elim
  | registerRead h | unregister h | spawnWorker _ h | threadSpawn h | blocking h | resumeNet h
  | resumeGopark h | resumeSend h | resumeRecv h | wakeNil h =>
    rw [h] at hc
    cases hc
  | @sleepOverflow x d k hd h | @groupPanic x g k hd m m' p h =>
    refine .off [_] hlaw (raise_log _ _) (by simp [Event.offAdd]) (hidle h rfl) (raise_pc _ _) ?_
    cases hd
    · exact congrArg Code.addCall h
    · rfl
  | @add x g d k hd m woken inner h =>
    have hadd : Each Event.AddLaw (sh.log ++ [.added g t.id d woken]) := hlaw.concat (hidle h rfl)
    have hcall : addCallOf t.id (sh.log ++ [.added g t.id d woken]) = some (g, woken) := by
      rw [addCallOf_concat]
      exact if_pos rfl
    have hother : ∀ i, i ≠ t.id →
        addCallOf i (sh.log ++ [.added g t.id d woken]) = addCallOf i sh.log := by
      intro i hi
      rw [addCallOf_concat]
      exact if_neg (Ne.symm hi)
    cases woken with
    | nil =>
      -- nobody to wake: `add` returns in the same section
      refine ⟨hadd.concat (.inr ⟨g, hcall, rfl⟩), fun i hi => ?_, .inl ⟨.user k, rfl, ?_⟩⟩
      · rw [← hother i hi]
        exact (addCallOf_concat _ _ _).trans (if_neg (Ne.symm hi))
      · exact (addCallOf_concat _ _ _).trans (if_pos rfl)
    | cons i ids => exact ⟨hadd, hother, .inl ⟨.wake (i :: ids) (.add g) k, rfl, hcall⟩⟩
  | @wakeMore id id' ids ret k _ h =>
    rw [h] at hc
    obtain ⟨g, rfl⟩ := Code.add_of_grouped hc
    obtain ⟨h1, h2, h3⟩ := AddStep.goready hlaw (hown.trans (congrArg Code.addCall h))
    exact ⟨h1, h2, .inl ⟨.wake (id' :: ids) (.add g) k, rfl, h3⟩⟩
  | @wakeLast id ret k _ h =>
    rw [h] at hc
    obtain ⟨g, rfl⟩ := Code.add_of_grouped hc
    obtain ⟨h1, h2, h3⟩ := AddStep.goready hlaw (hown.trans (congrArg Code.addCall h))
    refine ⟨h1.concat (.inr ⟨g, h3, rfl⟩), fun i hi => ?_, .inl ⟨.user k, rfl, ?_⟩⟩
    · rw [← h2 i hi]
      exact (addCallOf_concat _ _ _).trans (if_neg (Ne.symm hi))
    · exact (addCallOf_concat _ _ _).trans (if_pos rfl)
  | waitZero h | resumeSleep h | resumeWait h => exact .returns hlaw rfl (hidle h rfl) rfl
  | gosched h | park h => exact .switch [] hlaw (List.append_nil _).symm (by simp) (hidle h rfl) rfl
  | done h => exact .switch [_] hlaw rfl (by simp [Event.offAdd]) (hidle h rfl) rfl
  | go h | currentTaskId h | sleep h =>
    exact .off [] hlaw (List.append_nil _).symm (by simp) (hidle h rfl) rfl rfl
  | entry h | goPush _ h | sleepPush h | waitJoin h =>
    exact .off [_] hlaw rfl (by simp [Event.offAdd]) (hidle h rfl) rfl rfl

/-- What a worker does on its own is no part of an `add`. -/
theorem WorkerStep.offAdd (hs : WorkerStep P ch free sh pc e) (hpc : ∀ t, pc ≠ .run t) :
    ∃ es, e.sh.log = sh.log ++ es ∧ ∀ e ∈ es, e.offAdd = true := by
  have hgoready : ∀ waker id, (∀ t, waker ≠ .task t) →
      ∃ es, (sh.goready waker id).1.log = sh.log ++ es ∧ ∀ e ∈ es, e.offAdd = true := by
    intro waker id hw
    unfold Shared.goready
    split <;> refine ⟨_, rfl, ?_⟩ <;> cases waker <;> simp_all [Event.offAdd]
  have hpop : ∀ (sh' : Shared σ V) (otherwise : Pc σ V), sh'.log = sh.log →
      ∃ es, (tryPop sh' otherwise).sh.log = sh.log ++ es ∧ ∀ e ∈ es, e.offAdd = true := by
    intro sh' otherwise hl
    unfold tryPop
    split
    · exact ⟨[], by simp [hl], by simp⟩
    · exact ⟨[_], congrArg (· ++ [_]) hl, by simp [Event.offAdd]⟩
  have hsame : ∃ es, sh.log = sh.log ++ es ∧ ∀ e ∈ es, e.offAdd = true := ⟨[], by simp, by simp⟩
  cases hs with
  | run => exact absurd rfl (hpc _)
  | timersReady | wakeReady => exact hgoready _ _ (by simp)
  | top | termNetYes | termStay => exact hpop _ _ rfl
  | notified =>
    simp only [wakeStep]
    split
    · exact hsame
    · exact hpop _ _ rfl
  | goIdle =>
    simp only [idleStep]
    split <;> exact hsame
  | park =>
    unfold Shared.parkTask
    split
    · exact ⟨[_], rfl, by simp [Event.offAdd]⟩
    · exact hsame
  | timersPop => exact ⟨[_], rfl, by simp [Event.offAdd]⟩
  | lookup =>
    refine ⟨_, rfl, fun ev hev => ?_⟩
    obtain ⟨x, -, rfl⟩ := List.mem_map.mp hev
    rfl
  | _ => exact hsame

end Steps

/-! ### Runs

A task in the middle of its calls is on a worker: it cannot be switched out there. So the account
needs only the tasks that run.
-/

/-- The calls of `add`, in a state. -/
structure State.AddCalls (s : State σ V) : Prop where
  law : Each Event.AddLaw s.sh.log
  /-- The code of a running task tells the calls that it still owes. -/
  own : ∀ t, .run t ∈ s.workers → addCallOf t.id s.sh.log = t.code.addCall
  /-- A task in an `add` is running. -/
  running : ∀ i, addCallOf i s.sh.log ≠ none → ∃ t, .run t ∈ s.workers ∧ t.id = i

/-- The worker runs the task `i`. -/
def Pc.runs (i : TaskId) : Pc σ V → Nat
  | .run t => if t.id = i then 1 else 0
  | _ => 0

/-- Blocking and waking a worker does not change the task it runs. -/
theorem silent_runs (i : TaskId) : Silent (Pc.runs i : Pc σ V → Nat) := ⟨rfl, fun _ => rfl⟩

section Runs

variable {P : Program σ V} {ok : Act → State σ V → Prop} {s s' : State σ V} {w : Nat}
  {ch : Choice} {pc : Pc σ V} {e : Effect σ V} {i : TaskId}

/-- The task runs on some worker. -/
theorem runs_pos_iff : 0 < s.total (Pc.runs i) ↔ ∃ t, .run t ∈ s.workers ∧ t.id = i := by
  constructor
  · intro h
    obtain ⟨w, pc, hw, hpc⟩ := Slots.exists_pos_of_sum_pos h
    cases pc with
    | run t =>
      refine ⟨t, List.mem_of_getElem? hw, ?_⟩
      by_contra hne
      simp [Pc.runs, hne] at hpc
    | _ => exact absurd hpc (Nat.lt_irrefl 0)
  · rintro ⟨t, ht, rfl⟩
    obtain ⟨w, hw⟩ := List.mem_iff_getElem?.mp ht
    have := Slots.le_sum_map (Pc.runs t.id) hw
    rw [Pc.runs, if_pos rfl] at this
    exact this

/-- A task that another worker runs is still run after the step. -/
theorem running_of_other (hmove : WorkerMove s s' w pc e) (hi : pc.runs i = 0)
    (h : ∃ t, .run t ∈ s.workers ∧ t.id = i) : ∃ t, .run t ∈ s'.workers ∧ t.id = i := by
  rw [← runs_pos_iff] at h ⊢
  have := hmove.total _ (silent_runs i)
  omega

/-- A task that can be switched out is not in the middle of an `add`. -/
theorem Code.addCall_of_resumable {c : Code σ V} (h : c.resumable = true) : c.addCall = none := by
  cases c <;> first | rfl | cases h

/-- A task in the queues is in no `add`. -/
theorem State.AddCalls.queued (h : s.AddCalls) (hsh : s.Shaped) (hp : s.Placed) {u : Task σ V}
    (hu : s.sh.queue.Has u) : addCallOf u.id s.sh.log = u.code.addCall := by
  have hres : u.code.resumable = true := by
    rcases hu with hu | ⟨i, hu⟩
    · exact (hsh.queue.runnable u hu).2
    · exact Code.resumable_of_isParked (hsh.queue.waiting i u hu).2.2
  rw [Code.addCall_of_resumable hres]
  by_contra hne
  obtain ⟨t, ht, hid⟩ := h.running u.id hne
  obtain ⟨w, hw⟩ := List.mem_iff_getElem?.mp ht
  exact id_ne_of_has hsh hp hw rfl (hsh.workers _ ht).run hu hid

/-- **A step of a worker keeps the account of the calls.** -/
theorem State.AddCalls.worker (h : s.AddCalls) (hP : P.Grouped) (hr : (runtime P).Reach ok s)
    (hw : s.workers[w]? = some pc) (hs : WorkerStep P ch (queueFree s.workers) s.sh pc e)
    (hmove : WorkerMove s s' w pc e) : s'.AddCalls := by
  have hsh := reach_shaped hr
  have hp := reach_placed hr
  have hmem := List.mem_of_getElem? hw
  have hkept : Kept fun pc : Pc σ V =>
      ∀ t, pc = .run t → addCallOf t.id s'.sh.log = t.code.addCall := ⟨by simp, by simp⟩
  rcases hs.task_or with ⟨t, rfl, htask⟩ | hpc
  · have hstep := htask.addCalls hP (reach_grouped hP hr t (.inr ⟨_, hmem, rfl⟩)) h.law (h.own t hmem)
    -- only the call of the task itself goes on
    have hother : ∀ i, i ≠ t.id → addCallOf i s'.sh.log = addCallOf i s.sh.log := by
      rw [hmove.sh]
      exact hstep.others
    have hown := hstep.own
    rw [← hmove.sh] at hown
    refine ⟨hmove.sh ▸ hstep.law, fun u hu => ?_, fun i hi => ?_⟩
    · refine hmove.forall_mem _ hkept ?_ ?_ _ hu u rfl
      · rintro j _ hj hjw v rfl
        have hv := List.mem_of_getElem? hjw
        rw [hother v.id (id_ne_of_workers hp hw hjw hj rfl (hsh.workers _ hmem).run rfl
          (hsh.workers _ hv).run).symm]
        exact h.own v hv
      · intro v hv
        rcases hown with ⟨c, hpc, hc⟩ | ⟨⟨u, hpc⟩, -⟩ <;> rw [hpc] at hv <;> cases hv
        exact hc
    · by_cases hid : i = t.id
      · subst hid
        rcases hown with ⟨c, hpc, -⟩ | ⟨-, hnone⟩
        · exact ⟨t.goto c, List.mem_of_getElem? (hpc ▸ hmove.at_ (by rw [hpc]; simp)), rfl⟩
        · exact absurd hnone hi
      · rw [hother i hid] at hi
        exact running_of_other hmove (if_neg (Ne.symm hid)) (h.running i hi)
  · obtain ⟨es, hl, hes⟩ := hs.offAdd hpc
    rw [← hmove.sh] at hl
    -- no call goes on, whatever else the worker does
    have hsame : ∀ i, addCallOf i s'.sh.log = addCallOf i s.sh.log := fun i => by
      rw [hl, addCallOf_offAdd hes]
    refine ⟨?_, fun u hu => ?_, fun i hi => ?_⟩
    · rw [hl]
      exact h.law.append fun _ e he => addLaw_of_offAdd (hes e he)
    · refine hmove.forall_mem _ hkept ?_ ?_ _ hu u rfl
      · rintro j _ - hjw v rfl
        rw [hsame]
        exact h.own v (List.mem_of_getElem? hjw)
      · intro v hv
        obtain ⟨v', hv', hid, hcode⟩ := hs.sched.task? hpc (u := v) (by rw [hv]; rfl)
        rw [hsame, hid, hcode]
        exact h.queued hsh hp hv'
    · rw [hsame] at hi
      refine running_of_other hmove ?_ (h.running i hi)
      cases pc <;> first | rfl | exact absurd rfl (hpc _)

/-- The main thread and the environment keep it. -/
theorem State.AddCalls.outer (h : s.AddCalls) (ho : OuterStep s s') (hmove : OuterMove s s') :
    s'.AddCalls := by
  obtain ⟨es, hl, hes⟩ : ∃ es, s'.sh.log = s.sh.log ++ es ∧ ∀ e ∈ es, e.offAdd = true := by
    cases ho with
    | go hsh => exact ⟨[], by rw [hsh, List.append_nil], by simp⟩
    | push hsh => exact ⟨[_], by rw [hsh]; rfl, by simp [Event.offAdd]⟩
    | same hsh => exact ⟨[], by rw [hsh.log, List.append_nil], by simp⟩
  have hsame : ∀ i, addCallOf i s'.sh.log = addCallOf i s.sh.log := fun i => by
    rw [hl, addCallOf_offAdd hes]
  refine ⟨?_, fun u hu => ?_, fun i hi => ?_⟩
  · rw [hl]
    exact h.law.append fun _ e he => addLaw_of_offAdd (hes e he)
  · rw [hsame]
    exact hmove.forall_mem (fun pc => ∀ t, pc = .run t → addCallOf t.id s.sh.log = t.code.addCall)
      ⟨by simp, by simp⟩ (fun pc hpc t ht => h.own t (ht ▸ hpc)) _ hu u rfl
  · rw [hsame] at hi
    rw [← runs_pos_iff, hmove.total _ (silent_runs i), runs_pos_iff]
    exact h.running i hi

/-- **The calls of every `add`**, in every state reached. -/
theorem reach_addCalls (hP : P.Grouped) (hr : (runtime P).Reach ok s) : s.AddCalls := by
  refine hr.invariant ?_ ?_
  · rintro s ⟨caps, groups, calls, rfl⟩
    exact ⟨.nil _, fun _ ht => absurd ht List.not_mem_nil, fun _ hi => absurd rfl hi⟩
  · intro s s' a hr h _ hn
    rcases (next_inv hn).2.cases with ⟨w, ch, pc, e, -, hw, hs, hmove⟩ | ⟨ho, hmove⟩
    · exact h.worker hP hr hw hs hmove
    · exact h.outer ho hmove

end Runs

end MyGoroutine
