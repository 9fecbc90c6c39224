import MyGoroutine.Group.Calls
import MyGoroutine.Group.Move

namespace MyGoroutine

/-!
# Waiting for a wait group

From the section in which `wait` registers a task to its return, the task's entry is among the
waiters, or an `add` has taken it out.

* `Event.ends`, `Waits` — the call of `wait` that a task is in, read off the history;
* `next_waits`, `run_waits` — what a step and a run do to the entry of such a task;
* `wait_returned` — a `wait` returns after the counter was zero;
* `add_to_zero` — an `add` that reaches zero calls `goready` for each waiter;
* `woken_of_zero` — a waiter that the counter has released is on its way;
* `wait_group_spec` — the law of the wait groups, over whole runs.
-/

open History

variable {σ V : Type}

/-- The event ends the call that the task `i` is in. -/
def Event.ends (i : TaskId) : Event V → Bool
  | .returned t _ => t = i
  | .panicked t _ => t = i
  | _ => false

/-- The task `i` has registered with `g` by the time of the history `log`, and it is still in that
    call of `wait` after the events `rest`. -/
def Waits (g : GroupId) (i : TaskId) (log rest : List (Event V)) : Prop :=
  ∃ pre mid, log = pre ++ .joined g i :: mid ∧ ∀ e ∈ mid ++ rest, e.ends i = false

/-- After the section of an `add` on `g` by the task `u`, followed by the events `after`: the task
    calls `goready` once for each of the tasks `woken`, and for no other, before it returns. -/
structure State.CallsAll (s : State σ V) (g : GroupId) (u : TaskId) (woken : List TaskId)
    (after : List (Event V)) : Prop where
  returned : ∀ mid r rest, after = mid ++ .returned u r :: rest → (∀ r, .returned u r ∉ mid) →
    r = .add g ∧ gather (Event.goreadyBy u) mid = woken
  /-- Until then the task runs, and it owes the calls that are left. -/
  pending : (∀ r, .returned u r ∉ after) → ∃ t owed k, .run t ∈ s.workers ∧ t.id = u ∧
    t.code = .wake owed (.add g) k ∧ gather (Event.goreadyBy u) after ++ owed = woken

/-- The park of the task `i` is over, or the `goready` that ends it is under way. -/
def State.OnItsWay (s : State σ V) (i : TaskId) : Prop :=
  (∃ t ∈ s.sh.queue.runnable, t.id = i) ∨ (∃ t, .run t ∈ s.workers ∧ t.id = i) ∨
    (∃ pc ∈ s.workers, i ∈ pc.collected) ∨ i ∈ s.sh.queue.pendingReady

/-- Only `wait` parks among the waiters of a wait group. -/
theorem Park.wait_of_waitsAt {p : Park σ V} {g : GroupId} (h : p.waitsAt (.waiters g)) :
    ∃ k, p = .wait g k := by
  cases p with
  | wait g' k =>
    obtain rfl : g' = g := h
    exact ⟨k, rfl⟩
  | _ => cases h

/-! ### The history of a waiter

A task is in its call of `wait` from the section that registers it to the step that returns. Both
are events of the task, so the history shows whether it has been in the same call since.
-/

section Histories

variable {log : List (Event V)} {g : GroupId} {i : TaskId}

/-- An event that leaves the task where it waits does not end its call. -/
theorem not_ends_of_update {e : Event V} {src : Source} {st : Status V} (hst : st.source? = some src)
    (h : e.update i st = st) : e.ends i = false := by
  cases e with
  | returned t r | panicked t r =>
    by_contra hne
    obtain rfl : t = i := by simpa [Event.ends] using hne
    rw [← h, Event.update, if_pos rfl] at hst
    cases hst
  | _ => rfl

/-- **When a waiter registered.**  It has been in the same call since. -/
theorem joined_of_queued (h : statusOf i log = .queued (.waiters g)) : Waits g i log [] := by
  -- backwards from the end of the history to the event that queued the task
  induction log using List.reverseRecOn with
  | nil => cases h
  | append_singleton log x ih =>
    have hx : x.update i (statusOf i log) = .queued (.waiters g) := by
      rw [statusOf_append] at h
      exact h
    by_cases hold : statusOf i log = .queued (.waiters g)
    · obtain ⟨pre, mid, rfl, hmid⟩ := ih hold
      refine ⟨pre, mid ++ [x], by simp, fun e he => ?_⟩
      rw [List.append_nil] at he hmid
      rcases List.mem_append.mp he with he | he
      · exact hmid e he
      · rw [List.mem_singleton.mp he]
        rw [hold] at hx
        exact not_ends_of_update rfl hx
    · -- only the registration with `g` queues the task there
      have hjoin : x = .joined g i := by
        cases x with
        | sent c t d o | received c t o =>
          cases o <;> simp only [Event.update] at hx <;>
            first
            | exact absurd hx hold
            | (split at hx
               · cases hx
               · exact absurd hx hold)
        | closed =>
          simp only [Event.update] at hx
          split at hx
          · cases hx
          · split at hx
            · cases hx
            · exact absurd hx hold
        | joined g' t =>
          simp only [Event.update] at hx
          split at hx
          · cases hx
            subst_vars
            rfl
          · exact absurd hx hold
        | timerPush | timerPop | added | registered | reported | returned | panicked =>
          simp only [Event.update] at hx
          split at hx
          · cases hx
          · exact absurd hx hold
        | created | dispatched | entered | died | goready | wake => exact absurd hx hold
      subst hjoin
      exact ⟨log, [], rfl, by simp⟩

end Histories

/-! ### The steps of a waiter

A waiter's entry can be taken out by an `add` that brings the counter to zero, and by nothing else.
After that its way back is over no step that looks at the counter again: this is why raising the
counter cannot keep it parked.
-/

section Steps

variable {P : Program σ V} {s s' : State σ V} {a : Act} {g : GroupId} {i : TaskId}
  {es : List (Event V)}

/-- **A step leaves a waiter in its call**: its entry stays, or it is taken out. -/
theorem next_waits (hP : P.Grouped) (hr : (runtime P).Reachable s)
    (hn : (runtime P).next a s = some s') (hc : .created i ∈ s.sh.log) (hd : .died i ∉ s.sh.log)
    (hsrc : (s.sh.status i).source? = some (.waiters g)) (hl : s'.sh.log = s.sh.log ++ es)
    (hes : ∀ e ∈ es, e.ends i = false) :
    Evolves (s.sh.status i) (s'.sh.status i) ∧ .died i ∉ s'.sh.log := by
  obtain ⟨ha, hn⟩ := next_inv hn
  rcases hn.cases with ⟨w, ch, pc, e, -, hw, hs, hmove⟩ | ⟨ho, -⟩
  · have hsh := reach_shaped hr
    have hdis := reach_disciplined_grouped hP hr
    by_cases hrun : ∃ t, pc = .run t ∧ t.id = i
    · obtain ⟨t, rfl, rfl⟩ := hrun
      -- its own step: it is still in `wait`, at the park or behind it
      have hag := hdis.agrees_of_run hsh hw ha rfl
      obtain ⟨p, hcode, hp⟩ := Code.park_of_source? hag hsrc rfl
      obtain ⟨k, rfl⟩ := Park.wait_of_waitsAt hp
      cases hs with
      | run hs =>
        rcases hcode with hcode | hcode
        · -- the task is switched out, and records nothing
          obtain rfl := hs.of_park hcode
          rw [hmove.sh]
          exact ⟨.inl rfl, hd⟩
        · have hres := hs.of_parked hcode
          cases hres with
          | wait =>
            rw [hmove.sh] at hl
            obtain rfl := List.append_cancel_left (show _ ++ [_] = _ from hl)
            exact absurd (hes _ List.mem_cons_self) (by simp [Event.ends])
    · -- the step of another worker can only take its entry out
      have hother : ∀ t, pc = .run t → t.id ≠ i := fun t ht hid => hrun ⟨t, ht, hid⟩
      have hwake := hs.wakes_grouped hP hr ha hw
      rw [hmove.sh]
      refine ⟨hwake.evolves hother, fun hmem => ?_⟩
      rcases hs.sched.died hmem with hmem | ⟨t, ht, hid⟩
      · exact hd hmem
      · exact hother t ht hid
  · cases ho with
    | go hsh =>
      rw [hsh]
      exact ⟨.inl rfl, hd⟩
    | push hsh =>
      rw [hsh]
      refine ⟨.inl (status_of_neutral [.created _] rfl (by simp [Event.neutral, Event.update]) i), ?_⟩
      simpa [Shared.pushNew, Shared.record, Shared.withQueue] using hd
    | same hsh =>
      rw [hsh.log]
      exact ⟨.inl (status_of_log hsh.log i), hd⟩

/-- A step of a task that records the return of a `wait`. -/
theorem TaskStep.wait_returned {ch : Choice} {free : Bool} {sh : Shared σ V} {t : Task σ V}
    {e : Effect σ V} (hP : P.Grouped) (hs : TaskStep P ch free sh t e)
    (hc : t.code.grouped = true) (hl : e.sh.log = sh.log ++ es)
    (hret : .returned i (.wait g) ∈ es) :
    t.id = i ∧ ((∃ x k h m, t.code = .user x ∧ P.code x = .wait g k h ∧
      sh.groups[g]? = some m ∧ m.val.counter = 0) ∨ ∃ k, t.code = .parked (.wait g k)) := by
  have hop : ∀ {x op}, P.code x = op → op.grouped = true := fun {x op} hx => hx ▸ hP x
  have hnew : ∀ es', e.sh.log = sh.log ++ es' → .returned i (.wait g) ∈ es' := by
    intro es' hl'
    rwa [← List.append_cancel_left (hl.symm.trans hl')]
  have hgoready : ∀ x es', (sh.goready (.task t.id) x).1.log = sh.log ++ es' →
      .returned i (.wait g) ∉ es' := by
    intro x es' hl' hmem
    obtain ⟨es'', hl'', hes''⟩ := goready_ofWorker sh (.task t.id) x
    rw [List.append_cancel_left (hl'.symm.trans hl'')] at hmem
    cases hes'' _ hmem
  cases hs with
  -- what such a program does not do
  | recvUnwrap _ hx | sendDelivered _ hx | sendBuffered _ hx | sendEnqueued _ hx | recvClosed _ hx
  | recvTake _ hx | recvRefill _ hx | recvBuf _ hx | recvEnqueued _ hx | close _ hx | netFail _ hx
  | netAdd _ hx | ioSpawn _ _ hx | ioBlock _ _ hx | gopark _ hx | goready _ _ hx => cases hop hx
  | chanPoisoned hs | chanClosed hs => exact (hs.not_grouped hP hc).elim
  | registerRead h | unregister h | spawnWorker _ h | threadSpawn h | blocking h | resumeNet h
  | resumeGopark h | resumeSend h | resumeRecv h | wakeNil h =>
    rw [h] at hc
    cases hc
  | sleepOverflow | groupPanic => cases List.mem_singleton.mp (hnew [_] (raise_log _ _))
  | @add x g' d k hd m woken inner =>
    rw [finish_sh, Shared.record_record] at hnew
    have hmem := hnew _ rfl
    split at hmem <;> simp at hmem
  | wakeMore => exact absurd hret (hgoready _ _ hl)
  -- the call that ends is an `add`, not a `wait`
  | @wakeLast id ret k _ h =>
    obtain ⟨es', hl', -⟩ := goready_ofWorker sh (.task t.id) id
    have hmem := hnew (es' ++ [_]) ((congrArg (· ++ [_]) hl').trans (List.append_assoc _ _ _))
    rw [h] at hc
    obtain ⟨g', rfl⟩ := Code.add_of_grouped hc
    rcases List.mem_append.mp hmem with hmem | hmem
    · exact absurd hmem (hgoready _ _ hl')
    · cases List.mem_singleton.mp hmem
  -- the two ways a `wait` returns
  | waitZero h hx hm _ h0 =>
    cases List.mem_singleton.mp (hnew [_] rfl)
    exact ⟨rfl, .inl ⟨_, _, _, _, h, hx, hm, h0⟩⟩
  | resumeWait h =>
    cases List.mem_singleton.mp (hnew [_] rfl)
    exact ⟨rfl, .inr ⟨_, h⟩⟩
  | go | gosched | currentTaskId | sleep | park => cases hnew [] (List.append_nil _).symm
  | entry | done | goPush | sleepPush | waitJoin | resumeSleep =>
    cases List.mem_singleton.mp (hnew [_] rfl)

/-- The section that registers a task leaves its entry among the waiters. -/
theorem next_joined (hn : (runtime P).next a s = some s') {m : WaitGroup}
    (hm : s.sh.groups[g]? = some m) (hl : s'.sh.log = s.sh.log ++ es) (hj : .joined g i ∈ es) :
    es = [.joined g i] ∧ s'.sh.status i = .queued (.waiters g) := by
  obtain ⟨m', t, -, heff⟩ := next_group hn hm
  have hone : es = [.joined g i] := by
    cases heff with
    | same _ hl' =>
      obtain ⟨es', hl', hes'⟩ := hl'
      obtain rfl := List.append_cancel_left (hl.symm.trans hl')
      exact absurd rfl (hes' _ hj)
    | move hmv hl' =>
      obtain rfl := List.append_cancel_left (hl.symm.trans hl')
      generalize m'.val = v at hmv
      cases hmv with
      | add _ hes =>
        rcases List.mem_cons.mp hj with hj | hj
        · cases hj
        · cases hes _ hj
      | join =>
        cases List.mem_singleton.mp hj
        rfl
      | zero | panic => cases List.mem_singleton.mp hj
  subst hone
  exact ⟨rfl, (status_append_one hl i).trans (if_pos rfl)⟩

/-- A step that records the return of a `wait`: the task found the counter at zero, or it goes on
    after its park. -/
theorem next_wait_returned (hP : P.Grouped) (hr : (runtime P).Reachable s)
    (hn : (runtime P).next a s = some s') (hl : s'.sh.log = s.sh.log ++ es)
    (hret : .returned i (.wait g) ∈ es) :
    ∃ (w : Nat) (t : Task σ V), s.workers[w]? = some (.run t) ∧ t.id = i ∧
      ((∃ x k h m, t.code = .user x ∧ P.code x = .wait g k h ∧ s.sh.groups[g]? = some m ∧
        m.val.counter = 0) ∨ ∃ k, t.code = .parked (.wait g k)) := by
  rcases (next_inv hn).2.cases with ⟨w, ch, pc, e, -, hw, hs, hmove⟩ | ⟨ho, -⟩
  · rcases hs.task_or with ⟨t, rfl, htask⟩ | hpc
    · have hcode := reach_grouped hP hr t (.inr ⟨_, List.mem_of_getElem? hw, rfl⟩)
      rw [hmove.sh] at hl
      obtain ⟨rfl, h⟩ := htask.wait_returned hP hcode hl hret
      exact ⟨w, t, hw, rfl, h⟩
    · obtain ⟨es', hl', hes'⟩ := hs.offAdd hpc
      rw [hmove.sh] at hl
      obtain rfl := List.append_cancel_left (hl.symm.trans hl')
      cases hes' _ hret
  · -- the main thread returns from no call
    exfalso
    cases ho with
    | go hsh =>
      rw [hsh] at hl
      rw [List.self_eq_append_right.mp hl] at hret
      cases hret
    | push hsh =>
      rw [hsh] at hl
      obtain rfl := List.append_cancel_left (show s.sh.log ++ [_] = _ from hl)
      cases List.mem_singleton.mp hret
    | same hsh =>
      rw [hsh.log] at hl
      rw [List.self_eq_append_right.mp hl] at hret
      cases hret

end Steps

/-! ### Runs

The three clauses about runs: a `wait` that returns has seen a zero, or was released by an `add`
that came to zero; an `add` that comes to zero calls each waiter once; and a waiter that was
registered before a zero is on its way back.
-/

section Runs

variable {P : Program σ V} {s₀ u s s₁ s₂ : State σ V} {a : Act} {as : List Act} {g : GroupId}
  {i : TaskId} {rest : List (Event V)}

/-- **A run leaves a waiter in its call**, whatever evolution keeps of its status. -/
theorem run_waits {p : Status V → Prop} (hev : ∀ st st', p st → Evolves st st' → p st')
    (hsrc : ∀ st, p st → st.source? = some (.waiters g)) (hP : P.Grouped)
    (hr : (runtime P).Reachable u) (hrun : (runtime P).run as u = some s)
    (hl : s.sh.log = u.sh.log ++ rest) (hrest : ∀ e ∈ rest, e.ends i = false)
    (hc : .created i ∈ u.sh.log) (hd : .died i ∉ u.sh.log) (hp : p (u.sh.status i)) :
    p (s.sh.status i) ∧ .died i ∉ s.sh.log := by
  induction as generalizing u rest with
  | nil =>
    cases hrun
    exact ⟨hp, hd⟩
  | cons a as ih =>
    obtain ⟨t, hn, hrun⟩ := Option.bind_eq_some_iff.mp hrun
    obtain ⟨es, hes⟩ := next_log hn
    obtain ⟨rest', hrest'⟩ := run_log hrun
    have hsplit : rest = es ++ rest' := by
      rw [hrest', hes, List.append_assoc] at hl
      exact (List.append_cancel_left hl).symm
    subst hsplit
    obtain ⟨hevol, hd'⟩ := next_waits hP hr hn hc hd (hsrc _ hp) hes fun e he =>
      hrest e (List.mem_append_left _ he)
    exact ih (hr.step hn) hrun hrest' (fun e he => hrest e (List.mem_append_right _ he))
      (by rw [hes]; exact List.mem_append_left _ hc) hd' (hev _ _ hp hevol)

/-- In a run every state has the wait groups of the last one. -/
theorem passes_group {m : WaitGroup} (h : (runtime P).Passes as s₀ s s₁ a s₂)
    (hm : s.sh.groups[g]? = some m) :
    ∃ m₁ m₂, s₁.sh.groups[g]? = some m₁ ∧ s₂.sh.groups[g]? = some m₂ := by
  obtain ⟨hl₁, hl₂⟩ := h.unchanged (f := fun s => s.sh.groups.length)
    fun _ _ _ hn => next_length_groups hn
  have hlt := (List.getElem?_eq_some_iff.mp hm).1
  exact ⟨_, _, List.getElem?_eq_getElem (hl₁.symm ▸ hlt), List.getElem?_eq_getElem (hl₂.symm ▸ hlt)⟩

/-- **A waiter's entry is among the waiters, or an `add` has taken it out.** -/
theorem source_of_waits (hP : P.Grouped) (h0 : (runtime P).init s₀)
    (hrun : (runtime P).run as s₀ = some s) {m : WaitGroup} (hm : s.sh.groups[g]? = some m)
    (hw : Waits g i s.sh.log []) :
    (s.sh.status i).source? = some (.waiters g) ∧ .created i ∈ s.sh.log ∧ .died i ∉ s.sh.log := by
  obtain ⟨pre, mid, hl, hmid⟩ := hw
  obtain ⟨s₁, a, s₂, es, es', rest, hpass, rfl, hlog, rfl⟩ := passes_of_log h0 hrun hl
  obtain ⟨m₁, m₂, hm₁, -⟩ := passes_group hpass hm
  obtain ⟨hr₁, hn⟩ := passes_reach hpass h0
  have hj : .joined g i ∈ es ++ .joined g i :: es' := by simp
  obtain ⟨-, hst⟩ := next_joined hn hm₁ hlog hj
  have hr₂ := hr₁.step hn
  obtain ⟨t, ht, rfl⟩ := (reach_disciplined_grouped hP hr₂).exists_live (reach_shaped hr₂) hst
  obtain ⟨hc, hd⟩ := not_died_of_live (reach_shaped hr₂) (reach_placed hr₂) ht
  obtain ⟨before, after, -, -, -, hrun'⟩ := hpass
  have hrest : s.sh.log = s₂.sh.log ++ rest := by
    rw [hl, hlog]
    simp
  obtain ⟨hsrc, hd'⟩ := run_waits (p := fun st => st.source? = some (.waiters g))
    (fun st st' h hev => by
      rcases hev with rfl | ⟨src, why, rfl, rfl⟩
      · exact h
      · exact h) (fun _ h => h) hP hr₂ hrun' hrest
    (fun e he => hmid e (by simp [he])) hc hd (by rw [hst]; rfl)
  exact ⟨hsrc, by rw [hrest]; exact List.mem_append_left _ hc, hd'⟩

/-- The calls of an `add` of the history. -/
theorem State.AddCalls.callsAll (h : s.AddCalls) {before after : List (Event V)} {v : TaskId}
    {d : Int32} {woken : List TaskId} (hl : s.sh.log = before ++ .added g v d woken :: after) :
    s.CallsAll g v woken after := by
  have hlaw := h.law
  rw [hl] at hlaw
  refine ⟨fun mid r rest hafter hmid => ?_, fun hafter => ?_⟩
  · subst hafter
    have hsplit : before ++ .added g v d woken :: (mid ++ .returned v r :: rest)
        = (before ++ .added g v d woken :: mid) ++ .returned v r :: rest := by simp
    rw [hsplit] at hlaw
    obtain ⟨owed, howed, hcalls⟩ := calls_of_law hlaw.init hmid
    rcases hlaw _ _ _ rfl with hnone | ⟨g', hsome, rfl⟩
    · rw [howed] at hnone
      cases hnone
    · rw [howed] at hsome
      cases hsome
      exact ⟨rfl, by simpa using hcalls⟩
  · obtain ⟨owed, howed, hcalls⟩ := calls_of_law hlaw hafter
    rw [← hl] at howed
    obtain ⟨t, ht, rfl⟩ := h.running v (by rw [howed]; simp)
    obtain ⟨k, hk⟩ := Code.wake_of_addCall ((h.own t ht).symm.trans howed)
    exact ⟨t, owed, k, ht, rfl, hk, hcalls⟩

/-- A released waiter is on its way, while the process has not aborted. -/
theorem onItsWay_of_running (hP : P.Grouped) (hr : (runtime P).Reachable s)
    (ha : s.sh.aborted = none) {src : Source} {why : Why V}
    (hst : s.sh.status i = .released src why) (hc : .created i ∈ s.sh.log)
    (hd : .died i ∉ s.sh.log) : s.OnItsWay i := by
  have hsh := reach_shaped hr
  have hdis := reach_disciplined_grouped hP hr
  have hbal := hdis.balance i
  have hq : s.sh.queued i = 0 := queued_eq_zero (by rw [hst]; rfl)
  unfold State.causes at hbal
  by_cases htok : i ∈ s.sh.queue.pendingReady
  · exact .inr (.inr (.inr htok))
  by_cases howed : 0 < s.total (Pc.owed i)
  · obtain ⟨w, pc, hw, hpc⟩ := Slots.exists_pos_of_sum_pos howed
    exact .inr (.inr (.inl ⟨pc, List.mem_of_getElem? hw, List.count_pos_iff.mp hpc⟩))
  -- no cause is left, so the park is over
  have hopen : s.open i = 0 := by
    have htok0 : s.sh.queue.token i = 0 := if_neg htok
    omega
  obtain ⟨t, ht, rfl⟩ := live_of_created hsh (reach_placed hr) hc hd
  have hag := hdis.agree ha t ht
  rcases ht with (ht | ⟨j, ht⟩) | ⟨pc, hpc, ht, hdead⟩
  · exact .inl ⟨t, ht, rfl⟩
  · exfalso
    obtain rfl := (hsh.queue.waiting j t ht).1
    have hst0 : s.sh.queue.stored t.id = 0 := by
      unfold State.open at hopen
      omega
    simp [GlobalQueue.stored, ht] at hst0
  · cases pc with
    | run u =>
      obtain rfl : u = t := Option.some.inj ht
      exact .inr (.inl ⟨_, hpc, rfl⟩)
    | switched u =>
      obtain rfl : u = t := Option.some.inj ht
      exfalso
      obtain ⟨w, hw⟩ := List.mem_iff_getElem?.mp hpc
      have hle := Slots.le_sum_map (Pc.openPark u.id) hw
      have hzero : (Pc.switched u).openPark u.id = 0 := by
        unfold State.open State.total at hopen
        omega
      rcases hsh.workers _ hpc with h | ⟨hwait, -⟩ | ⟨-, huser⟩
      · exact hdead h
      · simp [Pc.openPark, hwait] at hzero
      · rw [hst, Code.agrees_of_calm (Code.calm_of_isUser huser)] at hag
        cases hag
    | _ => cases ht

/-- The step that aborts the process moves no task and no worker. -/
theorem next_aborts {s' : State σ V} {p : Panic} (hn : (runtime P).next a s = some s')
    (hp : s'.sh.aborted = some p) : ∃ j, s'.sh.queue = s.sh.queue ∧
      s'.sh.log = s.sh.log ++ [.panicked j p] ∧ ∀ f, Silent f → s'.total f = s.total f := by
  obtain ⟨ha, hn⟩ := next_inv hn
  rcases hn.cases with ⟨w, ch, pc, e, -, hw, hs, hmove⟩ | ⟨ho, -⟩
  · rcases hs.task_or with ⟨t, rfl, htask⟩ | hpc
    · rw [hmove.sh] at hp ⊢
      obtain ⟨hpc, hq, hl⟩ := htask.aborts ha hp
      refine ⟨t.id, hq, hl, fun f hf => ?_⟩
      have hmoved := hmove.total f hf
      rw [hpc] at hmoved
      exact Nat.add_right_cancel hmoved
    · rw [hmove.sh, hs.aborted hpc, ha] at hp
      cases hp
  · rw [ho.aborted, ha] at hp
    cases hp

/-- A task stays on its way when no task and no worker moves. -/
theorem State.OnItsWay.kept {s' : State σ V} (h : s.OnItsWay i) (hq : s'.sh.queue = s.sh.queue)
    (htotal : ∀ f, Silent f → s'.total f = s.total f) : s'.OnItsWay i := by
  rcases h with h | h | ⟨pc, hpc, hi⟩ | h
  · exact .inl (hq ▸ h)
  · refine .inr (.inl (runs_pos_iff.mp ?_))
    rw [htotal _ (silent_runs i)]
    exact runs_pos_iff.mpr h
  · have hpos : 0 < s'.total (Pc.owed i) := by
      obtain ⟨w, hw⟩ := List.mem_iff_getElem?.mp hpc
      rw [htotal _ (silent_owed i)]
      exact (List.count_pos_iff.mpr hi).trans_le (Slots.le_sum_map (Pc.owed i) hw)
    obtain ⟨w, pc', hw, hpc'⟩ := Slots.exists_pos_of_sum_pos hpos
    exact .inr (.inr (.inl ⟨pc', List.mem_of_getElem? hw, List.count_pos_iff.mp hpc'⟩))
  · exact .inr (.inr (.inr (hq ▸ h)))

/-- **A released waiter is on its way**, also where a panic has aborted the process. -/
theorem onItsWay_of_released (hP : P.Grouped) (hr : (runtime P).Reachable s) {src : Source}
    {why : Why V} (hst : s.sh.status i = .released src why) (hc : .created i ∈ s.sh.log)
    (hd : .died i ∉ s.sh.log) : s.OnItsWay i := by
  cases hp : s.sh.aborted with
  | none => exact onItsWay_of_running hP hr hp hst hc hd
  | some p =>
    cases hr with
    | init h =>
      obtain ⟨caps, groups, calls, rfl⟩ := h
      cases hp
    | step hr _ hn =>
      obtain ⟨j, hq, hl, htotal⟩ := next_aborts hn hp
      rw [status_append_one hl] at hst
      rw [hl, List.mem_append, List.mem_singleton] at hc hd
      simp only [Event.update] at hst
      split at hst
      · cases hst
      · refine State.OnItsWay.kept ?_ hq htotal
        exact onItsWay_of_running hP hr (next_inv hn).1 hst
          (hc.resolve_right fun h => by cases h) fun h => hd (.inl h)

/-- **No early wake.**  A `wait` that returns has found the counter at zero in its own section, or
    the counter was zero in an earlier state of the run, after the task had registered. -/
theorem wait_returned {s' : State σ V} {es : List (Event V)} {m : WaitGroup} (hP : P.Grouped)
    (h0 : (runtime P).init s₀) (hrun : (runtime P).run as s₀ = some s)
    (hm : s.sh.groups[g]? = some m) (hn : (runtime P).next a s = some s')
    (hl : s'.sh.log = s.sh.log ++ es) (hret : .returned i (.wait g) ∈ es) :
    (m.val.counter = 0 ∧ ∃ t x k h, .run t ∈ s.workers ∧ t.id = i ∧ t.code = .user x ∧
      P.code x = .wait g k h) ∨
    ∃ as₁ as₂ u m₁ rest, as = as₁ ++ as₂ ∧ (runtime P).run as₁ s₀ = some u ∧
      (runtime P).run as₂ u = some s ∧ u.sh.groups[g]? = some m₁ ∧ m₁.val.counter = 0 ∧
      s.sh.log = u.sh.log ++ rest ∧ Waits g i u.sh.log rest := by
  have hr := System.run_reachable h0 hrun
  obtain ⟨w, t, hw, rfl, ⟨x, k, h, m', hc, hx, hm', hzero⟩ | ⟨k, hc⟩⟩ :=
    next_wait_returned hP hr hn hl hret
  · rw [hm] at hm'
    cases hm'
    exact .inl ⟨hzero, t, x, k, h, List.mem_of_getElem? hw, rfl, hc, hx⟩
  · right
    have hdis := reach_disciplined_grouped hP hr
    have hsh := reach_shaped hr
    have hag := hdis.agrees_of_run hsh hw (next_inv hn).1 rfl
    rw [hc] at hag
    obtain ⟨src, why, hat, hst⟩ := Code.released_of_parked hag
      (hdis.queue?_of_settles hsh (reach_placed hr) hw rfl (by rw [hc]; rfl))
    cases src <;> cases hat
    -- the `add` that took the entry out
    obtain ⟨ev, before, after, hlog, hrel, hqueued, hafter⟩ :=
      released_by (reach_lawful_grouped hP hr) hst
    obtain ⟨v, d, woken, rfl, hi⟩ : ∃ v d woken, ev = .added g v d woken ∧ t.id ∈ woken := by
      cases ev with
      | added g' v d woken =>
        obtain ⟨hi, hg, -⟩ := hrel
        cases hg
        exact ⟨v, d, woken, rfl, hi⟩
      | sent c v d o | received c v o => cases o <;> first | exact hrel.elim | cases hrel.2.1
      | closed => rcases hrel.2 with ⟨-, h⟩ | ⟨-, -, h⟩ <;> cases h
      | timerPop | reported => cases hrel.2.1
      | _ => exact hrel.elim
    obtain ⟨s₁, b, s₂, es, es', rest, hpass, rfl, hlog₂, rfl⟩ := passes_of_log h0 hrun hlog
    obtain ⟨m₁, m₂, hm₁, hm₂⟩ := passes_group hpass hm
    obtain ⟨hr₁, hn₁⟩ := passes_reach hpass h0
    obtain ⟨m₂', j, hm₂', heff⟩ := next_group hn₁ hm₁
    rw [hm₂] at hm₂'
    cases hm₂'
    have hmem : .added g v d woken ∈ es ++ .added g v d woken :: es' := by simp
    have hzero : m₂.val.counter = 0 := by
      cases heff with
      | same _ hl' =>
        obtain ⟨es₀, hl', hes₀⟩ := hl'
        obtain rfl := List.append_cancel_left (hlog₂.symm.trans hl')
        exact absurd rfl (hes₀ _ hmem)
      | move hmv hl' =>
        obtain rfl := List.append_cancel_left (hlog₂.symm.trans hl')
        obtain ⟨hadd, -⟩ := hmv.of_added hmem
        by_contra hne
        rw [((WaitGroupInner.add_ok hadd).2 hne).1] at hi
        cases hi
    obtain ⟨pre, mid, hbefore, hmid⟩ := joined_of_queued hqueued
    obtain ⟨as₁, as₂, rfl, hrun₁, -, hrun₂⟩ := hpass
    refine ⟨as₁ ++ [b], as₂, s₂, m₂, rest, by simp, ?_, hrun₂, hm₂, hzero, ?_, pre,
      mid ++ .added g v d woken :: es', ?_, fun e he => ?_⟩
    · rw [System.run_append, hrun₁]
      show ((runtime P).next b s₁).bind _ = _
      rw [hn₁]
      rfl
    · rw [hlog, hlog₂]
      simp
    · rw [hlog₂, ← List.append_assoc, hbefore]
      simp
    · have hcases : e ∈ mid ++ [] ∨ e = .added g v d woken ∨ e ∈ es' ++ rest := by
        simp only [List.mem_append, List.mem_cons] at he ⊢
        tauto
      rcases hcases with he | rfl | he
      · exact hmid e he
      · rfl
      · exact not_ends_of_update rfl (hafter e he)

/-- **Each waiter is called.**  A step that brings the counter to zero is the section of an `add`,
    and its task calls `goready` once for each of the waiters, and for no other task. -/
theorem add_to_zero {m₁ m₂ : WaitGroup} (hP : P.Grouped) (h0 : (runtime P).init s₀)
    (hpass : (runtime P).Passes as s₀ s s₁ a s₂) (hrun : (runtime P).run as s₀ = some s)
    (hm₁ : s₁.sh.groups[g]? = some m₁) (hm₂ : s₂.sh.groups[g]? = some m₂)
    (hne : m₁.val.counter ≠ 0) (hzero : m₂.val.counter = 0) :
    m₁.val.waiters.Nodup ∧ ∃ u d after,
      s.sh.log = s₁.sh.log ++ .added g u d m₁.val.waiters :: after ∧
      s.CallsAll g u m₁.val.waiters after := by
  obtain ⟨hr₁, hn⟩ := passes_reach hpass h0
  obtain ⟨es, rest, hes, hrest⟩ := passes_log hpass
  obtain ⟨m₂', u, hm₂', heff⟩ := next_group hn hm₁
  rw [hm₂] at hm₂'
  cases hm₂'
  refine ⟨?_, ?_⟩
  · -- a task is queued at one place at most, so it is no waiter twice
    refine List.nodup_iff_count_le_one.mpr fun i => ?_
    have hle : s₁.sh.entries (.waiters g) i ≤ 1 :=
      (reach_disciplined_grouped hP hr₁).sources.entries_le_one rfl
    rwa [entries_waiters hm₁] at hle
  · cases heff with
    | same hv => exact absurd (hv ▸ hzero) hne
    | move hmv hl =>
      obtain ⟨d, es', rfl⟩ := hmv.of_zero hne hzero
      have hlog : s.sh.log = s₁.sh.log ++ .added g u d m₁.val.waiters :: (es' ++ rest) := by
        rw [hrest, hl]
        simp
      refine ⟨u, d, es' ++ rest, hlog, ?_⟩
      exact (reach_addCalls hP (System.run_reachable h0 hrun)).callsAll hlog

/-- **No lost waiter.**  Once the counter has been zero after the task's registration, the task is
    on its way for as long as its call of `wait` lasts. -/
theorem woken_of_zero {as₁ as₂ : List Act} {m₁ : WaitGroup} (hP : P.Grouped)
    (h0 : (runtime P).init s₀) (hrun₁ : (runtime P).run as₁ s₀ = some u)
    (hrun₂ : (runtime P).run as₂ u = some s) (hm₁ : u.sh.groups[g]? = some m₁)
    (hzero : m₁.val.counter = 0)
    (hl : s.sh.log = u.sh.log ++ rest) (hw : Waits g i u.sh.log rest) : s.OnItsWay i := by
  have hru := System.run_reachable h0 hrun₁
  have hrs := System.Reachable.run hru hrun₂
  obtain ⟨pre, mid, hlog, hmid⟩ := hw
  have hend : ∀ e ∈ rest, e.ends i = false := fun e he => hmid e (List.mem_append_right _ he)
  obtain ⟨hsrc, hc, hd⟩ := source_of_waits hP h0 hrun₁ hm₁ ⟨pre, mid, hlog, fun e he =>
    hmid e (List.mem_append_left _ (by simpa using he))⟩
  -- at zero nobody waits, so the entry has been taken out
  obtain ⟨why, hst⟩ : ∃ why, u.sh.status i = .released (.waiters g) why := by
    cases hst : u.sh.status i with
    | idle =>
      rw [hst] at hsrc
      cases hsrc
    | queued src =>
      rw [hst] at hsrc
      cases hsrc
      have hent := (reach_disciplined_grouped hP hru).sources.entries (.waiters g) i rfl
      rw [entries_waiters hm₁, reach_settled hru hm₁ hzero, hst] at hent
      simp [Status.queue?] at hent
    | released src why =>
      rw [hst] at hsrc
      cases hsrc
      exact ⟨why, rfl⟩
  obtain ⟨hst', hd'⟩ := run_waits (p := fun st => st = .released (.waiters g) why)
    (fun st st' h hev => by
      rcases hev with rfl | ⟨src, why', rfl, rfl⟩
      · exact h
      · cases h) (fun st h => by rw [h]; rfl) hP hru hrun₂ hl hend hc hd hst
  exact onItsWay_of_released hP hrs hst'
    (by rw [hl]; exact List.mem_append_left _ hc) hd'

end Runs

/-- **A wait group never wakes early, and never forgets a waiter.**  For every run of a program that
    uses `go`, `gosched`, `sleep` and wait groups: a `wait` returns only if the counter was zero at
    some state after the call began; a step that brings the counter to zero is the section of an
    `add`, whose task calls `goready` once for each of the waiters and for no other task; at zero
    nobody waits; and a task that was registered when the counter was zero is on its way until its
    `wait` returns, whatever happens to the counter in the meantime. -/
theorem wait_group_spec {P : Program σ V} (hP : P.Grouped) {s₀ s : State σ V} {as : List Act}
    (h0 : (runtime P).init s₀) (hrun : (runtime P).run as s₀ = some s) {g : GroupId}
    {m : WaitGroup} (hm : s.sh.groups[g]? = some m) :
    (∀ a s' es i, (runtime P).next a s = some s' → s'.sh.log = s.sh.log ++ es →
      .returned i (.wait g) ∈ es →
      (m.val.counter = 0 ∧ ∃ t x k h, .run t ∈ s.workers ∧ t.id = i ∧ t.code = .user x ∧
        P.code x = .wait g k h) ∨
      ∃ as₁ as₂ u m₁ rest, as = as₁ ++ as₂ ∧ (runtime P).run as₁ s₀ = some u ∧
        (runtime P).run as₂ u = some s ∧ u.sh.groups[g]? = some m₁ ∧ m₁.val.counter = 0 ∧
        s.sh.log = u.sh.log ++ rest ∧ Waits g i u.sh.log rest) ∧
    (∀ s₁ a s₂ m₁ m₂, (runtime P).Passes as s₀ s s₁ a s₂ → s₁.sh.groups[g]? = some m₁ →
      s₂.sh.groups[g]? = some m₂ → m₁.val.counter ≠ 0 → m₂.val.counter = 0 →
      m₁.val.waiters.Nodup ∧ ∃ u d after,
        s.sh.log = s₁.sh.log ++ .added g u d m₁.val.waiters :: after ∧
        s.CallsAll g u m₁.val.waiters after) ∧
    (m.val.counter = 0 → m.val.waiters = []) ∧
    (∀ as₁ as₂ u m₁ rest i, as = as₁ ++ as₂ → (runtime P).run as₁ s₀ = some u →
      (runtime P).run as₂ u = some s → u.sh.groups[g]? = some m₁ → m₁.val.counter = 0 →
      s.sh.log = u.sh.log ++ rest → Waits g i u.sh.log rest → s.OnItsWay i) := by
  refine ⟨?_, ?_, reach_settled (System.run_reachable h0 hrun) hm, ?_⟩
  · intro a s' es i hn hl hret
    exact wait_returned hP h0 hrun hm hn hl hret
  · intro s₁ a s₂ m₁ m₂ hpass hm₁ hm₂ hne hzero
    exact add_to_zero hP h0 hpass hrun hm₁ hm₂ hne hzero
  · intro as₁ as₂ u m₁ rest i _ hrun₁ hrun₂ hm₁ hzero hl hw
    exact woken_of_zero hP h0 hrun₁ hrun₂ hm₁ hzero hl hw

/-- A task that waits for its child; the child raises the counter again once it is done. -/
def waitProgram : Program Nat Unit where
  code
    | 0 => .add 0 1 1 none
    | 1 => .go 4 2
    | 2 => .wait 0 3 none
    | 4 => .add 0 (-1) 5 none
    | 5 => .add 0 1 3 none
    | _ => .done
  variant := .timer
  overflowChecks := true
  own x := by split <;> rfl

/-- The counter of `waitProgram` is back at one, and the task that has waited is on its way. -/
theorem wait_group_spec_raised :
    ∃ s, (runtime waitProgram).run
        (List.replicate 5 (Act.main {}) ++ List.replicate 12 (Act.worker 0 {}) ++
          List.replicate 2 (Act.worker 0 {}))
        (State.initial [] 1 [.go 0, .startRuntime 1]) = some s ∧
      (s.sh.groups[0]?).map (·.val.counter) = some 1 ∧ s.OnItsWay 0 := by
  have h₁ : ((runtime waitProgram).run
      (List.replicate 5 (Act.main {}) ++ List.replicate 12 (Act.worker 0 {}))
      (State.initial [] 1 [.go 0, .startRuntime 1])).map
        (fun s => ((s.sh.groups[0]?).map (·.val.counter), s.sh.log))
      = some (some 0, [.created 0, .dispatched 0, .entered 0, .added 0 0 1 [],
          .returned 0 (.add 0), .created 1, .joined 0 0, .dispatched 1, .entered 1,
          .added 0 1 (-1) [0]]) := by rfl
  have h₂ : ((runtime waitProgram).run
      (List.replicate 5 (Act.main {}) ++ List.replicate 12 (Act.worker 0 {}) ++
        List.replicate 2 (Act.worker 0 {}))
      (State.initial [] 1 [.go 0, .startRuntime 1])).map
        (fun s => ((s.sh.groups[0]?).map (·.val.counter), s.sh.log))
      = some (some 1, [.created 0, .dispatched 0, .entered 0, .added 0 0 1 [],
          .returned 0 (.add 0), .created 1, .joined 0 0, .dispatched 1, .entered 1,
          .added 0 1 (-1) [0], .goready 0 (.task 1), .wake 0, .returned 1 (.add 0),
          .added 0 1 1 [], .returned 1 (.add 0)]) := by rfl
  obtain ⟨u, hu, hu'⟩ := Option.map_eq_some_iff.mp h₁
  obtain ⟨s, hs, hs'⟩ := Option.map_eq_some_iff.mp h₂
  obtain ⟨hzero, hlog₁⟩ := Prod.mk.inj hu'
  obtain ⟨hone, hlog₂⟩ := Prod.mk.inj hs'
  obtain ⟨m₁, hm₁, hzero⟩ := Option.map_eq_some_iff.mp hzero
  obtain ⟨m₂, hm₂, -⟩ := Option.map_eq_some_iff.mp hone
  have hrun₂ := hs
  rw [System.run_append, hu] at hrun₂
  have hP : waitProgram.Grouped := by
    intro x
    rcases x with _ | _ | _ | _ | _ | _ | x <;> rfl
  refine ⟨s, hs, hone, (wait_group_spec hP ⟨[], 1, _, rfl⟩ hs hm₂).2.2.2 _ _ u m₁
    [.goready 0 (.task 1), .wake 0, .returned 1 (.add 0), .added 0 1 1 [], .returned 1 (.add 0)] 0
    rfl hu hrun₂ hm₁ hzero (by rw [hlog₁, hlog₂]; rfl) ?_⟩
  refine ⟨[.created 0, .dispatched 0, .entered 0, .added 0 0 1 [], .returned 0 (.add 0),
    .created 1], [.dispatched 1, .entered 1, .added 0 1 (-1) [0]], hlog₁, ?_⟩
  simp [Event.ends]

end MyGoroutine
