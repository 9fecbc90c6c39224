import MyGoroutine.Lib.History
import MyGoroutine.Sched.Placement

namespace MyGoroutine

/-!
# The binary permit of `gopark` and `goready`

A call of `goready` gives its task a permit, and a wake takes it; further calls before the
wake add nothing.  The permit is never lost: a parked task is in `waiting` only while it has
none, and `pending_ready` holds exactly the permits of the tasks that are not woken yet.

* `Shared.permit` — the abstract permit, read off the history;
* `Shared.Permits` — the tokens in `pending_ready` are the permits, and every wake so far
  was due to one;
* `SchedStep.permits`, `reach_permits` — every step keeps this;
* `gopark_goready_permit` — the law.
-/

open History

variable {σ V : Type}

/-- The event is a wake-up of the task. -/
def Event.isWake (i : TaskId) : Event V → Bool
  | .wake t => t == i
  | _ => false

/-- The event is a `goready` for the task. -/
def Event.isGoready (i : TaskId) : Event V → Bool
  | .goready t _ => t == i
  | _ => false

/-- The event starts an interval of the task `i`: its creation, or a wake. -/
def Event.opens (i : TaskId) (e : Event V) : Bool := e.isWake i || e.isCreated i

/-- The task `i` has a permit: `goready(i)` has been called since its last wake. -/
def Shared.permit (sh : Shared σ V) (i : TaskId) : Prop :=
  ∃ waker, .goready i waker ∈ since (Event.isWake i) sh.log

/-- A wake is due to a `goready` call since the wake before it. -/
def Event.Permitted (before : List (Event V)) : Event V → Prop
  | .wake i => ∃ waker, .goready i waker ∈ since (Event.isWake i) before
  | _ => True

/-- What the queue says of the permits. -/
structure Shared.Permits (sh : Shared σ V) : Prop where
  /-- A token is a permit that has not been used. -/
  token : ∀ i, i ∈ sh.queue.pendingReady ↔ sh.permit i
  /-- A task with a permit is not stored. -/
  waiting : ∀ i, sh.permit i → sh.queue.waiting.lookup i = none
  /-- Every wake so far was due to a `goready`. -/
  wakes : Each Event.Permitted sh.log

/-! ### The permit of an extended history

A `goready` gives the permit, and a wake uses it up. Which of the two came last is seen at the end
of the history.
-/

section Permit

variable {sh sh' : Shared σ V} {i : TaskId}

/-- The event is a wake-up of the task. -/
theorem isWake_iff {e : Event V} : e.isWake i = true ↔ e = .wake i := by
  cases e <;> simp [Event.isWake]

/-- Events that are neither wakes of `i` nor `goready(i)` calls do not matter. -/
theorem permit_append (sh : Shared σ V) {es : List (Event V)} (hl : sh'.log = sh.log ++ es)
    (hw : .wake i ∉ es) (hg : ∀ waker, .goready i waker ∉ es) : sh'.permit i ↔ sh.permit i := by
  have hsince : since (Event.isWake i) sh'.log = since (Event.isWake i) sh.log ++ es := by
    rw [hl]
    refine since_append _ fun e he => ?_
    cases hb : e.isWake i with
    | false => rfl
    | true => exact absurd (isWake_iff.mp hb ▸ he) hw
  constructor
  · rintro ⟨waker, h⟩
    rw [hsince] at h
    exact ⟨waker, (List.mem_append.mp h).resolve_right (hg waker)⟩
  · rintro ⟨waker, h⟩
    exact ⟨waker, hsince ▸ List.mem_append_left _ h⟩

/-- `goready(i)` gives the permit. -/
theorem permit_goready (sh : Shared σ V) {waker : Waker} (hl : sh'.log = sh.log ++ [.goready i waker]) :
    sh'.permit i := by
  refine ⟨waker, ?_⟩
  rw [hl, since_concat _ rfl]
  simp

/-- A wake takes the permit. -/
theorem not_permit_of_wake (log : List (Event V)) (hl : sh'.log = log ++ [.wake i]) :
    ¬ sh'.permit i := by
  rintro ⟨waker, h⟩
  rw [hl, since_concat_of_marker _ (by simp [Event.isWake])] at h
  cases h

end Permit

/-! ### The sections that give and take permits

Two sections touch the tokens: `goready`, which finds the task in `waiting` or leaves a token, and
the park branch of the worker loop, which takes the token or stores the task. Both hold the queue's
mutex throughout.
-/

section Sections

variable {sh sh' : Shared σ V}

namespace Shared.Permits

variable (h : sh.Permits)
include h

/-- A history that grew by events which are neither wakes nor `goready` calls. -/
theorem extend {es : List (Event V)} (hw : sh'.queue.waiting = sh.queue.waiting)
    (hp : sh'.queue.pendingReady = sh.queue.pendingReady) (hl : sh'.log = sh.log ++ es)
    (hes : ∀ e ∈ es, (∀ i, e ≠ .wake i) ∧ ∀ i waker, e ≠ .goready i waker) : sh'.Permits := by
  have hpermit : ∀ i, sh'.permit i ↔ sh.permit i := fun i =>
    permit_append sh hl (fun he => (hes _ he).1 i rfl) (fun waker he => (hes _ he).2 i waker rfl)
  refine ⟨fun i => ?_, fun i hi => ?_, ?_⟩
  · rw [hp, hpermit]; exact h.token i
  · rw [hw]; exact h.waiting i ((hpermit i).mp hi)
  · rw [hl]
    refine h.wakes.append fun l e he => ?_
    cases e <;> first | trivial | exact absurd rfl ((hes _ he).1 _)

/-- `goready`: a waiting task is woken at once, any other keeps a token. -/
theorem goready (waker : Waker) (id : TaskId) : (sh.goready waker id).1.Permits := by
  unfold Shared.goready
  split
  · rename_i t ht
    -- the task is in `waiting`: it is woken, and no permit is left
    have hno : ¬ sh.permit id := fun hp => by rw [h.waiting id hp] at ht; cases ht
    refine ⟨fun i => ?_, fun i hi => ?_, ?_⟩
    · by_cases hi : i = id
      · subst hi
        have hnew : ¬ ((sh.withQueue (sh.queue.wake t i)).record
            [.goready i waker, .wake i]).permit i :=
          not_permit_of_wake (sh.log ++ [.goready i waker])
            (by simp [Shared.record, Shared.withQueue])
        exact iff_of_false (fun ht => hno ((h.token i).mp ht)) hnew
      · rw [permit_append sh rfl (by simp [hi]) (by simp [hi])]
        exact h.token i
    · have hne : i ≠ id := by
        rintro rfl
        exact not_permit_of_wake (sh.log ++ [.goready i waker])
          (by simp [Shared.record, Shared.withQueue]) hi
      have := h.waiting i ((permit_append sh rfl (by simp [hne]) (by simp [hne])).mp hi)
      simpa [Shared.record, Shared.withQueue, GlobalQueue.wake, Slots.lookup_erase_ite, hne]
    · have h1 : Each Event.Permitted (sh.log ++ [.goready id waker]) := h.wakes.concat trivial
      have hpermit : Event.Permitted (sh.log ++ [.goready id waker]) (.wake id) :=
        ⟨waker, by rw [since_concat _ rfl]; simp⟩
      have h2 := h1.concat hpermit
      simpa [Shared.record, Shared.withQueue] using h2
  · -- the task is not in `waiting`: this `goready` leaves a permit
    rename_i hnone
    refine ⟨fun i => ?_, fun i hi => ?_, h.wakes.concat trivial⟩
    · by_cases hi : i = id
      · subst hi
        exact iff_of_true (Finset.mem_insert_self _ _) (permit_goready sh rfl)
      · rw [permit_append sh rfl (by simp) (by simp [hi])]
        simpa [Shared.record, Shared.withQueue, GlobalQueue.addPending, hi] using h.token i
    · by_cases hid : i = id
      · subst hid; exact hnone
      · exact h.waiting i ((permit_append sh rfl (by simp) (by simp [hid])).mp hi)

/-- The park branch: a permit is taken by a wake, a task without one is stored. -/
theorem parkTask (variant : Variant) (t : Task σ V) : (sh.parkTask variant t).1.Permits := by
  unfold Shared.parkTask
  split
  · rename_i hmem
    have hnew : ¬ ((sh.withQueue (sh.queue.takePending t)).record [.wake t.id]).permit t.id :=
      not_permit_of_wake sh.log rfl
    refine ⟨fun i => ?_, fun i hi => ?_, h.wakes.concat ((h.token t.id).mp hmem)⟩
    · by_cases hi : i = t.id
      · subst hi
        exact iff_of_false (Finset.notMem_erase _ _) hnew
      · rw [permit_append sh rfl (by simp [hi]) (by simp)]
        simpa [Shared.record, Shared.withQueue, GlobalQueue.takePending, hi] using h.token i
    · by_cases hid : i = t.id
      · subst hid; exact absurd hi hnew
      · exact h.waiting i ((permit_append sh rfl (by simp [hid]) (by simp)).mp hi)
  · rename_i hmem
    refine ⟨h.token, fun i hi => ?_, h.wakes⟩
    have hne : i ≠ t.id := by
      rintro rfl
      exact hmem ((h.token _).mpr hi)
    simpa [Shared.withQueue, GlobalQueue.store, Slots.lookup_insert_ite, hne] using h.waiting i hi

end Shared.Permits

/-- Events beside scheduling grant and use no permit. -/
theorem QuietLog.permits {es : List (Event V)} (hes : ∀ e ∈ es, e.isSched = false) :
    ∀ e ∈ es, (∀ i, e ≠ .wake i) ∧ ∀ i waker, e ≠ .goready i waker := by
  refine fun e he => ⟨fun i hi => ?_, fun i waker hi => ?_⟩
  all_goals
    have := hes e he
    rw [hi] at this
    cases this

/-- **A scheduling step keeps the permits.** -/
theorem SchedStep.permits {variant : Variant} {pc pc' : Pc σ V}
    (hs : SchedStep variant sh pc sh' pc') (h : sh.Permits) : sh'.Permits := by
  cases hs with
  | quiet hs _ hl =>
    obtain ⟨es, hl, hes⟩ := hl
    exact h.extend hs.waiting hs.pendingReady hl (QuietLog.permits hes)
  | goready hs _ hl =>
    obtain ⟨es, hl, hes⟩ := hl
    exact (h.goready _ _).extend hs.waiting hs.pendingReady hl (QuietLog.permits hes)
  | entry => exact h.extend rfl rfl rfl (by simp)
  | create => exact h.extend rfl rfl rfl (by simp)
  | die => exact h.extend rfl rfl rfl (by simp)
  | dispatch _ _ _ hw hp _ hl => exact h.extend hw hp hl (by simp)
  | alloc | yield | parkOut | drop | requeue => exact ⟨h.token, h.waiting, h.wakes⟩
  | park => exact h.parkTask _ _

end Sections

/-- In every state reached the tokens are the permits. -/
theorem reach_permits {P : Program σ V} {ok : Act → State σ V → Prop} {s : State σ V}
    (hr : (runtime P).Reach ok s) : s.sh.Permits := by
  refine shared_invariant ?_ ?_ ?_ ?_ hr
  · intro caps groups calls
    refine ⟨fun i => ?_, fun i hi => rfl, .nil _⟩
    simp [State.initial, GlobalQueue.new, Shared.permit]
  · intro sh sh' hsame h
    exact h.extend hsame.waiting hsame.pendingReady
      (show sh'.log = sh.log ++ [] by simp [hsame.log]) (by simp)
  · intro id f sh h
    exact h.extend rfl rfl rfl (by simp)
  · intro s ch pc e _ h _ hs
    exact hs.sched.permits h

/-- What the park branch does with a task: a wake when it has a permit, a store when not. -/
theorem parkTask_permit {sh : Shared σ V} {variant : Variant} {t : Task σ V} (h : sh.Permits) :
    (sh.permit t.id →
      (sh.parkTask variant t).1.queue.runnable = sh.queue.runnable ++ [t.withState .runnable] ∧
      (sh.parkTask variant t).1.log = sh.log ++ [.wake t.id]) ∧
    (¬ sh.permit t.id →
      (sh.parkTask variant t).1.queue.waiting.lookup t.id = some t ∧
      (sh.parkTask variant t).1.log = sh.log) := by
  unfold Shared.parkTask
  split
  · rename_i hmem
    exact ⟨fun _ => ⟨rfl, rfl⟩, fun hno => absurd ((h.token _).mp hmem) hno⟩
  · rename_i hmem
    exact ⟨fun hp => absurd ((h.token _).mpr hp) hmem, fun _ => ⟨AList.lookup_insert _, rfl⟩⟩

/-- Wakes and the `goready` calls they are due to. -/
theorem countP_wake_le {sh : Shared σ V} (h : sh.Permits) (i : TaskId) :
    sh.log.countP (·.isWake i) ≤ sh.log.countP (·.isGoready i) := by
  refine le_trans (Nat.le_add_right _ _) (countP_le_countP (fun e => ?_) ?_)
  · cases e <;> simp [Event.isGoready, Event.isWake]
  · intro before e after hlog he
    obtain rfl := isWake_iff.mp he
    obtain ⟨waker, hw⟩ := h.wakes before _ after hlog
    exact List.any_eq_true.mpr ⟨_, hw, by simp [Event.isGoready]⟩

/-- **The binary permit.**  In every reachable state, for every task `i`:
    `pending_ready` holds `i` exactly when `goready(i)` has been called since `i`'s last wake,
    and then `i` is not in `waiting`; the park branch wakes a task that has a permit, and
    stores one that has none; `goready(i)` wakes a stored task; each wake of `i` is due to a
    `goready(i)` call since the event that opened its interval, `i`'s creation or its wake
    before, unless `goready(i)` was called on an id that no task had yet; and no call accounts
    for two wakes. -/
theorem gopark_goready_permit {P : Program σ V} {s : State σ V} (hr : (runtime P).Reachable s)
    (i : TaskId) :
    (i ∈ s.sh.queue.pendingReady ↔ s.sh.permit i) ∧
    (s.sh.permit i → s.sh.queue.waiting.lookup i = none) ∧
    (∀ w ch t s', s.workers[w]? = some (.switched t) → t.state = .waiting → t.id = i →
      (runtime P).next (.worker w ch) s = some s' →
      (s.sh.permit i → s'.sh.queue.runnable = s.sh.queue.runnable ++ [t.withState .runnable] ∧
        s'.sh.log = s.sh.log ++ [.wake i]) ∧
      (¬ s.sh.permit i → s'.sh.queue.waiting.lookup i = some t ∧ s'.sh.log = s.sh.log)) ∧
    (∀ t waker, s.sh.queue.waiting.lookup i = some t →
      (s.sh.goready waker i).1.queue.runnable = s.sh.queue.runnable ++ [t.withState .runnable] ∧
      (s.sh.goready waker i).1.log = s.sh.log ++ [.goready i waker, .wake i]) ∧
    (∀ before after, s.sh.log = before ++ .wake i :: after → ∃ waker,
      .goready i waker ∈ since (Event.opens i) before ∨
        ∃ old new, before = old ++ .created i :: new ∧ .goready i waker ∈ old) ∧
    s.sh.log.countP (·.isWake i) ≤ s.sh.log.countP (·.isGoready i) := by
  have hp := reach_permits hr
  refine ⟨hp.token i, hp.waiting i, ?_, ?_, ?_, countP_wake_le hp i⟩
  · rintro w ch t s' hw ht rfl hn
    cases (next_inv (a := .worker w ch) hn).2 with
    | worker hw' hs =>
      rw [hw] at hw'
      cases hw'
      cases hs with
      | drop hd => rw [ht] at hd; cases hd
      | park => exact parkTask_permit hp
      | requeue _ _ hne => exact absurd ht hne
  · intro t waker ht
    simp [Shared.goready, ht, Shared.record, Shared.withQueue, GlobalQueue.wake]
  · intro before after hlog
    obtain ⟨waker, h⟩ := hp.wakes before _ after hlog
    refine ⟨waker, ?_⟩
    rcases mem_since_or (q := Event.isCreated i) h rfl with h | ⟨old, m, new, hold, h, hm⟩
    · exact .inl h
    · exact .inr ⟨old, new, isCreated_iff.mp hm ▸ hold, h⟩

/-- A task that parks, and one that wakes it. -/
def handoffProgram : Program Nat Unit where
  code
    | 0 => .gopark 1
    | 2 => .goready 0 1
    | _ => .done
  variant := .timer
  overflowChecks := false
  own x := by split <;> rfl

/-- The parked task is woken, due to the one `goready` call. -/
theorem gopark_goready_permit_handoff :
    ∃ s before, (runtime handoffProgram).run
        (List.replicate 7 (.main {}) ++ List.replicate 9 (.worker 0 {}))
        (State.initial [] 0 [.go 0, .go 2, .startRuntime 1]) = some s ∧
      s.sh.log = before ++ [.wake 0] ∧ ∃ waker,
        .goready 0 waker ∈ since (Event.opens 0) before ∨
          ∃ old new, before = old ++ .created 0 :: new ∧ .goready 0 waker ∈ old := by
  have h : ((runtime handoffProgram).run
      (List.replicate 7 (Act.main {}) ++ List.replicate 9 (Act.worker 0 {}))
      (State.initial [] 0 [.go 0, .go 2, .startRuntime 1])).map (fun s => s.sh.log)
      = some ([.created 0, .created 1, .dispatched 0, .entered 0, .dispatched 1, .entered 1,
          .goready 0 (.task 1)] ++ [.wake 0]) := by rfl
  obtain ⟨s, hs, hlog⟩ := Option.map_eq_some_iff.mp h
  have hr := System.run_reachable (M := runtime handoffProgram) ⟨[], 0, _, rfl⟩ hs
  exact ⟨s, _, hs, hlog, (gopark_goready_permit hr 0).2.2.2.2.1 _ [] hlog⟩

end MyGoroutine
