import MyGoroutine.Timers.Step
import Mathlib.Data.List.MinMax

namespace MyGoroutine

open PriorityQueue (contents Least pops pushes firstComers)

/-!
# A call of `check_timers`

The loop gives the heap lock back after each pop, so the heap it looks at next is not the one it has
popped from: tasks may have pushed entries meanwhile.  A call is the part of a run in which one
worker is inside the loop; whatever the other threads do in it, the entries that are due come out,
the least one first, and each is followed by one `goready` for its task.

* `Pc.Checks`, `Checking` — inside a call that has read `now`, and the runs during the call;
* `Next.other` — the other threads leave the place of a worker alone;
* `Next.timers` — what a step of any thread does to the timers;
* `CheckInv` — what has come out since the call began;
* `checks_return` — what the call finds when it returns;
* `checks_progress` — the loop can always turn;
* `PollCount`, `reach_pollCount` — each call of `try_poll_network` releases `POLLING` once;
* `check_timers_spec` — the call as a whole.
-/

variable {σ V : Type}

/-- The worker is in the loop of `check_timers`, which has read `now`. -/
inductive Pc.Checks (ph : Phase) (now : Instant) : Pc σ V → Prop where
  | lock : Checks ph now (.timersLock ph now)
  | ready (id : TaskId) : Checks ph now (.timersReady ph now id)

/-- The task for which the worker is about to call `goready`. -/
def Pc.readyIds : Pc σ V → List TaskId
  | .timersReady _ _ id => [id]
  | _ => []

/-- The states that the program reaches from `s` while worker `w` is in the loop. -/
inductive Checking (P : Program σ V) (w : Nat) (ph : Phase) (now : Instant) (s : State σ V) :
    State σ V → Prop where
  | start {pc} (hw : s.workers[w]? = some pc) (hpc : pc = .timersLock ph now) :
      Checking P w ph now s s
  | step {u u' a pc} (hu : Checking P w ph now s u) (hn : (runtime P).next a u = some u')
      (hw : u'.workers[w]? = some pc) (hpc : pc.Checks ph now) : Checking P w ph now s u'

section Steps

variable {P : Program σ V} {s s' u : State σ V} {a : Act} {w : Nat} {pc : Pc σ V} {ph : Phase}
  {now : Instant}

/-- Inside `check_timers` the worker holds `POLLING`. -/
theorem Pc.Checks.holdsPolling (h : pc.Checks ph now) : pc.holdsPolling = 1 := by
  cases h <;> rfl

/-- Another thread leaves a worker where it is, unless that one is blocked. -/
theorem Next.other (h : Next P s a s') (hw : s.workers[w]? = some pc) (hb : pc ≠ .blocked)
    (ha : ∀ ch, a ≠ .worker w ch) : s'.workers[w]? = some pc := by
  cases h with
  | @worker j ch pcj e ws hj hs hn =>
    have hjw : j ≠ w := by
      rintro rfl
      exact ha ch rfl
    have hset : (s.workers.set j e.pc)[w]? = some pc := (List.getElem?_set_ne hjw).trans hw
    have hws := hn.getElem? hset hb
    exact (List.getElem?_append_left (List.getElem?_eq_some_iff.mp hws).1).trans hws
  | main hs =>
    cases hs with
    | goPush _ _ hn => exact hn.getElem? hw hb
    | spawn => exact (List.getElem?_append_left (List.getElem?_eq_some_iff.mp hw).1).trans hw
    | go | start | spawned | joined | join => exact hw
  | @spurious j hj =>
    have hjw : j ≠ w := by
      rintro rfl
      exact hb (Option.some.inj (hw.symm.trans hj))
    exact (List.getElem?_set_ne hjw).trans hw
  | tick | setReadable => exact hw

/-- **What a step does to the timers**, whichever thread takes it. -/
theorem Next.timers (h : Next P s a s') :
    (∃ j ch pc e es, a = .worker j ch ∧ s.workers[j]? = some pc ∧
      WorkerStep P ch (queueFree s.workers) s.sh pc e ∧ WorkerMove s s' j pc e ∧
      s'.sh.log = s.sh.log ++ es ∧ TimerStep s.sh pc s'.sh e.pc es) ∨
    ((∀ j ch, a ≠ .worker j ch) ∧ ∃ es, s'.sh.log = s.sh.log ++ es ∧ NoTimers es) := by
  cases h with
  | worker hw hs hn =>
    have hmove := hn.workerMove hw
    obtain ⟨es, hl, ht⟩ := hs.timers
    exact .inl ⟨_, _, _, _, es, rfl, hw, hs, hmove, hl, ht⟩
  | main hs =>
    refine .inr ⟨by simp, ?_⟩
    cases hs with
    | goPush => exact ⟨_, rfl, rfl, rfl⟩
    | go | start | spawn | spawned | joined | join => exact ⟨[], (List.append_nil _).symm, .nil⟩
  | spurious | tick | setReadable => exact .inr ⟨by simp, [], (List.append_nil _).symm, .nil⟩

/-- Nobody else is in `check_timers`, or anywhere else with `POLLING`. -/
theorem holdsPolling_other (hr : (runtime P).Reachable s) (hw : s.workers[w]? = some pc)
    (hpc : pc.holdsPolling = 1) {j : Nat} {pc' : Pc σ V} (hj : s.workers[j]? = some pc') (hjw : j ≠ w) :
    pc'.holdsPolling = 0 := by
  have hle := Slots.add_le_sum_map Pc.holdsPolling hj hw hjw
  have htotal : s.total Pc.holdsPolling = s.sh.polling.toNat := reach_polling hr
  have := Bool.toNat_le s.sh.polling
  unfold State.total at htotal
  omega

/-- A worker inside `check_timers` does not go to sleep. -/
theorem WorkerStep.ne_blocked {ch : Choice} {free : Bool} {sh : Shared σ V} {e : Effect σ V}
    (hs : WorkerStep P ch free sh pc e) (h : pc.Checks ph now) : e.pc ≠ .blocked := by
  intro hb
  cases h with
  | lock =>
    cases hs with
    | timersEmpty | timersWait =>
      have hholds : Pc.holdsPolling (.blocked : Pc σ V) = 1 := hb ▸ holdsPolling_timersDone ph _
      cases hholds
    | timersPop => cases hb
  | ready => cases hs; cases hb

/-! ### Inside the call

While a worker is in the loop of `check_timers`, the other threads may push entries, but only a
worker in the loop pops any, and `POLLING` keeps the others out of it.
-/

/-- What has happened since the call began in `s`: the events `es`. -/
structure CheckInv (w : Nat) (ph : Phase) (now : Instant) (s u : State σ V) (es : List (Event V))
    (pc : Pc σ V) : Prop where
  /-- What has been logged since the call. -/
  log : u.sh.log = s.sh.log ++ es
  /-- The worker is still in the call, -/
  at_ : u.workers[w]? = some pc
  /-- with the clock it sampled at first. -/
  checks : pc.Checks ph now
  /-- Only due entries are popped, -/
  due : ∀ x ∈ pops (heapOps es), x.wakeTime ≤ now
  /-- each with one `goready`, the last of which may be to come. -/
  fired : firedIds es ++ pc.readyIds = (pops (heapOps es)).map (·.taskId)

variable {es : List (Event V)}

/-- Events that pop nothing and fire nothing. -/
theorem CheckInv.quiet {es' : List (Event V)} (h : CheckInv w ph now s u es pc)
    (hlog : s'.sh.log = u.sh.log ++ es') (hpops : pops (heapOps es') = []) (hfired : firedIds es' = [])
    (hw : s'.workers[w]? = some pc) : CheckInv w ph now s s' (es ++ es') pc := by
  have hp : pops (heapOps (es ++ es')) = pops (heapOps es) := by
    rw [heapOps_append, pops, List.filterMap_append]
    exact (congrArg _ hpops).trans (List.append_nil _)
  refine ⟨by rw [hlog, h.log, List.append_assoc], hw, h.checks, ?_, ?_⟩
  · rw [hp]
    exact h.due
  · rw [hp, firedIds_append, hfired, List.append_nil]
    exact h.fired

/-- **One step of the worker itself** that stays in the loop. -/
theorem CheckInv.own {es' : List (Event V)} {pc' : Pc σ V} (h : CheckInv w ph now s u es pc)
    (ht : TimerStep u.sh pc s'.sh pc' es') (hlog : s'.sh.log = u.sh.log ++ es')
    (hw : s'.workers[w]? = some pc') (hpc' : pc'.Checks ph now) :
    CheckInv w ph now s s' (es ++ es') pc' := by
  have hlog' : s'.sh.log = s.sh.log ++ (es ++ es') := by rw [hlog, h.log, List.append_assoc]
  have hchecks := h.checks
  cases ht with
  | quiet hh hes hpc hready =>
    -- neither has an entry in hand
    cases hchecks with
    | ready => cases hpc
    | lock =>
      cases hpc' with
      | ready => cases hready
      | lock => exact h.quiet hlog (by rw [hes.1]; rfl) hes.2 hw
  | push hh hpc =>
    rw [hchecks.holdsPolling] at hpc
    cases hpc
  | @pop ph' now' entry hpc hpeek hdue hh hpc'' =>
    subst hpc
    cases hchecks
    subst hpc''
    have hp : pops (heapOps (es ++ [.timerPop entry.taskId entry.wakeTime now]))
        = pops (heapOps es) ++ [entry] := by
      rw [heapOps_append, pops, List.filterMap_append]
      rfl
    refine ⟨hlog', hw, hpc', ?_, ?_⟩
    · rw [hp]
      intro x hx
      rcases List.mem_append.mp hx with hx | hx
      · exact h.due x hx
      · rw [List.mem_singleton.mp hx]
        exact hdue
    · have hf : firedIds es = (pops (heapOps es)).map (·.taskId) := by
        have hfired : firedIds es ++ [] = (pops (heapOps es)).map (·.taskId) := h.fired
        rwa [List.append_nil] at hfired
      rw [hp, firedIds_append, hf, List.map_append, List.append_assoc]
      rfl
  | @fire ph' now' id es' hpc hh hops hfired hpc'' =>
    subst hpc
    cases hchecks
    subst hpc''
    have hp : pops (heapOps (es ++ es')) = pops (heapOps es) := by
      rw [heapOps_append, hops, List.append_nil]
    refine ⟨hlog', hw, hpc', ?_, ?_⟩
    · rw [hp]
      exact h.due
    · rw [hp, firedIds_append, hfired, ← h.fired]
      exact List.append_nil _

/-- **One step of the program during the call.** -/
theorem CheckInv.step (hr : (runtime P).Reachable u) (h : CheckInv w ph now s u es pc)
    (hn : (runtime P).next a u = some s') {pc' : Pc σ V} (hw' : s'.workers[w]? = some pc')
    (hpc' : pc'.Checks ph now) : ∃ es', CheckInv w ph now s s' es' pc' := by
  have hb : pc ≠ .blocked := by
    rintro rfl
    cases h.checks
  have hnext := (next_inv hn).2
  rcases hnext.timers with ⟨j, ch, pcj, e, es', rfl, hj, hs, hmove, hl, ht⟩ | ⟨ha, es', hl, hes'⟩
  · by_cases hjw : j = w
    · subst j
      obtain rfl := Option.some.inj (hj.symm.trans h.at_)
      have hat := hmove.at_ (hs.ne_blocked h.checks)
      obtain rfl := Option.some.inj (hat.symm.trans hw')
      exact ⟨_, h.own ht hl hat hpc'⟩
    · have hother : s'.workers[w]? = some pc :=
        hnext.other h.at_ hb fun ch' hch => hjw (by injection hch)
      obtain rfl := Option.some.inj (hother.symm.trans hw')
      -- another worker is outside `check_timers`, so it may push, but neither pop nor fire
      have hidle := holdsPolling_other hr h.at_ h.checks.holdsPolling hj hjw
      cases ht with
      | quiet hh hes' => exact ⟨_, h.quiet hl (by rw [hes'.1]; rfl) hes'.2 hother⟩
      | push => exact ⟨_, h.quiet hl rfl rfl hother⟩
      | pop hpcj =>
        rw [hpcj] at hidle
        cases hidle
      | fire hpcj =>
        rw [hpcj] at hidle
        cases hidle
  · have hother : s'.workers[w]? = some pc := hnext.other h.at_ hb (ha w)
    obtain rfl := Option.some.inj (hother.symm.trans hw')
    exact ⟨_, h.quiet hl (by rw [hes'.1]; rfl) hes'.2 hother⟩

/-- **The whole call**, as far as it has come. -/
theorem Checking.inv (hr : (runtime P).Reachable s) (h : Checking P w ph now s u) :
    (runtime P).Reachable u ∧ ∃ es pc, CheckInv w ph now s u es pc := by
  induction h with
  | start hw hpc =>
    subst hpc
    exact ⟨hr, [], _, (List.append_nil _).symm, hw, .lock, by simp [heapOps, pops], rfl⟩
  | step _ hn hw hpc ih =>
    obtain ⟨hru, es, pc, hinv⟩ := ih
    obtain ⟨es', hinv'⟩ := hinv.step hru hn hw hpc
    exact ⟨hru.step hn, es', _, hinv'⟩

/-- **The heap during the call** has come from the heap at its beginning, by pops of least
    entries. -/
theorem CheckInv.heap (h : CheckInv w ph now s u es pc) (hs : (runtime P).Reachable s)
    (hu : (runtime P).Reachable u) :
    u.sh.timerHeap = contents s.sh.timerHeap (heapOps es) ∧
      History.Each (Least TimerEntry.wakeTime s.sh.timerHeap) (heapOps es) := by
  obtain ⟨hcs, -⟩ := reach_heap hs
  obtain ⟨hcu, hlaw⟩ := reach_heap hu
  rw [h.log, heapOps_append] at hcu hlaw
  rw [PriorityQueue.contents_append, hcs] at hcu
  have hlaw := PriorityQueue.least_append hlaw
  rw [hcs] at hlaw
  exact ⟨hcu.symm, hlaw⟩

/-! ### Leaving the call

The loop ends in front of an empty heap or of an entry that is not yet due. As the entry is a least
one, nothing due is left.
-/

/-- `r` is the least wake time in the heap, `None` if it is empty. -/
def IsNextWake (heap : List TimerEntry) : Option Instant → Prop
  | none => heap = []
  | some wake => (∃ x ∈ heap, x.wakeTime = wake) ∧ ∀ x ∈ heap, wake ≤ x.wakeTime

/-- **The call returns** when no entry is due, with the least wake time. -/
theorem checks_return {ch : Choice} (hw : s.workers[w]? = some pc) (hpc : pc.Checks ph now)
    (hn : (runtime P).next (.worker w ch) s = some s') {pc' : Pc σ V} (hw' : s'.workers[w]? = some pc')
    (hout : ¬ pc'.Checks ph now) :
    pc = .timersLock ph now ∧ s'.sh.timerHeap = s.sh.timerHeap ∧
      (∀ x ∈ s.sh.timerHeap, now < x.wakeTime) ∧
      ∃ r, pc' = timersDone ph r ∧ IsNextWake s.sh.timerHeap r := by
  obtain ⟨-, e, hs, hmove⟩ := next_worker hn hw
  have hat := hmove.at_ (hs.ne_blocked hpc)
  obtain rfl := Option.some.inj (hat.symm.trans hw')
  rw [hmove.sh]
  cases hpc with
  | ready id =>
    cases hs with
    | timersReady => exact absurd .lock hout
  | lock =>
    cases hs with
    | timersPop => exact absurd (.ready _) hout
    | timersEmpty hh => exact ⟨rfl, rfl, by rw [hh]; simp, none, rfl, hh⟩
    | timersWait hpeek hdue =>
      obtain ⟨hmem, hmin⟩ := isPeek_iff.mp hpeek
      exact ⟨rfl, rfl, fun x hx => Nat.lt_of_lt_of_le hdue (hmin x hx), _, rfl, ⟨_, hmem, rfl⟩, hmin⟩

end Steps

/-! ### Turning the loop

At each point of the loop some step is possible: a heap that is not empty has a least entry, and
`goready` needs only that the queue is free.
-/

/-- `peek` shows an entry unless the heap is empty. -/
theorem exists_isPeek {heap : List TimerEntry} (h : heap ≠ []) :
    ∃ x, TimerEntry.isPeek heap x = true := by
  obtain ⟨x, hx⟩ := Option.ne_none_iff_exists'.mp
    (mt (List.argmin_eq_none (f := TimerEntry.wakeTime)).mp h)
  exact ⟨x, isPeek_iff.mpr ⟨List.argmin_mem hx, fun y hy => List.le_of_mem_argmin hy hx⟩⟩

/-- The condition variable finds a thread to wake, if it has to wake one. -/
theorem exists_applyNotify (ws : List (Pc σ V)) (n : Notify) :
    ∃ pick ws', applyNotify pick ws n = some ws' := by
  cases n with
  | none => exact ⟨0, ws, rfl⟩
  | all => exact ⟨0, _, rfl⟩
  | one =>
    by_cases hany : ws.any Pc.isBlocked = true
    · obtain ⟨pc, hpc, hb⟩ := List.any_eq_true.mp hany
      obtain ⟨i, hi⟩ := List.mem_iff_getElem?.mp hpc
      rw [(Pc.isBlocked_iff pc).mp hb] at hi
      exact ⟨i, ws.set i .notified, by simp only [applyNotify, hany, if_true, hi]⟩
    · exact ⟨0, ws, if_neg hany⟩

/-- **The loop can always turn.**  A worker inside the loop has a step as soon as the queue is free:
    there is an entry to look at, or the heap is empty, and `goready` waits for the queue only. -/
theorem checks_progress {P : Program σ V} {s : State σ V} {w : Nat} {pc : Pc σ V} {ph : Phase}
    {now : Instant} (hw : s.workers[w]? = some pc) (hpc : pc.Checks ph now)
    (ha : s.sh.aborted = none) (hf : queueFree s.workers = true) :
    ∃ ch s', (runtime P).next (.worker w ch) s = some s' := by
  obtain ⟨x, e, he⟩ : ∃ x e,
      workerStep P { peek := x } (queueFree s.workers) s.sh pc = some e := by
    cases hpc with
    | ready id => exact ⟨⟨0, 0⟩, _, if_pos hf⟩
    | lock =>
      by_cases hheap : s.sh.timerHeap = []
      · exact ⟨⟨0, 0⟩, _, if_pos (List.isEmpty_iff.mpr hheap)⟩
      · obtain ⟨x, hx⟩ := exists_isPeek hheap
        refine ⟨x, ?_⟩
        show ∃ e, (if s.sh.timerHeap.isEmpty = true then _ else _) = some e
        rw [if_neg (mt List.isEmpty_iff.mp hheap), if_pos hx]
        split <;> exact ⟨_, rfl⟩
  -- whom the condition variable wakes is left to the environment
  have hpick : ∀ pick, workerStep P { peek := x, pick := pick } (queueFree s.workers) s.sh pc
      = some e := by
    intro pick
    rw [← he]
    cases hpc <;> rfl
  obtain ⟨pick, ws, hws⟩ := exists_applyNotify (s.workers.set w e.pc) e.notify
  refine ⟨{ peek := x, pick := pick }, { s with
    sh := e.sh, workers := ws ++ (e.spawn.map fun id => Pc.start id).toList }, ?_⟩
  simp only [runtime, next, ha, Option.isSome_none, hw, Option.bind_some, hpick, State.apply, hws,
    Option.map_some, Bool.false_eq_true, if_false]

/-! ### Taking and releasing `POLLING`

Each `compare_exchange` that succeeds is followed by one store of `false`, by the same worker. The
two are counted for each worker, along the run.
-/

/-- How often a worker has taken and released `POLLING`. -/
structure PollCount where
  taken : Nat
  released : Nat

/-- Watch what worker `w` does to `POLLING`. -/
def seePolling (w : Nat) (a : Act) (s s' : State σ V) (n : PollCount) : PollCount :=
  match a with
  | .worker j _ =>
    if j = w then
      { taken := n.taken + (!s.sh.polling && s'.sh.polling).toNat
        released := n.released + (s.sh.polling && !s'.sh.polling).toNat }
    else n
  | _ => n

/-- Worker `w` is in `try_poll_network`, between taking and releasing `POLLING`. -/
def State.holdsAt (s : State σ V) (w : Nat) : Nat := (s.workers.map Pc.holdsPolling).getD w 0

section PollCount

variable {P : Program σ V} {s s' : State σ V} {w : Nat}

/-- Waking workers takes and releases no `POLLING`. -/
theorem Notified.map_holdsPolling {ws ws' : List (Pc σ V)} {n : Notify} (h : Notified ws n ws') :
    ws'.map Pc.holdsPolling = ws.map Pc.holdsPolling := by
  cases h with
  | none | idle => rfl
  | @one i hi =>
    rw [List.map_set]
    refine Slots.set_of_getElem? ?_
    rw [List.getElem?_map, hi]
    rfl
  | all =>
    rw [List.map_map]
    refine List.map_congr_left fun pc _ => ?_
    cases pc <;> rfl

/-- Zeros at the end do not show. -/
theorem getD_append_zeros (l : List Nat) (n i : Nat) :
    (l ++ List.replicate n 0).getD i 0 = l.getD i 0 := by
  rw [List.getD_eq_getElem?_getD, List.getD_eq_getElem?_getD, List.getElem?_append]
  split
  · rfl
  · next h =>
    rw [List.getElem?_eq_none (Nat.le_of_not_lt h), List.getElem?_replicate]
    split <;> rfl

/-- A new thread holds nothing. -/
theorem map_start (o : Option Nat) :
    ∃ n, ((o.map fun id => (Pc.start id : Pc σ V)).toList.map Pc.holdsPolling) = List.replicate n 0 := by
  cases o with
  | none => exact ⟨0, rfl⟩
  | some => exact ⟨1, rfl⟩

/-- The worker holds what its program counter says. -/
theorem holdsAt_of_getElem? {pc : Pc σ V} (hw : s.workers[w]? = some pc) :
    s.holdsAt w = pc.holdsPolling := by
  rw [State.holdsAt, List.getD_eq_getElem?_getD, List.getElem?_map, hw]
  rfl

/-- **What a step does to the `POLLING` of worker `w`**: only its own steps do anything. -/
theorem Next.holdsAt {a : Act} (h : Next P s a s') :
    (∃ ch pc e, a = .worker w ch ∧ WorkerStep P ch (queueFree s.workers) s.sh pc e ∧ s'.sh = e.sh ∧
      s.workers[w]? = some pc ∧ s'.holdsAt w = e.pc.holdsPolling) ∨
    (∀ ch, a ≠ .worker w ch) ∧ s'.holdsAt w = s.holdsAt w := by
  cases h with
  | @worker j ch pc e ws hj hs hn =>
    -- the workers that are woken or spawned in the step do not hold `POLLING`
    have hafter : State.holdsAt { s with
        sh := e.sh, workers := ws ++ (e.spawn.map fun id => Pc.start id).toList } w
        = ((s.workers.set j e.pc).map Pc.holdsPolling).getD w 0 := by
      obtain ⟨n, hstart⟩ := map_start (σ := σ) (V := V) e.spawn
      unfold State.holdsAt
      rw [List.map_append, hstart, getD_append_zeros, hn.map_holdsPolling]
    have hlt := (List.getElem?_eq_some_iff.mp hj).1
    by_cases hjw : j = w
    · subst j
      refine .inl ⟨ch, pc, e, rfl, hs, rfl, hj, hafter.trans ?_⟩
      rw [List.getD_eq_getElem?_getD, List.getElem?_map, List.getElem?_set_self hlt]
      rfl
    · refine .inr ⟨fun ch' hch => hjw (by injection hch), hafter.trans ?_⟩
      rw [State.holdsAt, List.getD_eq_getElem?_getD, List.getD_eq_getElem?_getD, List.getElem?_map,
        List.getElem?_map, List.getElem?_set_ne hjw]
  | main hs =>
    refine .inr ⟨by simp, ?_⟩
    cases hs with
    | goPush _ _ hn =>
      unfold State.holdsAt
      rw [hn.map_holdsPolling]
    | spawn =>
      unfold State.holdsAt
      rw [List.map_append]
      exact getD_append_zeros _ 1 w
    | go | start | spawned | joined | join => rfl
  | @spurious j hj =>
    refine .inr ⟨by simp, ?_⟩
    unfold State.holdsAt
    rw [List.map_set, Slots.set_of_getElem? (by rw [List.getElem?_map, hj]; rfl)]
  | tick | setReadable => exact .inr ⟨by simp, rfl⟩

/-- **`POLLING` is released once for each time it is taken**: a worker outside the part of
    `try_poll_network` that holds it has released it as often as it has taken it. -/
theorem reach_pollCount {p : State σ V × PollCount}
    (hr : ((runtime P).observe (seePolling w) ⟨0, 0⟩).Reachable p) :
    p.2.taken = p.2.released + p.1.holdsAt w := by
  refine hr.invariant (I := fun p => p.2.taken = p.2.released + p.1.holdsAt w) ?_ ?_
  · rintro ⟨s, n⟩ ⟨⟨caps, groups, calls, hinit⟩, hn⟩
    subst hinit hn
    rfl
  · intro p p' a hr h hn
    have hreach : (runtime P).Reach (fun _ _ => True) p.1 := System.observe_reach hr
    obtain ⟨hn, hsee⟩ := System.observe_next hn
    rcases (next_inv hn).2.holdsAt (w := w) with ⟨ch, pc, e, rfl, hs, hsh, hw, hafter⟩ | ⟨ha, hsame⟩
    · have hle : pc.holdsPolling ≤ p.1.sh.polling.toNat := by
        rw [← reach_polling hreach]
        exact Slots.le_sum_map Pc.holdsPolling hw
      have hmove := hs.polling hle
      have hbefore := holdsAt_of_getElem? hw
      rw [hsee]
      simp only [seePolling, if_true, hsh, hafter]
      rw [hbefore] at h
      cases hp : p.1.sh.polling <;> cases hp' : e.sh.polling <;> simp [hp, hp'] at hmove hle ⊢ <;> omega
    · have hidle : p'.2 = p.2 := by
        rw [hsee]
        cases a with
        | worker j ch =>
          have hjw : j ≠ w := by
            rintro rfl
            exact ha ch rfl
          simp [seePolling, hjw]
        | _ => rfl
      rw [hidle, hsame]
      exact h

end PollCount

/-! ### The call as a whole

A call is a run during which one worker is inside the loop; the theorem puts the pieces together for
what it finds when it leaves.
-/

/-- **`check_timers` fires exactly the timers that are due, in order.**  One worker at most holds
    `POLLING`, and releases it once for each time it takes it.  When worker `w` enters `check_timers`
    in the state `s₀` and the program has come to `u` while it is inside:

    * what has been popped was due when the call began, took a least entry of the heap of that
      moment each time, and what was in the heap from the start came out in order;
    * what is in the heap or has been popped is what was there or has been pushed, so the loop turns
      only finitely often when there are finitely many pushes;
    * `goready` has been called once for each popped entry, in order, or is about to be called for
      the last one;
    * while the process has not aborted, the worker has a next step as soon as the queue is free;
    * the call returns only when every entry left is later than its clock reading, and then with
      the least wake time that is left. -/
theorem check_timers_spec {P : Program σ V} :
    (∀ s, (runtime P).Reachable s → s.total Pc.holdsPolling = s.sh.polling.toNat) ∧
    (∀ w p, ((runtime P).observe (seePolling w) ⟨0, 0⟩).Reachable p →
      p.2.taken = p.2.released + p.1.holdsAt w) ∧
    ∀ w ph ch s₀ s u, (runtime P).Reachable s₀ → s₀.workers[w]? = some (.timersNow ph) →
      (runtime P).next (.worker w ch) s₀ = some s → Checking P w ph s₀.sh.clock s u →
      ∃ es, u.sh.log = s.sh.log ++ es ∧ s.sh.timerHeap = s₀.sh.timerHeap ∧
        (∀ x ∈ pops (heapOps es), x.wakeTime ≤ s₀.sh.clock) ∧
        History.Each (Least TimerEntry.wakeTime s₀.sh.timerHeap) (heapOps es) ∧
        ((firstComers s₀.sh.timerHeap (pops (heapOps es))).Pairwise
          fun x y => x.wakeTime ≤ y.wakeTime) ∧
        u.sh.timerHeap = contents s₀.sh.timerHeap (heapOps es) ∧
        (u.sh.timerHeap ++ pops (heapOps es)).Perm (s₀.sh.timerHeap ++ pushes (heapOps es)) ∧
        (pops (heapOps es)).length ≤ s₀.sh.timerHeap.length + (pushes (heapOps es)).length ∧
        (u.workers[w]? = some (.timersLock ph s₀.sh.clock) →
          firedIds es = (pops (heapOps es)).map (·.taskId)) ∧
        (∀ id, u.workers[w]? = some (.timersReady ph s₀.sh.clock id) →
          firedIds es ++ [id] = (pops (heapOps es)).map (·.taskId)) ∧
        (u.sh.aborted = none → queueFree u.workers = true →
          ∃ ch' u', (runtime P).next (.worker w ch') u = some u') ∧
        ∀ ch' u' pc', (runtime P).next (.worker w ch') u = some u' → u'.workers[w]? = some pc' →
          ¬ pc'.Checks ph s₀.sh.clock →
          u.workers[w]? = some (.timersLock ph s₀.sh.clock) ∧ u'.sh.timerHeap = u.sh.timerHeap ∧
          (∀ x ∈ u.sh.timerHeap, s₀.sh.clock < x.wakeTime) ∧
          ∃ r, pc' = timersDone ph r ∧ IsNextWake u.sh.timerHeap r := by
  refine ⟨fun s hr => reach_polling hr, fun w p hr => reach_pollCount hr, ?_⟩
  intro w ph ch s₀ s u hr hw hn hc
  have hs := hr.step hn
  obtain ⟨hu, es, pc, hinv⟩ := hc.inv hs
  obtain ⟨hcont, hlaw⟩ := hinv.heap hs hu
  have hheap : s.sh.timerHeap = s₀.sh.timerHeap := by
    obtain ⟨-, e, hstep, hmove⟩ := next_worker hn hw
    rw [hmove.sh]
    cases hstep
    rfl
  -- the order and the account of the pops are those of the priority queue
  have hperm := PriorityQueue.contents_perm hlaw
  have hsorted := PriorityQueue.firstComers_sorted hlaw
  rw [← hcont] at hperm
  rw [hheap] at hcont hlaw hperm hsorted
  -- each turn of the loop pops an entry, and an entry is popped once
  have hturns : (pops (heapOps es)).length ≤ s₀.sh.timerHeap.length + (pushes (heapOps es)).length := by
    have hlen := hperm.length_eq
    rw [List.length_append, List.length_append] at hlen
    omega
  refine ⟨es, hinv.log, hheap, hinv.due, hlaw, hsorted, hcont, hperm, hturns, fun hlock => ?_,
    fun id hready => ?_, fun ha hf => checks_progress hinv.at_ hinv.checks ha hf,
    fun ch' u' pc' hn' hw' hout => ?_⟩
  · obtain rfl := Option.some.inj (hinv.at_.symm.trans hlock)
    have hfired : firedIds es ++ [] = (pops (heapOps es)).map (·.taskId) := hinv.fired
    rwa [List.append_nil] at hfired
  · obtain rfl := Option.some.inj (hinv.at_.symm.trans hready)
    exact hinv.fired
  · -- the loop ends at its lock only, with no due entry left
    obtain ⟨rfl, hrest⟩ := checks_return hinv.at_ hinv.checks hn' hw' hout
    exact ⟨hinv.at_, hrest⟩

/-- The timer of `napProgram` is popped and fired by the call that finds it due. -/
theorem check_timers_spec_nap :
    ∃ s₀ s u : State Bool Unit, (runtime napProgram).Reachable s₀ ∧
      s₀.workers[0]? = some (.timersNow (.before false)) ∧ s₀.sh.timerHeap = [⟨5, 0⟩] ∧
      (runtime napProgram).next (.worker 0 {}) s₀ = some s ∧
      Checking napProgram 0 (.before false) s₀.sh.clock s u ∧
      ∃ es, u.sh.log = s.sh.log ++ es ∧ pops (heapOps es) = [⟨5, 0⟩] ∧ firedIds es = [0] ∧
        (∃ ch u', (runtime napProgram).next (.worker 0 ch) u = some u') ∧ u.sh.timerHeap = [] := by
  have h : (((runtime napProgram).run
      (List.replicate 5 (Act.main {}) ++ List.replicate 11 (Act.worker 0 {}) ++ [.tick 5])
      (State.initial [] 0 [.go true, .startRuntime 1])).bind fun s₀ =>
      ((runtime napProgram).next (Act.worker 0 {}) s₀).bind fun s =>
      ((runtime napProgram).next (Act.worker 0 { peek := ⟨5, 0⟩ }) s).bind fun u₁ =>
      ((runtime napProgram).next (Act.worker 0 {}) u₁).map fun u =>
        (s₀.workers[0]?, s₀.sh.clock, s₀.sh.timerHeap, s.workers[0]?, u₁.workers[0]?, u.workers[0]?,
          queueFree u.workers, u.sh.aborted, u.sh.timerHeap, u.sh.log.drop s.sh.log.length))
      = some (some (.timersNow (.before false)), 5, [⟨5, 0⟩], some (.timersLock (.before false) 5),
          some (.timersReady (.before false) 5 0), some (.timersLock (.before false) 5),
          true, none, [], [.timerPop 0 5 5, .goready 0 .timers, .wake 0]) := by rfl
  obtain ⟨s₀, hs₀, h⟩ := Option.bind_eq_some_iff.mp h
  obtain ⟨s, hs, h⟩ := Option.bind_eq_some_iff.mp h
  obtain ⟨u₁, hu₁, h⟩ := Option.bind_eq_some_iff.mp h
  obtain ⟨u, hu, h⟩ := Option.map_eq_some_iff.mp h
  simp only [Prod.mk.injEq] at h
  obtain ⟨hw, hclock, hheap, hws, hwu₁, hwu, hfree, ha, hempty, hdrop⟩ := h
  have hr := System.run_reachable (M := runtime napProgram) ⟨[], 0, _, rfl⟩ hs₀
  have hc : Checking napProgram 0 (.before false) s₀.sh.clock s u := by
    rw [hclock]
    exact .step (.step (.start hws rfl) hu₁ hwu₁ (.ready 0)) hu hwu .lock
  obtain ⟨es, hlog, -, -, -, -, -, -, -, hfired, -, hprogress, -⟩ :=
    check_timers_spec.2.2 0 _ _ s₀ s u hr hw hs hc
  rw [hlog, List.drop_left] at hdrop
  subst hdrop
  rw [hclock] at hfired
  exact ⟨s₀, s, u, hr, hw, hheap, hs, hc, _, hlog, rfl, hfired hwu, hprogress ha hfree, hempty⟩

end MyGoroutine
