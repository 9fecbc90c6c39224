import MyGoroutine.Model.Kqueue
import MyGoroutine.Lib.Slots

namespace MyGoroutine

/-!
# One-shot events and `waiting_fds`

A one-shot event comes once, so a poll that consumes it must find the task in `waiting_fds`.  It
does unless it looks there between the two steps of `register_read`.

* `early?` — a poll looks up the event of a task that has not recorded itself yet;
* `Kqueue.State.Kept`, `reach_kept` — who has armed what, and who is in the map;
* `oneshot_reported` — no event is dropped by a poll that is not early, and one is by a poll that
  is;
* `oneshot_dropped` — an early poll.
-/

namespace Kqueue

/-- The step looks up an event whose task is between `kevent` and the insertion into the map. -/
def early? (a : Act) (s : State) : Bool :=
  match a, s.polling with
  | .lookup, some events => s.tasks.any fun r => decide (r.pc = .added) && decide (r.fd ∈ events)
  | _, _ => false

/-- No poll looks up an event before its task is in the map. -/
def Timely (a : Act) (s : State) : Prop := early? a s = false

/-- Every event that a poll has consumed was reported with the task that registered the fd, and
    `waiting_fds` holds no task whose one-shot event has been consumed without reporting it. -/
structure State.Reported (s : State) : Prop where
  consumed : ∀ p ∈ s.log, ∀ fd ∈ p.events, ∃ r ∈ s.tasks, r.fd = fd ∧ (fd, r.taskId) ∈ p.reported
  waiting : ∀ fd t, s.poller.waitingFds.lookup fd = some t →
    ∀ p ∈ s.log, fd ∈ p.events → (fd, t) ∈ p.reported

/-- Who has armed what, and who is in the map. -/
structure State.Kept (s : State) : Prop where
  /-- The tasks have pairwise distinct fds. -/
  nodup : (s.tasks.map (·.fd)).Nodup
  registered : ∀ r ∈ s.tasks, r.pc = .registered → s.poller.waitingFds.lookup r.fd = some r.taskId
  waiting : ∀ fd t, s.poller.waitingFds.lookup fd = some t →
    ∃ r ∈ s.tasks, r.fd = fd ∧ r.taskId = t ∧ r.pc = .registered
  armed : ∀ fd ∈ s.poller.armed, ∃ r ∈ s.tasks, r.fd = fd ∧ r.pc ≠ .before
  polling : ∀ events, s.polling = some events →
    ∀ fd ∈ events, ∃ r ∈ s.tasks, r.fd = fd ∧ r.pc ≠ .before

section Tasks

variable {tasks : List Registrar} {i : Nat} {r : Registrar} {pc : RegisterPc}

/-- When no fd occurs twice, the fd tells the registrar. -/
theorem eq_of_fd (hnd : (tasks.map (·.fd)).Nodup) {x y : Registrar} (hx : x ∈ tasks)
    (hy : y ∈ tasks) (h : x.fd = y.fd) : x = y :=
  List.inj_on_of_nodup_map hnd hx hy h

/-- A step leaves the registrar its fd. -/
theorem map_fd_set (hi : tasks[i]? = some r) :
    (tasks.set i { r with pc }).map (·.fd) = tasks.map (·.fd) := by
  rw [List.map_set]
  exact Slots.set_of_getElem? (by rw [List.getElem?_map, hi]; rfl)

/-- The tasks after task `i` has moved to `pc`. -/
theorem mem_set_iff (hnd : (tasks.map (·.fd)).Nodup) (hi : tasks[i]? = some r) {x : Registrar} :
    x ∈ tasks.set i { r with pc } ↔ x = { r with pc } ∨ x ∈ tasks ∧ x.fd ≠ r.fd := by
  have hlt := (List.getElem?_eq_some_iff.mp hi).1
  constructor
  · intro hx
    obtain ⟨j, hj⟩ := List.mem_iff_getElem?.mp hx
    by_cases hij : i = j
    · subst hij
      rw [List.getElem?_set_self hlt] at hj
      exact .inl (Option.some.inj hj).symm
    · rw [List.getElem?_set_ne hij] at hj
      refine .inr ⟨List.mem_of_getElem? hj, fun hfd => hij ?_⟩
      exact (List.getElem?_inj (by simpa using hlt) hnd).mp (by simp [hi, hj, hfd])
  · rintro (rfl | ⟨hx, hne⟩)
    · exact List.mem_of_getElem? (List.getElem?_set_self hlt)
    · obtain ⟨j, hj⟩ := List.mem_iff_getElem?.mp hx
      have hij : i ≠ j := by
        rintro rfl
        rw [hi] at hj
        exact hne (Option.some.inj hj ▸ rfl)
      exact List.mem_of_getElem? (by rw [List.getElem?_set_ne hij]; exact hj)

end Tasks

section Steps

variable {a : Act} {s s' : State}

/-- Task `i` has armed its filter. -/
theorem State.Kept.add {i : Nat} {r : Registrar} (h : s.Kept) (hi : s.tasks[i]? = some r)
    (hpc : r.pc = .before) :
    State.Kept { s with
      poller := s.poller.keventAdd r.fd
      tasks := s.tasks.set i { r with pc := .added } } := by
  have hmem := List.mem_of_getElem? hi
  have hlookup : (s.poller.keventAdd r.fd).waitingFds = s.poller.waitingFds := by
    unfold KqueuePoller.keventAdd
    split <;> rfl
  -- a task with the same fd is the task itself
  have hkeep : ∀ x ∈ s.tasks, x.pc ≠ .before → x.fd ≠ r.fd :=
    fun x hx hne hfd => hne (eq_of_fd h.nodup hx hmem hfd ▸ hpc)
  refine ⟨by rw [map_fd_set hi]; exact h.nodup, fun x hx hreg => ?_, fun fd t hl => ?_,
    fun fd hfd => ?_, fun events hev fd hfd => ?_⟩
  · rw [hlookup]
    rcases (mem_set_iff h.nodup hi).mp hx with rfl | ⟨hx, -⟩
    · cases hreg
    · exact h.registered x hx hreg
  · rw [hlookup] at hl
    obtain ⟨x, hx, hfd, ht, hreg⟩ := h.waiting fd t hl
    exact ⟨x, (mem_set_iff h.nodup hi).mpr (.inr ⟨hx, hkeep x hx (by simp [hreg])⟩), hfd, ht, hreg⟩
  · by_cases heq : fd = r.fd
    · exact ⟨_, (mem_set_iff h.nodup hi).mpr (.inl rfl), heq.symm, by simp⟩
    · have hold : fd ∈ s.poller.armed := by
        unfold KqueuePoller.keventAdd at hfd
        split at hfd
        · exact hfd
        · simpa [heq] using hfd
      obtain ⟨x, hx, hxfd, hne⟩ := h.armed fd hold
      exact ⟨x, (mem_set_iff h.nodup hi).mpr (.inr ⟨hx, hkeep x hx hne⟩), hxfd, hne⟩
  · obtain ⟨x, hx, hxfd, hne⟩ := h.polling events hev fd hfd
    exact ⟨x, (mem_set_iff h.nodup hi).mpr (.inr ⟨hx, hkeep x hx hne⟩), hxfd, hne⟩

/-- Task `i` has recorded itself in the map. -/
theorem State.Kept.insert {i : Nat} {r : Registrar} (h : s.Kept) (hi : s.tasks[i]? = some r) :
    State.Kept { s with
      poller := s.poller.insert r.fd r.taskId
      tasks := s.tasks.set i { r with pc := .registered } } := by
  have hset : ∀ x, x ∈ s.tasks.set i { r with pc := .registered } ↔ _ :=
    fun x => mem_set_iff h.nodup hi
  -- whoever has been there before still is, possibly one step further
  have hgone : ∀ fd, (∃ x ∈ s.tasks, x.fd = fd ∧ x.pc ≠ .before) →
      ∃ x ∈ s.tasks.set i { r with pc := .registered }, x.fd = fd ∧ x.pc ≠ .before := by
    rintro fd ⟨x, hx, hfd, hne⟩
    by_cases heq : x.fd = r.fd
    · exact ⟨_, (hset _).mpr (.inl rfl), heq.symm.trans hfd, by simp⟩
    · exact ⟨x, (hset x).mpr (.inr ⟨hx, heq⟩), hfd, hne⟩
  refine ⟨by rw [map_fd_set hi]; exact h.nodup, fun x hx hreg => ?_, fun fd t hl => ?_,
    fun fd hfd => hgone fd (h.armed fd hfd),
    fun events hev fd hfd => hgone fd (h.polling events hev fd hfd)⟩
  · rcases (hset x).mp hx with rfl | ⟨hx, hne⟩
    · exact AList.lookup_insert _
    · exact (AList.lookup_insert_ne hne).trans (h.registered x hx hreg)
  · simp only [KqueuePoller.insert, Slots.lookup_insert_ite] at hl
    split at hl
    · cases hl
      exact ⟨_, (hset _).mpr (.inl rfl), Eq.symm ‹_›, rfl, rfl⟩
    · obtain ⟨x, hx, hfd, ht, hreg⟩ := h.waiting fd t hl
      exact ⟨x, (hset x).mpr (.inr ⟨hx, fun heq => ‹¬ fd = r.fd› (hfd ▸ heq)⟩), hfd, ht, hreg⟩

/-- The events of a poll belong to armed filters. -/
theorem mem_armed_of_keventOk {p : KqueuePoller} {readable : RawFd → Bool} {events : List RawFd}
    (h : p.keventOk readable events = true) : ∀ fd ∈ events, fd ∈ p.armed := by
  intro fd hfd
  unfold KqueuePoller.keventOk at h
  rcases Bool.or_eq_true_iff.mp h with h | h
  · rw [List.isEmpty_iff.mp h] at hfd
    cases hfd
  · simp only [Bool.and_eq_true, List.all_eq_true, decide_eq_true_eq] at h
    exact (h.1.2 fd hfd).1

/-- **A step keeps the order of things.** -/
theorem State.Kept.next (h : s.Kept) (hn : next a s = some s') : s'.Kept := by
  cases a with
  | add i =>
    obtain ⟨r, hi, hn⟩ := Option.bind_eq_some_iff.mp hn
    split at hn <;> cases hn
    exact h.add hi ‹_›
  | insert i =>
    obtain ⟨r, hi, hn⟩ := Option.bind_eq_some_iff.mp hn
    split at hn <;> cases hn
    exact h.insert hi
  | kevent events =>
    simp only [Kqueue.next] at hn
    split at hn <;> cases hn
    rename_i hok
    have hev := mem_armed_of_keventOk (Bool.and_eq_true_iff.mp hok).2
    exact ⟨h.nodup, h.registered, h.waiting,
      fun fd hfd => h.armed fd (List.mem_of_mem_filter hfd), fun events' heq fd hfd => by
        cases heq
        exact h.armed fd (hev fd hfd)⟩
  | lookup =>
    obtain ⟨events, hev, rfl⟩ := Option.map_eq_some_iff.mp hn
    exact ⟨h.nodup, h.registered, h.waiting, h.armed, fun _ heq => by cases heq⟩
  | setReadable fd b =>
    cases hn
    exact ⟨h.nodup, h.registered, h.waiting, h.armed, h.polling⟩

/-- The tasks only move on. -/
theorem exists_task_next (hn : next a s = some s') (h : s.Kept) {r : Registrar} (hr : r ∈ s.tasks) :
    ∃ r' ∈ s'.tasks, r'.fd = r.fd ∧ r'.taskId = r.taskId := by
  have hset : ∀ (i : Nat) (x : Registrar) (pc : RegisterPc), s.tasks[i]? = some x →
      ∃ r' ∈ s.tasks.set i { x with pc }, r'.fd = r.fd ∧ r'.taskId = r.taskId := by
    intro i x pc hi
    by_cases heq : r.fd = x.fd
    · obtain rfl := eq_of_fd h.nodup hr (List.mem_of_getElem? hi) heq
      exact ⟨_, (mem_set_iff h.nodup hi).mpr (.inl rfl), rfl, rfl⟩
    · exact ⟨r, (mem_set_iff h.nodup hi).mpr (.inr ⟨hr, heq⟩), rfl, rfl⟩
  cases a with
  | add i | insert i =>
    obtain ⟨x, hi, hn⟩ := Option.bind_eq_some_iff.mp hn
    split at hn <;> cases hn
    exact hset i x _ hi
  | kevent =>
    simp only [Kqueue.next] at hn
    split at hn <;> cases hn
    exact ⟨r, hr, rfl, rfl⟩
  | lookup =>
    obtain ⟨_, _, rfl⟩ := Option.map_eq_some_iff.mp hn
    exact ⟨r, hr, rfl, rfl⟩
  | setReadable =>
    cases hn
    exact ⟨r, hr, rfl, rfl⟩

/-- The history grows when a poll returns. -/
theorem log_next (hn : next a s = some s') :
    s'.log = s.log ∨ a = .lookup ∧ ∃ events, s.polling = some events ∧
      s'.log = s.log ++ [⟨events, s.poller.lookup events⟩] := by
  cases a with
  | add i | insert i =>
    obtain ⟨x, hi, hn⟩ := Option.bind_eq_some_iff.mp hn
    split at hn <;> cases hn
    exact .inl rfl
  | kevent =>
    simp only [Kqueue.next] at hn
    split at hn <;> cases hn
    exact .inl rfl
  | lookup =>
    obtain ⟨events, hev, rfl⟩ := Option.map_eq_some_iff.mp hn
    exact .inr ⟨rfl, events, hev, rfl⟩
  | setReadable =>
    cases hn
    exact .inl rfl

/-- What the map knows is reported. -/
theorem mem_lookup_iff {p : KqueuePoller} {events : List RawFd} {fd : RawFd} {t : TaskId} :
    (fd, t) ∈ p.lookup events ↔ fd ∈ events ∧ p.waitingFds.lookup fd = some t := by
  unfold KqueuePoller.lookup
  constructor
  · intro h
    obtain ⟨fd', hfd, h⟩ := List.mem_filterMap.mp h
    obtain ⟨t', ht, heq⟩ := Option.map_eq_some_iff.mp h
    cases heq
    exact ⟨hfd, ht⟩
  · rintro ⟨hfd, ht⟩
    exact List.mem_filterMap.mpr ⟨fd, hfd, by rw [ht]; rfl⟩

/-- A task in the map is the one that the polls have reported. -/
theorem State.Reported.of_consumed (h : s.Kept) (hc : ∀ p ∈ s.log, ∀ fd ∈ p.events,
    ∃ r ∈ s.tasks, r.fd = fd ∧ (fd, r.taskId) ∈ p.reported) : s.Reported := by
  refine ⟨hc, fun fd t hl p hp hfd => ?_⟩
  obtain ⟨r, hr, hrfd, hrep⟩ := hc p hp fd hfd
  obtain ⟨x, hx, hxfd, rfl, -⟩ := h.waiting fd t hl
  rwa [eq_of_fd h.nodup hx hr (hxfd.trans hrfd.symm)]

/-- **A step keeps every event reported**, if it is not an early poll. -/
theorem State.Reported.next (h : s.Reported) (hk : s.Kept) (ht : Timely a s)
    (hn : next a s = some s') : s'.Reported := by
  refine .of_consumed (hk.next hn) fun p hp fd hfd => ?_
  have hold : ∀ p ∈ s.log, fd ∈ p.events →
      ∃ r ∈ s'.tasks, r.fd = fd ∧ (fd, r.taskId) ∈ p.reported := by
    intro p hp hfd
    obtain ⟨r, hr, hrfd, hrep⟩ := h.consumed p hp fd hfd
    obtain ⟨r', hr', hfd', ht'⟩ := exists_task_next hn hk hr
    exact ⟨r', hr', hfd'.trans hrfd, by rwa [ht']⟩
  rcases log_next hn with hlog | ⟨rfl, events, hev, hlog⟩ <;> rw [hlog] at hp
  · exact hold p hp hfd
  · rcases List.mem_append.mp hp with hp | hp
    · exact hold p hp hfd
    · obtain rfl := List.mem_singleton.mp hp
      obtain ⟨r, hr, rfl, hne⟩ := hk.polling events hev fd hfd
      -- the task has called `kevent`, and it is not between its two steps
      have hreg : r.pc = .registered := by
        simp only [Timely, early?, hev, List.any_eq_false, Bool.and_eq_true, decide_eq_true_eq,
          not_and] at ht
        cases hpc : r.pc with
        | before => exact absurd hpc hne
        | added => exact absurd hfd (ht r hr hpc)
        | registered => rfl
      obtain ⟨r', hr', hfd', ht'⟩ := exists_task_next hn hk hr
      refine ⟨r', hr', hfd', ?_⟩
      rw [ht']
      exact mem_lookup_iff.mpr ⟨hfd, hk.registered r hr hreg⟩

/-- An early poll drops an event. -/
theorem not_reported_of_early (hk : s.Kept) (ht : early? a s = true) (hn : next a s = some s') :
    ¬ s'.Reported := by
  intro h
  cases a with
  | lookup =>
    obtain ⟨events, hev, rfl⟩ := Option.map_eq_some_iff.mp hn
    simp only [early?, hev, List.any_eq_true, Bool.and_eq_true, decide_eq_true_eq] at ht
    obtain ⟨r, hr, hpc, hfd⟩ := ht
    obtain ⟨x, hx, hxfd, hrep⟩ := h.consumed _ (List.mem_append_right _ (List.mem_singleton_self _))
      r.fd hfd
    obtain ⟨y, hy, hyfd, -, hreg⟩ := hk.waiting _ _ (mem_lookup_iff.mp hrep).2
    rw [eq_of_fd hk.nodup hy hr hyfd, hpc] at hreg
    cases hreg
  | _ => cases ht

end Steps

section Runs

variable {s : State}

/-- Who has armed what, in every state reached. -/
theorem reach_kept {ok : Act → State → Prop} (hr : kqueue.Reach ok s) : s.Kept := by
  refine hr.invariant ?_ fun s s' a _ h _ hn => h.next hn
  rintro s ⟨calls, hnd, rfl⟩
  refine ⟨?_, ?_, ?_, ?_, ?_⟩
  · simpa [State.initial, Function.comp_def] using hnd
  · intro r hr hreg
    obtain ⟨c, -, rfl⟩ := List.mem_map.mp hr
    cases hreg
  · simp [State.initial, KqueuePoller.new]
  · simp [State.initial, KqueuePoller.new]
  · simp [State.initial]

/-- **One-shot events are reported.**  In every state reached by a run without an early poll, every
    event that a poll consumed was reported with the task that registered the fd, and no task in
    `waiting_fds` has had its event consumed otherwise; and a further step keeps this exactly when
    it is not an early poll. -/
theorem oneshot_reported (hr : kqueue.Reach Timely s) :
    s.Reported ∧ ∀ a s', kqueue.next a s = some s' → (s'.Reported ↔ Timely a s) := by
  have hrep : s.Reported := by
    refine hr.invariant ?_ fun s s' a hr h ht hn => h.next (reach_kept hr) ht hn
    rintro s ⟨calls, -, rfl⟩
    exact ⟨fun p hp => (by cases hp), fun _ _ _ p hp => (by cases hp)⟩
  refine ⟨hrep, fun a s' hn => ⟨fun h => ?_, fun ht => hrep.next (reach_kept hr) ht hn⟩⟩
  by_contra ht
  exact not_reported_of_early (reach_kept hr) (Bool.eq_true_of_not_eq_false ht) hn h

end Runs

/-- Tasks 0 and 1, which register the fds 4 and 5; the fd 4 is registered, the filter of the fd 5 is
    armed, and both fds become readable. -/
def twoFds : List Act :=
  [.add 0, .insert 0, .add 1, .setReadable 4 true, .setReadable 5 true]

/-- Task 1 records itself before the poll looks there. -/
theorem oneshot_reported_two :
    ∃ s, (kqueue.guard fun a s => !early? a s).run
        (twoFds ++ [.kevent [4, 5], .insert 1, .lookup]) (State.initial [(4, 0), (5, 1)]) = some s ∧
      s.log.map (·.reported) = [[(4, 0), (5, 1)]] ∧ s.Reported := by
  have h : ((kqueue.guard fun a s => !early? a s).run
      (twoFds ++ [.kevent [4, 5], .insert 1, .lookup]) (State.initial [(4, 0), (5, 1)])).map
        (fun s => s.log.map (·.reported)) = some [[(4, 0), (5, 1)]] := by rfl
  obtain ⟨s, hs, hlog⟩ := Option.map_eq_some_iff.mp h
  have hr : kqueue.Reach Timely s :=
    System.run_guard_reach (fun a s h => by simpa [Timely] using h)
      ⟨[(4, 0), (5, 1)], by decide, rfl⟩ hs
  exact ⟨s, hs, hlog, (oneshot_reported hr).1⟩

/-- **An early poll.**  A poll consumes the events of both fds and looks them up before task 1 has
    recorded itself: the fd 5 is in `waiting_fds` from then on, its filter is disarmed, and no poll
    has reported task 1. -/
theorem oneshot_dropped :
    ∃ s, kqueue.Reachable s ∧ s.polling = none ∧ s.poller.armed = [] ∧
      s.poller.waitingFds.lookup 5 = some 1 ∧
      s.log.map (fun p => (p.events, p.reported)) = [([4, 5], [(4, 0)])] ∧ ¬ s.Reported := by
  have h : (kqueue.run (twoFds ++ [.kevent [4, 5], .lookup, .insert 1])
      (State.initial [(4, 0), (5, 1)])).map (fun s => (s.polling, s.poller.armed,
        s.poller.waitingFds.lookup 5, s.log.map fun p => (p.events, p.reported)))
      = some (none, [], some 1, [([4, 5], [(4, 0)])]) := by rfl
  obtain ⟨s, hs, hst⟩ := Option.map_eq_some_iff.mp h
  obtain ⟨hp, hst⟩ := Prod.mk.inj hst
  obtain ⟨ha, hst⟩ := Prod.mk.inj hst
  obtain ⟨hl, hlog⟩ := Prod.mk.inj hst
  refine ⟨s, System.run_reachable (M := kqueue) ⟨[(4, 0), (5, 1)], by decide, rfl⟩ hs, hp, ha, hl,
    hlog, fun hrep => ?_⟩
  obtain ⟨p, hmem, hpe⟩ : ∃ p ∈ s.log, (p.events, p.reported) = ([4, 5], [(4, 0)]) :=
    List.mem_map.mp (by rw [hlog]; exact List.mem_singleton_self _)
  obtain ⟨hev, hrp⟩ := Prod.mk.inj hpe
  have := hrep.waiting 5 1 hl p hmem (by rw [hev]; simp)
  rw [hrp] at this
  simp at this

end Kqueue

end MyGoroutine
