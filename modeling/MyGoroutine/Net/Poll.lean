import MyGoroutine.Sched.Permit
import MyGoroutine.Wake.Release

namespace MyGoroutine

/-!
# The readiness of an fd wakes its task once

A poll collects the tasks whose fds are ready, and each of them is owed one `goready` by the
worker that polled.  As long as no poll collects a task again before it has unregistered, a call
of `net_poll_read` gets exactly one such `goready`, and it is used up when the call returns.

* `Pc.polled` — the tasks that a worker has collected from the poller and still has to wake;
* `PollStep`, `WorkerStep.poll` — what a step does to the poller's exchange with the tasks;
* `State.Polls`, `reach_polls` — the exchange, in every state reached;
* `net_poll_read_answered_once` — the law.
-/

open History

variable {σ V : Type}

/-- The tasks that the worker has collected from the poller and still has to wake. -/
def Pc.polled : Pc σ V → List TaskId
  | .timersNow ph => ph.ready
  | .timersLock ph _ => ph.ready
  | .timersReady ph _ _ => ph.ready
  | .release ready => ready
  | .wakeReady ready => ready
  | _ => []

/-- How often the worker has collected the task `i`. -/
def Pc.polls (i : TaskId) (pc : Pc σ V) : Nat := pc.polled.count i

/-- The event is a `goready(i)` by the poller. -/
def Event.isPolled (i : TaskId) : Event V → Bool
  | .goready t .poller => t == i
  | _ => false

/-- The event registers the task `i`. -/
def Event.isRegistered (i : TaskId) : Event V → Bool
  | .registered t _ => t == i
  | _ => false

/-- The event belongs to the exchange between the poller and a task. -/
def Event.isPoll : Event V → Bool
  | .registered _ _ => true
  | .reported _ _ => true
  | .goready _ .poller => true
  | .returned _ (.netPollRead _) => true
  | _ => false

/-- The source is an fd. -/
def Status.onFd (st : Status V) : Bool := (st.source?.map Source.isFd).getD false

/-- The task has been reported, and has not returned from `net_poll_read`. -/
def Status.reportedFd : Status V → Bool
  | .released (.fd _) _ => true
  | _ => false

/-- The task `i` is registered with the poller: it is in `net_poll_read`. -/
def Shared.InNetPoll (sh : Shared σ V) (i : TaskId) : Prop := (sh.status i).onFd = true

/-- The `goready(i)` calls by the poller since the task `i` registered. -/
def Shared.answers (sh : Shared σ V) (i : TaskId) : Nat :=
  (since (Event.isRegistered i) sh.log).countP (Event.isPolled i)

/-- A `net_poll_read` that returns has been answered by one `goready` of the poller, and the
    permit of that `goready` has been taken. -/
def Event.Answered (before : List (Event V)) : Event V → Prop
  | .returned i (.netPollRead _) =>
    (since (Event.isRegistered i) before).countP (Event.isPolled i) = 1 ∧
      .goready i .poller ∉ since (Event.isWake i) before
  | _ => True

/-- The exchange between the poller and the tasks, when `n i` calls of `goready(i)` are still
    owed by those who have collected `i` from the poller. -/
structure Shared.Polls (sh : Shared σ V) (n : TaskId → Nat) : Prop where
  /-- A registered task is owed a `goready`, or has had it, exactly when it was reported; no
      other task is owed one. -/
  account : ∀ i, n i + (if (sh.status i).onFd then sh.answers i else 0)
    = if (sh.status i).reportedFd then 1 else 0
  /-- Only a task that was reported has a permit of the poller. -/
  permit : ∀ i, (sh.status i).reportedFd = false →
    .goready i .poller ∉ since (Event.isWake i) sh.log
  answered : Each Event.Answered sh.log

/-- The exchange in a state. -/
def State.Polls (s : State σ V) : Prop := s.sh.Polls fun i => s.total (Pc.polls i)

/-! ### Steps

Four kinds of steps matter: a task registers, a poll collects tasks, the poller wakes one that it
has collected, and a task returns. Everything else is quiet, also the `goready` calls of others.
-/

/-- What a step does to the exchange. -/
inductive PollStep (sh : Shared σ V) (pc : Pc σ V) : Shared σ V → Pc σ V → Prop where
  | quiet {sh' pc'} (es : List (Event V)) (hl : sh'.log = sh.log ++ es)
      (hes : ∀ e ∈ es, e.isPoll = false) (hp : pc'.polled = pc.polled) : PollStep sh pc sh' pc'
  /-- The task registers. -/
  | register {t fd k} (h : pc = .run t) (hc : t.code = .registerRead fd k) :
      PollStep sh pc ({ sh with net := sh.net.insert fd t.id }.record [.registered t.id fd])
        (.run (t.goto (.park (.netPollRead fd k))))
  /-- The poll collects the tasks of the fds that are ready. -/
  | report {events} (h : pc = .lookup events) :
      PollStep sh pc (sh.record ((sh.net.lookup events).map fun x => .reported x.2 x.1))
        (.timersNow (.after ((sh.net.lookup events).map (·.2))))
  /-- A task that was collected is woken. -/
  | wake {id ready} (h : pc = .wakeReady (id :: ready)) :
      PollStep sh pc (sh.goready .poller id).1 (.wakeReady ready)
  /-- The task unregisters, and the call returns. -/
  | unregister {t fd k} (h : pc = .run t) (hc : t.code = .unregister fd k) :
      PollStep sh pc
        ({ sh with net := sh.net.remove fd }.record [.returned t.id (.netPollRead fd)])
        (.run (t.goto (.user k)))

/-- A code owes `goready` calls for no call of `net_poll_read`. -/
def Code.wakesNoPoll (c : Code σ V) : Prop := ∀ ids fd k, c ≠ .wake ids (.netPollRead fd) k

section Steps

variable {P : Program σ V} {ch : Choice} {free : Bool} {sh sh' : Shared σ V} {t : Task σ V}
  {pc : Pc σ V} {e : Effect σ V}

/-- The `goready` calls of everybody but the poller are no matter of a poll. -/
theorem goready_log_quiet (sh : Shared σ V) (waker : Waker) (id : TaskId) (hw : waker ≠ .poller) :
    ∃ es, (sh.goready waker id).1.log = sh.log ++ es ∧ ∀ e ∈ es, e.isPoll = false := by
  have hg : (Event.goready id waker : Event V).isPoll = false := by
    cases waker <;> first | rfl | exact absurd rfl hw
  unfold Shared.goready
  split
  · exact ⟨_, rfl, List.forall_mem_cons.mpr ⟨hg, by simp [Event.isPoll]⟩⟩
  · exact ⟨_, rfl, List.forall_mem_cons.mpr ⟨hg, by simp⟩⟩

/-- The step of a task in the exchange. -/
theorem TaskStep.poll (hs : TaskStep P ch free sh t e) (hc : t.code.wakesNoPoll) :
    PollStep sh (.run t) e.sh e.pc := by
  cases hs with
  | chanPoisoned | chanClosed | recvUnwrap | groupPanic | sleepOverflow | netFail =>
    refine .quiet _ (raise_log _ _) (by simp [Event.isPoll]) ?_
    rw [raise_pc]
    rfl
  | close | add =>
    rw [finish_pc, finish_sh, Shared.record_record]
    refine .quiet _ rfl ?_ rfl
    split <;> simp [Event.isPoll]
  | goready | wakeMore =>
    obtain ⟨es, hl, hes⟩ := goready_log_quiet sh (.task t.id) _ (by simp)
    exact .quiet es hl hes rfl
  | @wakeLast id ret k _ h =>
    obtain ⟨es, hl, hes⟩ := goready_log_quiet sh (.task t.id) id (by simp)
    -- the return after the last `goready` is not one of `net_poll_read`
    have hret : (Event.returned t.id ret : Event V).isPoll = false := by
      cases ret <;> first | rfl | exact absurd h (hc _ _ _)
    refine .quiet (es ++ [.returned t.id ret]) ?_ (fun e he => ?_) rfl
    · show (sh.goready (.task t.id) id).1.log ++ _ = _
      rw [hl, List.append_assoc]
    · rcases List.mem_append.mp he with he | he
      · exact hes e he
      · rw [List.mem_singleton.mp he]
        exact hret
  | registerRead h => exact .register rfl h
  | unregister h => exact .unregister rfl h
  | go | gosched | currentTaskId | sleep | netAdd | ioSpawn | ioBlock | gopark | wakeNil
  | spawnWorker | threadSpawn | blocking | park | resumeNet | resumeGopark =>
    exact .quiet [] (List.append_nil _).symm (by simp) rfl
  | entry | done | goPush | sleepPush | sendDelivered | sendBuffered | sendEnqueued | recvClosed
  | recvTake | recvRefill | recvBuf | recvEnqueued | waitZero | waitJoin | resumeSleep | resumeSend
  | resumeRecv | resumeWait => exact .quiet _ rfl (by simp [Event.isPoll]) rfl

/-- `runnable.pop_front()` is quiet. -/
private theorem tryPop_poll {otherwise : Pc σ V} (hl : sh'.log = sh.log) (hpc : pc.polled = [])
    (ho : otherwise.polled = []) :
    PollStep sh pc (tryPop sh' otherwise).sh (tryPop sh' otherwise).pc := by
  unfold tryPop
  split
  · exact .quiet [] (by simp [hl]) (by simp) (ho.trans hpc.symm)
  · exact .quiet [_] (congrArg (· ++ [_]) hl) (by simp [Event.isPoll]) hpc.symm

/-- **The step of a worker in the exchange.** -/
theorem WorkerStep.poll (hs : WorkerStep P ch free sh pc e)
    (hc : ∀ t, pc = .run t → t.code.wakesNoPoll) : PollStep sh pc e.sh e.pc := by
  cases hs with
  | run hs => exact hs.poll (hc _ rfl)
  | lookup => exact .report rfl
  | wakeReady => exact .wake rfl
  | timersReady =>
    obtain ⟨es, hl, hes⟩ := goready_log_quiet sh .timers _ (by simp)
    exact .quiet es hl hes rfl
  | timersPop => exact .quiet [_] rfl (by simp [Event.isPoll]) rfl
  | @timersEmpty ph now _ | @timersWait ph now _ =>
    exact .quiet [] (by simp) (by simp) (by rcases ph with (_ | _) | _ <;> rfl)
  | top | termNetYes | termStay => exact tryPop_poll rfl rfl rfl
  | notified =>
    simp only [wakeStep]
    split
    · exact .quiet [] (by simp [Shared.withQueue]) (by simp) rfl
    · exact tryPop_poll rfl rfl rfl
  | goIdle =>
    simp only [idleStep]
    split <;> exact .quiet [] (List.append_nil _).symm (by simp) rfl
  | park =>
    unfold Shared.parkTask
    split
    · exact .quiet [_] rfl (by simp [Event.isPoll]) rfl
    · exact .quiet [] (List.append_nil _).symm (by simp) rfl
  | _ => exact .quiet [] (List.append_nil _).symm (by simp) rfl

end Steps

/-! ### Statuses

A status says whether a task waits at an fd, has been reported, or is in no call of `net_poll_read`.
Quiet steps change none of this, so the account of a task moves with the four events of the exchange
only.
-/

section Statuses

variable {sh sh' : Shared σ V} {pc pc' : Pc σ V} {i : TaskId} {st : Status V} {es : List (Event V)}

/-- A task that a poll has reported was registered. -/
theorem Status.onFd_of_reportedFd (h : st.reportedFd = true) : st.onFd = true := by
  cases st with
  | released src why => cases src <;> first | rfl | cases h
  | _ => cases h

/-- A task enters the exchange by one of its events only. -/
theorem update_of_onFd {e : Event V} (he : e.isPoll = false) (h : (e.update i st).onFd = true) :
    e.update i st = st := by
  cases e with
  | registered | reported => cases he
  | sent c t d o | received c t o =>
    cases o <;> simp only [Event.update] at h ⊢ <;> split at h <;>
      first | cases h | rw [if_neg ‹_›]
  | closed =>
    simp only [Event.update] at h ⊢
    split at h
    · cases h
    · split at h
      · cases h
      · rw [if_neg ‹_›, if_neg ‹_›]
  | timerPush | timerPop | added | joined | returned | panicked =>
    simp only [Event.update] at h ⊢
    split at h
    · cases h
    · rw [if_neg ‹_›]
  | created | dispatched | entered | died | goready | wake => rfl

/-- Quiet events leave a task that is still on its fd where it is. -/
theorem foldl_of_onFd (hes : ∀ e ∈ es, e.isPoll = false)
    (h : (es.foldl (Event.update i) st).onFd = true) : es.foldl (Event.update i) st = st := by
  induction es generalizing st with
  | nil => rfl
  | cons e es ih =>
    rw [List.foldl_cons] at h ⊢
    have hrest := ih (fun e' he => hes e' (List.mem_cons_of_mem _ he)) h
    rw [hrest] at h ⊢
    exact update_of_onFd (hes e (by simp)) h

/-- A quiet step brings no task into the exchange. -/
theorem status_of_onFd (hl : sh'.log = sh.log ++ es) (hes : ∀ e ∈ es, e.isPoll = false)
    (h : (sh'.status i).onFd = true) : sh'.status i = sh.status i := by
  rw [Shared.status, hl, statusOf_append] at h ⊢
  exact foldl_of_onFd hes h

/-- A park that waits at an fd is that of `net_poll_read`. -/
theorem Park.of_onFd {p : Park σ V} {src : Source} (hw : p.waitsAt src)
    (hs : st.source? = some src) (h : st.onFd = true) : ∃ fd k, p = .netPollRead fd k := by
  rw [Status.onFd, hs] at h
  cases src with
  | fd fd =>
    cases p with
    | netPollRead fd' k => exact ⟨fd', k, rfl⟩
    | _ => cases hw
  | _ => cases h

/-- The codes of the tasks in the exchange. -/
theorem Code.of_onFd {c : Code σ V} (h : c.agrees st) (hst : st.onFd = true) :
    (∃ fd k, c = .park (.netPollRead fd k)) ∨ (∃ fd k, c = .parked (.netPollRead fd k)) ∨
      ∃ fd k, c = .unregister fd k := by
  cases c with
  | park p =>
    obtain ⟨src, hw, hs⟩ := h
    obtain ⟨fd, k, rfl⟩ := Park.of_onFd hw hs hst
    exact .inl ⟨fd, k, rfl⟩
  | parked p =>
    obtain ⟨src, hw, hs⟩ := h
    obtain ⟨fd, k, rfl⟩ := Park.of_onFd hw hs hst
    exact .inr (.inl ⟨fd, k, rfl⟩)
  | unregister fd k => exact .inr (.inr ⟨fd, k, rfl⟩)
  | _ => rw [show st = .idle from h] at hst; cases hst

/-- A quiet step takes no task out of the exchange. -/
theorem status_kept {P : Program σ V} {ch : Choice} {free : Bool} {variant : Variant}
    {e : Effect σ V} (hs : WorkerStep P ch free sh pc e) (hwake : WakeStep variant sh pc e.sh e.pc)
    (hrun : ∀ t, pc = .run t → t.code.agrees (sh.status t.id))
    (hl : e.sh.log = sh.log ++ es) (hes : ∀ e ∈ es, e.isPoll = false)
    (h : (sh.status i).onFd = true) : e.sh.status i = sh.status i := by
  by_cases hown : ∃ t, pc = .run t ∧ t.id = i
  · -- the task's own step: it parks, or is about to unregister
    obtain ⟨t, rfl, rfl⟩ := hown
    cases hs with
    | run hs =>
      rcases Code.of_onFd (hrun t rfl) h with ⟨fd, k, hc⟩ | ⟨fd, k, hc⟩ | ⟨fd, k, hc⟩
      · rw [hs.of_park hc]
      · have := hs.of_parked hc
        cases this
        exact status_of_log rfl _
      · rw [hs.of_unregister hc] at hl
        obtain rfl : [.returned t.id (.netPollRead fd)] = es := List.append_cancel_left hl
        have := hes _ (List.mem_singleton_self _)
        cases this
  · rcases hwake.evolves (i := i) (fun t ht hi => hown ⟨t, ht, hi⟩) with hst | ⟨src, why, hq, hr⟩
    · exact hst
    · refine status_of_onFd hl hes ?_
      rw [hq] at h
      rw [hr]
      exact h

end Statuses

/-! ### The exchange

The account of a task in `net_poll_read`: the `goready` calls made for it since it registered and
those that some worker still owes it are one together once it has been reported, and none before.
Each of the four kinds of steps keeps the balance; a poll does so only if it collects no task a
second time.
-/

section Exchange

variable {sh sh' : Shared σ V} {pc : Pc σ V} {n n' : TaskId → Nat} {i : TaskId}
  {es : List (Event V)}

/-- The answers to a registration are counted on, until the next registration. -/
theorem answers_append (hl : sh'.log = sh.log ++ es) (hes : ∀ e ∈ es, e.isRegistered i = false) :
    sh'.answers i = sh.answers i + es.countP (Event.isPolled i) := by
  rw [Shared.answers, hl, since_append _ hes, List.countP_append, Shared.answers]

/-- A quiet event registers nobody. -/
theorem isRegistered_of_quiet {e : Event V} (h : e.isPoll = false) :
    e.isRegistered i = false := by
  cases e with
  | registered => cases h
  | _ => rfl

/-- A quiet event wakes nobody for the poller. -/
theorem isPolled_of_quiet {e : Event V} (h : e.isPoll = false) : e.isPolled i = false := by
  cases e with
  | goready t waker => cases waker <;> first | rfl | cases h
  | _ => rfl

/-- The law says nothing about a quiet event. -/
theorem answered_of_quiet {log : List (Event V)} {e : Event V} (h : e.isPoll = false) :
    Event.Answered log e := by
  cases e with
  | returned t r =>
    cases r with
    | netPollRead => cases h
    | _ => trivial
  | _ => trivial

namespace Shared.Polls

variable (h : sh.Polls n)
include h

/-- Of a task whose status is the same, the account moves by its `goready` calls. -/
theorem account_same (hst : sh'.status i = sh.status i)
    (hn : n' i + (if (sh.status i).onFd then sh'.answers i else 0)
      = n i + if (sh.status i).onFd then sh.answers i else 0) :
    n' i + (if (sh'.status i).onFd then sh'.answers i else 0)
      = if (sh'.status i).reportedFd then 1 else 0 := by
  rw [hst, hn]
  exact h.account i

/-- A step with quiet events keeps the account. -/
theorem quiet (hl : sh'.log = sh.log ++ es) (hes : ∀ e ∈ es, e.isPoll = false)
    (hkept : ∀ i, (sh.status i).onFd = true → sh'.status i = sh.status i)
    (hn : ∀ i, n' i = n i) : sh'.Polls n' := by
  -- who is in the exchange stays at his point of it, and nobody enters it
  have hrep : ∀ i, (sh'.status i).reportedFd = (sh.status i).reportedFd := by
    intro i
    by_cases hi : (sh.status i).onFd = true
    · rw [hkept i hi]
    · have hi' : ¬ (sh'.status i).onFd = true := fun h' => hi (status_of_onFd hl hes h' ▸ h')
      rw [Bool.eq_false_of_not_eq_true (fun h' => hi (Status.onFd_of_reportedFd h')),
        Bool.eq_false_of_not_eq_true (fun h' => hi' (Status.onFd_of_reportedFd h'))]
  refine ⟨fun i => ?_, fun i hi hmem => ?_, ?_⟩
  · have hans : sh'.answers i = sh.answers i := by
      rw [answers_append hl fun e he => isRegistered_of_quiet (hes e he),
        List.countP_eq_zero.mpr fun e he => by simp [isPolled_of_quiet (hes e he)], Nat.add_zero]
    have hfd : (sh'.status i).onFd = (sh.status i).onFd := by
      cases hi : (sh.status i).onFd with
      | true => rw [hkept i hi, hi]
      | false =>
        refine Bool.eq_false_of_not_eq_true fun h' => ?_
        rw [status_of_onFd hl hes h', hi] at h'
        cases h'
    rw [hrep, hfd, hn, hans]
    exact h.account i
  · rw [hl] at hmem
    rcases mem_since_append hmem with hmem | hmem
    · exact h.permit i (hrep i ▸ hi) hmem
    · cases hes _ hmem
  · rw [hl]
    exact h.answered.append fun _ e he => answered_of_quiet (hes e he)

/-- A task registers. -/
theorem register {t : TaskId} {fd : RawFd} (hl : sh'.log = sh.log ++ [.registered t fd])
    (hidle : sh.status t = .idle) (hn : ∀ i, n' i = n i) : sh'.Polls n' := by
  have hst := status_append_one hl
  refine ⟨fun i => ?_, fun i hi hmem => ?_, ?_⟩
  · by_cases hi : t = i
    · subst hi
      have hans : sh'.answers t = 0 := by
        rw [Shared.answers, hl, since_concat_of_marker _ (by simp [Event.isRegistered])]
        rfl
      have := h.account t
      rw [hidle] at this
      rw [hst, hn, hans]
      simpa [Event.update, Status.reportedFd, Status.onFd, Status.source?] using this
    · refine h.account_same (by rw [hst]; exact if_neg hi) ?_
      rw [hn, answers_append hl (by simp [Event.isRegistered, hi])]
      rfl
  · rw [hl] at hmem
    rcases mem_since_append hmem with hmem | hmem
    · refine h.permit i ?_ hmem
      by_cases hti : t = i
      · subst hti; rw [hidle]; rfl
      · rwa [hst, show Event.update i (sh.status i) (.registered t fd) = _ from if_neg hti] at hi
    · simp at hmem
  · rw [hl]
    exact h.answered.concat trivial

/-- A poll collects tasks that have not been reported. -/
theorem report {found : List (RawFd × TaskId)}
    (hl : sh'.log = sh.log ++ found.map fun x => .reported x.2 x.1)
    (hnd : (found.map (·.2)).Nodup) (hq : ∀ x ∈ found, sh.status x.2 = .queued (.fd x.1))
    (hn : ∀ i, n' i = n i + (found.map (·.2)).count i) : sh'.Polls n' := by
  -- the reports are all that happens
  have hst : ∀ i, sh'.status i
      = (found.map fun x => (Event.reported x.2 x.1 : Event V)).foldl (Event.update i)
        (sh.status i) := fun i => by rw [Shared.status, hl, statusOf_append]; rfl
  have hans : ∀ i, sh'.answers i = sh.answers i := by
    intro i
    have hes : ∀ e ∈ found.map fun x => (.reported x.2 x.1 : Event V),
        e.isRegistered i = false ∧ e.isPolled i = false := by
      intro e he
      obtain ⟨x, -, rfl⟩ := List.mem_map.mp he
      exact ⟨rfl, rfl⟩
    rw [answers_append hl fun e he => (hes e he).1,
      List.countP_eq_zero.mpr fun e he => by simp [(hes e he).2], Nat.add_zero]
  refine ⟨fun i => ?_, fun i hi hmem => ?_, ?_⟩
  · by_cases hi : i ∈ found.map (·.2)
    · -- the task was queued for its fd, so nothing was owed to it yet
      obtain ⟨x, hx, rfl⟩ := List.mem_map.mp hi
      have := h.account x.2
      rw [hq x hx] at this
      rw [hn, List.count_eq_one_of_mem hnd hi, hst, foldl_reported_of_mem hnd hx, hans]
      simp only [Status.onFd, Status.source?, Status.reportedFd, Option.map_some,
        Source.isFd, Option.getD_some, if_true, Bool.false_eq_true, if_false] at this ⊢
      omega
    · refine h.account_same ((hst i).trans (foldl_reported_of_notMem hi _)) ?_
      rw [hn, List.count_eq_zero_of_not_mem hi, hans, Nat.add_zero]
  · rw [hl] at hmem
    rcases mem_since_append hmem with hmem | hmem
    · refine h.permit i ?_ hmem
      by_cases hmap : i ∈ found.map (·.2)
      · obtain ⟨x, hx, rfl⟩ := List.mem_map.mp hmap
        rw [hq x hx]
        rfl
      · rwa [hst, foldl_reported_of_notMem hmap] at hi
    · simp at hmem
  · rw [hl]
    refine h.answered.append fun _ e he => ?_
    obtain ⟨x, -, rfl⟩ := List.mem_map.mp he
    trivial

/-- A task that was collected is woken. -/
theorem wake {id : TaskId} (hpos : 0 < n id)
    (hn : ∀ i, n' i + (if i = id then 1 else 0) = n i) : (sh.goready .poller id).1.Polls n' := by
  obtain ⟨es, hl, hes⟩ : ∃ es, (sh.goready .poller id).1.log = sh.log ++ .goready id .poller :: es ∧
      (es = [.wake id] ∨ es = []) := by
    unfold Shared.goready
    split
    · exact ⟨_, rfl, .inl rfl⟩
    · exact ⟨_, rfl, .inr rfl⟩
  -- a `goready` is owed only to a task that has been reported
  have hrep : (sh.status id).reportedFd = true := by
    have := h.account id
    cases hr : (sh.status id).reportedFd with
    | true => rfl
    | false => rw [hr] at this; simp at this; omega
  refine ⟨fun i => ?_, fun i hi hmem => ?_, ?_⟩
  · refine h.account_same (goready_status i) ?_
    have hans : (sh.goready .poller id).1.answers i = sh.answers i + if i = id then 1 else 0 := by
      rw [answers_append hl (by rcases hes with rfl | rfl <;> simp [Event.isRegistered])]
      have hnone : es.countP (Event.isPolled i) = 0 := by rcases hes with rfl | rfl <;> rfl
      rw [List.countP_cons, hnone, Nat.zero_add]
      by_cases hi : i = id
      · simp [Event.isPolled, hi]
      · simp [Event.isPolled, hi, Ne.symm hi]
    have := hn i
    by_cases hi : i = id
    · subst hi
      rw [hans, Status.onFd_of_reportedFd hrep]
      simp only [if_true] at this ⊢
      omega
    · rw [hans]
      simp only [hi, if_false, Nat.add_zero] at this ⊢
      rw [this]
  · rw [goready_status] at hi
    rw [hl] at hmem
    rcases mem_since_append hmem with hmem | hmem
    · exact h.permit i hi hmem
    · have hid : i = id := by rcases hes with rfl | rfl <;> simpa using hmem
      rw [hid, hrep] at hi
      cases hi
  · rw [hl]
    refine h.answered.append fun _ e he => ?_
    rcases List.mem_cons.mp he with rfl | he
    · trivial
    · rcases hes with rfl | rfl
      · obtain rfl := List.mem_singleton.mp he
        trivial
      · cases he

/-- A task returns from `net_poll_read`. -/
theorem unregister {t : TaskId} {fd : RawFd} {why : Why V}
    (hl : sh'.log = sh.log ++ [.returned t (.netPollRead fd)])
    (hrel : sh.status t = .released (.fd fd) why) (hnone : n t = 0)
    (hperm : .goready t .poller ∉ since (Event.isWake t) sh.log) (hn : ∀ i, n' i = n i) :
    sh'.Polls n' := by
  have hst := status_append_one hl
  refine ⟨fun i => ?_, fun i hi hmem => ?_, ?_⟩
  · by_cases hi : t = i
    · subst hi
      rw [hst, hn, hnone, show Event.update t (sh.status t) (.returned t _) = .idle from if_pos rfl]
      rfl
    · refine h.account_same (by rw [hst]; exact if_neg hi) ?_
      rw [hn, answers_append hl (by simp [Event.isRegistered])]
      rfl
  · rw [hl] at hmem
    rcases mem_since_append hmem with hmem | hmem
    · by_cases hti : t = i
      · subst hti
        exact hperm hmem
      · refine h.permit i ?_ hmem
        rwa [hst, show Event.update i (sh.status i) (.returned t _) = _ from if_neg hti] at hi
    · simp at hmem
  · rw [hl]
    refine h.answered.concat ⟨?_, hperm⟩
    have := h.account t
    rw [hrel, hnone] at this
    simpa [Status.onFd, Status.source?, Status.reportedFd, Source.isFd, Shared.answers] using this

end Shared.Polls

end Exchange

/-! ### Runs

Who owes a call is seen from the points of the workers: a poller between its poll and its last
`goready`. So the account of a state adds up what the workers hold.
-/

/-- Blocking and waking a worker does not change what its poll has found. -/
theorem silent_polls (i : TaskId) : Silent (Pc.polls i : Pc σ V → Nat) := ⟨rfl, fun _ => rfl⟩

/-- Who has collected a task from the poller owes it a `goready`. -/
theorem polls_le_owed (i : TaskId) (pc : Pc σ V) : pc.polls i ≤ pc.owed i := by
  cases pc with
  | timersReady ph now id =>
    show ph.ready.count i ≤ (id :: ph.ready).count i
    exact List.count_le_count_cons
  | _ => first | exact Nat.le_refl _ | exact Nat.zero_le _

/-- A task that wakes nobody for the poller never will. -/
theorem TaskStep.wakesNoPoll {P : Program σ V} {ch : Choice} {free : Bool} {sh : Shared σ V}
    {t u : Task σ V} {e : Effect σ V} (hs : TaskStep P ch free sh t e) (hc : t.code.wakesNoPoll)
    (hu : e.pc.task? = some u) : u.code.wakesNoPoll := by
  cases hs with
  | @chanPoisoned _ h | @chanClosed _ h | @recvUnwrap _ _ _ h | @groupPanic _ _ _ h
  | @sleepOverflow _ _ _ h | @netFail _ _ _ h =>
    rw [raise_pc] at hu
    cases hu
    cases h
    · exact hc
    · intro ids fd k h
      cases h
  | close | add =>
    rw [finish_pc] at hu
    cases hu
    intro ids fd k h
    unfold Task.goto finishCode at h
    split at h <;> cases h
  | wakeMore _ h =>
    cases hu
    rintro ids fd k ⟨⟩
    exact hc _ _ _ h
  | done => cases hu; exact hc
  | _ =>
    cases hu
    intro ids fd k h
    cases h

/-- **A step of a worker keeps the exchange.** -/
theorem State.Polls.worker {P : Program σ V} {ch : Choice} {s s' : State σ V} {w : Nat}
    {pc : Pc σ V} {e : Effect σ V} (hP : P.Structured) (h : s.Polls) (hd : s.Disciplined)
    (hsh : s.Shaped) (hp : s.Placed) (hperm : s.sh.Permits)
    (hinv : ∀ (c : ChanId) (m : Chan V), s.sh.chans[c]? = some m → m.val.Inv)
    (hcode : ∀ t, s.Holds t → t.code.wakesNoPoll) (hw : s.workers[w]? = some pc)
    (hs : WorkerStep P ch (queueFree s.workers) s.sh pc e) (hfresh : s.sh.FreshReports pc)
    (ha : s.sh.aborted = none) (hmove : WorkerMove s s' w pc e) : s'.Polls := by
  have hmem := List.mem_of_getElem? hw
  have hrun : ∀ t, pc = .run t → t.code.agrees (s.sh.status t.id) :=
    fun t ht => hd.agrees_of_run hsh hw ha ht
  have hn := fun i => hmove.total _ (silent_polls i)
  have hpoll := hs.poll fun t ht => hcode t (.inr ⟨pc, hmem, by rw [ht]; rfl⟩)
  obtain ⟨hwake, -⟩ := hd.wakes hsh hp hw hP hs hinv hfresh ha
  rw [State.Polls, hmove.sh]
  generalize hpc' : e.pc = pc' at hpoll hn
  generalize hsh' : e.sh = sh' at hpoll
  cases hpoll with
  | quiet es hl hes hpol =>
    rw [← hsh'] at hl ⊢
    refine h.quiet hl hes (fun i hi => status_kept hs hwake hrun hl hes hi) fun i => ?_
    have := hn i
    rw [Pc.polls, Pc.polls, hpol] at this
    omega
  | @register t fd k ht hc =>
    subst ht
    exact h.register rfl ((Code.agrees_of_calm (by rw [hc]; rfl)).mp (hrun t rfl)) hn
  | @report events ht =>
    subst ht
    exact h.report rfl (nodup_lookup (hd.events _ hmem) (hfresh events rfl)) (hfresh events rfl) hn
  | @wake id ready ht =>
    subst ht
    have hpos := Slots.le_sum_map (Pc.polls id) hw
    rw [show (Pc.wakeReady (id :: ready) : Pc σ V).polls id = ready.count id + 1 by
      simp [Pc.polls, Pc.polled]] at hpos
    refine h.wake (Nat.lt_of_lt_of_le (Nat.succ_pos _) hpos) fun i => ?_
    have := hn i
    simp only [Pc.polls, Pc.polled, Slots.count_cons_ite] at this
    omega
  | @unregister t fd k ht hc =>
    subst ht
    obtain ⟨why, hrel⟩ : ∃ why, s.sh.status t.id = .released (.fd fd) why := by
      have := hrun t rfl
      rwa [hc] at this
    -- the task runs, so its park is over and nothing is left that could wake it
    have hopen := open_of_worker hsh hp hw (holds_run t)
    rw [openPark_run (by rw [hc]; rfl)] at hopen
    have hbal := hd.balance t.id
    have hle : s.total (Pc.polls t.id) ≤ s.total (Pc.owed t.id) :=
      List.sum_le_sum fun pc _ => polls_le_owed t.id pc
    unfold State.causes at hbal
    have htok : t.id ∉ s.sh.queue.pendingReady := by
      intro hmem
      rw [GlobalQueue.token, if_pos hmem] at hbal
      omega
    exact h.unregister rfl hrel (show s.total (Pc.polls t.id) = 0 by omega)
      (fun hg => htok ((hperm.token t.id).mpr ⟨_, hg⟩)) hn

/-- The main thread and the environment keep the exchange. -/
theorem State.Polls.outer {s s' : State σ V} (h : s.Polls) (ho : OuterStep s s')
    (hmove : OuterMove s s') : s'.Polls := by
  have hn := fun i => hmove.total _ (silent_polls i)
  have hlog : ∃ es, s'.sh.log = s.sh.log ++ es ∧ (∀ e ∈ es, e.isPoll = false) ∧
      ∀ e ∈ es, e.neutral := by
    cases ho with
    | go hsh => exact ⟨[], by rw [hsh, List.append_nil], by simp, by simp⟩
    | push hsh =>
      exact ⟨_, by rw [hsh]; rfl, by simp [Event.isPoll], by simp [Event.neutral, Event.update]⟩
    | same hsh => exact ⟨[], by rw [hsh.log, List.append_nil], by simp, by simp⟩
  obtain ⟨es, hl, hes, hneu⟩ := hlog
  exact Shared.Polls.quiet h hl hes (fun i _ => status_of_neutral es hl hneu i) hn

/-- **The exchange holds in every state reached**, as long as no poll collects a task that was
    collected before. -/
theorem reach_polls {P : Program σ V} (hP : P.Structured) {s : State σ V}
    (hr : (runtime P).Reach FreshPolls s) : s.Polls := by
  refine hr.invariant ?_ ?_
  · rintro s ⟨caps, groups, calls, rfl⟩
    exact ⟨fun i => rfl, fun i _ hmem => (by simp [State.initial] at hmem), Each.nil _⟩
  · intro s s' a hr h hok hn
    obtain ⟨ha, hn⟩ := next_inv hn
    rcases hn.cases with ⟨w, ch, pc, e, rfl, hw, hs, hmove⟩ | ⟨ho, hmove⟩
    · refine h.worker hP (reach_disciplined hP (fun _ _ h => h) hr) (reach_shaped hr)
        (reach_placed hr) (reach_permits hr) (fun c m hm => reach_chanInv hr hm) ?_ hw hs
        (hok w ch pc rfl hw) ha hmove
      refine reach_codes (p := Code.wakesNoPoll) (fun f ids fd k h => by cases h) ?_ hr
      intro s ch t e u _ _ hs hc hu
      exact hs.wakesNoPoll hc hu
    · exact h.outer ho hmove

/-- **A call of `net_poll_read` is answered once.**  In every state reached by a run in which no
    poll collects a task again before it has unregistered: every call that has returned got one
    `goready` from the poller, and has used it up; a call in progress has got at most one; a task
    that is not in `net_poll_read` is owed none by any worker, and its permit, if it has one, is
    of another waker; and a task that has finished has no token. -/
theorem net_poll_read_answered_once {P : Program σ V} (hP : P.Structured) {s : State σ V}
    (hr : (runtime P).Reach FreshPolls s) :
    Each Event.Answered s.sh.log ∧
    (∀ i, s.sh.InNetPoll i → s.sh.answers i ≤ 1) ∧
    (∀ i, ¬ s.sh.InNetPoll i → (∀ pc ∈ s.workers, i ∉ pc.polled) ∧
      ∀ waker, .goready i waker ∈ since (Event.isWake i) s.sh.log → waker ≠ .poller) ∧
    ∀ i, .died i ∈ s.sh.log → i ∉ s.sh.queue.pendingReady := by
  have h := reach_polls hP hr
  refine ⟨h.answered, fun i hi => ?_, fun i hi => ?_, fun i hdied hmem => ?_⟩
  · have := h.account i
    rw [if_pos (show (s.sh.status i).onFd = true from hi)] at this
    split at this <;> omega
  · have hrep : (s.sh.status i).reportedFd = false :=
      Bool.eq_false_of_not_eq_true fun h' => hi (Status.onFd_of_reportedFd h')
    have hacc := h.account i
    rw [if_neg (show ¬ (s.sh.status i).onFd = true from hi), hrep] at hacc
    refine ⟨fun pc hpc hmem => ?_, ?_⟩
    · obtain ⟨w, hw⟩ := List.mem_iff_getElem?.mp hpc
      -- a worker that had collected the task would owe it a `goready`
      have hle := Slots.le_sum_map (Pc.polls i) hw
      have hpos : 0 < pc.polls i := List.count_pos_iff.mpr hmem
      unfold State.total at hacc
      simp at hacc
      omega
    · rintro waker hg rfl
      exact h.permit i hrep hg
  · -- a token has a cause, and a dead task has no place for one
    have hd := reach_disciplined hP (fun _ _ h => h) hr
    have hopen := open_le_places (i := i) (reach_shaped hr)
    have hplaces := (reach_placed hr).places_of_died hdied
    have hbal := hd.balance i
    rw [State.causes, GlobalQueue.token, if_pos hmem] at hbal
    omega

/-! ### Runs on a small program

One task reads from one fd. With one poller at a time it is answered once; with a second poll
between the first one and its `goready`, twice.
-/

/-- The check of `FreshPolls`. -/
def freshPolls? (a : Act) (s : State σ V) : Bool :=
  match a with
  | .worker w _ =>
    match s.workers[w]? with
    | some (.lookup events) =>
      (s.sh.net.lookup events).all fun x =>
        decide ((s.sh.status x.2).queue? = some (.fd x.1))
    | _ => true
  | _ => true

/-- The check decides whether the poll is fresh. -/
theorem freshPolls_of_check {a : Act} {s : State σ V} (h : freshPolls? a s = true) :
    FreshPolls a s := by
  rintro w ch pc rfl hw events rfl x hx
  simp only [freshPolls?, hw, List.all_eq_true, decide_eq_true_eq] at h
  have := h x hx
  cases hst : s.sh.status x.2 with
  | queued src => rw [hst] at this; cases this; rfl
  | _ => rw [hst] at this; cases this

/-- A task that waits for the fd 5 once. -/
def readProgram : Program Bool Unit where
  code b := if b then .netPollRead 5 false none else .done
  variant := .channel
  overflowChecks := true
  own b := by cases b <;> rfl

/-- The program never calls `gopark` or `goready` itself. -/
theorem readProgram_structured : readProgram.Structured := by
  intro x
  cases x <;> rfl

/-- The task of `readProgram` returns from `net_poll_read` after one poll. -/
theorem net_poll_read_answered_once_read :
    ∃ s, s.sh.log = [.created 0, .dispatched 0, .entered 0, .registered 0 5, .reported 0 5,
        .goready 0 .poller, .wake 0, .dispatched 0, .returned 0 (.netPollRead 5)] ∧
      (runtime readProgram).Reach FreshPolls s ∧ Each Event.Answered s.sh.log := by
  have h : (((runtime readProgram).guard freshPolls?).run
      (List.replicate 5 (Act.main {}) ++ List.replicate 13 (Act.worker 0 {}) ++
        [Act.setReadable 5 true, Act.worker 0 { events := [5] }] ++ List.replicate 9 (Act.worker 0 {}))
      (State.initial [] 0 [.go true, .startRuntime 1])).map (fun s => s.sh.log)
      = some [.created 0, .dispatched 0, .entered 0, .registered 0 5, .reported 0 5,
          .goready 0 .poller, .wake 0, .dispatched 0, .returned 0 (.netPollRead 5)] := by rfl
  obtain ⟨s, hs, hlog⟩ := Option.map_eq_some_iff.mp h
  have hr : (runtime readProgram).Reach FreshPolls s :=
    System.run_guard_reach (fun _ _ => freshPolls_of_check) ⟨[], 0, _, rfl⟩ hs
  exact ⟨s, hlog, hr, (net_poll_read_answered_once readProgram_structured hr).1⟩

/-- **Two polls collect the task.**  The first poller clears `POLLING` before it calls `goready`,
    and the fd is registered until the woken task has run: a second worker polls in between and
    reports the fd again.  Its `goready` comes when the task has returned and finished, and the
    token stays in `pending_ready`. -/
theorem net_poll_read_answered_twice :
    ∃ s, (runtime readProgram).Reachable s ∧ .returned 0 (.netPollRead 5) ∈ s.sh.log ∧
      .died 0 ∈ s.sh.log ∧ s.sh.log.countP (Event.isPolled 0) = 2 ∧
      0 ∈ s.sh.queue.pendingReady := by
  have h : ((runtime readProgram).run
      (List.replicate 6 (Act.main {}) ++ List.replicate 13 (Act.worker 0 {}) ++
        [Act.setReadable 5 true, Act.worker 0 { events := [5] }] ++ List.replicate 4 (Act.worker 0 {}) ++
        List.replicate 7 (Act.worker 1 {}) ++ [Act.worker 1 { events := [5] }] ++
        List.replicate 3 (Act.worker 1 {}) ++ List.replicate 8 (Act.worker 0 {}) ++
        List.replicate 2 (Act.worker 1 {}))
      (State.initial [] 0 [.go true, .startRuntime 2])).map
        (fun s => (s.sh.log, decide (0 ∈ s.sh.queue.pendingReady)))
      = some ([.created 0, .dispatched 0, .entered 0, .registered 0 5, .reported 0 5,
          .reported 0 5, .goready 0 .poller, .wake 0, .dispatched 0, .returned 0 (.netPollRead 5),
          .died 0, .goready 0 .poller], true) := by rfl
  obtain ⟨s, hs, hst⟩ := Option.map_eq_some_iff.mp h
  obtain ⟨hlog, hpend⟩ := Prod.mk.inj hst
  refine ⟨s, System.run_reachable (M := runtime readProgram) ⟨[], 0, _, rfl⟩ hs, ?_, ?_, ?_,
    of_decide_eq_true hpend⟩ <;> rw [hlog]
  · simp
  · simp
  · rfl

end MyGoroutine
