import MyGoroutine.Step.Sched

namespace MyGoroutine

/-!
# Moves of a channel

What a step of a task does to one channel: most leave it alone, and the others are one of the
moves below.  Everything about the contents of a channel is proved move by move.

* `ChanMove` — the moves, with the events they add to the history;
* `ChanInner.Inv` — which of the three queues of a channel can hold anything at all;
* `TaskStep.chan` — each step of a task leaves a channel alone, or moves it;
* `chan_invariant` — the invariant rule for channels, and `reach_chanInv`.
-/

variable {σ V : Type}

/-- The channel that a section of `send`, `recv` or `close` was about. -/
def Event.chan? : Event V → Option ChanId
  | .sent c _ _ _ => some c
  | .received c _ _ => some c
  | .closed c _ _ _ => some c
  | _ => none

/-- The event is one that a worker logs on its own, or a `goready`. -/
def Event.ofWorker : Event V → Bool
  | .dispatched _ => true
  | .goready _ _ => true
  | .wake _ => true
  | .timerPop _ _ _ => true
  | .reported _ _ => true
  | _ => false

/-- What a worker logs is about no channel. -/
theorem chan?_of_ofWorker {e : Event V} (h : e.ofWorker = true) : e.chan? = none := by
  cases e <;> first | rfl | cases h

/-- The moves of the channel `c` by the task `i`. -/
inductive ChanMove (c : ChanId) (i : TaskId) (m : ChanInner V) :
    ChanInner V → List (Event V) → Prop where
  /-- A `send` hands its value to a parked receiver. -/
  | deliver {d r recvq} (hcl : m.closed = false) (hq : m.recvq = r :: recvq) :
      ChanMove c i m { m with recvq, delivered := m.delivered.insert r d }
        [.sent c i d (.delivered r)]
  /-- A `send` puts its value into the buffer. -/
  | push {d} (hcl : m.closed = false) (hq : m.recvq = []) (hb : m.buf.length < m.bufCap) :
      ChanMove c i m { m with buf := m.buf ++ [d] }
        [.sent c i d .buffered, .returned i (.send c)]
  /-- A `send` joins the `sendq`. -/
  | enqueueSend {d} (hcl : m.closed = false) (hq : m.recvq = [])
      (hb : m.bufCap ≤ m.buf.length) :
      ChanMove c i m { m with sendq := m.sendq ++ [⟨i, d⟩] } [.sent c i d .enqueued]
  /-- A `recv` on an unbuffered channel takes a parked sender's value. -/
  | take {w sendq} (hq : m.sendq = w :: sendq) (hcap : m.bufCap = 0) :
      ChanMove c i m { m with sendq } [.received c i (.fromSender w w.data)]
  /-- A `recv` takes the head of the buffer, and a parked sender refills it. -/
  | refill {w sendq d buf} (hq : m.sendq = w :: sendq) (hcap : m.bufCap ≠ 0)
      (hb : m.buf = d :: buf) :
      ChanMove c i m { m with sendq, buf := buf ++ [w.data] } [.received c i (.fromSender w d)]
  /-- A `recv` finds a parked sender and an empty buffer. -/
  | unwrap {w sendq} (hq : m.sendq = w :: sendq) (hcap : m.bufCap ≠ 0) (hb : m.buf = []) :
      ChanMove c i m { m with sendq } [.panicked i .unwrapNone]
  /-- A `recv` takes the head of the buffer. -/
  | pop {d buf} (hq : m.sendq = []) (hb : m.buf = d :: buf) :
      ChanMove c i m { m with buf }
        [.received c i (.fromBuf d), .returned i (.recv c (some d))]
  /-- A `recv` finds the channel closed and empty. -/
  | exhausted (hcl : m.closed = true) (hq : m.sendq = []) (hb : m.buf = []) :
      ChanMove c i m m [.received c i .closed, .returned i (.recv c none)]
  /-- A `recv` joins the `recvq`. -/
  | enqueueRecv (hcl : m.closed = false) (hq : m.sendq = []) (hb : m.buf = []) :
      ChanMove c i m { m with recvq := m.recvq ++ [i] } [.received c i .enqueued]
  /-- A `close` drains both queues. -/
  | close {es} (hcl : m.closed = false) (hes : ∀ e ∈ es, e = .returned i (.close c)) :
      ChanMove c i m { m with closed := true, recvq := [], sendq := [] }
        (.closed c i m.recvq m.sendq :: es)
  /-- A resumed receiver takes what was delivered to it. -/
  | collect :
      ChanMove c i m { m with delivered := m.delivered.erase i }
        [.returned i (.recv c (m.delivered.lookup i))]

/-! ### Which queues can hold something

The parts of a channel exclude each other: receivers wait only when there is nothing to take,
senders only behind a full buffer, and nobody on a closed channel. All laws about channels rest on
these exclusions.
-/

/-- The representation invariant of a channel. -/
structure ChanInner.Inv (m : ChanInner V) : Prop where
  fits : m.buf.length ≤ m.bufCap
  recvq : m.recvq ≠ [] → m.buf = [] ∧ m.sendq = [] ∧ m.closed = false
  sendq : m.sendq ≠ [] → m.buf.length = m.bufCap ∧ m.closed = false

/-- A new channel is empty and open. -/
theorem ChanInner.Inv.withCapacity (cap : Nat) : (Chan.withCapacity V cap).val.Inv :=
  ⟨Nat.zero_le _, fun h => absurd rfl h, fun h => absurd rfl h⟩

namespace ChanInner.Inv

variable {m : ChanInner V} (h : m.Inv)
include h

/-- Nobody waits to receive while somebody waits to send. -/
theorem recvq_nil_of_sendq (hq : m.sendq ≠ []) : m.recvq = [] := by
  by_contra hr
  exact hq (h.recvq hr).2.1

/-- Nobody waits to receive while the buffer holds a value. -/
theorem recvq_nil_of_buf (hb : m.buf ≠ []) : m.recvq = [] := by
  by_contra hr
  exact hb (h.recvq hr).1

/-- Nobody waits on a closed channel. -/
theorem queues_nil_of_closed (hcl : m.closed = true) : m.recvq = [] ∧ m.sendq = [] := by
  constructor <;> by_contra hq
  · have := (h.recvq hq).2.2
    rw [hcl] at this
    cases this
  · have := (h.sendq hq).2
    rw [hcl] at this
    cases this

/-- A sender waits only behind a full buffer, so the `unwrap` in `recv` finds a value. -/
theorem buf_ne_nil (hq : m.sendq ≠ []) (hcap : m.bufCap ≠ 0) : m.buf ≠ [] := by
  intro hb
  have := (h.sendq hq).1
  rw [hb] at this
  exact hcap this.symm

/-- **Each move keeps the representation invariant.** -/
theorem move {c : ChanId} {i : TaskId} {m' : ChanInner V} {es : List (Event V)}
    (hm : ChanMove c i m m' es) : m'.Inv := by
  cases hm with
  | deliver hcl hq =>
    -- a receiver leaves the queue, and nothing else changes
    have hr := h.recvq (by rw [hq]; simp)
    exact ⟨h.fits, fun _ => hr, h.sendq⟩
  | push hcl hq hb =>
    refine ⟨by simpa using Nat.succ_le_of_lt hb, fun hr => absurd hq hr, fun hs => ?_⟩
    have := (h.sendq hs).1
    omega
  | enqueueSend hcl hq hb =>
    exact ⟨h.fits, fun hr => absurd hq hr, fun _ => ⟨le_antisymm h.fits hb, hcl⟩⟩
  | take hq hcap =>
    have hs := h.sendq (by rw [hq]; simp)
    exact ⟨h.fits, fun hr => absurd (h.recvq_nil_of_sendq (by rw [hq]; simp)) hr, fun _ => hs⟩
  | refill hq hcap hb =>
    -- the value of the sender takes the place of the one that is received
    have hs := h.sendq (by rw [hq]; simp)
    have hfits := h.fits
    rw [hb] at hs hfits
    exact ⟨by simpa using hfits, fun hr => absurd (h.recvq_nil_of_sendq (by rw [hq]; simp)) hr,
      fun _ => ⟨by simpa using hs.1, hs.2⟩⟩
  | unwrap hq hcap hb => exact absurd hb (h.buf_ne_nil (by rw [hq]; simp) hcap)
  | pop hq hb =>
    have hfits := h.fits
    rw [hb] at hfits
    exact ⟨Nat.le_of_succ_le hfits, fun hr => absurd (h.recvq_nil_of_buf (by rw [hb]; simp)) hr,
      fun hs => absurd hq hs⟩
  | exhausted => exact h
  | enqueueRecv hcl hq hb => exact ⟨h.fits, fun _ => ⟨hb, hq, hcl⟩, h.sendq⟩
  | close => exact ⟨h.fits, fun hr => absurd rfl hr, fun hs => absurd rfl hs⟩
  | collect => exact ⟨h.fits, h.recvq, h.sendq⟩

end ChanInner.Inv

/-! ### Steps and moves

Of the many branches of a step few touch a channel, and each of these is one of the moves above and
logs one section. All later laws of channels are proved for the moves alone.
-/

/-- What a step does to the channel `c`: its contents stay and no section of `c` is logged, or
    the task `i` moves it. -/
inductive ChanEffect (c : ChanId) (i : TaskId) (sh sh' : Shared σ V) (m m' : Chan V) : Prop where
  | same (hv : m'.val = m.val)
      (hl : ∃ es, sh'.log = sh.log ++ es ∧ ∀ e ∈ es, e.chan? ≠ some c)
  | move {es} (hp : m.poisoned = false) (hm : ChanMove c i m.val m'.val es)
      (hl : sh'.log = sh.log ++ es)

section Effects

variable {c : ChanId} {i : TaskId} {sh sh' : Shared σ V} {m : Chan V}

/-- A step that does not touch the channels. -/
theorem ChanEffect.of_chans_eq (es : List (Event V)) (hm : sh.chans[c]? = some m)
    (hc : sh'.chans = sh.chans) (hl : sh'.log = sh.log ++ es) (hes : ∀ e ∈ es, e.chan? = none) :
    ∃ m', sh'.chans[c]? = some m' ∧ ChanEffect c i sh sh' m m' :=
  ⟨m, by rw [hc]; exact hm, .same rfl ⟨es, hl, fun e he h => by rw [hes e he] at h; cases h⟩⟩

/-- A step that replaces the channel `c'`. -/
theorem ChanEffect.of_set {c' : ChanId} {m₀ m₁ : Chan V} (es : List (Event V))
    (hm : sh.chans[c]? = some m) (hm₀ : sh.chans[c']? = some m₀)
    (hc : sh'.chans = sh.chans.set c' m₁) (hl : sh'.log = sh.log ++ es)
    (hes : ∀ e ∈ es, ∀ c, e.chan? = some c → c = c')
    (heff : ChanEffect c' i sh sh' m₀ m₁) :
    ∃ m', sh'.chans[c]? = some m' ∧ ChanEffect c i sh sh' m m' := by
  by_cases h : c' = c
  · subst h
    rw [hm] at hm₀
    cases hm₀
    exact ⟨m₁, by rw [hc, List.getElem?_set_self' , hm]; rfl, heff⟩
  · exact ⟨m, by rw [hc, List.getElem?_set_ne h, hm],
      .same rfl ⟨es, hl, fun e he hec => h (hes e he c hec).symm⟩⟩

end Effects

section Steps

variable {P : Program σ V} {ch : Choice} {free : Bool} {sh : Shared σ V} {t : Task σ V}
  {pc : Pc σ V} {e : Effect σ V} {c : ChanId} {m : Chan V}

/-- A panic leaves the channels alone. -/
theorem raise_chans (sh : Shared σ V) (p : Panic) (h : Handler σ) :
    (t.raise sh p h).sh.chans = sh.chans := by
  rw [raise_sh]; rfl

/-- `goready` leaves the channels alone. -/
theorem goready_chans (sh : Shared σ V) (waker : Waker) (id : TaskId) :
    (sh.goready waker id).1.chans = sh.chans :=
  framed_chans.goready sh waker id

/-- `goready` aborts nothing. -/
theorem goready_aborted (sh : Shared σ V) (waker : Waker) (id : TaskId) :
    (sh.goready waker id).1.aborted = sh.aborted :=
  framed_aborted.goready sh waker id

/-- `goready` logs events of the scheduler only. -/
theorem goready_ofWorker (sh : Shared σ V) (waker : Waker) (id : TaskId) :
    ∃ es, (sh.goready waker id).1.log = sh.log ++ es ∧ ∀ e ∈ es, e.ofWorker = true := by
  unfold Shared.goready
  split <;> exact ⟨_, rfl, by simp [Event.ofWorker]⟩

/-- `goready` logs no section of a channel. -/
theorem goready_log_chan (sh : Shared σ V) (waker : Waker) (id : TaskId) :
    ∃ es, (sh.goready waker id).1.log = sh.log ++ es ∧ ∀ e ∈ es, e.chan? = none := by
  obtain ⟨es, hl, hes⟩ := goready_ofWorker sh waker id
  exact ⟨es, hl, fun e he => chan?_of_ofWorker (hes e he)⟩

/-- **Each step of a task leaves a channel alone, or moves it.** -/
theorem TaskStep.chan (hs : TaskStep P ch free sh t e) (hm : sh.chans[c]? = some m) :
    ∃ m', e.sh.chans[c]? = some m' ∧ ChanEffect c t.id sh e.sh m m' := by
  cases hs with
  | chanClosed hs hm₀ hp hcl =>
    refine ChanEffect.of_set [_] hm hm₀ (raise_chans _ _ _) (raise_log _ _) (by simp [Event.chan?])
      (.same rfl ⟨[_], raise_log _ _, by simp [Event.chan?]⟩)
  | recvUnwrap hc hx hm₀ hp hq hcap hb =>
    exact ChanEffect.of_set [_] hm hm₀ (raise_chans _ _ _) (raise_log _ _) (by simp [Event.chan?])
      (.move hp (.unwrap hq hcap hb) (raise_log _ _))
  | sendDelivered hc hx hm₀ hp hcl hq =>
    exact ChanEffect.of_set _ hm hm₀ rfl rfl (by simp [Event.chan?])
      (.move hp (.deliver hcl hq) rfl)
  | sendBuffered hc hx hm₀ hp hcl hq hb =>
    exact ChanEffect.of_set _ hm hm₀ rfl rfl (by simp [Event.chan?])
      (.move hp (.push hcl hq hb) rfl)
  | sendEnqueued hc hx hm₀ hp hcl hq hb =>
    exact ChanEffect.of_set _ hm hm₀ rfl rfl (by simp [Event.chan?])
      (.move hp (.enqueueSend hcl hq hb) rfl)
  | recvTake hc hx hm₀ hp hq hcap =>
    exact ChanEffect.of_set _ hm hm₀ rfl rfl (by simp [Event.chan?])
      (.move hp (.take hq hcap) rfl)
  | recvRefill hc hx hm₀ hp hq hcap hb =>
    exact ChanEffect.of_set _ hm hm₀ rfl rfl (by simp [Event.chan?])
      (.move hp (.refill hq hcap hb) rfl)
  | recvBuf hc hx hm₀ hp hq hb =>
    exact ChanEffect.of_set _ hm hm₀ rfl rfl (by simp [Event.chan?])
      (.move hp (.pop hq hb) rfl)
  | recvEnqueued hc hx hm₀ hp hcl hq hb =>
    exact ChanEffect.of_set _ hm hm₀ rfl rfl (by simp [Event.chan?])
      (.move hp (.enqueueRecv hcl hq hb) rfl)
  | close hc hx hm₀ hp hcl =>
    rw [finish_sh, Shared.record_record]
    refine ChanEffect.of_set _ hm hm₀ rfl rfl ?_ (.move hp (.close hcl ?_) rfl)
    · split <;> simp [Event.chan?]
    · split <;> simp
  | resumeRecv hc hm₀ hp =>
    exact ChanEffect.of_set _ hm hm₀ rfl rfl (by simp [Event.chan?]) (.move hp .collect rfl)
  -- the panics that leave the channels alone
  | chanPoisoned | groupPanic | sleepOverflow | netFail =>
    exact ChanEffect.of_chans_eq [_] hm (raise_chans _ _ _) (raise_log _ _) (by simp [Event.chan?])
  -- the section writes back what it has read
  | recvClosed hc hx hm₀ hp hcl hq hb =>
    refine ChanEffect.of_set _ hm hm₀ (Slots.set_of_getElem? hm₀).symm rfl (by simp [Event.chan?])
      (.move hp (.exhausted hcl hq hb) rfl)
  | add =>
    rw [finish_sh, Shared.record_record]
    refine ChanEffect.of_chans_eq _ hm rfl rfl ?_
    split <;> simp [Event.chan?]
  | goready | wakeMore =>
    obtain ⟨es, hl, hes⟩ := goready_log_chan sh _ _
    exact ChanEffect.of_chans_eq es hm (goready_chans _ _ _) hl hes
  | wakeLast =>
    obtain ⟨es, hl, hes⟩ := goready_log_chan sh (.task t.id) _
    refine ChanEffect.of_chans_eq (es ++ [_]) hm (goready_chans _ _ _)
      ((congrArg (· ++ [_]) hl).trans (List.append_assoc _ _ _)) ?_
    intro ev hev
    rcases List.mem_append.mp hev with hev | hev
    · exact hes ev hev
    · rw [List.mem_singleton.mp hev]; rfl
  | go | gosched | currentTaskId | sleep | netAdd | ioSpawn | ioBlock | gopark | wakeNil
  | spawnWorker | threadSpawn | blocking | park | resumeNet | resumeGopark =>
    exact ChanEffect.of_chans_eq [] hm rfl (List.append_nil _).symm (by simp)
  | entry | waitZero | waitJoin | done | goPush | sleepPush | registerRead | unregister
  | resumeSleep | resumeSend | resumeWait =>
    exact ChanEffect.of_chans_eq _ hm rfl rfl (by simp [Event.chan?])

end Steps

/-! ### The invariant rule

What the moves keep, every run keeps. A law names the channel's contents and the history; it has to
survive the moves of its channel, and events that are about something else.
-/

/-- A step that leaves the channels alone. -/
structure Shared.SameChans (sh sh' : Shared σ V) : Prop where
  chans : sh'.chans = sh.chans
  log : ∃ es, sh'.log = sh.log ++ es ∧ ∀ e ∈ es, e.ofWorker = true

/-- States with the same channels and the same history. -/
theorem Shared.SameChans.of_log {sh sh' : Shared σ V} (hc : sh'.chans = sh.chans)
    (hl : sh'.log = sh.log) : sh.SameChans sh' :=
  ⟨hc, [], by simp [hl], by simp⟩

/-- `pop_front` leaves the channels alone, and logs a dispatch at most. -/
theorem tryPop_chans {sh sh₀ : Shared σ V} (otherwise : Pc σ V) (hc : sh.chans = sh₀.chans)
    (hl : sh.log = sh₀.log) : sh₀.SameChans (tryPop sh otherwise).sh := by
  unfold tryPop
  split
  · exact .of_log hc hl
  · exact ⟨hc, [_], congrArg (· ++ [_]) hl, by simp [Event.ofWorker]⟩

/-- Outside tasks no step of a worker touches a channel. -/
theorem WorkerStep.sameChans {P : Program σ V} {ch : Choice} {free : Bool} {sh : Shared σ V}
    {pc : Pc σ V} {e : Effect σ V} (hs : WorkerStep P ch free sh pc e)
    (hpc : ∀ t, pc ≠ .run t) : sh.SameChans e.sh := by
  cases hs with
  | run => exact absurd rfl (hpc _)
  | timersReady | wakeReady => exact ⟨goready_chans _ _ _, goready_ofWorker _ _ _⟩
  | lookup =>
    refine ⟨rfl, _, rfl, fun e he => ?_⟩
    obtain ⟨x, -, rfl⟩ := List.mem_map.mp he
    rfl
  | timersPop => exact ⟨rfl, [_], rfl, by simp [Event.ofWorker]⟩
  | top | termNetYes | termStay => exact tryPop_chans _ rfl rfl
  | notified =>
    simp only [wakeStep]
    split
    · exact .of_log rfl rfl
    · exact tryPop_chans _ rfl rfl
  | goIdle =>
    simp only [idleStep]
    split <;> exact .of_log rfl rfl
  | park =>
    unfold Shared.parkTask
    split
    · exact ⟨rfl, [_], rfl, by simp [Event.ofWorker]⟩
    · exact .of_log rfl rfl
  | _ => exact .of_log rfl rfl

/-- Only a task aborts the process. -/
theorem WorkerStep.aborted {P : Program σ V} {ch : Choice} {free : Bool} {sh : Shared σ V}
    {pc : Pc σ V} {e : Effect σ V} (hs : WorkerStep P ch free sh pc e)
    (hpc : ∀ t, pc ≠ .run t) : e.sh.aborted = sh.aborted :=
  hs.framed framed_aborted hpc

/-- **A step that aborts the process** is a panic that nobody catches: the task stays where it is,
    the scheduler is as it was, and the panic is the last event. -/
theorem TaskStep.aborts {P : Program σ V} {ch : Choice} {free : Bool} {sh : Shared σ V}
    {t : Task σ V} {e : Effect σ V} {p : Panic} (hs : TaskStep P ch free sh t e)
    (ha : sh.aborted = none) (hp : e.sh.aborted = some p) :
    e.pc = .run t ∧ e.sh.queue = sh.queue ∧ e.sh.log = sh.log ++ [.panicked t.id p] := by
  have hraise : ∀ {sh' : Shared σ V} {q : Panic} {h : Handler σ}, sh'.aborted = sh.aborted →
      sh'.queue = sh.queue → sh'.log = sh.log → (t.raise sh' q h).sh.aborted = some p →
      (t.raise sh' q h).pc = .run t ∧ (t.raise sh' q h).sh.queue = sh.queue ∧
        (t.raise sh' q h).sh.log = sh.log ++ [.panicked t.id p] := by
    intro sh' q h hab hq hl hp
    obtain ⟨rfl, rfl⟩ := raise_aborts hp (hab.trans ha)
    exact ⟨rfl, by rw [raise_queue, hq], by rw [raise_log, hl]⟩
  have hquiet : ∀ {sh' : Shared σ V}, sh'.aborted = sh.aborted → sh'.aborted ≠ some p := by
    intro sh' h
    rw [h, ha]
    simp
  cases hs with
  | chanPoisoned | chanClosed | recvUnwrap | groupPanic | netFail | sleepOverflow =>
    exact hraise rfl rfl rfl hp
  | close => exact absurd hp (hquiet (by rw [finish_sh]; rfl))
  | add => exact absurd hp (hquiet (by rw [finish_sh]; rfl))
  | goready | wakeMore | wakeLast => exact absurd hp (hquiet (goready_aborted _ _ _))
  | _ => exact absurd hp (hquiet rfl)

/-- **Each step of a worker leaves a channel alone, or moves it.** -/
theorem WorkerStep.chan {P : Program σ V} {ch : Choice} {free : Bool} {sh : Shared σ V}
    {pc : Pc σ V} {e : Effect σ V} {c : ChanId} {m : Chan V}
    (hs : WorkerStep P ch free sh pc e) (hm : sh.chans[c]? = some m) :
    ∃ i m', e.sh.chans[c]? = some m' ∧ ChanEffect c i sh e.sh m m' := by
  rcases hs.task_or with ⟨t, rfl, htask⟩ | hpc
  · exact ⟨_, htask.chan hm⟩
  · have hsame := hs.sameChans hpc
    obtain ⟨es, hl, hes⟩ := hsame.log
    exact ⟨0, ChanEffect.of_chans_eq es hm hsame.chans hl fun e he => chan?_of_ofWorker (hes e he)⟩

/-- No step makes or drops a channel. -/
theorem TaskStep.length_chans {P : Program σ V} {ch : Choice} {free : Bool} {sh : Shared σ V}
    {t : Task σ V} {e : Effect σ V} (hs : TaskStep P ch free sh t e) :
    e.sh.chans.length = sh.chans.length := by
  cases hs <;>
    simp [raise_chans, finish_sh, goready_chans, Shared.setChan, Shared.setGroup, Shared.record,
      Shared.withQueue, Shared.pushNew]

/-- No step creates or removes a channel. -/
theorem WorkerStep.length_chans {P : Program σ V} {ch : Choice} {free : Bool} {sh : Shared σ V}
    {pc : Pc σ V} {e : Effect σ V} (hs : WorkerStep P ch free sh pc e) :
    e.sh.chans.length = sh.chans.length := by
  rcases hs.task_or with ⟨t, rfl, htask⟩ | hpc
  · exact htask.length_chans
  · rw [(hs.sameChans hpc).chans]

/-- **Invariant rule for a channel.**  What holds of a fresh channel with an empty history, and
    survives every move as well as events that are not about it, holds of every channel in
    every state reached. -/
theorem chan_invariant {P : Program σ V} {ok : Act → State σ V → Prop} (c : ChanId)
    {I : ChanInner V → List (Event V) → Prop}
    (h0 : ∀ cap, I (Chan.withCapacity V cap).val [])
    (hquiet : ∀ m log es, I m log → (∀ e ∈ es, e.chan? ≠ some c) → I m (log ++ es))
    (hmove : ∀ i m m' log es, m.Inv → I m log → ChanMove c i m m' es → I m' (log ++ es))
    {s : State σ V} (hr : (runtime P).Reach ok s) {m : Chan V} (hm : s.sh.chans[c]? = some m) :
    m.val.Inv ∧ I m.val s.sh.log := by
  have h : ∀ m, s.sh.chans[c]? = some m → m.val.Inv ∧ I m.val s.sh.log := by
    refine shared_invariant (I := fun sh => ∀ m, sh.chans[c]? = some m → m.val.Inv ∧ I m.val sh.log)
      ?_ ?_ ?_ ?_ hr
    · intro caps groups calls m hm
      simp only [State.initial, List.getElem?_map, Option.map_eq_some_iff] at hm
      obtain ⟨cap, -, rfl⟩ := hm
      exact ⟨.withCapacity cap, h0 cap⟩
    · intro sh sh' hsame h m hm
      rw [hsame.chans] at hm
      rw [hsame.log]
      exact h m hm
    · intro id f sh h m hm
      exact ⟨(h m hm).1, hquiet _ _ _ (h m hm).2 (by simp [Event.chan?])⟩
    · intro s ch pc e _ h _ hs m' hm'
      -- the channel was there before the step: no step creates one
      have hlt : c < s.sh.chans.length := by
        rw [← hs.length_chans]
        exact (List.getElem?_eq_some_iff.mp hm').1
      obtain ⟨i, m₁, hm₁, heff⟩ := hs.chan (List.getElem?_eq_getElem hlt)
      obtain ⟨hinv, hi⟩ := h _ (List.getElem?_eq_getElem hlt)
      rw [hm'] at hm₁
      cases hm₁
      cases heff with
      | same hv hl =>
        obtain ⟨es, hl, hes⟩ := hl
        rw [hv, hl]
        exact ⟨hinv, hquiet _ _ _ hi hes⟩
      | move _ hm hl =>
        rw [hl]
        exact ⟨hinv.move hm, hmove _ _ _ _ _ hinv hi hm⟩
  exact h m hm

/-- Every channel has the representation invariant in every state reached. -/
theorem reach_chanInv {P : Program σ V} {ok : Act → State σ V → Prop} {s : State σ V}
    (hr : (runtime P).Reach ok s) {c : ChanId} {m : Chan V} (hm : s.sh.chans[c]? = some m) :
    m.val.Inv :=
  (chan_invariant c (I := fun _ _ => True) (fun _ => trivial) (fun _ _ _ _ _ => trivial)
    (fun _ _ _ _ _ _ _ _ => trivial) hr hm).1

end MyGoroutine
