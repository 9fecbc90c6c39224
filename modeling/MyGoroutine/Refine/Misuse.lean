import MyGoroutine.Chan.Outcome
import MyGoroutine.Refine.Rest
import MyGoroutine.Timers.Sleep

namespace MyGoroutine

/-!
# When the process aborts

A panic that nobody catches aborts the process.  In the network there are no panics: a process
that comes to a `send` or a `close` of a closed channel, or to an `add` that would make a counter
negative, is stuck there.  The runtime aborts only where the network has such a process, and with
the panic of its operation, or when a counter leaves the `i32`, when the kernel refuses an fd, when
a `sleep` goes on for longer than the clock can tell, or when a `close` comes between a `recv` that
takes a waiter and the sender's second section.

* `Abort`, `abort_inv` — the steps that abort the process;
* `Misuse`, `Abort.cause`, `abort_cause` — what has led to them;
* `Code.sendsOn`, `reach_owned` — with owners, only the owner of a channel is parked in its `send`;
* `reach_keepsAccepted` — and so no `close` comes in the gap.
-/

open Network (Cmd Proc Config network)

variable {σ V : Type}

/-- The panic of an operation that finds the channel closed. -/
def closedPanic : Cmd σ ChanId V → Panic
  | .close _ _ => .closeOfClosed
  | _ => .sendOnClosed

/-- The panic of an `add` that would bring the counter to `n`, which is negative or no `i32`. -/
def countPanic (overflowChecks : Bool) (n : Int) : Panic :=
  if overflowChecks = true ∧ 2 ^ 31 ≤ n then .addOverflow else .negativeCounter

section Abort

variable {P : Program σ V} {ch : Choice} {free : Bool} {sh : Shared σ V} {t : Task σ V}
  {e : Effect σ V} {p : Panic}

/-- The section of an `add` that leaves the range of the counter. -/
theorem WaitGroupInner.add_panic {m inner : WaitGroupInner} {overflowChecks : Bool} {d : Int32}
    (h0 : 0 ≤ m.counter.toInt) (h : m.add overflowChecks d = (inner, .error p)) :
    (m.counter.toInt + d.toInt < 0 ∨ 2 ^ 31 ≤ m.counter.toInt + d.toInt) ∧
      p = countPanic overflowChecks (m.counter.toInt + d.toInt) := by
  have hd := d.le_toInt
  have hspec := add_spec overflowChecks d h0
  split at hspec
  · obtain ⟨m', woken, hadd, -⟩ := hspec
    rw [h] at hadd
    cases hadd
  · next hout =>
    refine ⟨by omega, ?_⟩
    have hfits : addFits m.counter d = true ↔ m.counter.toInt + d.toInt < 2 ^ 31 := by
      simp only [addFits, Bool.and_eq_true, decide_eq_true_eq]
      omega
    unfold countPanic
    simp only [WaitGroupInner.add, Bool.and_eq_true, Bool.not_eq_true', ← Bool.not_eq_true] at h
    split at h
    · next hover =>
      cases h
      exact (if_pos ⟨hover.1, not_lt.mp (mt hfits.mpr hover.2)⟩).symm
    · next hover =>
      split at h
      · cases h
        exact (if_neg fun hc => hover ⟨hc.1, fun hf => absurd (hfits.mp hf) (not_lt.mpr hc.2)⟩).symm
      · split at h <;> cases h

/-- An `add` that aborts the process leaves the range of the counter. -/
theorem addStep_abort {overflowChecks : Bool} {g : GroupId} {d : Int32} {k : σ}
    (hs : addStep overflowChecks t g d k none sh = some e) (hcount : sh.Counts)
    (ha : sh.aborted = none) (hp : e.sh.aborted = some p) :
    ∃ m, sh.groups[g]? = some m ∧
      (m.val.counter.toInt + d.toInt < 0 ∨ 2 ^ 31 ≤ m.val.counter.toInt + d.toInt) ∧
      p = countPanic overflowChecks (m.val.counter.toInt + d.toInt) := by
  cases hm : sh.groups[g]? with
  | none => simp [addStep, Shared.lockGroup, hm] at hs
  | some m =>
    obtain ⟨hpois, h0⟩ := hcount g m hm
    refine ⟨m, rfl, ?_⟩
    cases hadd : m.val.add overflowChecks d with
    | mk inner r =>
      simp only [addStep, Shared.lockGroup, hm, Option.map_some, Mutex.lock, hpois, hadd,
        Bool.false_eq_true, if_false] at hs
      cases r with
      | ok woken =>
        cases hs
        rw [finish_sh] at hp
        exact absurd (ha.symm.trans hp) (by simp)
      | error q =>
        cases hs
        rw [raise_sh] at hp
        cases hp
        exact WaitGroupInner.add_panic h0 hadd

/-- No `wait` aborts the process. -/
theorem waitStep_abort {g : GroupId} {k : σ} {h : Handler σ}
    (hs : waitStep t g k h sh = some e) (hcount : sh.Counts) (ha : sh.aborted = none) :
    e.sh.aborted = none := by
  cases hm : sh.groups[g]? with
  | none => simp [waitStep, Shared.lockGroup, hm] at hs
  | some m =>
    obtain ⟨hpois, -⟩ := hcount g m hm
    obtain ⟨inner, park, hwait, -⟩ := wait_spec (m := m.val) t.id
    simp only [waitStep, Shared.lockGroup, hm, Option.map_some, Mutex.lock, hpois, hwait,
      Bool.false_eq_true, if_false] at hs
    cases park <;> cases hs <;> exact ha

/-- A step of the task `t` that aborts the process. -/
inductive Abort (P : Program σ V) (sh : Shared σ V) (t : Task σ V) : Panic → Prop where
  /-- A section for senders that finds its channel closed. -/
  | closed {c h m sec} (hs : ChanCall P t c h sec) (hm : sh.chans[c]? = some m)
      (hcl : m.val.closed = true) (hsec : sec ≠ .recv ∧ sec ≠ .recvResume) :
      Abort P sh t sec.closedPanic
  /-- An `add` that leaves the range of the counter. -/
  | counter {x g d k h m n} (hc : t.code = .user x) (hx : P.code x = .add g d k h)
      (hm : sh.groups[g]? = some m) (hn : n = m.val.counter.toInt + d.toInt)
      (hout : n < 0 ∨ 2 ^ 31 ≤ n) : Abort P sh t (countPanic P.overflowChecks n)
  /-- An `epoll_ctl` that fails. -/
  | refused {x fd k h} (hc : t.code = .user x) (hx : P.code x = .netPollRead fd k h) :
      Abort P sh t .epollAddFailed
  /-- A `sleep` up to a time that is no `Instant`. -/
  | endless {x d k h} (hc : t.code = .user x) (hx : P.code x = .sleep d k h)
      (hd : Instant.last < sh.clock + d) : Abort P sh t .instantOverflow

/-- **Inversion of an abort.** -/
theorem abort_inv (hs : taskStep P ch free t sh = some e)
    (hinv : ∀ (c : ChanId) (m : Chan V), sh.chans[c]? = some m → m.val.Inv)
    (hunp : sh.Unpoisoned) (hcount : sh.Counts) (ha : sh.aborted = none)
    (hp : e.sh.aborted = some p) :
    Abort P sh t p ∧ e.pc = .run t ∧ e.sh.log = sh.log ++ [.panicked t.id p] := by
  have hquiet : ∀ {sh' : Shared σ V}, sh'.aborted = sh.aborted → sh'.aborted ≠ some p := by
    intro sh' h
    rw [h, ha]
    simp
  obtain ⟨hpc, -, hlog⟩ := (taskStep_inv hs).aborts ha hp
  refine ⟨?_, hpc, hlog⟩
  clear hpc hlog
  cases taskStep_inv hs with
  | chanClosed hcall hm hpois hcl hsec =>
    obtain ⟨-, rfl⟩ := raise_aborts hp ha
    exact .closed hcall hm hcl hsec
  -- the panics of a poisoned mutex and of the `unwrap` do not happen
  | chanPoisoned hc hm hpois =>
    rw [hunp _ (List.mem_of_getElem? hm)] at hpois
    cases hpois
  | recvUnwrap hc hx hm hpois hsq hcap hb =>
    exact absurd hb ((hinv _ _ hm).buf_ne_nil (by rw [hsq]; simp) hcap)
  | @groupPanic x g k h m m' q hc hx =>
    obtain ⟨rfl, -⟩ := raise_aborts hp ha
    rcases hx with ⟨d, hx⟩ | hx
    · simp only [taskStep, hc, opStep, hx] at hs
      obtain ⟨m₀, hm₀, hout, rfl⟩ := addStep_abort hs hcount ha hp
      exact .counter hc hx hm₀ rfl hout
    · simp only [taskStep, hc, opStep, hx] at hs
      rw [waitStep_abort hs hcount ha] at hp
      cases hp
  | netFail hc hx =>
    obtain ⟨-, rfl⟩ := raise_aborts hp ha
    exact .refused hc hx
  | sleepOverflow hc hx hd =>
    obtain ⟨-, rfl⟩ := raise_aborts hp ha
    exact .endless hc hx hd
  | close => exact absurd hp (hquiet (by rw [finish_sh]; rfl))
  | add => exact absurd hp (hquiet (by rw [finish_sh]; rfl))
  | goready | wakeMore | wakeLast => exact absurd hp (hquiet (goready_aborted _ _ _))
  | _ => exact absurd hp (hquiet rfl)

/-- **A task that is about to abort the process** is at a process that misuses a channel, or it is
    a sender whose waiter was taken. -/
theorem Code.Stands.misused {a : Config σ ChanId V} {c : ChanId} {h : Handler σ} {m : Chan V}
    {sec : ChanSection} (hst : t.code.Stands P sh a.proc t.id) (hchan : a.chan = sh.view)
    (hs : ChanCall P t c h sec) (hm : sh.chans[c]? = some m) (hcl : m.val.closed = true)
    (hsec : sec ≠ .recv ∧ sec ≠ .recvResume)
    (hq : t.code.settles = true → (sh.status t.id).queue? = none) :
    (∃ x, a.Misused t.id x ∧ closedPanic x = sec.closedPanic) ∨
      (sec.closedPanic = .sendOnClosed ∧ sh.status t.id = .released (.sendq c) .taken) := by
  have hb : a.chan c = some (m.val.view (matched c sh.log)) := by rw [hchan, view_eq hm]
  cases hs with
  | recv => exact absurd rfl hsec.1
  | recvResume => exact absurd rfl hsec.2
  | send hc hx => exact .inl ⟨_, ⟨hst.of_user hc hx, c, _, rfl, hb, hcl⟩, rfl⟩
  | close hc hx => exact .inl ⟨_, ⟨hst.of_user hc hx, c, _, rfl, hb, hcl⟩, rfl⟩
  | sendResume hc =>
    rw [hc] at hst hq
    cases hst with
    | parked hpark =>
      generalize hproc : a.proc t.id = y at hpark
      cases hpark with
      | sending hst =>
        have := hq rfl
        rw [hst] at this
        cases this
      | refused => exact .inl ⟨_, ⟨hproc, c, _, rfl, hb, hcl⟩, rfl⟩
      | accepted hst => exact .inr ⟨rfl, hst⟩

end Abort

/-- The step of a running task. -/
theorem next_run {s s' : State σ V} {w : Nat}
    (hn : (runtime P).next (.worker w ch) s = some s') (hw : s.workers[w]? = some (.run t)) :
    ∃ e, taskStep P ch (queueFree s.workers) t s.sh = some e ∧ WorkerMove s s' w (.run t) e := by
  simp only [runtime, next] at hn
  split at hn
  · cases hn
  · rw [hw, Option.bind_some] at hn
    obtain ⟨e, he, happly⟩ := Option.bind_eq_some_iff.mp hn
    obtain ⟨ws, hws, rfl⟩ := Option.map_eq_some_iff.mp happly
    exact ⟨e, he, (applyNotify_inv hws).workerMove hw⟩

section Runs

variable {P : Program σ V} {caps : List Nat} {groups : Nat} {calls : List (MainOp σ)}
  {s : State σ V} {ok : Act → State σ V → Prop}

/-- What has led to the panic `p` of the task `i`, seen in the network. -/
inductive Misuse (P : Program σ V) (a : Config σ ChanId V) (i : TaskId) : Panic → Prop where
  /-- It is at a `send` or a `close` of a closed channel. -/
  | closed {x} (h : a.Misused i x) : Misuse P a i (closedPanic x)
  /-- It is at an `add` that would make the counter negative, or larger than an `i32`. -/
  | counter {g d k n} (hp : a.proc i = .live (.add g d k)) (hn : a.counter g = some n)
      (hout : n + d < 0 ∨ 2 ^ 31 ≤ n + d) : Misuse P a i (countPanic P.overflowChecks (n + d))

/-- Where the process was when it aborted. -/
theorem exists_abort (hP : P.Structured) (hB : P.Bare) (hok : ∀ a s, ok a s → FreshPolls a s)
    (hr : ((runtime P).startingAt (.initial caps groups calls)).Reach ok s) {p : Panic}
    (hp : s.sh.aborted = some p) :
    ∃ s₀ a t, (runtime P).Reach ok s₀ ∧ (P.network caps groups calls).Reachable a ∧
      s₀.Mirrors P a ∧ .run t ∈ s.workers ∧ Abort P s₀.sh t p ∧ t.code.Stands P s₀.sh a.proc t.id ∧
      (t.code.settles = true → (s₀.sh.status t.id).queue? = none) ∧
      s.sh.log = s₀.sh.log ++ [.panicked t.id p] ∧ s.sh.clock = s₀.sh.clock := by
  cases hr with
  | init h0 =>
    cases h0
    cases hp
  | @step s s' act hr hok' hn =>
    have hreach := System.startingAt_reach
      (show (runtime P).init (.initial caps groups calls) from ⟨caps, groups, calls, rfl⟩) hr
    obtain ⟨ha, hnext⟩ := next_inv hn
    obtain ⟨a, hareach, h⟩ := reach_mirrors hP hB (hr.mono hok) ha
    have hd := reach_disciplined hP hok hreach
    have hsh := reach_shaped hreach
    rcases hnext.cases with ⟨w, ch, pc, e, rfl, hw, hs, hmove⟩ | ⟨ho, -⟩
    · rcases hs.task_or with ⟨t, rfl, htask⟩ | hpc
      · have hlive : s.Live t := .inr ⟨_, List.mem_of_getElem? hw, rfl,
          (hsh.workers _ (List.mem_of_getElem? hw)).run⟩
        obtain ⟨e', hstep, hmove⟩ := next_run hn hw
        rw [hmove.sh] at hp ⊢
        obtain ⟨habort, hpc, hlog⟩ := abort_inv hstep
          (fun c m hm => reach_chanInv hreach hm) (reach_unpoisoned hB.uncaught hreach ha)
          (reach_counts hB hreach ha) ha hp
        have hrun := hmove.at_ (by rw [hpc]; simp)
        rw [hpc] at hrun
        exact ⟨s, a, t, hreach, hareach, h, List.mem_of_getElem? hrun, habort, h.tasks t hlive,
          fun hc => hd.queue?_of_settles hsh (reach_placed hreach) hw rfl hc, hlog,
          (taskStep_inv hstep).clock⟩
      · rw [hmove.sh, hs.aborted hpc, ha] at hp
        cases hp
    · rw [ho.aborted, ha] at hp
      cases hp

/-- Nobody runs in a stalled state, so the process has not aborted. -/
theorem State.Stalled.not_aborted (hst : s.Stalled) (hP : P.Structured) (hB : P.Bare)
    (hok : ∀ a s, ok a s → FreshPolls a s)
    (hr : ((runtime P).startingAt (.initial caps groups calls)).Reach ok s) :
    s.sh.aborted = none := by
  by_contra hne
  obtain ⟨p, hp⟩ := Option.ne_none_iff_exists'.mp hne
  obtain ⟨s₀, a, t, -, -, -, hrun, -, -, -, hlog, -⟩ := exists_abort hP hB hok hr hp
  have hsh := reach_shaped (System.startingAt_reach
    (show (runtime P).init (.initial caps groups calls) from ⟨caps, groups, calls, rfl⟩) hr)
  -- the task that has panicked is still there, and waits for nothing
  obtain ⟨src, hq, -⟩ := hst.tasks t (.inr ⟨_, hrun, rfl, (hsh.workers _ hrun).run⟩)
  rw [status_append_one hlog, show (Event.panicked t.id p).update t.id _ = Status.idle from
    if_pos rfl] at hq
  cases hq

/-- The causes of an abort, seen in the network and in the history. -/
theorem Abort.cause {s₀ : State σ V} {a : Config σ ChanId V} {t : Task σ V} {p : Panic}
    (h : Abort P s₀.sh t p) (hm : s₀.Mirrors P a) (hst : t.code.Stands P s₀.sh a.proc t.id)
    (hq : t.code.settles = true → (s₀.sh.status t.id).queue? = none) :
    Misuse P a t.id p ∨
      (p = .sendOnClosed ∧ ∃ c m, s₀.sh.chans[c]? = some m ∧ m.val.closed = true ∧
        s₀.sh.status t.id = .released (.sendq c) .taken) ∨
      (p = .epollAddFailed ∧ ∃ x fd k h, t.code = .user x ∧ P.code x = .netPollRead fd k h) ∨
      (p = .instantOverflow ∧ ∃ x d k h, t.code = .user x ∧ P.code x = .sleep d k h ∧
        Instant.last < s₀.sh.clock + d) := by
  cases h with
  | closed hs hc hcl hsec =>
    rcases hst.misused hm.chan hs hc hcl hsec hq with ⟨x, hmis, hx⟩ | ⟨hp, hst⟩
    · exact .inl (hx ▸ .closed hmis)
    · exact .inr (.inl ⟨hp, _, _, hc, hcl, hst⟩)
  | counter hc hx hg hn hout =>
    subst hn
    exact .inl (.counter (hst.of_user hc hx) (by rw [hm.counter, tally_eq hg]) hout)
  | refused hc hx => exact .inr (.inr (.inl ⟨rfl, _, _, _, _, hc, hx⟩))
  | endless hc hx hd => exact .inr (.inr (.inr ⟨rfl, _, _, _, _, hc, hx, hd⟩))

/-- Without a `close` in the gap, the network of a basic program has come to a misuse, or a task
    sleeps for too long. -/
theorem reach_misused (hP : P.Basic) (hB : P.Bare)
    (hr : ((runtime P).startingAt (.initial caps groups calls)).Reach (KeepsAccepted P) s)
    {p : Panic} (hp : s.sh.aborted = some p) :
    (p = .instantOverflow ∧ ∃ x d k h, P.code x = .sleep d k h ∧ Instant.last < s.sh.clock + d) ∨
      ∃ a i x, (P.network caps groups calls).Reachable a ∧ a.Misused i x := by
  have hinit : (runtime P).init (.initial caps groups calls) := ⟨caps, groups, calls, rfl⟩
  obtain ⟨s₀, a, t, hr₀, hareach, h, -, habort, hst, hq, -, hclock⟩ :=
    exists_abort hP.structured hB (fun _ _ h => h.2) (hr.and fun a s hr =>
      (reach_basic hP (System.startingAt_reach hinit hr)).freshPolls a) hp
  have hop : ∀ {x op}, P.code x = op → op.basic = true := fun {x op} hx => hx ▸ hP x
  cases habort with
  | counter hc hx | refused hc hx => cases hop hx
  | endless hc hx hd => exact .inl ⟨rfl, _, _, _, _, hx, hclock ▸ hd⟩
  | closed hs hm hcl hsec =>
    rcases hst.misused h.chan hs hm hcl hsec hq with ⟨x, hmis, -⟩ | ⟨-, hst⟩
    · exact .inr ⟨a, t.id, x, hareach, hmis⟩
    · -- a `recv` has taken the waiter, so the channel is open
      rw [reach_accepts (fun _ _ h => h.1) hr₀ _ _ hm t.id hst] at hcl
      cases hcl

/-- **What aborts the process.**  In every run with fresh polls, whatever its interleaving: when a
    panic has aborted the process, then the network of the program comes to a configuration in
    which the panicking task is at a `send` or a `close` of a closed channel, or at an `add` that
    leaves the range of the counter, and the panic is that of the operation; or the task was parked
    in a `send` and a `recv` had taken its waiter before the channel was closed; or the kernel
    has refused the fd of a `net_poll_read`, which the task is still running; or the task has called
    `sleep`, and the time at which it would wake up is no `Instant`. -/
theorem abort_cause (hP : P.Structured) (hB : P.Bare)
    (hr : ((runtime P).startingAt (.initial caps groups calls)).Reach FreshPolls s) {p : Panic}
    (hp : s.sh.aborted = some p) :
    ∃ i log, s.sh.log = log ++ [.panicked i p] ∧
      ((∃ a, (P.network caps groups calls).Reachable a ∧ Misuse P a i p) ∨
      (p = .sendOnClosed ∧ ∃ c r v d,
        TakenOut i (.sendq c) .taken (.received c r (.fromSender ⟨i, v⟩ d)) log) ∨
      (p = .epollAddFailed ∧ ∃ t x fd k h, .run t ∈ s.workers ∧ t.id = i ∧ t.code = .user x ∧
        P.code x = .netPollRead fd k h) ∨
      (p = .instantOverflow ∧ ∃ t x d k h, .run t ∈ s.workers ∧ t.id = i ∧ t.code = .user x ∧
        P.code x = .sleep d k h ∧ Instant.last < s.sh.clock + d)) := by
  obtain ⟨s₀, a, t, hr₀, hareach, h, hrun, habort, hst, hq, hlog, hclock⟩ :=
    exists_abort hP hB (fun _ _ h => h) hr hp
  refine ⟨t.id, s₀.sh.log, hlog, ?_⟩
  rcases habort.cause h hst hq with hmis | ⟨hp, c, m, -, -, hst⟩ | ⟨hp, x, fd, k, hd, hc, hx⟩ |
    ⟨hp, x, d, k, hd, hc, hx, hlast⟩
  · exact .inl ⟨a, hareach, hmis⟩
  · refine .inr (.inl ⟨hp, ?_⟩)
    rcases released_sendq (reach_lawful hP (fun _ _ h => h) hr₀) hst with
      ⟨-, r, v, d, ht⟩ | ⟨hwhy, -⟩
    · exact ⟨c, r, v, d, ht⟩
    · cases hwhy
  · exact .inr (.inr (.inl ⟨hp, t, x, fd, k, hd, hrun, rfl, hc, hx⟩))
  · exact .inr (.inr (.inr ⟨hp, t, x, d, k, hd, hrun, rfl, hc, hx, hclock ▸ hlast⟩))

/-- The sender of `acceptedProgram`, whose waiter the receiver takes before it closes the channel,
    aborts the process. -/
theorem abort_cause_accepted :
    ∃ s, ((runtime acceptedProgram).startingAt
        (.initial [0] 0 [.go 0, .go 1, .startRuntime 1])).run
        (List.replicate 7 (.main {}) ++ List.replicate 15 (.worker 0 {}))
        (.initial [0] 0 [.go 0, .go 1, .startRuntime 1]) = some s ∧
      ∃ i log, s.sh.log = log ++ [.panicked i .sendOnClosed] ∧
        ((∃ a, (acceptedProgram.network [0] 0 [.go 0, .go 1, .startRuntime 1]).Reachable a ∧
          Misuse acceptedProgram a i .sendOnClosed) ∨
        (Panic.sendOnClosed = .sendOnClosed ∧ ∃ c r v d,
          TakenOut i (.sendq c) .taken (.received c r (.fromSender ⟨i, v⟩ d)) log) ∨
        (Panic.sendOnClosed = .epollAddFailed ∧ ∃ t x fd k h, .run t ∈ s.workers ∧ t.id = i ∧
          t.code = .user x ∧ acceptedProgram.code x = .netPollRead fd k h) ∨
        (Panic.sendOnClosed = .instantOverflow ∧ ∃ t x d k h, .run t ∈ s.workers ∧ t.id = i ∧
          t.code = .user x ∧ acceptedProgram.code x = .sleep d k h ∧
          Instant.last < s.sh.clock + d)) := by
  have h : (((runtime acceptedProgram).startingAt
      (.initial [0] 0 [.go 0, .go 1, .startRuntime 1])).run
      (List.replicate 7 (Act.main {}) ++ List.replicate 15 (Act.worker 0 {}))
      (.initial [0] 0 [.go 0, .go 1, .startRuntime 1])).map (fun s => s.sh.aborted)
      = some (some .sendOnClosed) := by rfl
  obtain ⟨s, hs, ha⟩ := Option.map_eq_some_iff.mp h
  have hP : acceptedProgram.Basic := by
    intro x
    rcases x with _ | _ | _ | _ | x <;> rfl
  have hB : acceptedProgram.Bare := by
    intro x
    rcases x with _ | _ | _ | _ | x <;> rfl
  have hr := startingAt_freshPolls hP (.init ⟨[0], 0, _, rfl⟩) (System.run_reachable rfl hs)
  exact ⟨s, hs, abort_cause hP.structured hB hr ha⟩

end Runs

/-! ### With owners

When a channel has one sender, who is also the one that closes it, no `close` can come while the
sender is parked. So the one abort that the network does not show cannot happen.
-/

/-- The channel of the `send` in which the task is parked. -/
def Code.sendsOn : Code σ V → Option ChanId
  | .park (.send c _ _) => some c
  | .parked (.send c _ _) => some c
  | _ => none

section Owners

variable {P : Program σ V} {caps : List Nat} {groups : Nat} {calls : List (MainOp σ)}
  {s : State σ V}

/-- A task parks in the `send` that it calls. -/
theorem TaskStep.sendsOn {ch : Choice} {free : Bool} {sh : Shared σ V} {t u : Task σ V}
    {e : Effect σ V} (hs : TaskStep P ch free sh t e) (hu : e.pc.task? = some u) {c : ChanId}
    (hc : u.code.sendsOn = some c) :
    t.code.sendsOn = some c ∨ ∃ x d k h, t.code = .user x ∧ P.code x = .send c d k h := by
  cases hs with
  | sendEnqueued hcode hx =>
    cases hu
    cases hc
    exact .inr ⟨_, _, _, _, hcode, hx⟩
  | @park p hcode =>
    cases hu
    rw [hcode]
    cases p with
    | send => exact .inl hc
    | _ => cases hc
  | done =>
    cases hu
    exact .inl hc
  | @chanPoisoned _ h | @chanClosed _ h | @recvUnwrap _ _ _ h | @groupPanic _ _ _ h
  | @sleepOverflow _ _ _ h | @netFail _ _ _ h =>
    rw [raise_pc] at hu
    cases hu
    cases h with
    | none => exact .inl hc
    | some f => cases hc
  | close | add =>
    rw [finish_pc] at hu
    cases hu
    rw [Task.goto_code] at hc
    unfold finishCode at hc
    split at hc <;> cases hc
  | _ =>
    cases hu
    cases hc

/-- **Only the owner of a channel is parked in its `send`.** -/
theorem reach_owned (hP : P.Basic) (hB : P.Bare) (O : Network.Ownership P.cmd)
    (hO : ∀ i f, (calls.filterMap MainOp.go?)[i]? = some f → O.pts i f)
    (hr : ((runtime P).startingAt (.initial caps groups calls)).Reachable s) :
    ∀ t, s.Live t → ∀ c, t.code.sendsOn = some c → O.writer c = t.id := by
  have hinit : (runtime P).init (.initial caps groups calls) := ⟨caps, groups, calls, rfl⟩
  refine hr.invariant
    (I := fun s => ∀ t, s.Live t → ∀ c, t.code.sendsOn = some c → O.writer c = t.id) ?_ ?_
  · rintro s rfl t ht
    rcases ht with (ht | ⟨i, ht⟩) | ⟨pc, hpc, -⟩
    · cases ht
    · simp [State.initial, GlobalQueue.new] at ht
    · cases hpc
  · intro s s' act hr ih hn t ht
    have hreach := System.startingAt_reach hinit hr
    obtain ⟨ha, hn⟩ := next_inv hn
    have hsh := reach_shaped hreach
    rcases hn.cases with ⟨w, ch, pc, e, rfl, hw, hs, hmove⟩ | ⟨ho, hmove⟩
    · refine ht.worker (I := fun i code => ∀ c, code.sendsOn = some c → O.writer c = i)
        (J := fun i code => ∀ c, code.sendsOn = some c → O.writer c = i) hsh (reach_placed hreach)
        hw hs hmove ih (fun u hpc hu _ c hc => ?_) (fun i code _ h => h) fun i f _ _ _ c hc => ?_
      · obtain ⟨v, rfl⟩ := hpc
        have hlive : s.Live v := .inr ⟨_, List.mem_of_getElem? hw, rfl,
          (hsh.workers _ (List.mem_of_getElem? hw)).run⟩
        have hid : u.id = v.id := hs.sched.run_id hu
        rw [hid]
        rcases hs.task_or with ⟨v, hv, htask⟩ | hno
        · cases hv
          rcases htask.sendsOn hu hc with hc | ⟨x, d, k, h, hcode, hx⟩
          · exact ih v hlive c hc
          · -- the process of the task is at the `send`, and complies
            obtain ⟨a, hareach, hmir⟩ := reach_mirrors_basic hP hB hr ha
            have hlive := (hmir.tasks v hlive).of_user hcode hx
            exact ((Network.reach_obeys O hO hareach).live v.id _ hlive).1
        · exact absurd rfl (hno v)
      · cases hc
    · exact ht.outer (I := fun i code => ∀ c, code.sendsOn = some c → O.writer c = i)
        (J := fun i code => ∀ c, code.sendsOn = some c → O.writer c = i) ho hmove ih
        (fun i code h => h) fun i f _ c hc => by cases hc

/-- **With owners no `close` comes in the gap**: the one who closes is the one who sends. -/
theorem reach_keepsAccepted (hP : P.Basic) (hB : P.Bare) (O : Network.Ownership P.cmd)
    (hO : ∀ i f, (calls.filterMap MainOp.go?)[i]? = some f → O.pts i f)
    (hr : ((runtime P).startingAt (.initial caps groups calls)).Reachable s) :
    ((runtime P).startingAt (.initial caps groups calls)).Reach (KeepsAccepted P) s := by
  have hinit : (runtime P).init (.initial caps groups calls) := ⟨caps, groups, calls, rfl⟩
  induction hr with
  | init h0 => exact .init h0
  | @step s s' act hr _ hn ih =>
    refine .step ih ?_ hn
    rintro w ch t x c k h rfl hw hcode hx i hst
    have hreach := System.startingAt_reach hinit hr
    have ha := (next_inv (show next P (.worker w ch) s = some s' from hn)).1
    have hd := reach_disciplined_basic hP hreach
    have hsh := reach_shaped hreach
    have hlive : s.Live t := .inr ⟨_, List.mem_of_getElem? hw, rfl,
      (hsh.workers _ (List.mem_of_getElem? hw)).run⟩
    obtain ⟨a, hareach, hmir⟩ := reach_mirrors_basic hP hB hr ha
    have hcloser : O.writer c = t.id := ((Network.reach_obeys O hO hareach).live t.id _
      ((hmir.tasks t hlive).of_user hcode hx)).1
    -- the sender whose waiter was taken is still parked
    have hcreated : .created i ∈ s.sh.log := by
      by_contra hno
      rw [hd.unborn i hno] at hst
      cases hst
    have hdied : .died i ∉ s.sh.log := fun hdied => by
      rw [(reach_answered hP hB.uncaught hreach c).dead i hdied] at hst
      cases hst
    obtain ⟨u, hu, rfl⟩ := live_of_created hsh (reach_placed hreach) hcreated hdied
    obtain ⟨p, hp, hwait⟩ := Code.park_of_source? (hd.agree ha u hu) (by rw [hst]; rfl) rfl
    have hsends : u.code.sendsOn = some c := by
      cases p <;> cases hwait
      rcases hp with hp | hp <;> rw [hp] <;> rfl
    have hsender := reach_owned hP hB O hO hr u hu c hsends
    -- so it would be the closer itself, which is running
    have hidle := hd.agree ha t hlive
    rw [hcode, ← hcloser, hsender] at hidle
    rw [show s.sh.status u.id = .idle from hidle] at hst
    cases hst

end Owners

end MyGoroutine
