import MyGoroutine.Sched.Placement
import MyGoroutine.Wake.Status

namespace MyGoroutine

/-!
# The wake effect of a step

Seen from the wake causes, a step of a worker does one of a dozen things.  `WakeStep` lists
them; the entries in the data structures and the statuses move together.

* `Program.Structured` — programs that park and wake through the runtime's own primitives;
* `Code.agrees` — the statuses that fit a point of a task's code;
* `Pc.collected` — the `goready` calls that a worker owes;
* `WakeStep`, `TaskStep.wakes`, `WorkerStep.wakes`.
-/

variable {σ V : Type}

/-- The operation is no direct `gopark` or `goready`. -/
def Op.structured : Op σ V → Bool
  | .gopark _ => false
  | .goready _ _ => false
  | _ => true

/-- The closures never call `gopark` or `goready` themselves. -/
def Program.Structured (P : Program σ V) : Prop := ∀ x, (P.code x).structured = true

/-- The park waits for an entry in this source. -/
def Park.waitsAt : Park σ V → Source → Prop
  | .sleep _, .timer _ => True
  | .send c _ _, .sendq c' => c = c'
  | .recv c _ _, .recvq c' => c = c'
  | .wait g _, .waiters g' => g = g'
  | .netPollRead fd _, .fd fd' => fd = fd'
  | _, _ => False

/-- The status fits the point of the code. -/
def Code.agrees : Code σ V → Status V → Prop
  | .park p, st => ∃ src, p.waitsAt src ∧ st.source? = some src
  | .parked p, st => ∃ src, p.waitsAt src ∧ st.source? = some src
  | .unregister fd _, st => ∃ why, st = .released (.fd fd) why
  | _, st => st = .idle

/-- The entry of a task that goes on after a park was taken out of where the park has waited. -/
theorem Code.released_of_parked {p : Park σ V} {st : Status V}
    (h : (Code.parked p : Code σ V).agrees st) (hq : st.queue? = none) :
    ∃ src why, p.waitsAt src ∧ st = .released src why := by
  obtain ⟨src, hw, hsrc⟩ := h
  cases st with
  | idle => cases hsrc
  | queued => cases hq
  | released src' why => cases hsrc; exact ⟨_, why, hw, rfl⟩

/-- The code is between two calls that park. -/
def Code.calm : Code σ V → Bool
  | .park _ => false
  | .parked _ => false
  | .unregister _ _ => false
  | _ => true

/-- The code goes on after a park. -/
def Code.settles : Code σ V → Bool
  | .parked _ => true
  | .unregister _ _ => true
  | _ => false

/-- The `goready` calls that the code owes. -/
def Code.owes : Code σ V → List TaskId
  | .wake ids _ _ => ids
  | _ => []

/-- The tasks that the poll of a phase has reported. -/
def Phase.ready : Phase → List TaskId
  | .before _ => []
  | .after ready => ready

/-- The `goready` calls that a worker owes. -/
def Pc.collected : Pc σ V → List TaskId
  | .timersNow ph => ph.ready
  | .timersLock ph _ => ph.ready
  | .timersReady ph _ id => id :: ph.ready
  | .release ready => ready
  | .wakeReady ready => ready
  | .run t => t.code.owes
  | _ => []

/-- Between two parks a task has no entry. -/
theorem Code.agrees_of_calm {c : Code σ V} {st : Status V} (hc : c.calm = true) :
    c.agrees st ↔ st = .idle := by
  cases c <;> first | exact Iff.rfl | cases hc

/-- A task with an entry in a source, or whose entry was taken out of it, is in the park that
    waits there. -/
theorem Code.park_of_source? {c : Code σ V} {st : Status V} {src : Source} (h : c.agrees st)
    (hs : st.source? = some src) (hf : src.isFd = false) :
    ∃ p, (c = .park p ∨ c = .parked p) ∧ p.waitsAt src := by
  cases c with
  | park p | parked p =>
    obtain ⟨src', hw, hs'⟩ := h
    rw [hs] at hs'
    cases hs'
    exact ⟨p, by simp, hw⟩
  | unregister fd k =>
    obtain ⟨why, rfl⟩ := h
    cases hs
    cases hf
  | _ => rw [show st = .idle from h] at hs; cases hs

/-- The user's own code is between two parks. -/
theorem Code.calm_of_isUser {c : Code σ V} (h : c.isUser = true) : c.calm = true := by
  cases c <;> first | rfl | cases h

/-- Right after a park a task owes nobody a `goready`. -/
theorem Code.owes_of_settles {c : Code σ V} (h : c.settles = true) : c.owes = [] := by
  cases c <;> first | rfl | cases h

/-- The end of a call is between two parks. -/
theorem finishCode_calm (ids : List TaskId) (ret : Ret V) (k : σ) :
    (finishCode ids ret k : Code σ V).calm = true := by
  cases ids <;> rfl

/-- At its end a call owes a `goready` to those it has collected. -/
theorem finishCode_owes (ids : List TaskId) (ret : Ret V) (k : σ) :
    (finishCode ids ret k : Code σ V).owes = ids := by
  cases ids <;> rfl

/-- A worker that keeps its task between two parks, or has none. -/
inductive CalmTask (pc pc' : Pc σ V) : Prop where
  | none (h : pc.task? = none) (h' : pc'.task? = none)
  | run {t c} (h : pc = .run t) (h' : pc' = .run (t.goto c)) (ht : t.code.calm = true)
      (hc : c.calm = true)

/-- The step makes no difference to the tasks and their statuses. -/
structure Shared.SameWakes (sh sh' : Shared σ V) : Prop where
  tasks : sh.SameTasks sh'
  status : ∀ i, sh'.status i = sh.status i

/-- What a step does to the wake causes. -/
inductive WakeStep (variant : Variant) (sh : Shared σ V) (pc : Pc σ V) :
    Shared σ V → Pc σ V → Prop where
  /-- No exchange of a task with a waker changes. -/
  | quiet {sh' pc'} (hs : sh.SameWakes sh') (hcol : pc'.collected = pc.collected)
      (hpc : CalmTask pc pc') : WakeStep variant sh pc sh' pc'
  /-- The task leaves an entry and is about to park. -/
  | enqueue {sh' t p src} (h : pc = .run t) (hc : t.code.calm = true) (ho : t.code.owes = [])
      (hp : p.waitsAt src) (hs : sh.SameTasks sh') (hst : sh'.status t.id = .queued src)
      (hst' : ∀ i, i ≠ t.id → sh'.status i = sh.status i) :
      WakeStep variant sh pc sh' (.run (t.goto (.park p)))
  /-- The worker takes out the entries of the tasks `rs`, and owes them a `goready`. -/
  | release {sh' pc'} (rs : List TaskId) (hnd : rs.Nodup) (hs : sh.SameTasks sh')
      (hrel : ∀ i ∈ rs, ∃ src why, sh.status i = .queued src ∧ sh'.status i = .released src why)
      (hst : ∀ i, i ∉ rs → sh'.status i = sh.status i)
      (hcol : pc'.collected = rs ++ pc.collected) (hpc : CalmTask pc pc') :
      WakeStep variant sh pc sh' pc'
  /-- The worker makes one of the `goready` calls it owes. -/
  | goready {sh' pc'} (waker : Waker) (id : TaskId) (hs : (sh.goready waker id).1.SameTasks sh')
      (hst : ∀ i, sh'.status i = sh.status i) (hcol : pc.collected = id :: pc'.collected)
      (hpc : CalmTask pc pc') : WakeStep variant sh pc sh' pc'
  /-- The task goes on after its park: the exchange is over. -/
  | settle {sh' t c} (h : pc = .run t) (hc : t.code.settles = true) (hc' : c.calm = true)
      (ho : c.owes = []) (hs : sh.SameTasks sh') (hst : sh'.status t.id = .idle)
      (hst' : ∀ i, i ≠ t.id → sh'.status i = sh.status i) :
      WakeStep variant sh pc sh' (.run (t.goto c))
  /-- The process aborts after a park. -/
  | abort {sh' t} (h : pc = .run t) (hc : t.code.settles = true) (ha : sh'.aborted.isSome = true)
      (hs : sh.SameTasks sh') (hst : sh'.status t.id = .idle)
      (hst' : ∀ i, i ≠ t.id → sh'.status i = sh.status i) : WakeStep variant sh pc sh' (.run t)
  /-- After its park in `net_poll_read` the task unregisters its fd. -/
  | settleNet {sh' t fd k} (h : pc = .run t) (hc : t.code = .parked (.netPollRead fd k))
      (hs : sh.SameWakes sh') : WakeStep variant sh pc sh' (.run (t.goto (.unregister fd k)))
  /-- `go` queues its child. -/
  | create {t id f k} (h : pc = .run t) (hc : t.code = .goPush id f k) :
      WakeStep variant sh pc (sh.pushNew id f).1 (.run (t.goto (.user k)))
  /-- The task yields. -/
  | yield {t k} (h : pc = .run t) (hc : t.code.calm = true) (ho : t.code.owes = []) :
      WakeStep variant sh pc sh (.switched (t.goto (.user k)))
  /-- The task parks. -/
  | parkOut {t p} (h : pc = .run t) (hc : t.code = .park p) :
      WakeStep variant sh pc sh (.switched ((t.goto (.parked p)).withState .waiting))
  /-- The task finishes. -/
  | die {t} (h : pc = .run t) (hc : t.code.calm = true) (ho : t.code.owes = []) :
      WakeStep variant sh pc (sh.record [.died t.id]) (.switched (t.withState .dead))
  /-- The worker, which owes nothing, pops a task and switches to it. -/
  | dispatch {t rest sh'} (h : pc.task? = none) (hcol : pc.collected = [])
      (hr : sh.queue.runnable = t :: rest)
      (hrun : sh'.queue.runnable = rest) (hw : sh'.queue.waiting = sh.queue.waiting)
      (hp : sh'.queue.pendingReady = sh.queue.pendingReady)
      (hst : ∀ i, sh'.status i = sh.status i) :
      WakeStep variant sh pc sh' (.run (t.withState .running))
  /-- The worker drops a dead task. -/
  | drop {t pc'} (h : pc = .switched t) (hd : t.state = .dead) (h' : pc'.task? = none)
      (hcol : pc'.collected = []) : WakeStep variant sh pc sh pc'
  /-- The worker stores a parked task, or takes its token. -/
  | park {t pc'} (h : pc = .switched t) (hw : t.state = .waiting) (h' : pc'.task? = none)
      (hcol : pc'.collected = []) : WakeStep variant sh pc (sh.parkTask variant t).1 pc'
  /-- The worker queues a task that has yielded. -/
  | requeue {t pc'} (h : pc = .switched t) (hd : t.state ≠ .dead) (hw : t.state ≠ .waiting)
      (h' : pc'.task? = none) (hcol : pc'.collected = []) :
      WakeStep variant sh pc (sh.requeue t) pc'

/-! ### Running tasks -/

section Tasks

variable {P : Program σ V} {ch : Choice} {free : Bool} {sh sh' : Shared σ V} {t : Task σ V}
  {e : Effect σ V}

/-- Two shared states with the same tasks, and the same entries. -/
structure Shared.SameEntries (sh sh' : Shared σ V) : Prop where
  tasks : sh.SameTasks sh'
  entries : ∀ src i, sh'.entries src i = sh.entries src i
  fds : sh'.net.waitingFds = sh.net.waitingFds

/-- Nothing changes but what is beside tasks and entries. -/
theorem Shared.SameEntries.of_eq (hs : sh.SameTasks sh') (hh : sh'.timerHeap = sh.timerHeap)
    (hc : sh'.chans = sh.chans) (hg : sh'.groups = sh.groups)
    (hf : sh'.net.waitingFds = sh.net.waitingFds) : sh.SameEntries sh' :=
  ⟨hs, fun _ _ => entries_congr hh hc hg, hf⟩

/-- Only the buffer, the delivered values, or the poison flag of a channel change. -/
theorem Shared.SameEntries.of_chan {c : ChanId} {m m' : Chan V} {es : List (Event V)}
    (hm : sh.chans[c]? = some m) (hr : m'.val.recvq = m.val.recvq)
    (hq : m'.val.sendq = m.val.sendq) : sh.SameEntries ((sh.setChan c m').record es) :=
  ⟨⟨rfl, rfl, rfl⟩, fun _ _ => entries_setChan_same (setsChan hm) hr hq, rfl⟩

/-- An event that only settles the task's own status. -/
def Event.settles (i : TaskId) (e : Event V) : Prop :=
  (∀ st, e.update i st = .idle) ∧ ∀ j, j ≠ i → ∀ st, e.update j st = st

/-- A return settles the status of its task. -/
theorem settles_returned (i : TaskId) (r : Ret V) : (Event.returned i r).settles i :=
  ⟨fun _ => if_pos rfl, fun _ hj _ => if_neg (Ne.symm hj)⟩

/-- A panic settles the status of its task. -/
theorem settles_panicked (i : TaskId) (p : Panic) : (Event.panicked i p : Event V).settles i :=
  ⟨fun _ => if_pos rfl, fun _ hj _ => if_neg (Ne.symm hj)⟩

/-- A `send` into the buffer changes no status. -/
theorem neutral_sent_buffered (c : ChanId) (i : TaskId) (d : V) :
    (Event.sent c i d .buffered).neutral := fun _ _ => rfl

/-- A `recv` from an exhausted channel changes no status. -/
theorem neutral_received_closed (c : ChanId) (i : TaskId) :
    (Event.received c i .closed : Event V).neutral := fun _ _ => rfl

/-- A `recv` from the buffer changes no status. -/
theorem neutral_received_fromBuf (c : ChanId) (i : TaskId) (d : V) :
    (Event.received c i (.fromBuf d)).neutral := fun _ _ => rfl

/-- Neutral events, and then one that settles an idle task, change no status. -/
theorem status_settled (es : List (Event V)) {ev : Event V} (hl : sh'.log = sh.log ++ (es ++ [ev]))
    (hes : ∀ e ∈ es, e.neutral) (hev : ev.settles t.id) (hidle : sh.status t.id = .idle)
    (i : TaskId) : sh'.status i = sh.status i := by
  rw [Shared.status, hl, statusOf_append, List.foldl_append, foldl_neutral hes, List.foldl_cons,
    List.foldl_nil]
  by_cases hi : i = t.id
  · subst hi
    rw [hev.1]
    exact hidle.symm
  · exact hev.2 i hi _

/-- `goready` changes no status: the entry is gone already. -/
theorem goready_status {waker : Waker} {id : TaskId} (i : TaskId) :
    (sh.goready waker id).1.status i = sh.status i := by
  unfold Shared.goready
  split <;> exact status_of_neutral _ rfl (by simp [Event.neutral, Event.update]) i

/-- `goready` touches no entry. -/
theorem Shared.Sources.goready (h : sh.Sources) (waker : Waker) (id : TaskId) :
    (sh.goready waker id).1.Sources := by
  refine h.same goready_status (fun src i => ?_) ?_ <;> unfold Shared.goready <;> split <;> rfl

/-- A quiet step of a task. -/
private theorem wakes_quiet {c : Code σ V} (h : sh.Sources) (hs : sh.SameEntries sh')
    (hst : ∀ i, sh'.status i = sh.status i) (ht : t.code.calm = true) (hc : c.calm = true)
    (ho : c.owes = t.code.owes) :
    WakeStep P.variant sh (.run t) sh' (.run (t.goto c)) ∧ sh'.Sources :=
  ⟨.quiet ⟨hs.tasks, hst⟩ ho (.run rfl rfl ht hc), h.same hst hs.entries hs.fds⟩

/-- A task goes on after its park. -/
private theorem wakes_settle {c : Code σ V} {ev : Event V} (h : sh.Sources)
    (hs : sh.SameEntries sh') (hl : sh'.log = sh.log ++ [ev]) (hev : ev.settles t.id)
    (ht : t.code.settles = true) (hq : (sh.status t.id).queue? = none)
    (hfd : ∀ fd, (sh.status t.id).source? ≠ some (.fd fd)) :
    (c.calm = true → c.owes = [] → WakeStep P.variant sh (.run t) sh' (.run (t.goto c))) ∧
      (sh'.aborted.isSome = true → WakeStep P.variant sh (.run t) sh' (.run t)) ∧ sh'.Sources := by
  have hst : sh'.status t.id = .idle := by rw [status_append_one hl, hev.1]
  have hst' : ∀ i, i ≠ t.id → sh'.status i = sh.status i := fun i hi => by
    rw [status_append_one hl, hev.2 i hi]
  refine ⟨fun hc ho => .settle rfl ht hc ho hs.tasks hst hst',
    fun ha => .abort rfl ht ha hs.tasks hst hst', h.settle hq hst hst' hs.entries ?_⟩
  intro fd j hl
  rw [hs.fds] at hl
  refine ⟨?_, hl⟩
  rintro rfl
  exact hfd fd (h.fds fd _ hl)

/-- A panic of a task between two parks. -/
private theorem wakes_raise_calm {p : Panic} {hd : Handler σ} (h : sh.Sources)
    (hs : sh.SameEntries sh') (hl : sh'.log = sh.log) (ht : t.code.calm = true)
    (ho : t.code.owes = []) (hidle : sh.status t.id = .idle) :
    WakeStep P.variant sh (.run t) (t.raise sh' p hd).sh (t.raise sh' p hd).pc ∧
      (t.raise sh' p hd).sh.Sources := by
  have hs' : sh.SameEntries (t.raise sh' p hd).sh := by
    rw [raise_sh]
    exact ⟨⟨hs.tasks.1, hs.tasks.2, hs.tasks.3⟩,
      fun src i => (entries_congr rfl rfl rfl).trans (hs.entries src i), hs.fds⟩
  rw [raise_pc]
  refine wakes_quiet h hs'
    (status_settled [] (by rw [raise_log, hl]; rfl) (by simp)
      (settles_panicked t.id p) hidle) ht ?_ ?_
  · cases hd <;> first | exact ht | rfl
  · cases hd <;> first | rfl | exact ho.symm

/-- A panic of a task after its park. -/
private theorem wakes_raise_settle {p : Panic} {hd : Handler σ} (h : sh.Sources)
    (hs : sh.SameEntries sh') (hl : sh'.log = sh.log) (ht : t.code.settles = true)
    (hq : (sh.status t.id).queue? = none)
    (hfd : ∀ fd, (sh.status t.id).source? ≠ some (.fd fd)) :
    WakeStep P.variant sh (.run t) (t.raise sh' p hd).sh (t.raise sh' p hd).pc ∧
      (t.raise sh' p hd).sh.Sources := by
  have hs' : sh.SameEntries (t.raise sh' p hd).sh := by
    rw [raise_sh]
    exact ⟨⟨hs.tasks.1, hs.tasks.2, hs.tasks.3⟩,
      fun src i => (entries_congr rfl rfl rfl).trans (hs.entries src i), hs.fds⟩
  cases hd with
  | some f =>
    obtain ⟨h1, -, h3⟩ := wakes_settle (P := P) (c := .user (f p)) h hs'
      (by rw [raise_log, hl]) (settles_panicked t.id p) ht hq hfd
    exact ⟨h1 rfl rfl, h3⟩
  | none =>
    obtain ⟨-, h2, h3⟩ := wakes_settle (P := P) (c := t.code) h hs'
      (by rw [raise_log, hl]) (settles_panicked t.id p) ht hq hfd
    exact ⟨h2 rfl, h3⟩

/-- A task leaves an entry, and is about to park. -/
private theorem wakes_enqueue {p : Park σ V} (src : Source) {ev : Event V} (h : sh.Sources)
    (hs : sh.SameTasks sh') (hl : sh'.log = sh.log ++ [ev])
    (hev : ∀ st, ev.update t.id st = .queued src) (hev' : ∀ j, j ≠ t.id → ∀ st, ev.update j st = st)
    (he : ∀ src' j, sh'.entries src' j
      = sh.entries src' j + if src' = src ∧ j = t.id then 1 else 0)
    (hf : sh'.net.waitingFds = sh.net.waitingFds) (ht : t.code.calm = true)
    (ho : t.code.owes = []) (hidle : sh.status t.id = .idle) (hp : p.waitsAt src) :
    WakeStep P.variant sh (.run t) sh' (.run (t.goto (.park p))) ∧ sh'.Sources := by
  have hst : sh'.status t.id = .queued src := by rw [status_append_one hl, hev]
  have hst' : ∀ i, i ≠ t.id → sh'.status i = sh.status i := fun i hi => by
    rw [status_append_one hl, hev' i hi]
  exact ⟨.enqueue rfl ht ho hp hs hst hst', h.enqueue hidle hst hst' he hf⟩

/-- A task takes entries out of sources, and owes their tasks a `goready`. -/
private theorem wakes_release {c : Code σ V} {rs : List TaskId} (r : Source → TaskId → Nat)
    (h : sh.Sources) (hs : sh.SameTasks sh') (hr : ∀ src i, 0 < r src i → src.isFd = false)
    (he : ∀ src i, sh'.entries src i + r src i = sh.entries src i)
    (hnd : rs.Nodup) (hmem : ∀ i ∈ rs, ∃ src, 0 < r src i)
    (hst : ∀ src i, 0 < r src i → i ∈ rs ∧ ∃ why, sh'.status i = .released src why)
    (hst' : ∀ i, i ∉ rs → sh'.status i = sh.status i)
    (hf : sh'.net.waitingFds = sh.net.waitingFds) (ht : t.code.calm = true)
    (ho : t.code.owes = []) (hc : c.calm = true) (hco : c.owes = rs) :
    WakeStep P.variant sh (.run t) sh' (.run (t.goto c)) ∧ sh'.Sources := by
  refine ⟨.release rs hnd hs (fun i hi => ?_) hst' ?_ (.run rfl rfl ht hc),
    h.release r hr he (fun src i hp => (hst src i hp).2) (fun i h0 => hst' i fun hi => ?_) hf⟩
  · obtain ⟨src, hp⟩ := hmem i hi
    obtain ⟨-, why, hw⟩ := hst src i hp
    have := he src i
    exact ⟨src, why, h.queued_of_entries (hr src i hp) (by omega), hw⟩
  · simp [Pc.collected, ho, hco]
  · obtain ⟨src, hp⟩ := hmem i hi
    rw [h0 src] at hp
    exact Nat.lt_irrefl 0 hp

/-- A task takes one entry out of a source. -/
private theorem wakes_release_one {c : Code σ V} (src : Source) {id : TaskId} (why : Why V)
    {ev : Event V} (h : sh.Sources) (hs : sh.SameTasks sh') (hl : sh'.log = sh.log ++ [ev])
    (hev : ∀ st, ev.update id st = .released src why)
    (hev' : ∀ j, j ≠ id → ∀ st, ev.update j st = st) (hsrc : src.isFd = false)
    (he : ∀ src' j, sh'.entries src' j + (if src' = src ∧ j = id then 1 else 0)
      = sh.entries src' j)
    (hf : sh'.net.waitingFds = sh.net.waitingFds) (ht : t.code.calm = true)
    (ho : t.code.owes = []) (hc : c.calm = true) (hco : c.owes = [id]) :
    WakeStep P.variant sh (.run t) sh' (.run (t.goto c)) ∧ sh'.Sources := by
  have hst : sh'.status id = .released src why := by rw [status_append_one hl, hev]
  have hst' : ∀ i, i ≠ id → sh'.status i = sh.status i := fun i hi => by
    rw [status_append_one hl, hev' i hi]
  have hpos : 0 < sh.entries src id := by
    rw [← he src id]
    simp
  refine ⟨.release [id] (List.nodup_singleton id) hs (fun i hi => ?_)
    (fun i hi => hst' i (by simpa using hi)) (by simp [Pc.collected, ho, hco])
    (.run rfl rfl ht hc), h.release_one hsrc he hst hst' hf⟩
  obtain rfl := List.mem_singleton.mp hi
  exact ⟨src, why, h.queued_of_entries hsrc hpos, hst⟩

/-- No task waits in both queues of a channel, nor twice in one. -/
theorem Shared.Sources.nodup_waiters {c : ChanId} {m : Chan V} (h : sh.Sources)
    (hm : sh.chans[c]? = some m) : (m.val.recvq ++ m.val.sendq.map (·.taskId)).Nodup := by
  refine List.nodup_iff_count_le_one.mpr fun i => ?_
  -- the status of the task names one queue at most
  have h1 := h.entries (.recvq c) i rfl
  have h2 := h.entries (.sendq c) i rfl
  rw [entries_recvq hm] at h1
  rw [entries_sendq hm] at h2
  rw [List.count_append, h1, h2]
  cases (sh.status i).queue? <;> simp only [Option.some.injEq, reduceCtorEq, if_false]
  · omega
  · split_ifs with h3 h4 <;> first | omega | (rw [h3] at h4; cases h4)

/-- The section of `close`, and what it owes. -/
private theorem wakes_close {c : ChanId} {m : Chan V} {k : σ} {x : σ} (h : sh.Sources)
    (hm : sh.chans[c]? = some m) (hc : t.code = .user x) (hidle : sh.status t.id = .idle)
    (he : e = t.finish
      ((sh.setChan c { m with
          val := { m.val with closed := true, recvq := [], sendq := [] } }).record
        [.closed c t.id m.val.recvq m.val.sendq])
      (m.val.recvq ++ m.val.sendq.map (·.taskId)) (.close c) k) :
    WakeStep P.variant sh (.run t) e.sh e.pc ∧ e.sh.Sources := by
  subst he
  rw [finish_pc, finish_sh, Shared.record_record]
  by_cases hids : m.val.recvq ++ m.val.sendq.map (·.taskId) = []
  · obtain ⟨hr, hs⟩ := List.append_eq_nil_iff.mp hids
    have hs := List.map_eq_nil_iff.mp hs
    rw [if_pos hids, hids]
    refine wakes_quiet h (.of_chan hm hr.symm hs.symm)
      (status_settled [.closed c t.id m.val.recvq m.val.sendq] rfl ?_
        (settles_returned t.id (.close c)) hidle) (by rw [hc]; rfl) rfl (by rw [hc]; rfl)
    intro ev hev i st
    obtain rfl := List.mem_singleton.mp hev
    simp [Event.update, hr, hs]
  · rw [if_neg hids, List.append_nil]
    have hst := status_append_one (show ((sh.setChan c { m with
        val := { m.val with closed := true, recvq := [], sendq := [] } }).record
        [.closed c t.id m.val.recvq m.val.sendq]).log = sh.log ++ [_] from rfl)
    have hnodup := h.nodup_waiters hm
    -- the entries that go are those of the two queues, which the section empties
    refine wakes_release
      (fun src i => if src = .recvq c then m.val.recvq.count i
        else if src = .sendq c then (m.val.sendq.map (·.taskId)).count i else 0)
      h ⟨rfl, rfl, rfl⟩ ?_ ?_ hnodup ?_ ?_ ?_ rfl
      (by rw [hc]; rfl) (by rw [hc]; rfl) (finishCode_calm _ _ _) (finishCode_owes _ _ _)
    · intro src i hp
      split_ifs at hp with h1 h2
      · rw [h1]; rfl
      · rw [h2]; rfl
      · omega
    · intro src i
      rw [entries_setChan (setsChan hm)]
      split_ifs with h1 h2
      · rw [h1, entries_recvq hm]; simp
      · rw [h2, entries_sendq hm]; simp
      · rfl
    · intro i hi
      rcases List.mem_append.mp hi with hi | hi
      · exact ⟨.recvq c, by simpa using hi⟩
      · exact ⟨.sendq c, by simpa using hi⟩
    · intro src i hp
      split_ifs at hp with h1 h2
      · have hi := List.count_pos_iff.mp hp
        exact ⟨List.mem_append_left _ hi, .drained, by rw [hst]; simp [Event.update, hi, h1]⟩
      · have hi := List.count_pos_iff.mp hp
        have hno : i ∉ m.val.recvq := fun hr => List.disjoint_of_nodup_append hnodup hr hi
        refine ⟨List.mem_append_right _ hi, .drained, ?_⟩
        rw [hst]
        simp only [Event.update, hno, hi, h2, if_true, if_false]
      · omega
    · intro i hi
      rw [List.mem_append, not_or] at hi
      rw [hst]
      simp only [Event.update, hi.1, hi.2, if_false]

/-- The section of `add`, and what it owes. -/
private theorem wakes_add {g : GroupId} {d : Int32} {w : WaitGroup} {inner : WaitGroupInner}
    {woken : List TaskId} {k : σ} {x : σ} (h : sh.Sources) (hw : sh.groups[g]? = some w)
    (hin : woken ++ inner.waiters = w.val.waiters ∧ (woken = [] ∨ inner.waiters = []))
    (hc : t.code = .user x) (hidle : sh.status t.id = .idle)
    (he : e = t.finish ((sh.setGroup g { w with val := inner }).record [.added g t.id d woken])
      woken (.add g) k) :
    WakeStep P.variant sh (.run t) e.sh e.pc ∧ e.sh.Sources := by
  subst he
  rw [finish_pc, finish_sh, Shared.record_record]
  by_cases hids : woken = []
  · subst hids
    -- nobody is woken, so the call returns in this section
    have hwait : inner.waiters = w.val.waiters := by simpa using hin.1
    rw [if_pos rfl]
    refine wakes_quiet h
      ⟨⟨rfl, rfl, rfl⟩, fun _ _ => entries_setGroup_same (setsGroup hw) hwait, rfl⟩
      (status_settled [.added g t.id d []] rfl ?_ (settles_returned t.id (.add g)) hidle)
      (by rw [hc]; rfl) rfl (by rw [hc]; rfl)
    intro ev hev i st
    obtain rfl := List.mem_singleton.mp hev
    simp [Event.update]
  · -- the counter has come to zero, and all waiters are taken out at once
    have hempty : inner.waiters = [] := hin.2.resolve_left hids
    have hwoken : woken = w.val.waiters := by simpa [hempty] using hin.1
    rw [if_neg hids, List.append_nil]
    have hst := status_append_one (show ((sh.setGroup g { w with val := inner }).record
      [.added g t.id d woken]).log = sh.log ++ [_] from rfl)
    refine wakes_release (fun src i => if src = .waiters g then woken.count i else 0)
      h ⟨rfl, rfl, rfl⟩ ?_ ?_ (List.nodup_iff_count_le_one.mpr fun i => ?_) ?_ ?_ ?_ rfl
      (by rw [hc]; rfl) (by rw [hc]; rfl) (finishCode_calm _ _ _) (finishCode_owes _ _ _)
    · intro src i hp
      split_ifs at hp with h1
      · rw [h1]; rfl
      · omega
    · intro src i
      rw [entries_setGroup (setsGroup hw), hempty]
      split_ifs with h1
      · rw [h1, entries_waiters hw, hwoken]; simp
      · rfl
    · rw [hwoken, ← entries_waiters hw]
      exact h.entries_le_one rfl
    · exact fun i hi => ⟨.waiters g, by simpa using hi⟩
    · intro src i hp
      split_ifs at hp with h1
      · have hi := List.count_pos_iff.mp hp
        exact ⟨hi, .counted, by rw [hst]; simp [Event.update, hi, h1]⟩
      · omega
    · intro i hi
      rw [hst]
      simp only [Event.update, hi, if_false]

/-- A park that waits for no fd has no entry in `waiting_fds`. -/
theorem Park.not_fd {p : Park σ V} {st : Status V} (hp : ∀ fd k, p ≠ .netPollRead fd k)
    (h : (Code.parked p).agrees st) (fd : RawFd) : st.source? ≠ some (.fd fd) := by
  obtain ⟨src, hw, hs⟩ := h
  rw [hs]
  rintro ⟨⟩
  cases p <;> first | exact hw | exact hp _ _ rfl

/-- A task returns from its park. -/
private theorem wakes_return {p : Park σ V} {c : Code σ V} {ret : Ret V} (h : sh.Sources)
    (hs : sh.SameEntries sh') (hl : sh'.log = sh.log ++ [.returned t.id ret])
    (hc : t.code = .parked p) (hp : ∀ fd k, p ≠ .netPollRead fd k)
    (ha : t.code.agrees (sh.status t.id))
    (hq : t.code.settles = true → (sh.status t.id).queue? = none) (hcalm : c.calm = true)
    (ho : c.owes = []) :
    WakeStep P.variant sh (.run t) sh' (.run (t.goto c)) ∧ sh'.Sources := by
  have hset : t.code.settles = true := by rw [hc]; rfl
  rw [hc] at ha
  obtain ⟨h1, -, h3⟩ := wakes_settle (P := P) (c := c) h hs hl (settles_returned _ _) hset
    (hq hset) (Park.not_fd hp ha)
  exact ⟨h1 hcalm ho, h3⟩

/-- A section of a channel that panics. -/
private theorem wakes_raise_call {c : ChanId} {hd : Handler σ} {sec : ChanSection} {p : Panic}
    (hs : ChanCall P t c hd sec) (h : sh.Sources) (hsame : sh.SameEntries sh')
    (hl : sh'.log = sh.log) (ha : t.code.agrees (sh.status t.id))
    (hq : t.code.settles = true → (sh.status t.id).queue? = none) :
    WakeStep P.variant sh (.run t) (t.raise sh' p hd).sh (t.raise sh' p hd).pc ∧
      (t.raise sh' p hd).sh.Sources := by
  cases hs with
  | send hc | recv hc | close hc =>
    have hcalm : t.code.calm = true := by rw [hc]; rfl
    exact wakes_raise_calm h hsame hl hcalm (by rw [hc]; rfl) ((Code.agrees_of_calm hcalm).mp ha)
  | sendResume hc | recvResume hc =>
    have hset : t.code.settles = true := by rw [hc]; rfl
    rw [hc] at ha
    exact wakes_raise_settle h hsame hl hset (hq hset) (Park.not_fd (by simp) ha)

/-- `fd` enters `waiting_fds` for an idle task. -/
private theorem sources_register {fd : RawFd} (h : sh.Sources) (hidle : sh.status t.id = .idle) :
    ({ sh with net := sh.net.insert fd t.id }.record [.registered t.id fd]).Sources where
  entries src i hs := by
    rw [status_append_one (show ({ sh with net := sh.net.insert fd t.id }.record
      [.registered t.id fd]).log = sh.log ++ [_] from rfl)]
    refine (h.entries src i hs).trans ?_
    by_cases hi : t.id = i
    · subst hi
      have : src ≠ .fd fd := by rintro rfl; cases hs
      simp [hidle, Event.update, Status.queue?, Ne.symm this]
    · simp [Event.update, hi]
  fds fd' i hl := by
    rw [status_append_one (show ({ sh with net := sh.net.insert fd t.id }.record
      [.registered t.id fd]).log = sh.log ++ [_] from rfl)]
    simp only [Shared.record, NetPoller.insert, Slots.lookup_insert_ite] at hl
    split at hl
    · cases hl
      subst fd'
      simp [Event.update, Status.source?]
    · have hi : t.id ≠ i := by
        rintro rfl
        have := h.fds fd' _ hl
        rw [hidle] at this
        cases this
      simpa [Event.update, hi] using h.fds fd' i hl

/-- `fd` leaves `waiting_fds` as the task that has waited for it goes on. -/
private theorem sources_unregister {fd : RawFd} (h : sh.Sources)
    (hq : (sh.status t.id).queue? = none) (hown : (sh.status t.id).source? = some (.fd fd)) :
    ({ sh with net := sh.net.remove fd }.record [.returned t.id (.netPollRead fd)]).Sources := by
  have hst := status_append_one (show ({ sh with net := sh.net.remove fd }.record
    [.returned t.id (.netPollRead fd)]).log = sh.log ++ [_] from rfl)
  refine h.settle hq (by simp [hst, Event.update])
    (fun i hi => (hst i).trans (if_neg (Ne.symm hi))) (fun _ _ => rfl) fun fd' j hl => ?_
  simp only [Shared.record, NetPoller.remove, Slots.lookup_erase_ite] at hl
  split at hl
  · cases hl
  · refine ⟨?_, hl⟩
    -- the task waits for `fd` only, so no other descriptor was registered for it
    rintro rfl
    have := h.fds fd' _ hl
    rw [hown] at this
    cases this
    contradiction

/-- A panic in the section of a channel: the channel keeps its queues. -/
private theorem wakes_chanPanic (h : sh.Sources) (ha : t.code.agrees (sh.status t.id))
    (hq : t.code.settles = true → (sh.status t.id).queue? = none) {c : ChanId} {m : Chan V}
    {hd : Handler σ} {sec : ChanSection} {p : Panic} (hs : ChanCall P t c hd sec)
    (hm : sh.chans[c]? = some m) :
    WakeStep P.variant sh (.run t) (t.raise (sh.setChan c { m with poisoned := true }) p hd).sh
        (t.raise (sh.setChan c { m with poisoned := true }) p hd).pc ∧
      (t.raise (sh.setChan c { m with poisoned := true }) p hd).sh.Sources :=
  wakes_raise_call hs h ⟨⟨rfl, rfl, rfl⟩,
    fun _ _ => entries_setChan_same ⟨hm, rfl, rfl, rfl⟩ rfl rfl, rfl⟩ rfl ha hq

/-- The section of a `send`, a `recv` or a `close`.  The queues of the channel gain the task, or
    lose the tasks that it then owes a `goready`. -/
private theorem wakes_channel (hs : TaskStep P ch free sh t e) (hk : P.kind t.code = .channel)
    (h : sh.Sources) (hinv : ∀ (c : ChanId) (m : Chan V), sh.chans[c]? = some m → m.val.Inv)
    (ha : t.code.agrees (sh.status t.id))
    (hq : t.code.settles = true → (sh.status t.id).queue? = none) :
    WakeStep P.variant sh (.run t) e.sh e.pc ∧ e.sh.Sources := by
  have hidle : t.code.calm = true → sh.status t.id = .idle := fun hc =>
    (Code.agrees_of_calm hc).mp ha
  cases hs with
  | chanPoisoned hs =>
    exact wakes_raise_call hs h (.of_eq ⟨rfl, rfl, rfl⟩ rfl rfl rfl rfl) rfl ha hq
  | chanClosed hs hm => exact wakes_chanPanic h ha hq hs hm
  | recvUnwrap hc hx hm hp hq hcap hb =>
    exact absurd hb ((hinv _ _ hm).buf_ne_nil (by rw [hq]; simp) hcap)
  -- the matching waiter is released
  | @sendDelivered x c data k hd m r recvq hc hx hm hp hcl hq =>
    refine wakes_release_one (.recvq c) (.delivered data) h ⟨rfl, rfl, rfl⟩ rfl
      (by simp [Event.update]) (fun j hj st => if_neg (Ne.symm hj)) rfl
      ?_ rfl (by rw [hc]; rfl) (by rw [hc]; rfl) rfl rfl
    exact entries_pop_recvq (setsChan hm) hq rfl
  | @recvTake x c k hd m w sendq hc hx hm hp hq
  | @recvRefill x c k hd m w sendq d buf hc hx hm hp hq =>
    refine wakes_release_one (.sendq c) (.taken) h ⟨rfl, rfl, rfl⟩ rfl
      (by simp [Event.update]) (fun j hj st => if_neg (Ne.symm hj)) rfl
      ?_ rfl (by rw [hc]; rfl) (by rw [hc]; rfl) rfl rfl
    exact entries_pop_sendq (setsChan hm) rfl hq
  | close hc hx hm => exact wakes_close h hm hc (hidle (by rw [hc]; rfl)) rfl
  -- the task becomes a waiter itself
  | @sendEnqueued x c data k hd m hc hx hm =>
    refine wakes_enqueue (.sendq c) h ⟨rfl, rfl, rfl⟩ rfl (by simp [Event.update])
      (fun j hj st => if_neg (Ne.symm hj)) ?_ rfl
      (by rw [hc]; rfl) (by rw [hc]; rfl) (hidle (by rw [hc]; rfl)) rfl
    exact entries_push_sendq (w := ⟨t.id, data⟩) (setsChan hm) rfl rfl
  | @recvEnqueued x c k hd m hc hx hm =>
    refine wakes_enqueue (.recvq c) h ⟨rfl, rfl, rfl⟩ rfl (by simp [Event.update])
      (fun j hj st => if_neg (Ne.symm hj)) ?_ rfl
      (by rw [hc]; rfl) (by rw [hc]; rfl) (hidle (by rw [hc]; rfl)) rfl
    exact entries_push_recvq (setsChan hm) rfl rfl
  -- nobody waits, before or after
  | sendBuffered hc hx hm =>
    exact wakes_quiet h (.of_chan hm rfl rfl)
      (status_settled [_] rfl (by simp [neutral_sent_buffered]) (settles_returned _ _)
        (hidle (by rw [hc]; rfl))) (by rw [hc]; rfl) rfl (by rw [hc]; rfl)
  | recvBuf hc hx hm =>
    exact wakes_quiet h (.of_chan hm rfl rfl)
      (status_settled [_] rfl (by simp [neutral_received_fromBuf]) (settles_returned _ _)
        (hidle (by rw [hc]; rfl))) (by rw [hc]; rfl) rfl (by rw [hc]; rfl)
  | recvClosed hc =>
    exact wakes_quiet h (.of_eq ⟨rfl, rfl, rfl⟩ rfl rfl rfl rfl)
      (status_settled [_] rfl (by simp [neutral_received_closed]) (settles_returned _ _)
        (hidle (by rw [hc]; rfl))) (by rw [hc]; rfl) rfl (by rw [hc]; rfl)
  | groupPanic hc hx =>
    rcases hx with ⟨d, hx⟩ | hx <;> cases (Program.kind_user hc hx).symm.trans hk
  | _ =>
    rw [‹t.code = _›] at hk
    first | cases hk | cases (congrArg Op.kind ‹P.code _ = _›).symm.trans hk

/-- The section of an `add` or a `wait`. -/
private theorem wakes_group (hs : TaskStep P ch free sh t e) (hk : P.kind t.code = .group)
    (h : sh.Sources) (ha : t.code.agrees (sh.status t.id)) :
    WakeStep P.variant sh (.run t) e.sh e.pc ∧ e.sh.Sources := by
  have hidle : t.code.calm = true → sh.status t.id = .idle := fun hc =>
    (Code.agrees_of_calm hc).mp ha
  cases hs with
  | groupPanic hc hx hm hw =>
    exact wakes_raise_calm h
      ⟨⟨rfl, rfl, rfl⟩, fun src i => entries_setGroup_same ⟨hm, rfl, rfl, rfl⟩ hw, rfl⟩ rfl
      (by rw [hc]; rfl) (by rw [hc]; rfl) (hidle (by rw [hc]; rfl))
  | add hc hx hm hp ha' hw => exact wakes_add h hm hw hc (hidle (by rw [hc]; rfl)) rfl
  | waitZero hc =>
    exact wakes_quiet h (.of_eq ⟨rfl, rfl, rfl⟩ rfl rfl rfl rfl)
      (status_settled [] rfl (by simp) (settles_returned _ _)
        (hidle (by rw [hc]; rfl))) (by rw [hc]; rfl) rfl (by rw [hc]; rfl)
  | @waitJoin x g k hd m hc hx hm =>
    refine wakes_enqueue (.waiters g) h ⟨rfl, rfl, rfl⟩ rfl (by simp [Event.update])
      (fun j hj st => if_neg (Ne.symm hj)) ?_ rfl
      (by rw [hc]; rfl) (by rw [hc]; rfl) (hidle (by rw [hc]; rfl)) rfl
    exact entries_push_waiters (setsGroup hm) rfl
  | chanPoisoned hs | chanClosed hs => rcases hs.kind with hc | hc <;> cases hc.symm.trans hk
  | _ =>
    rw [‹t.code = _›] at hk
    first | cases hk | cases (congrArg Op.kind ‹P.code _ = _›).symm.trans hk

/-- The first step of another call: no entry is touched yet. -/
private theorem wakes_call (hP : P.Structured) (hs : TaskStep P ch free sh t e)
    (hk : P.kind t.code = .call) (h : sh.Sources) (ha : t.code.agrees (sh.status t.id)) :
    WakeStep P.variant sh (.run t) e.sh e.pc ∧ e.sh.Sources := by
  have hidle : t.code.calm = true → sh.status t.id = .idle := fun hc =>
    (Code.agrees_of_calm hc).mp ha
  cases hs with
  | go hc | currentTaskId hc | sleep hc | ioBlock _ hc | ioSpawn _ hc =>
    exact wakes_quiet h (.of_eq ⟨rfl, rfl, rfl⟩ rfl rfl rfl rfl) (fun _ => rfl) (by rw [hc]; rfl)
      rfl (by rw [hc]; rfl)
  | gosched hc => exact ⟨.yield rfl (by rw [hc]; rfl) (by rw [hc]; rfl), h⟩
  | sleepOverflow hc | netFail hc =>
    exact wakes_raise_calm h (.of_eq ⟨rfl, rfl, rfl⟩ rfl rfl rfl rfl) rfl (by rw [hc]; rfl)
      (by rw [hc]; rfl) (hidle (by rw [hc]; rfl))
  | netAdd hc hx hn =>
    refine wakes_quiet h (.of_eq ⟨rfl, rfl, rfl⟩ rfl rfl rfl ?_) (fun _ => rfl) (by rw [hc]; rfl)
      rfl (by rw [hc]; rfl)
    unfold NetPoller.epollCtlAdd at hn
    split at hn <;> cases hn
    rfl
  | @gopark x k hc hx =>
    have hop := hP x
    rw [hx] at hop
    cases hop
  | @goready x id k _ hc hx =>
    have hop := hP x
    rw [hx] at hop
    cases hop
  | done hc =>
    exact ⟨.die rfl (by rw [hc]; rfl) (by rw [hc]; rfl),
      h.same (status_of_neutral [.died t.id] rfl (by simp [Event.neutral, Event.update]))
        (fun _ _ => rfl) rfl⟩
  | chanPoisoned hs | chanClosed hs => rcases hs.kind with hc | hc <;> cases hc.symm.trans hk
  | groupPanic hc hx =>
    rcases hx with ⟨d, hx⟩ | hx <;> cases (Program.kind_user hc hx).symm.trans hk
  | _ =>
    rw [‹t.code = _›] at hk
    first | cases hk | cases (congrArg Op.kind ‹P.code _ = _›).symm.trans hk

/-- A later step of a call, up to `gopark`. -/
private theorem wakes_inside (hs : TaskStep P ch free sh t e) (hk : P.kind t.code = .inside)
    (h : sh.Sources) (ha : t.code.agrees (sh.status t.id))
    (hq : t.code.settles = true → (sh.status t.id).queue? = none) :
    WakeStep P.variant sh (.run t) e.sh e.pc ∧ e.sh.Sources := by
  have hidle : t.code.calm = true → sh.status t.id = .idle := fun hc =>
    (Code.agrees_of_calm hc).mp ha
  cases hs with
  | entry hc =>
    exact wakes_quiet h (.of_eq ⟨rfl, rfl, rfl⟩ rfl rfl rfl rfl)
      (status_of_neutral [.entered t.id] rfl (by simp [Event.neutral, Event.update]))
      (by rw [hc]; rfl) rfl (by rw [hc]; rfl)
  | wakeNil hc | spawnWorker _ hc | threadSpawn hc | blocking hc =>
    exact wakes_quiet h (.of_eq ⟨rfl, rfl, rfl⟩ rfl rfl rfl rfl) (fun _ => rfl) (by rw [hc]; rfl)
      rfl (by rw [hc]; rfl)
  | goPush _ hc =>
    exact ⟨.create rfl hc,
      h.same (status_of_neutral [.created _] rfl (by simp [Event.neutral, Event.update]))
        (fun _ _ => rfl) rfl⟩
  | @sleepPush wt k hc =>
    refine wakes_enqueue (.timer wt) h ⟨rfl, rfl, rfl⟩ rfl (by simp [Event.update])
      (fun j hj st => if_neg (Ne.symm hj)) ?_ rfl
      (by rw [hc]; rfl) (by rw [hc]; rfl) (hidle (by rw [hc]; rfl)) trivial
    exact entries_push_timer rfl rfl rfl
  -- one of the `goready` calls that the task owes
  | @wakeLast id ret k _ hc =>
    have hst := fun i => (status_settled []
      (show ((sh.goready (.task t.id) id).1.record [.returned t.id ret]).log = _ ++ ([] ++ [_])
        from rfl) (by simp) (settles_returned _ _)
      ((goready_status t.id).trans (hidle (by rw [hc]; rfl))) i).trans (goready_status i)
    exact ⟨.goready (.task t.id) id ⟨rfl, rfl, rfl⟩ hst (by simp [Pc.collected, hc, Code.owes])
      (.run rfl rfl (by rw [hc]; rfl) rfl),
      (h.goready _ _).same (fun i => (hst i).trans (goready_status i).symm) (fun _ _ => rfl) rfl⟩
  | @wakeMore id id' ids ret k _ hc =>
    exact ⟨.goready (.task t.id) id (.refl _) goready_status (by simp [Pc.collected, hc, Code.owes])
      (.run rfl rfl (by rw [hc]; rfl) rfl), h.goready _ _⟩
  -- the two ends of a registration in `waiting_fds`
  | @registerRead fd k hc =>
    have hst := status_append_one (show ({ sh with net := sh.net.insert fd t.id }.record
      [.registered t.id fd]).log = sh.log ++ [_] from rfl)
    exact ⟨.enqueue rfl (by rw [hc]; rfl) (by rw [hc]; rfl)
      (show Park.waitsAt _ (.fd fd) from rfl) ⟨rfl, rfl, rfl⟩
      (by simp [hst, Event.update]) (fun i hi => (hst i).trans (if_neg (Ne.symm hi))),
      sources_register h (hidle (by rw [hc]; rfl))⟩
  | @unregister fd k hc =>
    have hset : t.code.settles = true := by rw [hc]; rfl
    have hst := status_append_one (show ({ sh with net := sh.net.remove fd }.record
      [.returned t.id (.netPollRead fd)]).log = sh.log ++ [_] from rfl)
    have hown : (sh.status t.id).source? = some (.fd fd) := by
      rw [hc] at ha
      obtain ⟨why, hw⟩ := ha
      rw [hw]
      rfl
    exact ⟨.settle rfl hset rfl rfl ⟨rfl, rfl, rfl⟩ (by simp [hst, Event.update])
      (fun i hi => (hst i).trans (if_neg (Ne.symm hi))), sources_unregister h (hq hset) hown⟩
  | park hc => exact ⟨.parkOut rfl hc, h⟩
  | chanPoisoned hs | chanClosed hs => rcases hs.kind with hc | hc <;> cases hc.symm.trans hk
  | groupPanic hc hx =>
    rcases hx with ⟨d, hx⟩ | hx <;> cases (Program.kind_user hc hx).symm.trans hk
  | _ =>
    rw [‹t.code = _›] at hk
    first | cases hk | cases (congrArg Op.kind ‹P.code _ = _›).symm.trans hk

/-- The step after `gopark`: the exchange is over. -/
private theorem wakes_resume (hs : TaskStep P ch free sh t e) (hk : P.kind t.code = .resume)
    (h : sh.Sources) (ha : t.code.agrees (sh.status t.id))
    (hq : t.code.settles = true → (sh.status t.id).queue? = none) :
    WakeStep P.variant sh (.run t) e.sh e.pc ∧ e.sh.Sources := by
  cases hs with
  | chanPoisoned hs =>
    exact wakes_raise_call hs h (.of_eq ⟨rfl, rfl, rfl⟩ rfl rfl rfl rfl) rfl ha hq
  | chanClosed hs hm => exact wakes_chanPanic h ha hq hs hm
  | resumeSleep hc | resumeSend hc | resumeWait hc =>
    exact wakes_return h (.of_eq ⟨rfl, rfl, rfl⟩ rfl rfl rfl rfl) rfl hc (by simp) ha hq rfl rfl
  | resumeRecv hc hm =>
    exact wakes_return h (.of_chan hm rfl rfl) rfl hc (by simp)
      ha hq rfl rfl
  | resumeNet hc =>
    exact ⟨.settleNet rfl hc ⟨⟨rfl, rfl, rfl⟩, fun _ => rfl⟩,
      h.same (fun _ => rfl) (fun _ _ => rfl) rfl⟩
  | resumeGopark hc =>
    rw [hc] at ha
    obtain ⟨src, hw, -⟩ := ha
    cases hw
  | groupPanic hc hx =>
    rcases hx with ⟨d, hx⟩ | hx <;> cases (Program.kind_user hc hx).symm.trans hk
  | _ =>
    rw [‹t.code = _›] at hk
    first | cases hk | cases (congrArg Op.kind ‹P.code _ = _›).symm.trans hk

/-- **The wake effect of a task's step.** -/
theorem TaskStep.wakes (hP : P.Structured) (hs : TaskStep P ch free sh t e) (h : sh.Sources)
    (hinv : ∀ (c : ChanId) (m : Chan V), sh.chans[c]? = some m → m.val.Inv)
    (ha : t.code.agrees (sh.status t.id))
    (hq : t.code.settles = true → (sh.status t.id).queue? = none) :
    WakeStep P.variant sh (.run t) e.sh e.pc ∧ e.sh.Sources := by
  cases hk : P.kind t.code with
  | channel => exact wakes_channel hs hk h hinv ha hq
  | group => exact wakes_group hs hk h ha
  | call => exact wakes_call hP hs hk h ha
  | inside => exact wakes_inside hs hk h ha hq
  | resume => exact wakes_resume hs hk h ha hq

end Tasks

/-! ### Workers -/

section Workers

variable {P : Program σ V} {ch : Choice} {free : Bool} {sh sh' : Shared σ V} {pc : Pc σ V}
  {e : Effect σ V}

/-- The reports of a poll do not change the status of other tasks. -/
theorem foldl_reported_of_notMem {found : List (RawFd × TaskId)} {i : TaskId}
    (hi : i ∉ found.map (·.2)) (st : Status V) :
    (found.map fun x => (Event.reported x.2 x.1 : Event V)).foldl (Event.update i) st = st := by
  induction found generalizing st with
  | nil => rfl
  | cons x found ih =>
    simp only [List.map_cons, List.mem_cons, not_or] at hi
    rw [List.map_cons, List.foldl_cons, ih hi.2]
    exact if_neg (Ne.symm hi.1)

/-- The reports of a poll release the tasks they are for. -/
theorem foldl_reported_of_mem {found : List (RawFd × TaskId)} (hnd : (found.map (·.2)).Nodup)
    {x : RawFd × TaskId} (hx : x ∈ found) (st : Status V) :
    (found.map fun y => (Event.reported y.2 y.1 : Event V)).foldl (Event.update x.2) st
      = .released (.fd x.1) .reported := by
  induction found generalizing st with
  | nil => cases hx
  | cons y found ih =>
    obtain ⟨hy, hnd⟩ := List.nodup_cons.mp hnd
    rw [List.map_cons, List.foldl_cons]
    rcases List.mem_cons.mp hx with rfl | hx
    · rw [foldl_reported_of_notMem hy]
      exact if_pos rfl
    · exact ih hnd hx _

/-- What a poll finds in `waiting_fds`. -/
theorem mem_lookup {net : NetPoller} {events : List RawFd} {x : RawFd × TaskId}
    (hx : x ∈ net.lookup events) : x.1 ∈ events ∧ net.waitingFds.lookup x.1 = some x.2 := by
  obtain ⟨fd, hfd, h⟩ := List.mem_filterMap.mp hx
  obtain ⟨i, hi, rfl⟩ := Option.map_eq_some_iff.mp h
  exact ⟨hfd, hi⟩

/-- The tasks found for different fds are different when each waits for the fd it was found
    for. -/
theorem nodup_lookup {net : NetPoller} {events : List RawFd} (hnd : events.Nodup)
    (hst : ∀ x ∈ net.lookup events, sh.status x.2 = .queued (.fd x.1)) :
    ((net.lookup events).map (·.2)).Nodup := by
  have hfd : ((net.lookup events).map (·.1)).Nodup := by
    have : (net.lookup events).map (·.1) = events.filter fun fd => (net.waitingFds.lookup fd).isSome := by
      induction events with
      | nil => rfl
      | cons fd events ih =>
        have ih := ih (List.nodup_cons.mp hnd).2 fun x hx => hst x (by
          unfold NetPoller.lookup at hx ⊢
          rw [List.filterMap_cons]
          split <;> simp [hx])
        unfold NetPoller.lookup at ih ⊢
        rw [List.filterMap_cons, List.filter_cons]
        cases net.waitingFds.lookup fd <;> simp [ih]
    rw [this]
    exact hnd.filter _
  refine List.Nodup.map_on ?_ hfd.of_map
  intro x hx y hy hxy
  have h1 := hst x hx
  rw [hxy, hst y hy, Status.queued.injEq, Source.fd.injEq] at h1
  exact Prod.ext h1.symm hxy

/-- A poll that reports only tasks whose registration has not been reported. -/
def Shared.FreshReports (sh : Shared σ V) (pc : Pc σ V) : Prop :=
  ∀ events, pc = .lookup events → ∀ x ∈ sh.net.lookup events, sh.status x.2 = .queued (.fd x.1)

/-- `epoll_wait` reports no fd twice. -/
def Pc.Events : Pc σ V → Prop
  | .lookup events => events.Nodup
  | _ => True

/-- The look-up of a poll takes the reported tasks out of the queue. -/
private theorem wakes_lookup {events : List RawFd} (h : sh.Sources)
    (hev : events.Nodup) (hfresh : sh.FreshReports (.lookup events)) :
    WakeStep P.variant sh (.lookup events)
        (sh.record ((sh.net.lookup events).map fun x => .reported x.2 x.1))
        (.timersNow (.after ((sh.net.lookup events).map (·.2)))) ∧
      (sh.record ((sh.net.lookup events).map fun x => .reported x.2 x.1)).Sources := by
  have hq := hfresh events rfl
  have hnd := nodup_lookup hev hq
  have hst : ∀ i, (sh.record ((sh.net.lookup events).map fun x => .reported x.2 x.1)).status i
      = ((sh.net.lookup events).map fun x => (Event.reported x.2 x.1 : Event V)).foldl
        (Event.update i) (sh.status i) := fun i => statusOf_append i _ _
  -- the report releases the tasks it finds, and no others
  have hmem : ∀ x ∈ sh.net.lookup events,
      (sh.record ((sh.net.lookup events).map fun x => .reported x.2 x.1)).status x.2
        = .released (.fd x.1) .reported := fun x hx => by
    rw [hst, foldl_reported_of_mem hnd hx]
  have hnot : ∀ i, i ∉ (sh.net.lookup events).map (·.2) →
      (sh.record ((sh.net.lookup events).map fun x => .reported x.2 x.1)).status i
        = sh.status i := fun i hi => by rw [hst, foldl_reported_of_notMem hi]
  refine ⟨.release _ hnd ⟨rfl, rfl, rfl⟩ (fun i hi => ?_) hnot (by simp [Pc.collected, Phase.ready])
    (.none rfl rfl), fun src i hs => ?_, fun fd i hl => ?_⟩
  · obtain ⟨x, hx, rfl⟩ := List.mem_map.mp hi
    exact ⟨_, _, hq x hx, hmem x hx⟩
  · -- a task that waits for an fd is in no other source
    refine (h.entries src i hs).trans ?_
    by_cases hi : i ∈ (sh.net.lookup events).map (·.2)
    · obtain ⟨x, hx, rfl⟩ := List.mem_map.mp hi
      have : Source.fd x.1 ≠ src := by rintro rfl; cases hs
      rw [hmem x hx, hq x hx]
      simp [Status.queue?, this]
    · rw [hnot i hi]
  · have hfd := h.fds fd i hl
    by_cases hi : i ∈ (sh.net.lookup events).map (·.2)
    · obtain ⟨x, hx, rfl⟩ := List.mem_map.mp hi
      rw [hq x hx] at hfd
      rw [hmem x hx]
      exact hfd
    · rw [hnot i hi]; exact hfd

/-- `check_timers` pops an entry. -/
private theorem wakes_timersPop {ph : Phase} {now : Instant} {entry : TimerEntry}
    (h : sh.Sources) (he : entry ∈ sh.timerHeap) :
    WakeStep P.variant sh (.timersLock ph now)
        ({ sh with timerHeap := sh.timerHeap.erase entry }.record
          [.timerPop entry.taskId entry.wakeTime now])
        (.timersReady ph now entry.taskId) ∧
      ({ sh with timerHeap := sh.timerHeap.erase entry }.record
          [.timerPop entry.taskId entry.wakeTime now]).Sources := by
  have hent : ∀ src j, ({ sh with timerHeap := sh.timerHeap.erase entry }.record
      [.timerPop entry.taskId entry.wakeTime now]).entries src j
        + (if src = .timer entry.wakeTime ∧ j = entry.taskId then 1 else 0) = sh.entries src j :=
    entries_pop_timer he rfl rfl rfl
  have hst := status_append_one (show ({ sh with timerHeap := sh.timerHeap.erase entry }.record
    [.timerPop entry.taskId entry.wakeTime now]).log = sh.log ++ [_] from rfl)
  have hown : ({ sh with timerHeap := sh.timerHeap.erase entry }.record
      [.timerPop entry.taskId entry.wakeTime now]).status entry.taskId
        = .released (.timer entry.wakeTime) (.fired now) := by simp [hst, Event.update]
  have hother : ∀ i, i ≠ entry.taskId →
      ({ sh with timerHeap := sh.timerHeap.erase entry }.record
        [.timerPop entry.taskId entry.wakeTime now]).status i = sh.status i :=
    fun i hi => (hst i).trans (if_neg (Ne.symm hi))
  -- the entry that is popped is what the task was queued for
  have hpos : 0 < sh.entries (.timer entry.wakeTime) entry.taskId := by
    rw [← hent]
    simp
  refine ⟨.release [entry.taskId] (List.nodup_singleton _) ⟨rfl, rfl, rfl⟩ (fun i hi => ?_)
    (fun i hi => hother i (by simpa using hi)) rfl (.none rfl rfl),
    h.release_one rfl hent hown hother rfl⟩
  obtain rfl := List.mem_singleton.mp hi
  exact ⟨_, _, h.queued_of_entries rfl hpos, hown⟩

/-- After `check_timers` the worker still owes what its poll has found. -/
theorem timersDone_collected (ph : Phase) (w : Option Instant) :
    (timersDone ph w : Pc σ V).collected = ph.ready := by
  rcases ph with (_ | _) | _ <;> cases w <;> rfl

/-- A step of a worker without a task that changes neither tasks nor entries. -/
private theorem wakes_none {pc' : Pc σ V} (h : sh.Sources) (hs : sh.SameEntries sh')
    (hl : sh'.log = sh.log) (hpc : pc.task? = none) (hpc' : pc'.task? = none)
    (hcol : pc'.collected = pc.collected) :
    WakeStep P.variant sh pc sh' pc' ∧ sh'.Sources :=
  ⟨.quiet ⟨hs.tasks, status_of_log hl⟩ hcol (.none hpc hpc'),
    h.same (status_of_log hl) hs.entries hs.fds⟩

/-- `runnable.pop_front()` dispatches a task, or does nothing. -/
private theorem wakes_tryPop {otherwise : Pc σ V} (h : sh.Sources) (hs : sh.SameEntries sh')
    (hl : sh'.log = sh.log) (hpc : pc.task? = none) (hcol : pc.collected = [])
    (ho : otherwise.task? = none) (hoc : otherwise.collected = []) :
    WakeStep P.variant sh pc (tryPop sh' otherwise).sh (tryPop sh' otherwise).pc ∧
      (tryPop sh' otherwise).sh.Sources := by
  unfold tryPop
  split
  · exact wakes_none h hs hl hpc ho (hoc.trans hcol.symm)
  · rename_i t rest hr
    have hst := status_of_neutral [.dispatched t.id]
      (show ((sh'.withQueue sh'.queue.popFront).record [.dispatched t.id]).log = sh.log ++ _ by
        simp [Shared.record, Shared.withQueue, hl])
      (by simp [Event.neutral, Event.update])
    exact ⟨.dispatch hpc hcol (show sh.queue.runnable = t :: rest from hs.tasks.runnable ▸ hr)
      (by simp [Shared.record, Shared.withQueue, GlobalQueue.popFront, hr]) hs.tasks.waiting
      hs.tasks.pendingReady hst,
      h.same hst (fun src i => (entries_congr rfl rfl rfl).trans (hs.entries src i)) hs.fds⟩

/-- **The wake effect of a worker's step.** -/
theorem WorkerStep.wakes (hP : P.Structured) (hs : WorkerStep P ch free sh pc e) (h : sh.Sources)
    (hinv : ∀ (c : ChanId) (m : Chan V), sh.chans[c]? = some m → m.val.Inv)
    (ha : ∀ t, pc = .run t → t.code.agrees (sh.status t.id))
    (hq : ∀ t, pc = .run t → t.code.settles = true → (sh.status t.id).queue? = none)
    (hev : pc.Events) (hfresh : sh.FreshReports pc) :
    WakeStep P.variant sh pc e.sh e.pc ∧ e.sh.Sources := by
  cases hs with
  | register | casFail | casWin | pollNet | pollTimersNone | pollTimersSome | giveUp | timersNow
  | timeout | nothingLeft | epollWait | sleepStart | sleepSkip | sleepEnd | release | wakeDone
  | idleNet | idleTimers | termNetNo | termExit =>
    exact wakes_none h (.of_eq ⟨rfl, rfl, rfl⟩ rfl rfl rfl rfl) rfl rfl rfl rfl
  | timersEmpty | timersWait =>
    exact wakes_none h (.of_eq (.refl _) rfl rfl rfl rfl) rfl rfl (timersDone_task? _ _)
      (timersDone_collected _ _)
  | timersPop hh hw =>
    refine wakes_timersPop h ?_
    simp only [TimerEntry.isPeek, Bool.and_eq_true, decide_eq_true_eq] at hh
    exact hh.1
  | timersReady | wakeReady =>
    exact ⟨.goready _ _ (.refl _) goready_status rfl (.none rfl rfl), h.goready _ _⟩
  | lookup => exact wakes_lookup h hev hfresh
  | top | termNetYes | termStay =>
    exact wakes_tryPop h (.of_eq (.refl _) rfl rfl rfl rfl) rfl rfl rfl rfl rfl
  | goIdle =>
    simp only [idleStep]
    split <;> exact wakes_none h (.of_eq ⟨rfl, rfl, rfl⟩ rfl rfl rfl rfl) rfl rfl rfl rfl
  | notified =>
    simp only [wakeStep]
    split
    · exact wakes_none h (.of_eq ⟨rfl, rfl, rfl⟩ rfl rfl rfl rfl) rfl rfl rfl rfl
    · exact wakes_tryPop h (.of_eq ⟨rfl, rfl, rfl⟩ rfl rfl rfl rfl) rfl rfl rfl rfl rfl
  | run hs => exact hs.wakes hP h hinv (ha _ rfl) (hq _ rfl)
  | drop hd => exact ⟨.drop rfl hd rfl rfl, h⟩
  | park hf hw =>
    refine ⟨.park rfl hw rfl rfl, h.same (fun i => ?_) (fun src i => ?_) ?_⟩
    · unfold Shared.parkTask
      split
      · exact status_of_neutral [.wake _] rfl (by simp [Event.neutral, Event.update]) i
      · rfl
    · unfold Shared.parkTask
      split <;> rfl
    · unfold Shared.parkTask
      split <;> rfl
  | requeue hf hd hw => exact ⟨.requeue rfl hd hw rfl rfl, h.same (fun _ => rfl) (fun _ _ => rfl) rfl⟩

end Workers

end MyGoroutine
