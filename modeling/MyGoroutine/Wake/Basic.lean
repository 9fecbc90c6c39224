import MyGoroutine.Wake.Discipline

namespace MyGoroutine

/-!
# Channel programs

Closures that only use `go`, `gosched`, `sleep` and the channels never touch the poller or a
wait group, so no poll of theirs reports anything and the wake discipline holds without a
condition.

* `Program.Basic` — the programs built from these operations;
* `State.Basic`, `reach_basic` — their codes, their fds and their histories;
* `State.Basic.freshPolls`, `reach_disciplined_basic` — the discipline, for every run of such a
  program.
-/

variable {σ V : Type}

/-! ### The programs

The laws of the channels are stated for programs without wait groups and without network calls. For
these the conditions about polls hold by themselves.
-/

/-- The operation is one of the scheduler's, `sleep`, or one of a channel's. -/
def Op.basic : Op σ V → Bool
  | .go _ _ => true
  | .gosched _ => true
  | .currentTaskId _ => true
  | .sleep _ _ _ => true
  | .send _ _ _ _ => true
  | .recv _ _ _ => true
  | .close _ _ _ => true
  | .done => true
  | _ => false

/-- The closures use the scheduler, `sleep` and channels only. -/
def Program.Basic (P : Program σ V) : Prop := ∀ x, (P.code x).basic = true

/-- They never enter a section of a wait group. -/
theorem Program.Basic.kind_ne_group {P : Program σ V} (hP : P.Basic) (c : Code σ V) :
    P.kind c ≠ .group := by
  cases c with
  | user x =>
    have hop := hP x
    intro hk
    have hk : (P.code x).kind = .group := hk
    cases hx : P.code x with
    | add | wait =>
      rw [hx] at hop
      cases hop
    | _ =>
      rw [hx] at hk
      cases hk
  | _ => exact fun hk => by cases hk

/-- The parks of such programs. -/
def Park.basic : Park σ V → Bool
  | .sleep _ => true
  | .send _ _ _ => true
  | .recv _ _ _ => true
  | _ => false

/-- The points of the codes of such programs. -/
def Code.basic : Code σ V → Bool
  | .registerRead _ _ => false
  | .unregister _ _ => false
  | .spawnWorker _ => false
  | .threadSpawn _ _ => false
  | .blocking _ => false
  | .park p => p.basic
  | .parked p => p.basic
  | _ => true

/-- The event is about no wait group and no fd. -/
def Event.basic : Event V → Bool
  | .added _ _ _ _ => false
  | .joined _ _ => false
  | .registered _ _ => false
  | .reported _ _ => false
  | _ => true

/-- The basic operations call neither `gopark` nor `goready` directly. -/
theorem Op.structured_of_basic {op : Op σ V} (h : op.basic = true) : op.structured = true := by
  cases op <;> first | rfl | cases h

/-- A basic program never calls `gopark` or `goready` itself. -/
theorem Program.Basic.structured {P : Program σ V} (h : P.Basic) : P.Structured :=
  fun x => Op.structured_of_basic (h x)

/-- What the steps of such a program keep. -/
structure State.Basic (s : State σ V) : Prop where
  codes : ∀ t, s.Holds t → t.code.basic = true
  fds : s.sh.net.waitingFds = ∅
  events : ∀ e ∈ s.sh.log, e.basic = true

/-! ### The steps

That no fd is ever registered is an invariant: the map of the poller stays empty, so no poll finds a
task.
-/

section Steps

variable {P : Program σ V} {ch : Choice} {free : Bool} {sh sh' : Shared σ V} {t : Task σ V}
  {pc : Pc σ V} {e : Effect σ V}

/-- The poller's map is the same, and the history grew by basic events. -/
structure Shared.BasicStep (sh sh' : Shared σ V) : Prop where
  fds : sh'.net.waitingFds = sh.net.waitingFds
  events : ∃ es, sh'.log = sh.log ++ es ∧ ∀ e ∈ es, e.basic = true

/-- A step that logs nothing and leaves `waiting_fds` alone. -/
theorem Shared.BasicStep.of_log (hf : sh'.net.waitingFds = sh.net.waitingFds)
    (hl : sh'.log = sh.log) : sh.BasicStep sh' :=
  ⟨hf, [], by simp [hl], by simp⟩

/-- Logging more basic events. -/
theorem Shared.BasicStep.append {es : List (Event V)} (h : sh.BasicStep sh')
    (hes : ∀ e ∈ es, e.basic = true) : sh.BasicStep (sh'.record es) := by
  obtain ⟨es', hl, hes'⟩ := h.events
  refine ⟨h.fds, es' ++ es, by simp [Shared.record, hl], fun e he => ?_⟩
  rcases List.mem_append.mp he with he | he
  · exact hes' e he
  · exact hes e he

/-- `goready` logs basic events, and registers no fd. -/
theorem goready_basic (waker : Waker) (id : TaskId) : sh.BasicStep (sh.goready waker id).1 := by
  unfold Shared.goready
  split <;> exact ⟨rfl, _, rfl, by simp [Event.basic]⟩

/-- `pop_front` logs basic events, and registers no fd. -/
theorem tryPop_basic {otherwise : Pc σ V} (hf : sh'.net.waitingFds = sh.net.waitingFds)
    (hl : sh'.log = sh.log) : sh.BasicStep (tryPop sh' otherwise).sh := by
  unfold tryPop
  split
  · exact .of_log hf hl
  · exact ⟨hf, [_], congrArg (· ++ [_]) hl, by simp [Event.basic]⟩

/-- The end of a call is a basic point. -/
theorem finishCode_basic (ids : List TaskId) (ret : Ret V) (k : σ) :
    (finishCode ids ret k : Code σ V).basic = true := by
  cases ids <;> rfl

/-- A panic leads to a basic point. -/
theorem raiseCode_basic (p : Panic) (h : Handler σ) (hc : t.code.basic = true) :
    (t.raiseCode p h).basic = true := by
  cases h
  · exact hc
  · rfl

/-- A panic is a basic event, and registers no fd. -/
theorem raise_basic {p : Panic} {h : Handler σ} (hf : sh'.net.waitingFds = sh.net.waitingFds)
    (hl : sh'.log = sh.log) : sh.BasicStep (t.raise sh' p h).sh := by
  refine ⟨?_, [.panicked t.id p], by rw [raise_log, hl], by simp [Event.basic]⟩
  rw [raise_sh]
  exact hf

/-- A step of a task keeps to the operations of its program. -/
theorem TaskStep.basic (hP : P.Basic) (hs : TaskStep P ch free sh t e)
    (hc : t.code.basic = true) :
    sh.BasicStep e.sh ∧ ∀ u, e.pc.task? = some u → u.code.basic = true := by
  have hop : ∀ {x op}, P.code x = op → op.basic = true := fun {x op} hx => hx ▸ hP x
  cases hs with
  | netFail _ hx | netAdd _ hx | ioSpawn _ _ hx | ioBlock _ _ hx | gopark _ hx | goready _ _ hx
  | add _ hx | waitZero _ hx | waitJoin _ hx => cases hop hx
  | groupPanic _ hx =>
    rcases hx with ⟨d, hx⟩ | hx <;> cases hop hx
  | registerRead h | unregister h | spawnWorker _ h | threadSpawn h | blocking h | resumeWait h
  | resumeNet h | resumeGopark h =>
    rw [h] at hc
    cases hc
  | sleepOverflow | chanPoisoned | chanClosed | recvUnwrap =>
    refine ⟨raise_basic rfl rfl, fun u hu => ?_⟩
    rw [raise_pc] at hu
    cases hu
    exact raiseCode_basic _ _ hc
  | close =>
    refine ⟨?_, fun u hu => ?_⟩
    · rw [finish_sh, Shared.record_record]
      refine ⟨rfl, _, rfl, ?_⟩
      split <;> simp [Event.basic]
    · rw [finish_pc] at hu
      cases hu
      exact finishCode_basic _ _ _
  | wakeMore => exact ⟨goready_basic _ _, fun u hu => by cases hu; rfl⟩
  | wakeLast =>
    exact ⟨(goready_basic _ _).append (by simp [Event.basic]), fun u hu => by cases hu; rfl⟩
  | park h =>
    rw [h] at hc
    exact ⟨.of_log rfl rfl, fun u hu => by cases hu; exact hc⟩
  | done => exact ⟨⟨rfl, _, rfl, by simp [Event.basic]⟩, fun u hu => by cases hu; exact hc⟩
  | go | gosched | currentTaskId | sleep | wakeNil =>
    exact ⟨.of_log rfl rfl, fun u hu => by cases hu; rfl⟩
  | entry | goPush | sleepPush | sendDelivered | sendBuffered | sendEnqueued | recvClosed | recvTake
  | recvRefill | recvBuf | recvEnqueued | resumeSleep | resumeSend | resumeRecv =>
    exact ⟨⟨rfl, _, rfl, by simp [Event.basic]⟩, fun u hu => by cases hu; rfl⟩

/-- No step of a worker registers an fd, and no poll finds one. -/
theorem WorkerStep.basic (hP : P.Basic) (hs : WorkerStep P ch free sh pc e)
    (hc : ∀ t, pc = .run t → t.code.basic = true) (hf : sh.net.waitingFds = ∅) :
    sh.BasicStep e.sh := by
  cases hs with
  | run hs => exact (hs.basic hP (hc _ rfl)).1
  | timersReady | wakeReady => exact goready_basic _ _
  | @lookup events =>
    have hnil : sh.net.lookup events = [] := by
      simp [NetPoller.lookup, hf]
    exact ⟨rfl, [], by simp [Shared.record, hnil], by simp⟩
  | timersPop => exact ⟨rfl, _, rfl, by simp [Event.basic]⟩
  | top | termNetYes | termStay => exact tryPop_basic rfl rfl
  | notified =>
    simp only [wakeStep]
    split
    · exact .of_log rfl rfl
    · exact tryPop_basic rfl rfl
  | goIdle =>
    simp only [idleStep]
    split <;> exact .of_log rfl rfl
  | park =>
    unfold Shared.parkTask
    split
    · exact ⟨rfl, _, rfl, by simp [Event.basic]⟩
    · exact .of_log rfl rfl
  | _ => exact .of_log rfl rfl

end Steps

/-- **Every state reached by a basic program is basic.** -/
theorem reach_basic {P : Program σ V} (hP : P.Basic) {ok : Act → State σ V → Prop} {s : State σ V}
    (hr : (runtime P).Reach ok s) : s.Basic := by
  have hcodes : ∀ {s : State σ V}, (runtime P).Reach ok s →
      ∀ t, s.Holds t → t.code.basic = true :=
    reach_codes (p := fun c => c.basic = true) (fun _ => rfl)
      fun _ _ _ _ u _ _ hs hc hu => (hs.basic hP hc).2 u hu
  suffices h : s.sh.net.waitingFds = ∅ ∧ ∀ e ∈ s.sh.log, e.basic = true from
    ⟨hcodes hr, h.1, h.2⟩
  refine shared_invariant (I := fun sh => sh.net.waitingFds = ∅ ∧ ∀ e ∈ sh.log, e.basic = true)
    (fun _ _ _ => ⟨rfl, by simp [State.initial]⟩) ?_ ?_ ?_ hr
  · intro sh sh' hsame h
    rw [hsame.net, hsame.log]
    exact h
  · rintro id f sh ⟨hf, he⟩
    refine ⟨hf, fun e hmem => ?_⟩
    rcases List.mem_append.mp hmem with hmem | hmem
    · exact he e hmem
    · rw [List.mem_singleton.mp hmem]; rfl
  · rintro s ch pc e hr ⟨hf, he⟩ hpc hs
    have hstep := hs.basic hP (fun t ht => hcodes hr t (.inr ⟨pc, hpc, by rw [ht]; rfl⟩)) hf
    obtain ⟨es, hl, hes⟩ := hstep.events
    refine ⟨hstep.fds.trans hf, fun e hmem => ?_⟩
    rw [hl] at hmem
    rcases List.mem_append.mp hmem with hmem | hmem
    · exact he e hmem
    · exact hes e hmem

/-- The polls of a basic program report nothing. -/
theorem State.Basic.freshPolls {s : State σ V} (h : s.Basic) (a : Act) : FreshPolls a s :=
  freshPolls_of_fds h.fds a

/-- The runs of a basic program have fresh polls only. -/
theorem reach_freshPolls {P : Program σ V} (hP : P.Basic) {ok : Act → State σ V → Prop}
    {s : State σ V} (hr : (runtime P).Reach ok s) : (runtime P).Reach FreshPolls s := by
  induction hr with
  | init h => exact .init h
  | step hr _ hn ih => exact .step ih ((reach_basic hP hr).freshPolls _) hn

/-- So do its runs from a state reached. -/
theorem startingAt_freshPolls {P : Program σ V} (hP : P.Basic) {ok : Act → State σ V → Prop}
    {s₀ s : State σ V} (h0 : (runtime P).Reachable s₀)
    (hr : ((runtime P).startingAt s₀).Reach ok s) :
    ((runtime P).startingAt s₀).Reach FreshPolls s := by
  have hback : ∀ {s}, ((runtime P).startingAt s₀).Reach ok s → (runtime P).Reachable s := by
    intro s hr
    induction hr with
    | init h => exact h ▸ h0
    | step _ _ hn ih => exact ih.step hn
  exact (hr.and fun a s hr => (reach_basic hP (hback hr)).freshPolls a).mono fun _ _ h => h.2

/-- **The wake discipline of a basic program**, in every state reached. -/
theorem reach_disciplined_basic {P : Program σ V} (hP : P.Basic) {ok : Act → State σ V → Prop}
    {s : State σ V} (hr : (runtime P).Reach ok s) : s.Disciplined :=
  reach_disciplined hP.structured (fun _ _ h => h) (reach_freshPolls hP hr)

end MyGoroutine
