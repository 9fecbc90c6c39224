import MyGoroutine.Wake.Release

namespace MyGoroutine

/-!
# Wait group programs

Closures that only use `go`, `gosched`, `sleep` and the wait groups.  Like the channel programs
they never touch the poller, so the wake discipline holds without a condition.

* `Program.Grouped` — the programs built from these operations;
* `Code.grouped`, `reach_grouped` — the codes of their tasks;
* `reach_freshPolls_grouped`, `reach_disciplined_grouped`, `reach_lawful_grouped` — the discipline
  and the histories of their runs.
-/

variable {σ V : Type}

/-- The operation is one of the scheduler's, `sleep`, or one of a wait group's. -/
def Op.grouped : Op σ V → Bool
  | .go _ _ => true
  | .gosched _ => true
  | .currentTaskId _ => true
  | .sleep _ _ _ => true
  | .add _ _ _ _ => true
  | .wait _ _ _ => true
  | .done => true
  | _ => false

/-- The closures use the scheduler, `sleep` and wait groups only. -/
def Program.Grouped (P : Program σ V) : Prop := ∀ x, (P.code x).grouped = true

/-- The parks of such programs. -/
def Park.grouped : Park σ V → Bool
  | .sleep _ => true
  | .wait _ _ => true
  | _ => false

/-- The points of the codes of such programs; the only calls they owe are those of an `add`. -/
def Code.grouped : Code σ V → Bool
  | .entry _ => true
  | .user _ => true
  | .goPush _ _ _ => true
  | .sleepPush _ _ => true
  | .wake (_ :: _) (.add _) _ => true
  | .park p => p.grouped
  | .parked p => p.grouped
  | _ => false

/-- Such a program never calls `gopark` or `goready` itself. -/
theorem Program.Grouped.structured {P : Program σ V} (h : P.Grouped) : P.Structured := by
  intro x
  have hx := h x
  generalize P.code x = op at hx
  cases op <;> first | rfl | cases hx

/-- The calls that a task owes are those of an `add`. -/
theorem Code.add_of_grouped {ids : List TaskId} {ret : Ret V} {k : σ}
    (h : (Code.wake ids ret k).grouped = true) : ∃ g, ret = .add g := by
  cases ret with
  | add g => exact ⟨g, rfl⟩
  | _ => cases ids <;> cases h

section Steps

variable {P : Program σ V} {ch : Choice} {free : Bool} {sh : Shared σ V} {t : Task σ V}
  {pc : Pc σ V} {e : Effect σ V}

/-- A panic leaves the task in its handler, or where it was. -/
theorem raiseCode_grouped (p : Panic) (h : Handler σ) (hc : t.code.grouped = true) :
    (t.raiseCode p h).grouped = true := by
  cases h
  · exact hc
  · rfl

/-- Its tasks enter no section of a channel. -/
theorem ChanCall.not_grouped {c : ChanId} {h : Handler σ} {sec : ChanSection} (hP : P.Grouped)
    (hc : t.code.grouped = true) (hs : ChanCall P t c h sec) : False := by
  have hop : ∀ {x op}, P.code x = op → op.grouped = true := fun {x op} hx => hx ▸ hP x
  cases hs with
  | send _ hx | recv _ hx | close _ hx => cases hop hx
  | sendResume h | recvResume h =>
    rw [h] at hc
    cases hc

/-- A step of a task keeps to the operations of its program. -/
theorem TaskStep.grouped (hP : P.Grouped) (hs : TaskStep P ch free sh t e)
    (hc : t.code.grouped = true) :
    e.sh.net = sh.net ∧ ∀ u, e.pc.task? = some u → u.code.grouped = true := by
  have hop : ∀ {x op}, P.code x = op → op.grouped = true := fun {x op} hx => hx ▸ hP x
  cases hs with
  | recvUnwrap _ hx | sendDelivered _ hx | sendBuffered _ hx | sendEnqueued _ hx | recvClosed _ hx
  | recvTake _ hx | recvRefill _ hx | recvBuf _ hx | recvEnqueued _ hx | close _ hx | netFail _ hx
  | netAdd _ hx | ioSpawn _ _ hx | ioBlock _ _ hx | gopark _ hx | goready _ _ hx => cases hop hx
  | chanPoisoned hs | chanClosed hs => exact (hs.not_grouped hP hc).elim
  | registerRead h | unregister h | spawnWorker _ h | threadSpawn h | blocking h | resumeNet h
  | resumeGopark h | resumeSend h | resumeRecv h | wakeNil h =>
    rw [h] at hc
    cases hc
  | sleepOverflow | groupPanic =>
    refine ⟨by rw [raise_sh]; rfl, fun u hu => ?_⟩
    rw [raise_pc] at hu
    cases hu
    exact raiseCode_grouped _ _ hc
  | @add x g d k h m woken =>
    refine ⟨by rw [finish_sh]; rfl, fun u hu => ?_⟩
    rw [finish_pc] at hu
    cases hu
    cases woken <;> rfl
  | wakeMore _ h =>
    refine ⟨framed_net.goready _ _ _, fun u hu => ?_⟩
    cases hu
    rw [h] at hc
    obtain ⟨g, rfl⟩ := Code.add_of_grouped hc
    rfl
  | wakeLast => exact ⟨framed_net.goready _ _ _, fun u hu => by cases hu; rfl⟩
  | park h =>
    refine ⟨rfl, fun u hu => ?_⟩
    cases hu
    rw [h] at hc
    exact hc
  | done =>
    refine ⟨rfl, fun u hu => ?_⟩
    cases hu
    exact hc
  | entry | go | gosched | currentTaskId | sleep | goPush | sleepPush | waitZero | waitJoin
  | resumeSleep | resumeWait =>
    refine ⟨rfl, fun u hu => ?_⟩
    cases hu
    rfl

/-- No step of a worker registers an fd. -/
theorem WorkerStep.net_of_grouped (hP : P.Grouped) (hs : WorkerStep P ch free sh pc e)
    (hc : ∀ t, pc = .run t → t.code.grouped = true) : e.sh.net = sh.net := by
  rcases hs.task_or with ⟨t, rfl, htask⟩ | hpc
  · exact (htask.grouped hP (hc _ rfl)).1
  · exact hs.framed framed_net hpc

end Steps

section Runs

variable {P : Program σ V} {ok : Act → State σ V → Prop} {s : State σ V}

/-- **The codes of a wait group program**, in every state reached. -/
theorem reach_grouped (hP : P.Grouped) (hr : (runtime P).Reach ok s) :
    ∀ t, s.Holds t → t.code.grouped = true :=
  reach_codes (p := fun c => c.grouped = true) (fun _ => rfl)
    (fun _ _ _ _ u _ _ hs hc hu => (hs.grouped hP hc).2 u hu) hr

/-- Nobody waits for an fd. -/
theorem reach_waitingFds (hP : P.Grouped) (hr : (runtime P).Reach ok s) :
    s.sh.net.waitingFds = ∅ := by
  refine shared_invariant (I := fun sh => sh.net.waitingFds = ∅) (fun _ _ _ => rfl) ?_ ?_ ?_ hr
  · intro sh sh' hsame h
    rw [hsame.net]
    exact h
  · exact fun _ _ _ h => h
  · intro s ch pc e hr h hpc hs
    have hnet := hs.net_of_grouped hP fun t ht =>
      reach_grouped hP hr t (.inr ⟨pc, hpc, by rw [ht]; rfl⟩)
    rw [hnet]
    exact h

/-- The polls of such a program report nothing. -/
theorem reach_freshPolls_grouped (hP : P.Grouped) (hr : (runtime P).Reach ok s) :
    (runtime P).Reach FreshPolls s := by
  induction hr with
  | init h => exact .init h
  | step hr _ hn ih => exact .step ih (freshPolls_of_fds (reach_waitingFds hP hr) _) hn

/-- So do those of a run from a state reached. -/
theorem startingAt_freshPolls_grouped (hP : P.Grouped) {s₀ : State σ V}
    (h0 : (runtime P).init s₀) (hr : ((runtime P).startingAt s₀).Reach ok s) :
    ((runtime P).startingAt s₀).Reach FreshPolls s :=
  (hr.and fun a _ hr => freshPolls_of_fds
    (reach_waitingFds hP (System.startingAt_reach h0 hr)) a).mono fun _ _ h => h.2

/-- **The wake discipline of a wait group program.** -/
theorem reach_disciplined_grouped (hP : P.Grouped) (hr : (runtime P).Reach ok s) :
    s.Disciplined :=
  reach_disciplined hP.structured (fun _ _ h => h) (reach_freshPolls_grouped hP hr)

/-- Each release in the history has its cause before it. -/
theorem reach_lawful_grouped (hP : P.Grouped) (hr : (runtime P).Reach ok s) :
    History.Each Event.Lawful s.sh.log :=
  reach_lawful hP.structured (fun _ _ h => h) (reach_freshPolls_grouped hP hr)

/-- The wake effect of a step of such a program. -/
theorem WorkerStep.wakes_grouped {ch : Choice} {w : Nat} {pc : Pc σ V} {e : Effect σ V}
    (hP : P.Grouped) (hr : (runtime P).Reach ok s) (ha : s.sh.aborted = none)
    (hw : s.workers[w]? = some pc) (hs : WorkerStep P ch (queueFree s.workers) s.sh pc e) :
    WakeStep P.variant s.sh pc e.sh e.pc :=
  ((reach_disciplined_grouped hP hr).wakes (reach_shaped hr) (reach_placed hr) hw hP.structured hs
    (fun _ _ hm => reach_chanInv hr hm)
    (freshPolls_of_fds (reach_waitingFds hP hr) (.worker w ch) w ch pc rfl hw) ha).1

end Runs

end MyGoroutine
