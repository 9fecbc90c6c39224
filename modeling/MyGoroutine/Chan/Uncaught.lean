import MyGoroutine.Sched.Codes
import MyGoroutine.Wake.Basic

namespace MyGoroutine

/-!
# Programs that catch no panic

When no closure catches the panics of its channel operations, the first one aborts the process.
So as long as the process runs, no channel is poisoned.

* `Program.Uncaught` — the programs without `catch_unwind`;
* `reach_uncaught` — the operations in progress have no handler either;
* `reach_unpoisoned` — no channel is poisoned while the process runs.
-/

variable {σ V : Type}

/-- No handler catches a panic of the operation. -/
def Op.uncaught : Op σ V → Bool
  | .send _ _ _ h => h.isNone
  | .recv _ _ h => h.isNone
  | .close _ _ h => h.isNone
  | _ => true

/-- The closures catch no panic of a channel operation. -/
def Program.Uncaught (P : Program σ V) : Prop := ∀ x, (P.code x).uncaught = true

/-- No handler catches a panic of the operation in progress. -/
def Code.uncaught : Code σ V → Bool
  | .park (.send _ _ h) => h.isNone
  | .park (.recv _ _ h) => h.isNone
  | .parked (.send _ _ h) => h.isNone
  | .parked (.recv _ _ h) => h.isNone
  | _ => true

section Steps

variable {P : Program σ V} {ch : Choice} {free : Bool} {sh : Shared σ V} {t : Task σ V}
  {e : Effect σ V}

/-- The end of a call has no handler. -/
theorem finishCode_uncaught (ids : List TaskId) (ret : Ret V) (k : σ) :
    (finishCode ids ret k : Code σ V).uncaught = true := by
  cases ids <;> rfl

/-- Without a handler the task stays where it is. -/
theorem raiseCode_uncaught (p : Panic) (h : Handler σ) (hc : t.code.uncaught = true) :
    (t.raiseCode p h).uncaught = true := by
  cases h
  · exact hc
  · rfl

/-- Operations in progress keep the handler they were called with. -/
theorem TaskStep.uncaught (hP : P.Uncaught) (hs : TaskStep P ch free sh t e)
    (hc : t.code.uncaught = true) {u : Task σ V} (hu : e.pc.task? = some u) :
    u.code.uncaught = true := by
  have hop : ∀ {x op}, P.code x = op → op.uncaught = true := fun {x op} hx => hx ▸ hP x
  cases hs with
  | chanPoisoned | chanClosed | recvUnwrap | groupPanic | sleepOverflow | netFail =>
    rw [raise_pc] at hu
    cases hu
    exact raiseCode_uncaught _ _ hc
  | close | add =>
    rw [finish_pc] at hu
    cases hu
    exact finishCode_uncaught _ _ _
  | sendEnqueued _ hx | recvEnqueued _ hx =>
    cases hu
    exact hop hx
  | @park p hp =>
    cases hu
    rw [hp] at hc
    cases p <;> exact hc
  | done => cases hu; exact hc
  | _ => cases hu; rfl

/-- The section a task is about to enter has no handler. -/
theorem ChanCall.handler_none (hP : P.Uncaught) (hc : t.code.uncaught = true) {c : ChanId}
    {h : Handler σ} {sec : ChanSection} (hs : ChanCall P t c h sec) : h = none := by
  have hop : ∀ {x op}, P.code x = op → op.uncaught = true := fun {x op} hx => hx ▸ hP x
  cases hs with
  | send _ hx | recv _ hx | close _ hx => exact Option.isNone_iff_eq_none.mp (hop hx)
  | sendResume hp | recvResume hp =>
    rw [hp] at hc
    exact Option.isNone_iff_eq_none.mp hc

/-- No channel is poisoned. -/
def Shared.Unpoisoned (sh : Shared σ V) : Prop := ∀ m ∈ sh.chans, m.poisoned = false

/-- A section that does not panic leaves no channel poisoned. -/
theorem Shared.Unpoisoned.set {sh sh' : Shared σ V} {c : ChanId} {m' : Chan V}
    (h : sh.Unpoisoned) (hc : sh'.chans = sh.chans.set c m') (hp : m'.poisoned = false) :
    sh'.Unpoisoned := by
  intro m₁ hm₁
  rw [hc] at hm₁
  rcases List.mem_or_eq_of_mem_set hm₁ with hm₁ | rfl
  · exact h m₁ hm₁
  · exact hp

/-- A step of a task poisons no channel, or aborts the process. -/
theorem TaskStep.unpoisoned (hP : P.Uncaught) (hs : TaskStep P ch free sh t e)
    (hc : t.code.uncaught = true) (h : sh.Unpoisoned) (ha : e.sh.aborted = none) :
    e.sh.Unpoisoned := by
  cases hs with
  | chanPoisoned hs hm hp =>
    rw [h _ (List.mem_of_getElem? hm)] at hp
    cases hp
  | chanClosed hs =>
    -- the panic in the section is not caught, so the process aborts
    rw [raise_sh, hs.handler_none hP hc] at ha
    cases ha
  | @recvUnwrap x c k hd m w sendq hx hcode =>
    have hnone := ChanCall.handler_none hP hc (.recv hx hcode)
    rw [raise_sh, hnone] at ha
    cases ha
  | sendDelivered hx hc hm hp | sendBuffered hx hc hm hp | sendEnqueued hx hc hm hp
  | recvTake hx hc hm hp | recvRefill hx hc hm hp | recvBuf hx hc hm hp | recvEnqueued hx hc hm hp
  | resumeRecv hx hm hp => exact h.set rfl hp
  | close hx hc hm hp =>
    rw [finish_sh]
    exact h.set rfl hp
  | add => rw [finish_sh]; exact h
  | groupPanic | sleepOverflow | netFail =>
    intro m hm
    rw [raise_chans] at hm
    exact h m hm
  | goready | wakeMore | wakeLast =>
    intro m hm
    exact h m (goready_chans sh _ _ ▸ hm)
  | _ => exact h

end Steps

/-- The operations in progress have no handler. -/
theorem reach_uncaught {P : Program σ V} (hP : P.Uncaught) {ok : Act → State σ V → Prop}
    {s : State σ V} (hr : (runtime P).Reach ok s) : ∀ t, s.Holds t → t.code.uncaught = true :=
  reach_codes (p := fun c => c.uncaught = true) (fun _ => rfl)
    (fun _ _ _ _ _ _ _ hs hc hu => hs.uncaught hP hc hu) hr

/-- **No channel is poisoned while the process runs.** -/
theorem reach_unpoisoned {P : Program σ V} (hP : P.Uncaught) {ok : Act → State σ V → Prop}
    {s : State σ V} (hr : (runtime P).Reach ok s) (ha : s.sh.aborted = none) :
    s.sh.Unpoisoned := by
  revert ha
  refine hr.invariant (I := fun s => s.sh.aborted = none → s.sh.Unpoisoned) ?_ ?_
  · rintro s ⟨caps, groups, calls, rfl⟩ - m hm
    obtain ⟨cap, -, rfl⟩ := List.mem_map.mp hm
    rfl
  · intro s s' a hr h _ hn ha'
    obtain ⟨ha, hn⟩ := next_inv hn
    have h := h ha
    rcases hn.cases with ⟨w, ch, pc, e, -, hw, hs, hmove⟩ | ⟨ho, -⟩
    · rw [hmove.sh] at ha' ⊢
      rcases hs.task_or with ⟨t, rfl, htask⟩ | hpc
      · have hc := reach_uncaught hP hr t (.inr ⟨_, List.mem_of_getElem? hw, rfl⟩)
        exact htask.unpoisoned hP hc h ha'
      · have hsame := (hs.sameChans hpc).chans
        exact fun m hm => h m (hsame ▸ hm)
    · cases ho with
      | go hsh => rw [hsh]; exact h
      | push hsh => rw [hsh]; exact h
      | same hsh => exact fun m hm => h m (hsh.chans ▸ hm)

end MyGoroutine
