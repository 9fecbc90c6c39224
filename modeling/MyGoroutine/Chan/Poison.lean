import MyGoroutine.Model.Runtime

namespace MyGoroutine

/-!
# Panics and the mutex of a channel

`send` and `close` raise their panics while they hold the mutex of the channel.  The contents
of the channel stay as they were, but the guard is dropped while unwinding, and the mutex is
poisoned: from then on every `lock().unwrap()` panics, whichever task makes it.

* `ChanOp` — the sections of a channel, as calls with their arguments;
* `ChanOp.enter`, `outcomes` — one call, and the outcomes of a sequence of calls;
* `outcomes_poisoned` — every call on a poisoned channel panics;
* `ChanOp.enter_error` — what a panicking call leaves behind;
* `outcomes_after_panic_iff` — a panicking call goes unnoticed exactly when no call follows.
-/

/-- A call of one of the five sections of a channel. -/
inductive ChanOp (V : Type) where
  /-- The section of `send` before `gopark`. -/
  | send (t : TaskId) (data : V)
  /-- The section of `send` after `gopark`. -/
  | sendResume
  /-- The section of `recv` before `gopark`. -/
  | recv (t : TaskId)
  /-- The section of `recv` after `gopark`. -/
  | recvResume (t : TaskId)
  /-- The section of `close`. -/
  | close

/-- What a section that does not panic tells its caller. -/
inductive Outcome (V : Type) where
  | send (o : SendOutcome)
  | sendResume
  | recv (o : RecvOutcome V)
  | recvResume (o : Option V)
  | close (receivers : List TaskId) (senders : List (SendWaiter V))

variable {V : Type}

/-- Lock the channel and run the section. -/
def ChanOp.enter (m : Chan V) : ChanOp V → Chan V × Except Panic (Outcome V)
  | .send t data => let r := m.lock (·.send t data); (r.1, r.2.map .send)
  | .sendResume => let r := m.lock (·.sendResume); (r.1, r.2.map fun _ => .sendResume)
  | .recv t => let r := m.lock (·.recv t); (r.1, r.2.map .recv)
  | .recvResume t => let r := m.lock (·.recvResume t); (r.1, r.2.map .recvResume)
  | .close => let r := m.lock (·.close); (r.1, r.2.map fun q => .close q.1 q.2)

/-- The outcomes of a sequence of calls, whichever tasks make them. -/
def outcomes (m : Chan V) : List (ChanOp V) → List (Except Panic (Outcome V))
  | [] => []
  | op :: ops => (op.enter m).2 :: outcomes (op.enter m).1 ops

/-- A section of a poisoned mutex panics before it does anything. -/
theorem lock_of_poisoned {α β : Type} {m : Mutex α} {body : α → α × Except Panic β}
    (h : m.poisoned = true) : m.lock body = (m, .error .poisoned) := by
  simp [Mutex.lock, h]

/-- A section on a poisoned channel does not start. -/
theorem ChanOp.enter_of_poisoned {m : Chan V} (h : m.poisoned = true) (op : ChanOp V) :
    op.enter m = (m, .error .poisoned) := by
  cases op <;> simp only [ChanOp.enter, lock_of_poisoned h] <;> rfl

/-- **Every call on a poisoned channel panics.** -/
theorem outcomes_poisoned {m : Chan V} (h : m.poisoned = true) (ops : List (ChanOp V)) :
    outcomes m ops = ops.map fun _ => .error .poisoned := by
  induction ops with
  | nil => rfl
  | cons op ops ih => rw [outcomes, op.enter_of_poisoned h, ih, List.map_cons]

/-! ### Panicking sections

A section that panics does so before its first write, so the contents survive; but the guard is
dropped while the panic unwinds, and that poisons the mutex. The only panic after a write would be
that of the `unwrap` in `recv`, which the representation invariant rules out.
-/

/-- The section's panics are its own, and all but that of `unwrap` come before it has written
    anything. -/
def Clean {β : Type} (body : ChanInner V → ChanInner V × Except Panic β) : Prop :=
  ∀ a p, (body a).2 = .error p → p ≠ .poisoned ∧ (p ≠ .unwrapNone → (body a).1 = a)

/-- The first section of `send` leaves the channel alone when it panics. -/
theorem clean_send (t : TaskId) (data : V) : Clean (ChanInner.send t data) := by
  intro a p h
  unfold ChanInner.send at h ⊢
  split
  · rename_i hcl
    rw [if_pos hcl] at h
    cases h
    exact ⟨by decide, fun _ => rfl⟩
  · rename_i hcl
    rw [if_neg hcl] at h
    split at h
    · cases h
    · split at h <;> cases h

/-- The second section of `send` leaves the channel alone when it panics. -/
theorem clean_sendResume : Clean (V := V) ChanInner.sendResume := by
  intro a p h
  unfold ChanInner.sendResume at h ⊢
  split at h <;> cases h
  exact ⟨by decide, fun _ => by split <;> rfl⟩

/-- The first section of `recv` leaves the channel alone when it panics. -/
theorem clean_recv (t : TaskId) : Clean (V := V) (ChanInner.recv t) := by
  intro a p h
  unfold ChanInner.recv at h
  split at h
  · cases h
  · split at h
    · split at h
      · cases h
      · split at h
        · cases h
        · cases h
          exact ⟨by decide, fun hp => absurd rfl hp⟩
    · split at h
      · cases h
      · split at h <;> cases h

/-- The second section of `recv` does not panic. -/
theorem clean_recvResume (t : TaskId) : Clean (V := V) (ChanInner.recvResume t) := by
  intro a p h
  cases h

/-- `close` leaves the channel alone when it panics. -/
theorem clean_close : Clean (V := V) ChanInner.close := by
  intro a p h
  unfold ChanInner.close at h ⊢
  split at h <;> cases h
  exact ⟨by decide, fun _ => by split <;> rfl⟩

/-- A panicking section poisons the mutex. -/
theorem lock_of_clean {β γ : Type} {body : ChanInner V → ChanInner V × Except Panic β}
    (hb : Clean body) {m : Chan V} (hm : m.poisoned = false) {f : β → γ} {p : Panic}
    (h : (m.lock body).2.map f = .error p) :
    p ≠ .poisoned ∧ (p ≠ .unwrapNone → (m.lock body).1 = { m with poisoned := true }) := by
  have herr : (m.lock body).2 = .error p := by
    cases hr : (m.lock body).2 with
    | error q => rw [hr] at h; cases h; rfl
    | ok b => rw [hr] at h; cases h
  simp only [Mutex.lock, hm, Bool.false_eq_true, if_false] at herr ⊢
  cases hr : body m.val with
  | mk a r =>
    cases r with
    | ok b => rw [hr] at herr; cases herr
    | error q =>
      rw [hr] at herr
      cases herr
      obtain ⟨hp, ha⟩ := hb m.val p (by rw [hr])
      refine ⟨hp, fun hne => ?_⟩
      rw [hr] at ha
      exact congrArg (fun a => (⟨a, true⟩ : Chan V)) (ha hne)

/-- **A panicking call**, on a channel that is not poisoned. -/
theorem ChanOp.enter_error {m : Chan V} (hm : m.poisoned = false) {op : ChanOp V} {p : Panic}
    (h : (op.enter m).2 = .error p) :
    p ≠ .poisoned ∧ (p ≠ .unwrapNone → (op.enter m).1 = { m with poisoned := true }) := by
  cases op with
  | send t d => exact lock_of_clean (clean_send t d) hm h
  | sendResume => exact lock_of_clean clean_sendResume hm h
  | recv t => exact lock_of_clean (clean_recv t) hm h
  | recvResume t => exact lock_of_clean (clean_recvResume t) hm h
  | close => exact lock_of_clean clean_close hm h

/-- **After a caught panic.**  A call that panics with "send on closed channel" or "close of
    closed channel" leaves the contents of the channel as they were; and it makes no difference
    to the outcomes of the calls that follow exactly when none follows. -/
theorem outcomes_after_panic_iff {m : Chan V} {op : ChanOp V} {p : Panic}
    (h : (op.enter m).2 = .error p) (hp : p = .sendOnClosed ∨ p = .closeOfClosed) :
    (op.enter m).1.val = m.val ∧
      ∀ ops, outcomes (op.enter m).1 ops = outcomes m ops ↔ ops = [] := by
  have hm : m.poisoned = false := by
    cases hm : m.poisoned with
    | false => rfl
    | true =>
      rw [op.enter_of_poisoned hm] at h
      rcases hp with rfl | rfl <;> cases h
  have hne : p ≠ .unwrapNone := by rcases hp with rfl | rfl <;> decide
  rw [(ChanOp.enter_error hm h).2 hne]
  refine ⟨rfl, fun ops => ?_⟩
  cases ops with
  | nil => exact iff_of_true rfl rfl
  | cons op' ops =>
    refine iff_of_false (fun heq => ?_) (by simp)
    rw [outcomes_poisoned rfl, List.map_cons, outcomes, List.cons.injEq] at heq
    exact (ChanOp.enter_error hm heq.1.symm).1 rfl

/-- A closed channel that still holds a value. -/
def closedChan : Chan Nat where
  val := { buf := [7], bufCap := 1, sendq := [], recvq := [], delivered := ∅, closed := true }
  poisoned := false

/-- A second `close` of `closedChan` is noticed by every call after it. -/
theorem outcomes_after_panic_iff_closed :
    (ChanOp.close.enter closedChan).2 = .error .closeOfClosed ∧
      ∀ ops, outcomes (ChanOp.close.enter closedChan).1 ops = outcomes closedChan ops ↔ ops = [] :=
  ⟨rfl, (outcomes_after_panic_iff (show (ChanOp.close.enter closedChan).2 = .error .closeOfClosed from rfl)
    (.inr rfl)).2⟩

/-- A task that sends, closes twice, catching the panic, and then receives. -/
def caughtProgram : Program Nat Nat where
  code
    | 0 => .send 0 7 1 none
    | 1 => .close 0 2 none
    | 2 => .close 0 4 (some fun _ => 3)
    | 3 => .recv 0 (fun _ => 4) (some fun _ => 4)
    | _ => .done
  variant := .channel
  overflowChecks := true
  own x := by split <;> rfl

/-- **After a caught "close of closed channel"** the value that the channel still holds is not
    received: `recv` panics, on the poisoned mutex. -/
theorem caught_panic_poisons :
    ∃ s s' m, (runtime caughtProgram).Reachable s ∧ s.sh.chans[0]? = some m ∧
      m.val.buf = [7] ∧ (ChanOp.close.enter m).2 = .error .closeOfClosed ∧
      outcomes m [.recv 0] = [.ok (.recv (.fromBuf 7))] ∧
      (runtime caughtProgram).run [.worker 0 {}, .worker 0 {}] s = some s' ∧
      s'.sh.log = s.sh.log ++ [.panicked 0 .closeOfClosed, .panicked 0 .poisoned] := by
  have h : ((runtime caughtProgram).run
      (List.replicate 5 (Act.main {}) ++ List.replicate 5 (Act.worker 0 {}))
      (State.initial [1] 0 [.go 0, .startRuntime 1])).map (fun s => (s.sh.chans, s.sh.log,
        ((runtime caughtProgram).run [Act.worker 0 {}, Act.worker 0 {}] s).map (·.sh.log)))
      = some ([closedChan],
          [.created 0, .dispatched 0, .entered 0, .sent 0 0 7 .buffered, .returned 0 (.send 0),
            .closed 0 0 [] [], .returned 0 (.close 0)],
          some ([.created 0, .dispatched 0, .entered 0, .sent 0 0 7 .buffered, .returned 0 (.send 0),
            .closed 0 0 [] [], .returned 0 (.close 0)] ++
              [.panicked 0 .closeOfClosed, .panicked 0 .poisoned])) := by rfl
  obtain ⟨s, hs, hst⟩ := Option.map_eq_some_iff.mp h
  obtain ⟨hc, hst⟩ := Prod.mk.inj hst
  obtain ⟨hlog, hn⟩ := Prod.mk.inj hst
  obtain ⟨s', hs', hlog'⟩ := Option.map_eq_some_iff.mp hn
  exact ⟨s, s', closedChan, System.run_reachable (M := runtime caughtProgram) ⟨[1], 0, _, rfl⟩ hs,
    by rw [hc]; rfl, rfl, rfl, rfl, hs', by rw [hlog', hlog]⟩

end MyGoroutine
