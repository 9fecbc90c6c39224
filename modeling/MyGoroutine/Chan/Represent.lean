import MyGoroutine.Chan.Move
import MyGoroutine.Chan.Poison

namespace MyGoroutine

/-!
# The representation of a channel

Whatever sections run on a channel, in whatever order and for whatever tasks, its queues stay
apart: receivers wait only while there is nothing to receive, senders only while there is no room.

* `ChanOp.run` — a channel after a sequence of calls;
* `enter_move` — each call is one of the moves, or leaves the contents alone;
* `run_inv`, `run_closed` — the representation invariant after any calls, and that a closed channel
  stays closed;
* `enter_ne_unwrapNone` — the `unwrap` in `recv` never fails;
* `reach_fromCalls` — the channels of the runtime are channels after sequences of calls;
* `representation_invariant` — the four facts and what follows from them.
-/

variable {V : Type}

/-- The channel after a sequence of calls, whichever tasks make them. -/
def ChanOp.run (m : Chan V) (ops : List (ChanOp V)) : Chan V :=
  ops.foldl (fun m op => (op.enter m).1) m

/-- A sequence of calls is run piece by piece. -/
theorem ChanOp.run_append (m : Chan V) (ops ops' : List (ChanOp V)) :
    ChanOp.run m (ops ++ ops') = ChanOp.run (ChanOp.run m ops) ops' :=
  List.foldl_append

/-- What every call keeps, a sequence of calls keeps. -/
theorem ChanOp.run_induction {I : Chan V → Prop} (h : ∀ m (op : ChanOp V), I m → I (op.enter m).1)
    {m : Chan V} (hm : I m) (ops : List (ChanOp V)) : I (ChanOp.run m ops) := by
  induction ops generalizing m with
  | nil => exact hm
  | cons op ops ih => exact ih (h m op hm)

/-- A section on a mutex that is not poisoned leaves what it has written. -/
theorem lock_val {α β : Type} {m : Mutex α} {body : α → α × Except Panic β}
    (h : m.poisoned = false) : (m.lock body).1.val = (body m.val).1 := by
  simp only [Mutex.lock, h, Bool.false_eq_true, if_false]
  split <;> simp_all

/-- **Each call is a move**, or leaves the contents alone. -/
theorem enter_move (m : Chan V) (op : ChanOp V) :
    (op.enter m).1.val = m.val ∨ ∃ i es, ChanMove 0 i m.val (op.enter m).1.val es := by
  by_cases hp : m.poisoned = true
  · exact .inl (by rw [op.enter_of_poisoned hp])
  · have hp : m.poisoned = false := Bool.not_eq_true _ ▸ hp
    cases op with
    | send t d =>
      simp only [ChanOp.enter, lock_val hp, ChanInner.send]
      split
      · exact .inl rfl
      · next hcl =>
        have hcl := Bool.not_eq_true _ ▸ hcl
        split
        · next hq => exact .inr ⟨t, _, .deliver hcl hq⟩
        · next hq =>
          split
          · next hb => exact .inr ⟨t, _, .push hcl hq hb⟩
          · next hb => exact .inr ⟨t, _, .enqueueSend hcl hq (Nat.le_of_not_lt hb)⟩
    -- the second section of `send` only looks at `closed`
    | sendResume =>
      left
      simp only [ChanOp.enter, lock_val hp, ChanInner.sendResume]
      split <;> rfl
    | recv t =>
      simp only [ChanOp.enter, lock_val hp, ChanInner.recv]
      split
      · exact .inl rfl
      · split
        · next hq =>
          split
          · next hcap => exact .inr ⟨t, _, .take hq hcap⟩
          · next hcap =>
            split
            · next hb => exact .inr ⟨t, _, .refill hq hcap hb⟩
            · next hb => exact .inr ⟨t, _, .unwrap hq hcap hb⟩
        · next hq =>
          split
          · next hb => exact .inr ⟨t, _, .pop hq hb⟩
          · next hb =>
            split
            · exact .inl rfl
            · next hcl => exact .inr ⟨t, _, .enqueueRecv (Bool.not_eq_true _ ▸ hcl) hq hb⟩
    | recvResume t =>
      simp only [ChanOp.enter, lock_val hp, ChanInner.recvResume]
      exact .inr ⟨t, _, .collect⟩
    | close =>
      simp only [ChanOp.enter, lock_val hp, ChanInner.close]
      split
      · exact .inl rfl
      · next hcl =>
        refine .inr ⟨0, [.closed 0 0 _ _], .close (Bool.not_eq_true _ ▸ hcl) ?_⟩
        simp

/-- The capacity stays, and nothing opens a closed channel again. -/
theorem ChanMove.frame {c : ChanId} {i : TaskId} {m m' : ChanInner V} {es : List (Event V)}
    (h : ChanMove c i m m' es) : m'.bufCap = m.bufCap ∧ (m.closed = true → m'.closed = true) := by
  cases h <;> simp_all

section Run

variable {m : Chan V} (op : ChanOp V) (ops : List (ChanOp V))

/-- Each section keeps the representation invariant, whether it panics or not. -/
theorem enter_inv (h : m.val.Inv) : (op.enter m).1.val.Inv := by
  rcases enter_move m op with hv | ⟨i, es, hmove⟩
  · rw [hv]
    exact h
  · exact h.move hmove

/-- No section changes the capacity, or opens a closed channel. -/
theorem enter_frame :
    (op.enter m).1.val.bufCap = m.val.bufCap ∧ (m.val.closed = true → (op.enter m).1.val.closed = true) := by
  rcases enter_move m op with hv | ⟨i, es, hmove⟩
  · rw [hv]
    exact ⟨rfl, id⟩
  · exact hmove.frame

/-- **The representation invariant** survives any sequence of calls. -/
theorem run_inv (h : m.val.Inv) : (ChanOp.run m ops).val.Inv :=
  ChanOp.run_induction (I := fun m => m.val.Inv) (fun _ op => enter_inv op) h ops

/-- The capacity stays what `new` was called with. -/
theorem run_bufCap : (ChanOp.run m ops).val.bufCap = m.val.bufCap :=
  ChanOp.run_induction (I := fun m' => m'.val.bufCap = m.val.bufCap)
    (fun _ op h => (enter_frame op).1.trans h) rfl ops

/-- A closed channel stays closed. -/
theorem run_closed (h : m.val.closed = true) : (ChanOp.run m ops).val.closed = true :=
  ChanOp.run_induction (I := fun m => m.val.closed = true) (fun _ op => (enter_frame op).2) h ops

/-- A section panics only if the mutex is poisoned or the section itself does. -/
theorem lock_error {β γ : Type} {body : ChanInner V → ChanInner V × Except Panic β} {f : β → γ}
    {p : Panic} (h : (m.lock body).2.map f = .error p) : p = .poisoned ∨ (body m.val).2 = .error p := by
  unfold Mutex.lock at h
  split at h
  · cases h
    exact .inl rfl
  · split at h
    · cases h
    · next heq =>
      cases h
      exact .inr (by rw [heq])

/-- The `unwrap` in the buffered branch of `recv` finds a value. -/
theorem enter_ne_unwrapNone (h : m.val.Inv) : (op.enter m).2 ≠ .error .unwrapNone := by
  intro herr
  cases op with
  | send t d =>
    have herr := (lock_error herr).resolve_left (by decide)
    unfold ChanInner.send at herr
    split at herr
    · cases herr
    · split at herr
      · cases herr
      · split at herr <;> cases herr
  | sendResume =>
    have herr := (lock_error herr).resolve_left (by decide)
    unfold ChanInner.sendResume at herr
    split at herr <;> cases herr
  | recv t =>
    have herr := (lock_error herr).resolve_left (by decide)
    unfold ChanInner.recv at herr
    split at herr
    · cases herr
    · split at herr
      · next hq =>
        split at herr
        · cases herr
        · next hcap =>
          split at herr
          · cases herr
          · -- a sender is parked, so the buffer is full, and it has room for one value
            next hb => exact h.buf_ne_nil (by rw [hq]; simp) hcap hb
      · split at herr
        · cases herr
        · split at herr <;> cases herr
  | recvResume t => cases (lock_error herr).resolve_left (by decide)
  | close =>
    have herr := (lock_error herr).resolve_left (by decide)
    unfold ChanInner.close at herr
    split at herr <;> cases herr

end Run

/-! ### The channels of the runtime

The runtime model runs the same five sections, so its channels are instances: each move of a channel
in a run is one call, and the failing `unwrap` never happens. This carries the facts about sequences
of calls over to every reachable state.
-/

/-- Each move but the failing `unwrap` is a call that does not poison the channel. -/
theorem ChanMove.enter {c : ChanId} {i : TaskId} {m m' : ChanInner V} {es : List (Event V)}
    (h : ChanMove c i m m' es) (hinv : m.Inv) :
    ∃ op : ChanOp V, (op.enter ⟨m, false⟩).1 = ⟨m', false⟩ := by
  cases h with
  | @deliver d r recvq hcl hq =>
    exact ⟨.send i d, by simp [ChanOp.enter, Mutex.lock, ChanInner.send, hcl, hq]⟩
  | @push d hcl hq hb =>
    exact ⟨.send i d, by simp [ChanOp.enter, Mutex.lock, ChanInner.send, hcl, hq, hb]⟩
  | @enqueueSend d hcl hq hb =>
    exact ⟨.send i d, by simp [ChanOp.enter, Mutex.lock, ChanInner.send, hcl, hq, Nat.not_lt.mpr hb]⟩
  | take hq hcap => exact ⟨.recv i, by simp [ChanOp.enter, Mutex.lock, ChanInner.recv, hq, hcap]⟩
  | refill hq hcap hb =>
    exact ⟨.recv i, by simp [ChanOp.enter, Mutex.lock, ChanInner.recv, hq, hcap, hb]⟩
  | unwrap hq hcap hb => exact absurd hb (hinv.buf_ne_nil (by rw [hq]; simp) hcap)
  | pop hq hb => exact ⟨.recv i, by simp [ChanOp.enter, Mutex.lock, ChanInner.recv, hq, hb]⟩
  | exhausted hcl hq hb =>
    exact ⟨.recv i, by simp [ChanOp.enter, Mutex.lock, ChanInner.recv, hcl, hq, hb]⟩
  | enqueueRecv hcl hq hb =>
    exact ⟨.recv i, by simp [ChanOp.enter, Mutex.lock, ChanInner.recv, hcl, hq, hb]⟩
  | close hcl hes => exact ⟨.close, by simp [ChanOp.enter, Mutex.lock, ChanInner.close, hcl]⟩
  | collect => exact ⟨.recvResume i, rfl⟩

/-- These are the contents of a fresh channel after some sequence of calls, none of which has
    poisoned it. -/
def ChanInner.FromCalls (m : ChanInner V) : Prop :=
  ∃ cap ops, ChanOp.run (.withCapacity V cap) ops = ⟨m, false⟩

/-- A move of the runtime's channel is a call of one of the sections. -/
theorem ChanMove.fromCalls {c : ChanId} {i : TaskId} {m m' : ChanInner V} {es : List (Event V)}
    (h : ChanMove c i m m' es) (hinv : m.Inv) (hm : m.FromCalls) : m'.FromCalls := by
  obtain ⟨cap, ops, hrun⟩ := hm
  obtain ⟨op, hop⟩ := h.enter hinv
  refine ⟨cap, ops ++ [op], ?_⟩
  rw [ChanOp.run_append, hrun]
  exact hop

/-- **Every channel of the runtime**, in every state reached, is a fresh channel after some
    sequence of calls. -/
theorem reach_fromCalls {σ : Type} {P : Program σ V} {s : State σ V} (hr : (runtime P).Reachable s)
    {c : ChanId} {m : Chan V} (hm : s.sh.chans[c]? = some m) : m.val.FromCalls :=
  (chan_invariant c (I := fun m _ => m.FromCalls) (fun cap => ⟨cap, [], rfl⟩) (fun _ _ _ h _ => h)
    (fun _ _ _ _ _ hinv h hmove => hmove.fromCalls hinv h) hr hm).2

/-! ### The representation invariant

The four facts together, as a reader of `channel.rs` would want them: what the fields of `ChanInner`
say of each other, whatever has been called.
-/

/-- **The representation invariant of a channel**, after any calls by any tasks: the buffer fits;
    receivers are parked only on an open channel that holds nothing and has no senders; senders are
    parked only on an open channel with a full buffer and no receivers; a closed channel has no
    waiters then or after any further calls; and the `unwrap` in `recv` does not fail in any next
    call. -/
theorem representation_invariant (cap : Nat) (ops : List (ChanOp V)) :
    let m := ChanOp.run (.withCapacity V cap) ops
    m.val.bufCap = cap ∧ m.val.buf.length ≤ cap ∧
    (m.val.recvq ≠ [] → m.val.buf = [] ∧ m.val.sendq = [] ∧ m.val.closed = false) ∧
    (m.val.sendq ≠ [] → m.val.buf.length = cap ∧ m.val.recvq = [] ∧ m.val.closed = false) ∧
    (m.val.closed = true → ∀ ops',
      (ChanOp.run m ops').val.closed = true ∧ (ChanOp.run m ops').val.recvq = [] ∧
        (ChanOp.run m ops').val.sendq = []) ∧
    ∀ op : ChanOp V, (op.enter m).2 ≠ .error .unwrapNone := by
  intro m
  have hinv : m.val.Inv := run_inv ops (.withCapacity cap)
  have hcap : m.val.bufCap = cap := run_bufCap ops
  refine ⟨hcap, hcap ▸ hinv.fits, hinv.recvq, fun hs => ?_, fun hcl ops' => ?_, fun op =>
    enter_ne_unwrapNone op hinv⟩
  · obtain ⟨hfull, hopen⟩ := hinv.sendq hs
    exact ⟨hcap ▸ hfull, hinv.recvq_nil_of_sendq hs, hopen⟩
  · have hcl' := run_closed ops' hcl
    exact ⟨hcl', (run_inv ops' hinv).queues_nil_of_closed hcl'⟩

end MyGoroutine
