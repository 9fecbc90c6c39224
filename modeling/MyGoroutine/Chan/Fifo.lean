import MyGoroutine.Chan.Move

namespace MyGoroutine

/-!
# The order of a channel

Abstractly a channel is a queue: what `send` has accepted, minus what has been taken for a
receiver, is what the channel holds.  Read off the history, the values accepted are, in order,
those taken, those in `buf`, those in the `sendq` and those that `close` has dropped; and the
receivers that have parked are those served, those in the `recvq` and those that `close` has
dismissed.

* `committed`, `matched`, `drained` — the values of a history, by what has become of them;
* `entered`, `served`, `dismissed` — its parked receivers, likewise;
* `FifoLaw` — the order law, and `FifoLaw.move`: every move keeps it;
* `reach_fifo` — it holds of every channel in every state reached.
-/

variable {σ V : Type}

/-! ### What a history says about a channel

The lists below are the specification of a channel: values in the order of acceptance, values in the
order of consumption, receivers in the order of arrival. Each is gathered from the sections in the
history, so it does not depend on the fields of the channel.
-/

/-- The value that a `send` committed: delivered, buffered or queued with its sender. -/
def Event.commits (c : ChanId) : Event V → List V
  | .sent c' _ data _ => if c' = c then [data] else []
  | _ => []

/-- The value that was taken for a receiver. -/
def Event.matches (c : ChanId) : Event V → List V
  | .sent c' _ data (.delivered _) => if c' = c then [data] else []
  | .received c' _ (.fromSender _ data) => if c' = c then [data] else []
  | .received c' _ (.fromBuf data) => if c' = c then [data] else []
  | _ => []

/-- The values that `close` dropped with their senders. -/
def Event.drains (c : ChanId) : Event V → List V
  | .closed c' _ _ senders => if c' = c then senders.map (·.data) else []
  | _ => []

/-- The receiver that entered the `recvq`. -/
def Event.enters (c : ChanId) : Event V → List TaskId
  | .received c' t .enqueued => if c' = c then [t] else []
  | _ => []

/-- The parked receiver that a `send` delivered to. -/
def Event.serves (c : ChanId) : Event V → List TaskId
  | .sent c' _ _ (.delivered r) => if c' = c then [r] else []
  | _ => []

/-- The parked receivers that `close` dismissed. -/
def Event.dismisses (c : ChanId) : Event V → List TaskId
  | .closed c' _ receivers _ => if c' = c then receivers else []
  | _ => []

/-- What the events of a history contribute, in order. -/
def gather {β : Type} (f : Event V → List β) (log : List (Event V)) : List β := log.flatMap f

/-- The values in the order in which `send` accepted them. -/
abbrev committed (c : ChanId) (log : List (Event V)) : List V := gather (Event.commits c) log

/-- The values in the order in which they were taken for a receiver. -/
abbrev matched (c : ChanId) (log : List (Event V)) : List V := gather (Event.matches c) log

/-- The values that `close` dropped. -/
abbrev drained (c : ChanId) (log : List (Event V)) : List V := gather (Event.drains c) log

/-- The receivers in the order in which they entered the `recvq`. -/
abbrev entered (c : ChanId) (log : List (Event V)) : List TaskId := gather (Event.enters c) log

/-- The parked receivers in the order in which they were served. -/
abbrev served (c : ChanId) (log : List (Event V)) : List TaskId := gather (Event.serves c) log

/-- The parked receivers that `close` dismissed. -/
abbrev dismissed (c : ChanId) (log : List (Event V)) : List TaskId :=
  gather (Event.dismisses c) log

/-- The order law of the channel `c` with the contents `m`. -/
structure FifoLaw (c : ChanId) (m : ChanInner V) (log : List (Event V)) : Prop where
  values : matched c log ++ m.buf ++ m.sendq.map (·.data) ++ drained c log = committed c log
  receivers : served c log ++ m.recvq ++ dismissed c log = entered c log
  open_ : m.closed = false → drained c log = [] ∧ dismissed c log = []

/-! ### Moves

The law says that what was committed is what was matched, then what is in the channel, then what was
dropped; and the same for the receivers. A move takes something from the front of one list to the
end of the other.
-/

section Gather

variable {β : Type} {f : Event V → List β} {c : ChanId} {log es : List (Event V)}

@[simp] theorem gather_nil (f : Event V → List β) : gather f [] = [] := rfl

@[simp] theorem gather_cons (f : Event V → List β) (e : Event V) (es : List (Event V)) :
    gather f (e :: es) = f e ++ gather f es := rfl

/-- What is gathered grows with the history. -/
@[simp] theorem gather_append (f : Event V → List β) (log es : List (Event V)) :
    gather f (log ++ es) = gather f log ++ gather f es := List.flatMap_append

/-- Events that contribute nothing. -/
theorem gather_quiet (hes : ∀ e ∈ es, f e = []) : gather f (log ++ es) = gather f log := by
  rw [gather_append, gather, gather, List.flatMap_eq_nil_iff.mpr hes, List.append_nil]

end Gather

section Moves

variable {c : ChanId} {i : TaskId} {m m' : ChanInner V} {log es : List (Event V)}

/-- An event that is not about `c` contributes nothing. -/
theorem contributes_nothing {e : Event V} (h : e.chan? ≠ some c) :
    e.commits c = [] ∧ e.matches c = [] ∧ e.drains c = [] ∧ e.enters c = [] ∧ e.serves c = [] ∧
      e.dismisses c = [] := by
  cases e with
  | sent _ _ _ o | received _ _ o =>
    cases o <;>
      simp_all [Event.chan?, Event.commits, Event.matches, Event.drains, Event.enters, Event.serves,
        Event.dismisses]
  | closed =>
    simp_all [Event.chan?, Event.commits, Event.matches, Event.drains, Event.enters, Event.serves,
      Event.dismisses]
  | _ => exact ⟨rfl, rfl, rfl, rfl, rfl, rfl⟩

/-- Events about other channels keep the law. -/
theorem FifoLaw.quiet (h : FifoLaw c m log) (hes : ∀ e ∈ es, e.chan? ≠ some c) :
    FifoLaw c m (log ++ es) := by
  have h0 := fun e he => contributes_nothing (hes e he)
  have hm : matched c (log ++ es) = matched c log := gather_quiet fun e he => (h0 e he).2.1
  have hc : committed c (log ++ es) = committed c log := gather_quiet fun e he => (h0 e he).1
  have hd : drained c (log ++ es) = drained c log := gather_quiet fun e he => (h0 e he).2.2.1
  have he : entered c (log ++ es) = entered c log := gather_quiet fun e he => (h0 e he).2.2.2.1
  have hs : served c (log ++ es) = served c log := gather_quiet fun e he => (h0 e he).2.2.2.2.1
  have hdr : dismissed c (log ++ es) = dismissed c log :=
    gather_quiet fun e he => (h0 e he).2.2.2.2.2
  obtain ⟨hv, hr, ho⟩ := h
  exact ⟨by rw [hm, hd, hc, hv], by rw [hs, hdr, he, hr], by rwa [hd, hdr]⟩

/-- No sender waits behind a buffer with a free place. -/
theorem ChanInner.Inv.sendq_nil (hinv : m.Inv) (h : m.buf.length < m.bufCap) : m.sendq = [] := by
  by_contra hq
  have := (hinv.sendq hq).1
  omega

/-- An unbuffered channel holds no values itself. -/
theorem ChanInner.Inv.buf_nil (hinv : m.Inv) (h : m.bufCap = 0) : m.buf = [] :=
  List.eq_nil_of_length_eq_zero (Nat.le_zero.mp (h ▸ hinv.fits))

/-- **Each move keeps the order law.** -/
theorem FifoLaw.move (hinv : m.Inv) (h : FifoLaw c m log) (hm : ChanMove c i m m' es) :
    FifoLaw c m' (log ++ es) := by
  obtain ⟨hv, hr, ho⟩ := h
  cases hm with
  | deliver hcl hq =>
    -- a receiver is parked, so nothing is in `buf` nor in `sendq`
    obtain ⟨hb, hs, -⟩ := hinv.recvq (by rw [hq]; simp)
    obtain ⟨hd, hdr⟩ := ho hcl
    rw [hb, hs, hd] at hv
    rw [hq, hdr] at hr
    constructor <;>
      simp [← hv, ← hr, hb, hs, hd, hdr, Event.commits, Event.matches, Event.drains, Event.serves,
        Event.enters, Event.dismisses]
  | push hcl hq hb =>
    -- `buf` has room, so no sender is parked
    have hs := hinv.sendq_nil hb
    obtain ⟨hd, hdr⟩ := ho hcl
    rw [hs, hd] at hv
    constructor <;>
      simp [← hv, ← hr, hs, hd, hdr, Event.commits, Event.matches, Event.drains, Event.serves,
        Event.enters, Event.dismisses]
  | enqueueSend hcl hq hb =>
    obtain ⟨hd, hdr⟩ := ho hcl
    rw [hd] at hv
    constructor <;>
      simp [← hv, ← hr, hd, hdr, Event.commits, Event.matches, Event.drains, Event.serves,
        Event.enters, Event.dismisses]
  | take hq hcap =>
    -- without capacity the value comes straight from the first sender
    have hb := hinv.buf_nil hcap
    obtain ⟨hd, hdr⟩ := ho (hinv.sendq (by rw [hq]; simp)).2
    rw [hb, hq, hd] at hv
    constructor <;>
      simp [← hv, ← hr, hb, hd, hdr, Event.commits, Event.matches, Event.drains, Event.serves,
        Event.enters, Event.dismisses]
  | refill hq hcap hb =>
    obtain ⟨hd, hdr⟩ := ho (hinv.sendq (by rw [hq]; simp)).2
    rw [hb, hq, hd] at hv
    constructor <;>
      simp [← hv, ← hr, hd, hdr, Event.commits, Event.matches, Event.drains, Event.serves,
        Event.enters, Event.dismisses]
  | unwrap hq hcap hb => exact absurd hb (hinv.buf_ne_nil (by rw [hq]; simp) hcap)
  | pop hq hb =>
    rw [hb, hq] at hv
    refine ⟨?_, ?_, fun hcl => ?_⟩
    · simp [← hv, hq, Event.commits, Event.matches, Event.drains]
    · simp [← hr, Event.serves, Event.enters, Event.dismisses]
    · simpa [Event.drains, Event.dismisses] using ho hcl
  | exhausted =>
    refine ⟨?_, ?_, fun hcl => ?_⟩
    · simp [← hv, Event.commits, Event.matches, Event.drains]
    · simp [← hr, Event.serves, Event.enters, Event.dismisses]
    · simpa [Event.drains, Event.dismisses] using ho hcl
  | enqueueRecv hcl hq hb =>
    obtain ⟨hd, hdr⟩ := ho hcl
    rw [hdr] at hr
    constructor <;>
      simp [← hv, ← hr, hd, hdr, Event.commits, Event.matches, Event.drains, Event.serves,
        Event.enters, Event.dismisses]
  | @close es hcl hes =>
    obtain ⟨hd, hdr⟩ := ho hcl
    -- what follows the event of `close` is not about the channel
    have hrest : ∀ e ∈ es, e.chan? ≠ some c := fun e he h => by rw [hes e he] at h; cases h
    have hbase : FifoLaw c { m with closed := true, recvq := [], sendq := [] }
        (log ++ [.closed c i m.recvq m.sendq]) := by
      rw [hd] at hv
      rw [hdr] at hr
      refine ⟨?_, ?_, fun h => by cases h⟩ <;>
        simp [← hv, ← hr, hd, hdr, Event.commits, Event.matches, Event.drains, Event.serves,
          Event.enters, Event.dismisses]
    rw [List.append_cons]
    exact hbase.quiet hrest
  | collect =>
    refine ⟨?_, ?_, fun hcl => ?_⟩
    · simp [← hv, Event.commits, Event.matches, Event.drains]
    · simp [← hr, Event.serves, Event.enters, Event.dismisses]
    · simpa [Event.drains, Event.dismisses] using ho hcl

end Moves

/-- **The order law holds of every channel in every state reached.** -/
theorem reach_fifo {P : Program σ V} {ok : Act → State σ V → Prop} {s : State σ V}
    (hr : (runtime P).Reach ok s) {c : ChanId} {m : Chan V} (hm : s.sh.chans[c]? = some m) :
    FifoLaw c m.val s.sh.log :=
  (chan_invariant c (fun _ => ⟨rfl, rfl, fun _ => ⟨rfl, rfl⟩⟩) (fun _ _ _ h hes => h.quiet hes)
    (fun _ _ _ _ _ hinv h hm => h.move hinv hm) hr hm).2

end MyGoroutine
