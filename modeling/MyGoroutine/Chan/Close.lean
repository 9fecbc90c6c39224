import MyGoroutine.Chan.Delivered

namespace MyGoroutine

/-!
# Closed channels

A closed channel stays closed, and nothing is put into its buffer any more.  A `recv` that
returns `None` has seen it closed and empty, also when the receiver had parked: `close` drains
parked receivers only from an empty channel.

* `ChanMove.of_closed` — a closed channel stays closed, an empty one empty;
* `reach_dismissed` — a channel that was closed with parked receivers is empty;
* `recv_none_exhausted` — so a parked receiver that goes on without a value finds it closed and
  empty.
-/

variable {σ V : Type}

/-- A channel that is closed and empty: every `recv` from now on returns `None`. -/
def ChanInner.Exhausted (m : ChanInner V) : Prop := m.closed = true ∧ m.buf = []

/-- A closed channel stays closed, and an empty one empty. -/
theorem ChanMove.of_closed {c : ChanId} {i : TaskId} {m m' : ChanInner V} {es : List (Event V)}
    (hm : ChanMove c i m m' es) (hinv : m.Inv) (h : m.closed = true) :
    m'.closed = true ∧ (m.buf = [] → m'.buf = []) := by
  have hcl : ∀ {α : Prop}, m.closed = false → α := fun h' => by rw [h] at h'; cases h'
  cases hm with
  | deliver h' | push h' | enqueueSend h' | enqueueRecv h' | close h' => exact hcl h'
  | take hq | refill hq | unwrap hq =>
    rw [(hinv.queues_nil_of_closed h).2] at hq
    cases hq
  | pop hq hb => exact ⟨h, fun he => by rw [hb] at he; cases he⟩
  | exhausted | collect => exact ⟨h, id⟩

/-- A channel that is closed and empty stays so: nobody sends on it any more. -/
theorem ChanMove.exhausted_stays {c : ChanId} {i : TaskId} {m m' : ChanInner V}
    {es : List (Event V)} (hm : ChanMove c i m m' es) (hinv : m.Inv) (h : m.Exhausted) :
    m'.Exhausted :=
  ⟨(hm.of_closed hinv h.1).1, (hm.of_closed hinv h.1).2 h.2⟩

/-- A channel that was closed with parked receivers is empty. -/
theorem reach_dismissed {P : Program σ V} {ok : Act → State σ V → Prop} {s : State σ V}
    (hr : (runtime P).Reach ok s) {c : ChanId} {m : Chan V} (hm : s.sh.chans[c]? = some m)
    {t : TaskId} {rs : List TaskId} {ss : List (SendWaiter V)}
    (hc : .closed c t rs ss ∈ s.sh.log) (hne : rs ≠ []) : m.val.Exhausted := by
  refine (chan_invariant c (I := fun m log => ∀ t rs ss, .closed c t rs ss ∈ log → rs ≠ [] →
    m.Exhausted) (fun _ _ _ _ h => by cases h) (fun m log es h hes t rs ss hc hne => ?_)
    (fun i m m' log es hinv h hmove t rs ss hc hne => ?_) hr hm).2 t rs ss hc hne
  · rcases List.mem_append.mp hc with hc | hc
    · exact h t rs ss hc hne
    · exact absurd rfl (hes _ hc)
  · rcases List.mem_append.mp hc with hc | hc
    · exact hmove.exhausted_stays hinv (h t rs ss hc hne)
    · cases hmove with
      | @close es hcl hes =>
        rcases List.mem_cons.mp hc with heq | hc
        · cases heq
          exact ⟨rfl, (hinv.recvq hne).1⟩
        · cases hes _ hc
      | _ => simp at hc

/-- The two ends of a parked receiver. -/
theorem released_recvq {log : List (Event V)} (hlaw : History.Each Event.Lawful log) {i : TaskId}
    {c : ChanId} {why : Why V} (hst : statusOf i log = .released (.recvq c) why) :
    (∃ v, why = .delivered v) ∨ ∃ t rs ss, .closed c t rs ss ∈ log ∧ i ∈ rs := by
  obtain ⟨e, he⟩ := released_by hlaw hst
  have hmem : e ∈ log := he.mem
  rcases he.releases.recvq with ⟨t, d, rfl, hwhy⟩ | ⟨t, rs, ss, rfl, hi, -⟩
  · exact .inl ⟨d, hwhy⟩
  · exact .inr ⟨t, rs, ss, hmem, hi⟩

/-- **A parked receiver that goes on without a value finds its channel closed and empty.** -/
theorem recv_none_exhausted {P : Program σ V} (hP : P.Basic) (hU : P.Uncaught)
    {ok : Act → State σ V → Prop} {s : State σ V} (hr : (runtime P).Reach ok s)
    (ha : s.sh.aborted = none) {w : Nat} {t : Task σ V} {c : ChanId} {m : Chan V}
    {k : Option V → σ} {h : Handler σ} (hw : s.workers[w]? = some (.run t))
    (hc : t.code = .parked (.recv c k h)) (hm : s.sh.chans[c]? = some m)
    (hnone : m.val.delivered.lookup t.id = none) : m.val.Exhausted := by
  have hd := reach_disciplined_basic hP hr
  have hag := hd.agrees_of_run (reach_shaped hr) hw ha rfl
  have hq := hd.queue?_of_settles (reach_shaped hr) (reach_placed hr) hw rfl (by rw [hc]; rfl)
  rw [hc] at hag
  obtain ⟨src, why, hwait, hst⟩ := Code.released_of_parked hag hq
  cases src <;> cases hwait
  have hlaw := reach_lawful hP.structured (fun _ _ h => h) (reach_freshPolls hP hr)
  rcases released_recvq hlaw hst with ⟨v, rfl⟩ | ⟨i, rs, ss, hmem, hi⟩
  · rw [reach_delivered hP hU hr c m hm, hst] at hnone
    simp [Status.delivered?] at hnone
  · exact reach_dismissed hr hm hmem (List.ne_nil_of_mem hi)

end MyGoroutine
