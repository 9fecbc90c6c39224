import MyGoroutine.Chan.Answer
import MyGoroutine.Chan.Close
import MyGoroutine.Sched.Run
import Mathlib.Data.List.Perm.Basic

namespace MyGoroutine

/-!
# `None` is final

A `recv` returns `None` only when its channel is closed and drained, and then every later one does.
The values that a channel holds when it is closed are still received, each by one call.

* `DrainLaw` — what the history says about the decisions of a channel that was closed;
* `DecidesNone` — the step in which a call is decided to return `None`;
* `recv_none_final` — the law of `recv` on closed channels, over whole runs.
-/

variable {σ V : Type}

/-- The decisions about a channel `c` with the contents `m`, in view of its `close`. -/
structure DrainLaw (c : ChanId) (m : ChanInner V) (log : List (Event V)) : Prop where
  closed : ∀ t rs ss, .closed c t rs ss ∈ log → m.closed = true
  exhausted : ∀ x ∈ decided c log, x.2 = none → m.Exhausted
  final : (decided c log).Pairwise fun x y => x.2 = none → y.2 = none
  /-- The values `b` that the channel held when it was closed come out in order, then `None`. -/
  drained : ∀ before t rs ss after b, log = before ++ .closed c t rs ss :: after →
    matched c before ++ b ++ ss.map (·.data) = committed c before →
    (decided c after).map (·.2) ++ m.buf.map some = b.map some ∨
      m.buf = [] ∧ ∃ n, (decided c after).map (·.2) = b.map some ++ List.replicate n none

section Moves

variable {c : ChanId} {i : TaskId} {m m' : ChanInner V} {log es : List (Event V)}

/-- A move decides one call to return a value, or some to return `None`. -/
theorem ChanMove.outcomes (hm : ChanMove c i m m' es) (hinv : m.Inv) :
    (∀ x ∈ decided c es, x.2 = none ∧ m'.Exhausted) ∨
      ∃ j d, decided c es = [(j, some d)] ∧ ¬ m.Exhausted := by
  -- a channel that gives a value is open, or still has one in `buf`
  have hopen : m.closed = false → ¬ m.Exhausted := fun hcl hex => by
    rw [hex.1] at hcl
    cases hcl
  cases hm with
  | @deliver d r recvq hcl => exact .inr ⟨r, d, by simp [Event.decides], hopen hcl⟩
  | @take w sendq hq =>
    exact .inr ⟨i, w.data, by simp [Event.decides], hopen (hinv.sendq (by rw [hq]; simp)).2⟩
  | @refill w sendq d buf hq =>
    exact .inr ⟨i, d, by simp [Event.decides], hopen (hinv.sendq (by rw [hq]; simp)).2⟩
  | @pop d buf hq hb =>
    refine .inr ⟨i, d, by simp [Event.decides], fun hex => ?_⟩
    rw [hex.2] at hb
    cases hb
  | exhausted hcl hq hb =>
    refine .inl fun x hx => ?_
    obtain rfl : x = (i, none) := by simpa [Event.decides] using hx
    exact ⟨rfl, hcl, hb⟩
  | @close es hcl hes =>
    refine .inl fun x hx => ?_
    rw [decided, gather_cons, gather, List.flatMap_eq_nil_iff.mpr fun e he => by rw [hes e he]; rfl,
      List.append_nil] at hx
    obtain ⟨r, hr, rfl⟩ : ∃ r ∈ m.recvq, (r, none) = x := by simpa [Event.decides] using hx
    exact ⟨rfl, rfl, (hinv.recvq (List.ne_nil_of_mem hr)).1⟩
  | push | enqueueSend | unwrap | enqueueRecv | collect =>
    refine .inl fun x hx => ?_
    simp [Event.decides] at hx

/-- Events about other channels keep the law. -/
theorem DrainLaw.quiet (h : DrainLaw c m log) (hes : ∀ e ∈ es, e.chan? ≠ some c) :
    DrainLaw c m (log ++ es) := by
  have hdec : ∀ log, decided c (log ++ es) = decided c log := fun log =>
    gather_quiet fun e he => decides_of_chan? (hes e he)
  have hnot : ∀ t rs ss, .closed c t rs ss ∉ es := fun t rs ss hmem => hes _ hmem rfl
  refine ⟨fun t rs ss hmem => ?_, ?_, ?_, fun before t rs ss after b hl hb => ?_⟩
  · rcases List.mem_append.mp hmem with hmem | hmem
    · exact h.closed t rs ss hmem
    · exact absurd hmem (hnot t rs ss)
  · rw [hdec]
    exact h.exhausted
  · rw [hdec]
    exact h.final
  · obtain ⟨after', hlog, rfl⟩ := History.append_eq_of_not_mem hl (hnot t rs ss)
    rw [hdec]
    exact h.drained before t rs ss after' b hlog hb

/-- On a closed channel a move takes the next value of the buffer, or finds it empty. -/
theorem ChanMove.drained (hm : ChanMove c i m m' es) (hinv : m.Inv) (hcl : m.closed = true) :
    (decided c es).map (·.2) ++ m'.buf.map some = m.buf.map some ∨
      m.buf = [] ∧ m'.buf = [] ∧ (decided c es).map (·.2) = [none] := by
  have hopen : ∀ {α : Prop}, m.closed = false → α := fun h => by rw [hcl] at h; cases h
  cases hm with
  | deliver h | push h | enqueueSend h | enqueueRecv h | close h => exact hopen h
  | take hq | refill hq | unwrap hq =>
    rw [(hinv.queues_nil_of_closed hcl).2] at hq
    cases hq
  | pop hq hb => exact .inl (by simp [Event.decides, hb])
  | exhausted _ _ hb => exact .inr ⟨hb, hb, by simp [Event.decides]⟩
  | collect => exact .inl (by simp [Event.decides])

/-- **Each move keeps the law of closed channels.** -/
theorem DrainLaw.move (h : DrainLaw c m log) (hf : FifoLaw c m log) (hinv : m.Inv)
    (hm : ChanMove c i m m' es) : DrainLaw c m' (log ++ es) := by
  have hcases := hm.outcomes hinv
  have happ : ∀ log, decided c (log ++ es) = decided c log ++ decided c es :=
    fun _ => gather_append _ _ _
  refine ⟨fun t rs ss hmem => ?_, fun x hx hnone => ?_, ?_, fun before t rs ss after b hl hb => ?_⟩
  · rcases List.mem_append.mp hmem with hmem | hmem
    · exact (hm.of_closed hinv (h.closed t rs ss hmem)).1
    · cases hm with
      | close => rfl
      | _ => simp at hmem
  · -- who gets `None` finds the channel exhausted, and it stays so
    rw [happ] at hx
    rcases List.mem_append.mp hx with hx | hx
    · exact hm.exhausted_stays hinv (h.exhausted x hx hnone)
    · rcases hcases with hall | ⟨j, d, hes, -⟩
      · exact (hall x hx).2
      · rw [hes] at hx
        rw [List.mem_singleton.mp hx] at hnone
        cases hnone
  · -- after a `None` nothing but `None` is decided
    rw [happ]
    refine List.pairwise_append.mpr ⟨h.final, ?_, fun x hx y hy hnone => ?_⟩
    · rcases hcases with hall | ⟨j, d, hes, -⟩
      · exact List.pairwise_of_forall_mem_list fun _ _ y hy _ => (hall y hy).1
      · rw [hes]
        exact List.pairwise_singleton _ _
    · rcases hcases with hall | ⟨j, d, -, hne⟩
      · exact (hall y hy).1
      · exact absurd (h.exhausted x hx hnone) hne
  · by_cases hold : .closed c t rs ss ∈ es
    · -- the step closes the channel, which holds `b`
      cases hm with
      | @close es hcl hes =>
        have hlog : .closed c t rs ss ∉ log := fun hmem => by
          rw [h.closed t rs ss hmem] at hcl
          cases hcl
        have hrest : .closed c t rs ss ∉ es := fun hmem => by cases hes _ hmem
        obtain ⟨rfl, heq, rfl⟩ := (List.append_cons_inj_of_notMem hlog hrest).mp hl
        cases heq
        have hv := hf.values
        rw [(hf.open_ hcl).1, List.append_nil, ← hb, List.append_cancel_right_eq,
          List.append_cancel_left_eq] at hv
        rw [hv, decided, gather, List.flatMap_eq_nil_iff.mpr fun e he => by rw [hes e he]; rfl]
        exact .inl rfl
      | _ => simp at hold
    · obtain ⟨after', hlog, rfl⟩ := History.append_eq_of_not_mem hl hold
      have hcl := h.closed t rs ss (by rw [hlog]; simp)
      rw [happ, List.map_append]
      rcases h.drained before t rs ss after' b hlog hb with hd | ⟨hbuf, n, hd⟩
      · rcases hm.drained hinv hcl with hes | ⟨hb0, hb1, hes⟩
        · exact .inl (by rw [List.append_assoc, hes, hd])
        · rw [hb0, List.map_nil, List.append_nil] at hd
          exact .inr ⟨hb1, 1, by rw [hd, hes]; rfl⟩
      · refine .inr ?_
        rcases hm.drained hinv hcl with hes | ⟨hb0, hb1, hes⟩
        · rw [hbuf, List.map_nil, List.append_eq_nil_iff, List.map_eq_nil_iff,
            List.map_eq_nil_iff] at hes
          exact ⟨hes.2, n, by rw [hes.1, hd]; simp⟩
        · exact ⟨hb1, n + 1, by rw [hes, hd, List.append_assoc, List.replicate_succ']⟩

end Moves

/-- The law of closed channels, in every state reached. -/
theorem reach_drainLaw {P : Program σ V} {ok : Act → State σ V → Prop} {s : State σ V}
    (hr : (runtime P).Reach ok s) {c : ChanId} {m : Chan V} (hm : s.sh.chans[c]? = some m) :
    DrainLaw c m.val s.sh.log := by
  refine (chan_invariant c (I := fun m log => FifoLaw c m log ∧ DrainLaw c m log) (fun _ => ?_)
    (fun _ _ _ h hes => ⟨h.1.quiet hes, h.2.quiet hes⟩)
    (fun _ _ _ _ _ hinv h hm => ⟨h.1.move hinv hm, h.2.move h.1 hinv hm⟩) hr hm).2.2
  refine ⟨⟨rfl, rfl, fun _ => ⟨rfl, rfl⟩⟩, fun _ _ _ h => (by cases h), fun _ h => (by cases h),
    .nil, fun _ _ _ _ _ _ hl => ?_⟩
  simp at hl

/-! ### Steps and runs

A call can be decided to return `None` in two places only: by its own section, which finds the
channel closed with an empty buffer and an empty `sendq`, or by the `close` that dismisses it, and
nobody waits to receive while a value is left.
-/

/-- In the step from `s` to `s'` a call of `recv` of the task `i` is decided to return `None`: in
    its own section, or in the section of the `close` that dismisses it. -/
structure DecidesNone (c : ChanId) (i : TaskId) (s s' : State σ V) : Prop where
  section_ : (∃ es, s'.sh.log = s.sh.log ++ .received c i .closed :: es) ∨
    ∃ t rs ss es, s'.sh.log = s.sh.log ++ .closed c t rs ss :: es ∧ i ∈ rs
  drained : ∃ m, s.sh.chans[c]? = some m ∧ m.val.buf = [] ∧ m.val.sendq = [] ∧
    m.val.delivered.lookup i = none
  closed : ∃ m, s'.sh.chans[c]? = some m ∧ m.val.closed = true

section Steps

variable {P : Program σ V} {a : Act} {s s' : State σ V} {c : ChanId} {m m' : Chan V}
  {es : List (Event V)} {i : TaskId}

/-- No step creates a channel or removes one. -/
theorem next_length_chans (hn : (runtime P).next a s = some s') :
    s'.sh.chans.length = s.sh.chans.length := by
  rcases (next_inv hn).2.cases with ⟨w, ch, pc, e, -, -, hs, hmove⟩ | ⟨ho, -⟩
  · rw [hmove.sh]
    exact hs.length_chans
  · cases ho with
    | go hsh => rw [hsh]
    | push hsh => rw [hsh]; rfl
    | same hsh => rw [hsh.chans]

/-- A step that decides or closes is the step of a task, which moves the channel. -/
theorem next_move (hn : (runtime P).next a s = some s') (hm : s.sh.chans[c]? = some m)
    (hm' : s'.sh.chans[c]? = some m') (hl : s'.sh.log = s.sh.log ++ es)
    (hne : decided c es ≠ [] ∨ m'.val.closed ≠ m.val.closed) :
    ∃ (w : Nat) (ch : Choice) (t : Task σ V) (e : Effect σ V), s.workers[w]? = some (.run t) ∧
      TaskStep P ch (queueFree s.workers) s.sh t e ∧ s'.sh = e.sh ∧
      ChanMove c t.id m.val m'.val es := by
  rcases (next_inv hn).2.cases with ⟨w, ch, pc, e, -, hw, hs, hmove⟩ | ⟨ho, -⟩
  · rcases hs.task_or with ⟨t, rfl, htask⟩ | hpc
    · refine ⟨w, ch, t, e, hw, htask, hmove.sh, ?_⟩
      obtain ⟨m₁, hm₁, heff⟩ := htask.chan hm
      rw [hmove.sh] at hm' hl
      rw [hm'] at hm₁
      cases hm₁
      cases heff with
      -- the channel stays as it was, so nothing is decided or closed
      | same hv hl' =>
        obtain ⟨es', hl', hes'⟩ := hl'
        obtain rfl := List.append_cancel_left (hl.symm.trans hl')
        rcases hne with hne | hne
        · exact absurd (List.flatMap_eq_nil_iff.mpr fun e he => decides_of_chan? (hes' e he)) hne
        · exact absurd (congrArg ChanInner.closed hv) hne
      | move _ hmv hl' =>
        obtain rfl := List.append_cancel_left (hl.symm.trans hl')
        exact hmv
    · exfalso
      -- a worker that runs no task does neither
      have hsame := hs.sameChans hpc
      obtain ⟨es', hl', hes'⟩ := hsame.log
      rw [hmove.sh] at hm' hl
      obtain rfl := List.append_cancel_left (hl.symm.trans hl')
      rw [hsame.chans, hm] at hm'
      cases hm'
      rcases hne with hne | hne
      · exact hne (List.flatMap_eq_nil_iff.mpr fun e he =>
          decides_of_chan? (by simp [chan?_of_ofWorker (hes' e he)]))
      · exact hne rfl
  · exfalso
    have hsame : s'.sh.chans = s.sh.chans ∧ decided c es = [] := by
      cases ho with
      | go hsh =>
        rw [hsh] at hl ⊢
        exact ⟨rfl, by rw [List.self_eq_append_right.mp hl]; rfl⟩
      | push hsh =>
        rw [hsh] at hl ⊢
        exact ⟨rfl, by rw [← List.append_cancel_left (show s.sh.log ++ [_] = _ from hl)]; rfl⟩
      | same hsh =>
        rw [hsh.log] at hl
        exact ⟨hsh.chans, by rw [List.self_eq_append_right.mp hl]; rfl⟩
    rw [hsame.1, hm] at hm'
    cases hm'
    rcases hne with hne | hne
    · exact hne hsame.2
    · exact hne rfl

/-- A call is decided in its own section, or while it is parked. -/
theorem AnswerStep.undelivered {sh : Shared σ V} {t : TaskId} {b b' : List (Option V)}
    (h : AnswerStep c sh t b b' es) {x : TaskId × Option V} (hx : x ∈ decided c es) :
    x.1 = t ∧ b = [] ∨ sh.status x.1 = .queued (.recvq c) := by
  cases h with
  | still hes =>
    rw [decided, gather, List.flatMap_eq_nil_iff.mpr fun e he => (hes e he).1] at hx
    cases hx
  | take hd | direct hd =>
    obtain rfl : x = (t, _) := by simpa [hd] using hx
    exact .inl ⟨rfl, rfl⟩
  | finish hes =>
    rw [decided, gather_append, gather, List.flatMap_eq_nil_iff.mpr fun e he => (hes e he).1] at hx
    simp at hx
  | @others e _ _ _ hd hes =>
    have hx : x ∈ e.decides c := by
      rcases hes with rfl | rfl <;> simpa using hx
    exact .inr (hd x hx).2.1

/-- **A call is decided to return `None` on a closed and drained channel only.** -/
theorem decidesNone_of_next (hP : P.Basic) (hU : P.Uncaught) (hr : (runtime P).Reachable s)
    (hn : (runtime P).next a s = some s') (hm : s.sh.chans[c]? = some m)
    (hm' : s'.sh.chans[c]? = some m') (hl : s'.sh.log = s.sh.log ++ es)
    (hx : (i, none) ∈ decided c es) : DecidesNone c i s s' := by
  obtain ⟨w, ch, t, e, hw, hs, hsh, hmove⟩ :=
    next_move hn hm hm' hl (.inl (List.ne_nil_of_mem hx))
  have ha := (next_inv hn).1
  have hd := reach_disciplined_basic hP hr
  have hshaped := reach_shaped hr
  have hmem := List.mem_of_getElem? hw
  have hag := hd.agrees_of_run hshaped hw ha rfl
  -- the call of `i` is decided only now, so no value is kept for it
  have hnone : m.val.delivered.lookup i = none := by
    obtain ⟨es', b, hl', hstep, -⟩ := hs.answered hP hU
      ((reach_basic hP hr).codes t (.inr ⟨_, hmem, rfl⟩))
      (reach_uncaught hU hr t (.inr ⟨_, hmem, rfl⟩)) hd.sources hag
      (fun hc => hd.queue?_of_settles hshaped (reach_placed hr) hw rfl hc)
      (reach_delivered hP hU hr) c
    obtain rfl := List.append_cancel_left (hl.symm.trans ((congrArg Shared.log hsh).trans hl'))
    rw [reach_delivered hP hU hr c m hm i]
    rcases hstep.undelivered hx with ⟨rfl, hout⟩ | hq
    · by_contra hne
      obtain ⟨v, hv⟩ := Option.ne_none_iff_exists'.mp hne
      rw [delivered?_eq_some] at hv
      rw [hv] at hag hout
      obtain ⟨k, hh, hc | hc⟩ := Code.recv_of_source? (c := c) hag rfl <;>
        simp [hc, Code.outcome, Status.outcome] at hout
    · rw [hq]
      rfl
  have hinv := reach_chanInv hr hm
  generalize hval : m'.val = m₂ at hmove
  cases hmove with
  | exhausted hcl hq hb =>
    obtain rfl : i = t.id := by simpa [Event.decides] using hx
    exact ⟨.inl ⟨_, hl⟩, ⟨m, hm, hb, hq, hnone⟩, ⟨m', hm', by rw [hval]; exact hcl⟩⟩
  | @close es hcl hes =>
    have hi : i ∈ m.val.recvq := by
      rw [decided, gather_cons, gather, List.flatMap_eq_nil_iff.mpr fun e he => by
        rw [hes e he]; rfl, List.append_nil] at hx
      simpa [Event.decides] using hx
    obtain ⟨hb, hq, -⟩ := hinv.recvq (List.ne_nil_of_mem hi)
    exact ⟨.inr ⟨_, _, _, _, hl, hi⟩, ⟨m, hm, hb, hq, hnone⟩, ⟨m', hm', by rw [hval]⟩⟩
  | _ => simp [Event.decides] at hx

end Steps

/-! ### Whole runs

From the first `close` on the decisions are the values the buffer held, in order, and then `None`
for ever. What the calls return is a merge of these decisions, one list for each task, so the
multiset of the returned values is known as soon as no call is pending.
-/

/-- The task is inside a call of `recv` on `c`. -/
def Code.inRecv (c : ChanId) : Code σ V → Bool
  | .wake _ (.recv c' _) _ => c' = c
  | .park (.recv c' _ _) => c' = c
  | .parked (.recv c' _ _) => c' = c
  | _ => false

section Runs

variable {P : Program σ V} {s s' : State σ V} {c : ChanId} {i : TaskId}

/-- No decision waits for a task outside `recv`. -/
theorem outcome_of_not_inRecv {code : Code σ V} {st : Status V} (hag : code.agrees st)
    (hin : code.inRecv c = false) : code.outcome c st = [] := by
  cases code with
  | wake ids ret k =>
    cases ret <;> cases ids <;> first | rfl | exact if_neg (by simpa [Code.inRecv] using hin)
  | park p | parked p =>
    cases p <;> first | rfl | exact outcome_ne hag (by simpa [Code.inRecv] using hin)
  | _ => rfl

/-- Outside `recv` a task's calls have returned what was decided for them. -/
theorem State.Answered.outside (h : s.Answered c) (hd : s.Disciplined) (hsh : s.Shaped)
    (hp : s.Placed) (ha : s.sh.aborted = none)
    (hin : ∀ t, s.Live t → t.id = i → t.code.inRecv c = false) :
    shareOf i (answered c s.sh.log) = shareOf i (decided c s.sh.log) := by
  obtain ⟨a, hacc, -, halive⟩ := h.alive i
  by_cases hne : a = []
  · rw [hacc, hne, List.append_nil]
  · obtain ⟨t, ht, rfl⟩ := live_of_created hsh hp (halive hne).1 (halive hne).2
    rw [h.fits ha t ht, outcome_of_not_inRecv (hd.agree ha t ht) (hin t ht rfl), List.append_nil]

/-- A value that waits in `delivered` is what the receiver's pending call returns. -/
theorem State.Answered.delivered (h : s.Answered c) (hd : s.Disciplined) (hsh : s.Shaped)
    (hp : s.Placed) (ha : s.sh.aborted = none) {v : V}
    (hv : (s.sh.status i).delivered? c = some v) :
    shareOf i (decided c s.sh.log) = shareOf i (answered c s.sh.log) ++ [some v] := by
  rw [delivered?_eq_some] at hv
  have hborn : .created i ∈ s.sh.log := by
    by_contra hc
    rw [hd.unborn i hc] at hv
    cases hv
  have hdied : .died i ∉ s.sh.log := fun hc => by
    rw [h.dead i hc] at hv
    cases hv
  obtain ⟨t, ht, rfl⟩ := live_of_created hsh hp hborn hdied
  have hag := hd.agree ha t ht
  rw [h.fits ha t ht, hv]
  rw [hv] at hag
  obtain ⟨k, hh, hc | hc⟩ := Code.recv_of_source? (c := c) hag rfl <;>
    simp [hc, Code.outcome, Status.outcome, Why.answer]

/-- The share of a task is made of its entries. -/
theorem mem_shareOf {xs : List (TaskId × V)} {v : V} : v ∈ shareOf i xs ↔ (i, v) ∈ xs := by
  simp [shareOf]

/-- Two lists that share out the same to everybody are permutations of each other. -/
theorem perm_of_shareOf {xs ys : List (TaskId × V)} (h : ∀ i, shareOf i xs = shareOf i ys) :
    xs.Perm ys := by
  classical
  have hcount : ∀ (zs : List (TaskId × V)) i v, zs.count (i, v) = (shareOf i zs).count v := by
    intro zs i v
    rw [shareOf, List.count, List.count, List.countP_map, List.countP_filter]
    refine List.countP_congr fun x _ => ?_
    simp [Prod.ext_iff, and_comm]
  rw [List.perm_iff_count]
  rintro ⟨i, v⟩
  rw [hcount, hcount, h]

/-- The decisions after a `close`, as a prefix of the values it left and then `None`. -/
theorem later_of_drained {ds : List (Option V)} {b buf : List V}
    (h : ds ++ buf.map some = b.map some ∨
      buf = [] ∧ ∃ n, ds = b.map some ++ List.replicate n none) :
    ds <+: b.map some ++ List.replicate ds.length none ∧
      (b.length ≤ ds.length → ds = b.map some ++ List.replicate (ds.length - b.length) none) := by
  rcases h with h | ⟨-, n, rfl⟩
  · have hpre : ds <+: b.map some := ⟨_, h⟩
    refine ⟨hpre.trans (List.prefix_append _ _), fun hlen => ?_⟩
    have hds : ds = b.map some := hpre.eq_of_length_le (by simpa using hlen)
    simp [hds]
  · refine ⟨(List.prefix_append_right_inj _).mpr ?_, fun _ => by simp⟩
    refine ⟨List.replicate b.length none, ?_⟩
    rw [List.replicate_append_replicate, List.length_append, List.length_replicate,
      List.length_map, Nat.add_comm]

/-- In a run every state has the channels of the last one. -/
theorem passes_chan {as : List Act} {s₁ s₂ : State σ V} {a : Act} {m : Chan V}
    (h : (runtime P).Passes as s s' s₁ a s₂) (hm : s'.sh.chans[c]? = some m) :
    ∃ m₁ m₂, s₁.sh.chans[c]? = some m₁ ∧ s₂.sh.chans[c]? = some m₂ := by
  obtain ⟨hl₁, hl₂⟩ := h.unchanged (f := fun s => s.sh.chans.length)
    fun _ _ _ hn => next_length_chans hn
  have hlt := (List.getElem?_eq_some_iff.mp hm).1
  exact ⟨_, _, List.getElem?_eq_getElem (hl₁.symm ▸ hlt), List.getElem?_eq_getElem (hl₂.symm ▸ hlt)⟩

/-- **Where a call that returns `None` was decided.** -/
theorem none_decided (hP : P.Basic) (hU : P.Uncaught) {as : List Act}
    (h0 : (runtime P).init s) (hrun : (runtime P).run as s = some s') {m : Chan V}
    (hm : s'.sh.chans[c]? = some m) {n : Nat}
    (hn : (shareOf i (decided c s'.sh.log))[n]? = some none) :
    ∃ s₁ a s₂, (runtime P).Passes as s s' s₁ a s₂ ∧ DecidesNone c i s₁ s₂ ∧
      (shareOf i (decided c s₁.sh.log)).length ≤ n ∧
      n < (shareOf i (decided c s₂.sh.log)).length ∧
      ∃ tail, decided c s'.sh.log = decided c s₁.sh.log ++ tail ∧ ∀ x ∈ tail, x.2 = none := by
  have happ : ∀ log es : List (Event V), decided c (log ++ es) = decided c log ++ decided c es :=
    fun _ _ => gather_append _ _ _
  obtain ⟨s₁, a, s₂, hpass, hlt₁, hlt₂⟩ := System.run_crossing
    (p := fun t => n < (shareOf i (decided c t.sh.log)).length) hrun
    (by obtain ⟨caps, groups, calls, rfl⟩ := h0; simp [State.initial, shareOf])
    (List.getElem?_eq_some_iff.mp hn).1
  obtain ⟨es, rest, hes, hrest⟩ := passes_log hpass
  obtain ⟨m₁, m₂, hm₁, hm₂⟩ := passes_chan hpass hm
  obtain ⟨hr₁, hstep⟩ := passes_reach hpass h0
  -- the decision is one of those of this step
  have hx : (i, none) ∈ decided c es := by
    rw [hrest, happ, shareOf_append, List.getElem?_append_left hlt₂, hes, happ, shareOf_append,
      List.getElem?_append_right (Nat.not_lt.mp hlt₁)] at hn
    exact mem_shareOf.mp (List.mem_of_getElem? hn)
  refine ⟨s₁, a, s₂, hpass, decidesNone_of_next hP hU hr₁ hstep hm₁ hm₂ hes hx,
    Nat.not_lt.mp hlt₁, hlt₂, decided c es ++ decided c rest, ?_, fun x hmem => ?_⟩
  · rw [hrest, hes, happ, happ, List.append_assoc]
  · rcases List.mem_append.mp hmem with hmem | hmem
    · obtain ⟨w, ch, t, e, -, -, -, hmove⟩ :=
        next_move hstep hm₁ hm₂ hes (.inl (List.ne_nil_of_mem hx))
      rcases hmove.outcomes (reach_chanInv hr₁ hm₁) with hall | ⟨j, d, hone, -⟩
      · exact (hall x hmem).1
      · rw [hone] at hx
        cases List.mem_singleton.mp hx
    · have hfinal := (reach_drainLaw (System.run_reachable h0 hrun) hm).final
      rw [hrest, hes, happ, happ] at hfinal
      exact (List.pairwise_append.mp hfinal).2.2 _ (List.mem_append_right _ hx) x hmem rfl

/-- **What the calls return that are decided after the channel was closed.** -/
theorem close_decided {as : List Act} (h0 : (runtime P).init s)
    (hrun : (runtime P).run as s = some s') {s₁ s₂ : State σ V} {a : Act} {m₁ m₂ : Chan V}
    (hpass : (runtime P).Passes as s s' s₁ a s₂) (hm₁ : s₁.sh.chans[c]? = some m₁)
    (hm₂ : s₂.sh.chans[c]? = some m₂) (hopen : m₁.val.closed = false)
    (hcl : m₂.val.closed = true) {m : Chan V} (hm : s'.sh.chans[c]? = some m) :
    ∃ later, decided c s'.sh.log = decided c s₂.sh.log ++ later ∧
      (later.map (·.2) ++ m.val.buf.map some = m₁.val.buf.map some ∨
        m.val.buf = [] ∧ ∃ n, later.map (·.2) = m₁.val.buf.map some ++ List.replicate n none) := by
  obtain ⟨es, rest, hes, hrest⟩ := passes_log hpass
  obtain ⟨hr₁, hstep⟩ := passes_reach hpass h0
  obtain ⟨w, ch, t, e, -, -, -, hmove⟩ := next_move hstep hm₁ hm₂ hes (.inr (by simp [hopen, hcl]))
  refine ⟨decided c rest, by rw [hrest]; exact gather_append _ _ _, ?_⟩
  have hfifo := reach_fifo hr₁ hm₁
  have hv := hfifo.values
  rw [(hfifo.open_ hopen).1, List.append_nil] at hv
  generalize m₂.val = m₂ at hmove hcl
  cases hmove with
  | @close es _ hcl' =>
    have hdrain := (reach_drainLaw (System.run_reachable h0 hrun) hm).drained s₁.sh.log _ _ _
      (es ++ rest) m₁.val.buf (by rw [hrest, hes, List.append_assoc]; rfl) hv
    have hnil : decided c es = [] :=
      List.flatMap_eq_nil_iff.mpr fun e he => by rw [hcl' e he]; rfl
    rwa [show decided c (es ++ rest) = decided c rest by
      rw [decided, gather_append, show gather (Event.decides c) es = [] from hnil]; rfl] at hdrain
  | _ => simp [hopen] at hcl

end Runs

/-- **`None` is final, and it means closed and drained.**  For every run of a program that uses
    `go`, `gosched`, `sleep` and channels, and every channel: the calls of `recv` of a task return
    what was decided for them, in order.  A call that returns `None` was decided in a step that
    found the channel closed, or closed it, with `buf` and `sendq` empty and nothing delivered to
    the task, and every call decided in that step or later returns `None`.  Conversely, at the step
    that closes the channel, a value in `delivered` is what the receiver's pending call returns,
    and the calls decided later return the values of `buf`, in order and once each, and then
    `None`. -/
theorem recv_none_final {P : Program σ V} (hP : P.Basic) (hU : P.Uncaught) {s₀ s : State σ V}
    {as : List Act} (h0 : (runtime P).init s₀) (hrun : (runtime P).run as s₀ = some s)
    {c : ChanId} {m : Chan V} (hm : s.sh.chans[c]? = some m) :
    (∀ i, shareOf i (answered c s.sh.log) <+: shareOf i (decided c s.sh.log) ∧
      (shareOf i (decided c s.sh.log)).length ≤ (shareOf i (answered c s.sh.log)).length + 1) ∧
    (∀ i n, (shareOf i (answered c s.sh.log))[n]? = some none →
      ∃ s₁ a s₂, (runtime P).Passes as s₀ s s₁ a s₂ ∧ DecidesNone c i s₁ s₂ ∧
        (shareOf i (decided c s₁.sh.log)).length ≤ n ∧
        n < (shareOf i (decided c s₂.sh.log)).length ∧
        ∀ j k o, (shareOf j (decided c s₁.sh.log)).length ≤ k →
          (shareOf j (answered c s.sh.log))[k]? = some o → o = none) ∧
    (∀ s₁ a s₂ m₁ m₂, (runtime P).Passes as s₀ s s₁ a s₂ → s₁.sh.chans[c]? = some m₁ →
      s₂.sh.chans[c]? = some m₂ → m₁.val.closed = false → m₂.val.closed = true →
      (∀ i v, m₁.val.delivered.lookup i = some v →
        (shareOf i (decided c s.sh.log))[(shareOf i (answered c s₁.sh.log)).length]?
          = some (some v)) ∧
      ∃ later, decided c s.sh.log = decided c s₂.sh.log ++ later ∧
        later.map (·.2) <+: m₁.val.buf.map some ++ List.replicate later.length none ∧
        (s.sh.aborted = none → (∀ t, s.Live t → t.code.inRecv c = false) →
          m₁.val.buf.length ≤ later.length →
          ((answered c s.sh.log).map (·.2)).Perm ((decided c s₂.sh.log).map (·.2)
            ++ (m₁.val.buf.map some
              ++ List.replicate (later.length - m₁.val.buf.length) none)))) := by
  have hr := System.run_reachable h0 hrun
  have hans := reach_answered hP hU hr c
  refine ⟨fun i => ?_, fun i n hn => ?_, fun s₁ a s₂ m₁ m₂ hpass hm₁ hm₂ hopen hcl => ?_⟩
  · obtain ⟨b, hacc, hlen, -⟩ := hans.alive i
    rw [hacc, List.length_append]
    exact ⟨List.prefix_append _ _, by omega⟩
  · obtain ⟨b, hacc, -⟩ := hans.alive i
    obtain ⟨s₁, a, s₂, hpass, hdec, h1, h2, tail, htail, hall⟩ := none_decided hP hU h0 hrun hm
      (by rw [hacc, List.getElem?_append_left (List.getElem?_eq_some_iff.mp hn).1]; exact hn)
    refine ⟨s₁, a, s₂, hpass, hdec, h1, h2, fun j k o hk ho => ?_⟩
    obtain ⟨b', hacc', -⟩ := hans.alive j
    -- what has been returned has been decided, and the later ones are all `None`
    have ho' : (shareOf j (decided c s.sh.log))[k]? = some o := by
      rw [hacc', List.getElem?_append_left (List.getElem?_eq_some_iff.mp ho).1]
      exact ho
    rw [htail, shareOf_append, List.getElem?_append_right hk] at ho'
    exact hall _ (mem_shareOf.mp (List.mem_of_getElem? ho'))
  · have hreach := passes_reach hpass h0
    obtain ⟨later, hlater, hdrain⟩ := close_decided h0 hrun hpass hm₁ hm₂ hopen hcl hm
    obtain ⟨hpre, hexact⟩ := later_of_drained hdrain
    rw [List.length_map] at hpre hexact
    refine ⟨fun i v hv => ?_, later, hlater, hpre, fun ha hin hlen => ?_⟩
    · rw [reach_delivered hP hU hreach.1 c m₁ hm₁] at hv
      -- the value is the outcome of the call that is pending at the close
      have hpend := (reach_answered hP hU hreach.1 c).delivered (reach_disciplined_basic hP hreach.1)
        (reach_shaped hreach.1) (reach_placed hreach.1) (next_inv hreach.2).1 hv
      obtain ⟨es, rest, hes, hrest⟩ := passes_log hpass
      rw [hrest, hes, List.append_assoc, decided, gather_append, shareOf_append,
        show shareOf i (gather (Event.decides c) s₁.sh.log) = _ from hpend, List.append_assoc,
        List.getElem?_append_right le_rfl, Nat.sub_self]
      rfl
    · -- nobody is inside `recv`, so all that was decided has been returned
      have hperm : (answered c s.sh.log).Perm (decided c s.sh.log) := perm_of_shareOf fun i =>
        hans.outside (reach_disciplined_basic hP hr) (reach_shaped hr) (reach_placed hr) ha
          fun t ht _ => hin t ht
      rw [hlater] at hperm
      have := hperm.map (·.2)
      rwa [List.map_append, hexact hlen] at this

/-- A task that sends a value, closes the channel, and receives twice. -/
def drainProgram : Program Nat Nat where
  code
    | 0 => .send 0 7 1 none
    | 1 => .close 0 2 none
    | 2 => .recv 0 (fun _ => 3) none
    | 3 => .recv 0 (fun _ => 4) none
    | _ => .done
  variant := .channel
  overflowChecks := true
  own x := by split <;> rfl

/-- The steps of the run on `drainProgram`. -/
def drainActs : List Act :=
  List.replicate 5 (.main {}) ++ List.replicate 7 (.worker 0 {})

/-- Its calls return `Some(7)` and `None`, and the second was decided on the drained channel, in a
    step of the run. -/
theorem recv_none_final_drained :
    ∃ s, (runtime drainProgram).run drainActs
        (State.initial [1] 0 [.go 0, .startRuntime 1]) = some s ∧
      shareOf 0 (answered 0 s.sh.log) = [some 7, none] ∧
      ∃ s₁ a s₂, (runtime drainProgram).Passes drainActs
          (.initial [1] 0 [.go 0, .startRuntime 1]) s s₁ a s₂ ∧ DecidesNone 0 0 s₁ s₂ ∧
        (shareOf 0 (decided 0 s₁.sh.log)).length ≤ 1 := by
  have h : ((runtime drainProgram).run drainActs
      (State.initial [1] 0 [.go 0, .startRuntime 1])).map
        (fun s => (shareOf 0 (answered 0 s.sh.log), (s.sh.chans[0]?).isSome))
      = some ([some 7, none], true) := by rfl
  obtain ⟨s, hs, hst⟩ := Option.map_eq_some_iff.mp h
  obtain ⟨hans, hm⟩ := Prod.mk.inj hst
  obtain ⟨m, hm⟩ := Option.isSome_iff_exists.mp hm
  have hP : drainProgram.Basic := by
    intro x
    rcases x with _ | _ | _ | _ | x <;> rfl
  have hU : drainProgram.Uncaught := by
    intro x
    rcases x with _ | _ | _ | _ | x <;> rfl
  obtain ⟨s₁, a, s₂, hpass, hdec, hlen, -⟩ :=
    (recv_none_final hP hU ⟨[1], 0, _, rfl⟩ hs hm).2.1 0 1 (by rw [hans]; rfl)
  exact ⟨s, hs, hans, s₁, a, s₂, hpass, hdec, hlen⟩

end MyGoroutine
