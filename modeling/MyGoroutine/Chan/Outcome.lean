import MyGoroutine.Chan.Delivered

namespace MyGoroutine

/-!
# The outcome of a blocked send

A `send` that has parked learns what became of its waiter only when it goes on, by reading
`closed` once more.  That tells the truth as long as no `close` comes between the `recv` that
took the waiter and the sender's second section; a `close` in that gap makes a sender panic
whose value was accepted.

* `KeepsAccepted` — the step is no such `close`;
* `Shared.Accepts` — a sender whose value was accepted finds its channel open;
* `blocked_send_outcome` — the outcome is what became of the waiter;
* `accepted_send_panics` — the outcome after a `close` in the gap.
-/

variable {σ V : Type}

/-- The step is no `close` of a channel with a sender whose waiter a `recv` has taken, and
    which has not gone on since. -/
def KeepsAccepted (P : Program σ V) (a : Act) (s : State σ V) : Prop :=
  ∀ (w : Nat) ch (t : Task σ V) x c k h, a = .worker w ch → s.workers[w]? = some (.run t) →
    t.code = .user x → P.code x = .close c k h →
    ∀ i, s.sh.status i ≠ .released (.sendq c) .taken

/-- A sender whose waiter was taken finds its channel open. -/
def Shared.Accepts (sh : Shared σ V) : Prop :=
  ∀ (c : ChanId) (m : Chan V), sh.chans[c]? = some m →
    ∀ i, sh.status i = .released (.sendq c) .taken → m.val.closed = false

/-! ### Closing a channel

Two facts about a sender whose waiter has left the `sendq`. If `close` has drained it, the channel
is closed and stays so. If a `recv` has taken it, the channel is open at that moment, and remains
open until the sender goes on as long as no `close` comes in between: this is where the condition on
the steps is used.
-/

section Close

variable {P : Program σ V} {ch : Choice} {free : Bool} {sh : Shared σ V} {t : Task σ V}
  {e : Effect σ V}

/-- Only `close` closes a channel. -/
theorem TaskStep.closed_eq (hs : TaskStep P ch free sh t e) {c : ChanId} {m m' : Chan V}
    (hm : sh.chans[c]? = some m) (hm' : e.sh.chans[c]? = some m') :
    m'.val.closed = m.val.closed ∨ ∃ x k h, t.code = .user x ∧ P.code x = .close c k h := by
  have hsame : e.sh.chans = sh.chans → m'.val.closed = m.val.closed := by
    intro hc
    rw [hc, hm] at hm'
    cases hm'
    rfl
  -- a section of another channel, or one that keeps `closed`
  have hset : ∀ {c' m₀ m₁}, sh.chans[c']? = some m₀ → e.sh.chans = sh.chans.set c' m₁ →
      (c' = c → m₁.val.closed = m₀.val.closed) → m'.val.closed = m.val.closed := by
    intro c' m₀ m₁ h₀ hc hcl
    have hlt := (List.getElem?_eq_some_iff.mp h₀).1
    by_cases hcc : c' = c
    · subst hcc
      rw [hc, List.getElem?_set_self hlt] at hm'
      rw [hm] at h₀
      cases h₀
      cases hm'
      exact hcl rfl
    · rw [hc, List.getElem?_set_ne hcc, hm] at hm'
      cases hm'
      rfl
  cases hs with
  | @close x c' k h m₀ hc hx hm₀ =>
    by_cases hcc : c' = c
    · subst hcc
      exact .inr ⟨x, k, h, hc, hx⟩
    · exact .inl (hset hm₀ (by rw [finish_sh]; rfl) fun h => absurd h hcc)
  | chanClosed hs hm₀ => exact .inl (hset hm₀ (raise_chans _ _ _) fun _ => rfl)
  | recvUnwrap hc hx hm₀ => exact .inl (hset hm₀ (raise_chans _ _ _) fun _ => rfl)
  | sendDelivered hc hx hm₀ | sendBuffered hc hx hm₀ | sendEnqueued hc hx hm₀
  | recvTake hc hx hm₀ | recvRefill hc hx hm₀ | recvBuf hc hx hm₀ | recvEnqueued hc hx hm₀
  | resumeRecv hc hm₀ => exact .inl (hset hm₀ rfl fun _ => rfl)
  | chanPoisoned | groupPanic | sleepOverflow | netFail => exact .inl (hsame (raise_chans _ _ _))
  | add => exact .inl (hsame (by rw [finish_sh]; rfl))
  | goready | wakeMore | wakeLast => exact .inl (hsame (goready_chans _ _ _))
  | _ => exact .inl (hsame rfl)

/-- Only a `recv` takes a waiter. -/
theorem taken_of_foldl {c : ChanId} {es : List (Event V)}
    (hes : ∀ e ∈ es, ∀ t w d, e ≠ .received c t (.fromSender w d)) {i : TaskId} {st : Status V}
    (h : es.foldl (Event.update i) st = .released (.sendq c) .taken) :
    st = .released (.sendq c) .taken := by
  by_contra hne
  obtain ⟨e, he, hr⟩ := releases_of_foldl h hne
  rcases hr.sendq with ⟨t, w, d, rfl, -⟩ | ⟨t, rs, ss, -, -, hwhy⟩
  · exact hes _ he _ _ _ rfl
  · cases hwhy

/-- Only `close` drains a waiter. -/
theorem drained_of_foldl {c : ChanId} {es : List (Event V)}
    (hes : ∀ e ∈ es, ∀ t rs ss, e ≠ .closed c t rs ss) {i : TaskId} {st : Status V}
    (h : es.foldl (Event.update i) st = .released (.sendq c) .drained) :
    st = .released (.sendq c) .drained := by
  by_contra hne
  obtain ⟨e, he, hr⟩ := releases_of_foldl h hne
  rcases hr.sendq with ⟨t, w, d, -, -, hwhy⟩ | ⟨t, rs, ss, rfl, -⟩
  · cases hwhy
  · exact hes _ he _ _ _ rfl

end Close

/-- A sender that was drained finds its channel closed. -/
theorem reach_drained {P : Program σ V} {ok : Act → State σ V → Prop} {s : State σ V}
    (hr : (runtime P).Reach ok s) {c : ChanId} {m : Chan V} (hm : s.sh.chans[c]? = some m)
    {i : TaskId} (hst : s.sh.status i = .released (.sendq c) .drained) :
    m.val.closed = true := by
  have hquiet : ∀ (m : ChanInner V) (log es : List (Event V)),
      (∀ i, statusOf i log = .released (.sendq c) .drained → m.closed = true) →
      (∀ e ∈ es, ∀ t rs ss, e ≠ .closed c t rs ss) →
      ∀ i, statusOf i (log ++ es) = .released (.sendq c) .drained → m.closed = true := by
    intro m log es h hes i hi
    rw [statusOf_append] at hi
    exact h i (drained_of_foldl hes hi)
  refine (chan_invariant c
    (I := fun m log => ∀ i, statusOf i log = .released (.sendq c) .drained → m.closed = true)
    (fun _ i h => by cases h) (fun m log es h hes => hquiet m log es h fun e he t rs ss heq => ?_)
    (fun i m m' log es _ h hmove => ?_) hr hm).2 i hst
  · exact hes e he (by rw [heq]; rfl)
  · cases hmove with
    | close => exact fun _ _ => rfl
    | _ => exact hquiet _ log _ h (by simp)

/-- **A sender whose waiter was taken finds its channel open**, in every state reached without a
    `close` in the gap. -/
theorem reach_accepts {P : Program σ V} {ok : Act → State σ V → Prop}
    (hok : ∀ a s, ok a s → KeepsAccepted P a s) {s : State σ V} (hr : (runtime P).Reach ok s) :
    s.sh.Accepts := by
  refine hr.invariant (I := fun s => s.sh.Accepts) ?_ ?_
  · rintro s ⟨caps, groups, calls, rfl⟩ c m hm i hi
    cases hi
  · intro s s' a hr h hok' hn
    rcases (next_inv hn).2.cases with ⟨w, ch, pc, e, rfl, hw, hs, hmove⟩ | ⟨ho, -⟩
    · intro c m' hm' i hi
      rw [hmove.sh] at hm' hi
      have hlt : c < s.sh.chans.length := by
        rw [← hs.length_chans]
        exact (List.getElem?_eq_some_iff.mp hm').1
      obtain ⟨m, hm⟩ : ∃ m, s.sh.chans[c]? = some m := ⟨_, List.getElem?_eq_getElem hlt⟩
      obtain ⟨j, m₁, hm₁, heff⟩ := hs.chan hm
      rw [hm'] at hm₁
      cases hm₁
      -- without a waiter taken in this step, the status is an old one
      have hold : ∀ {es}, e.sh.log = s.sh.log ++ es →
          (∀ e ∈ es, ∀ t w d, e ≠ .received c t (.fromSender w d)) →
          s.sh.status i = .released (.sendq c) .taken := by
        intro es hl hes
        rw [Shared.status, hl, statusOf_append] at hi
        exact taken_of_foldl hes hi
      cases heff with
      | same hv hl =>
        obtain ⟨es, hl, hes⟩ := hl
        rw [hv]
        exact h c m hm i (hold hl fun e he t w d heq => hes e he (by rw [heq]; rfl))
      | move _ hm₂ hl =>
        generalize hval : m'.val = m₂ at hm₂
        cases hm₂ with
        | take hq | refill hq => exact ((reach_chanInv hr hm).sendq (by rw [hq]; simp)).2
        | unwrap hq => exact ((reach_chanInv hr hm).sendq (by rw [hq]; simp)).2
        | @close es hcl hes =>
          have hst := hold hl fun e he t w d => by
            rcases List.mem_cons.mp he with rfl | he
            · simp
            · rw [hes e he]; simp
          rcases hs.task_or with ⟨t, rfl, htask⟩ | hpc
          · rcases htask.closed_eq hm hm' with heq | ⟨x, k, h', hc, hx⟩
            · rw [hval, hcl] at heq
              cases heq
            · exact absurd hst (hok _ _ hok' w ch t x c k h' rfl hw hc hx i)
          · rw [(hs.sameChans hpc).chans, hm] at hm'
            cases hm'
            have := congrArg ChanInner.closed hval
            rw [hcl] at this
            cases this
        | exhausted => exact h c m hm i (hold hl (by simp))
        | deliver | push | enqueueSend | pop | enqueueRecv | collect =>
          exact h c m hm i (hold hl (by simp))
    · cases ho with
      | go hsh => rw [hsh]; exact h
      | @push id f hsh =>
        intro c m hm i hi
        rw [status_of_neutral [.created id] (show s'.sh.log = s.sh.log ++ _ by rw [hsh]; rfl)
          (by simp [Event.neutral, Event.update])] at hi
        exact h c m (by rw [hsh] at hm; exact hm) i hi
      | same hsh =>
        intro c m hm i hi
        rw [status_of_log hsh.log] at hi
        exact h c m (hsh.chans ▸ hm) i hi

/-! ### The outcome

The second section of `send` looks at nothing but `closed`. By the two facts above, `closed` tells
the two ends of a waiter apart in the runs that meet the condition; in the last run of this part the
channel is closed in the gap.
-/

/-- The two ends of a parked sender's waiter. -/
theorem released_sendq {log : List (Event V)} (hlaw : History.Each Event.Lawful log) {i : TaskId}
    {c : ChanId} {why : Why V} (hst : statusOf i log = .released (.sendq c) why) :
    (why = .taken ∧ ∃ r v d,
      TakenOut i (.sendq c) .taken (.received c r (.fromSender ⟨i, v⟩ d)) log) ∨
    (why = .drained ∧ ∃ r receivers senders,
      TakenOut i (.sendq c) .drained (.closed c r receivers senders) log) := by
  obtain ⟨e, he⟩ := released_by hlaw hst
  rcases he.releases.sendq with ⟨r, ⟨j, v⟩, d, rfl, hi, rfl⟩ | ⟨r, rs, ss, rfl, -, rfl⟩
  · obtain rfl : j = i := hi
    exact .inl ⟨rfl, r, v, d, he⟩
  · exact .inr ⟨rfl, r, rs, ss, he⟩

/-- **The outcome of a blocked send.**  In every state reached by a program that uses `go`,
    `gosched`, `sleep` and channels, without a `close` between a `recv` that takes a waiter and
    the moment its sender goes on: a sender that goes on after its park returns exactly when a
    `recv` has taken its waiter, and panics exactly when `close` has drained it. -/
theorem blocked_send_outcome {P : Program σ V} (hP : P.Basic) (hU : P.Uncaught) {s s' : State σ V}
    (hr : (runtime P).Reach (KeepsAccepted P) s) {w : Nat} {ch : Choice} {t : Task σ V}
    {c : ChanId} {k : σ} {h : Handler σ} (hw : s.workers[w]? = some (.run t))
    (hc : t.code = .parked (.send c k h)) (hn : (runtime P).next (.worker w ch) s = some s') :
    ((s'.sh.log = s.sh.log ++ [.returned t.id (.send c)] ∧
        s'.workers[w]? = some (.run (t.goto (.user k)))) ↔
      ∃ r v d, TakenOut t.id (.sendq c) .taken (.received c r (.fromSender ⟨t.id, v⟩ d))
        s.sh.log) ∧
    ((s'.sh.log = s.sh.log ++ [.panicked t.id .sendOnClosed] ∧
        s'.sh.aborted = some .sendOnClosed) ↔
      ∃ r receivers senders,
        TakenOut t.id (.sendq c) .drained (.closed c r receivers senders) s.sh.log) := by
  obtain ⟨ha, e, hs, hmove⟩ := next_worker hn hw
  have hd := reach_disciplined_basic hP hr
  have hlaw := reach_lawful hP.structured (fun _ _ h => h) (reach_freshPolls hP hr)
  have hag := hd.agrees_of_run (reach_shaped hr) hw ha rfl
  have hq := hd.queue?_of_settles (reach_shaped hr) (reach_placed hr) hw rfl (by rw [hc]; rfl)
  have hnone : h = none := by
    have := reach_uncaught hU hr t (.inr ⟨_, List.mem_of_getElem? hw, rfl⟩)
    rw [hc] at this
    exact Option.isNone_iff_eq_none.mp this
  -- the sender runs again, so its waiter has been taken or drained
  obtain ⟨why, hst⟩ : ∃ why, s.sh.status t.id = .released (.sendq c) why := by
    rw [hc] at hag
    obtain ⟨src, why, hwait, hst⟩ := Code.released_of_parked hag hq
    cases src <;> cases hwait
    exact ⟨why, hst⟩
  have hend := released_sendq hlaw hst
  cases hs with
  | run hs =>
    cases hs.of_parked hc with
    | sendPoisoned hm hp =>
      rw [reach_unpoisoned hU hr ha _ (List.mem_of_getElem? hm)] at hp
      cases hp
    | sendClosed hm hp hcl =>
      -- a taken sender finds the channel open: no `close` has come in between
      have htaken : ¬ s.sh.status t.id = .released (.sendq c) .taken := fun hst' => by
        rw [reach_accepts (fun _ _ h => h) hr c _ hm t.id hst'] at hcl
        cases hcl
      have hlog : s'.sh.log = s.sh.log ++ [.panicked t.id .sendOnClosed] := by
        rw [hmove.sh, raise_log]
        rfl
      refine ⟨iff_of_false (fun h => ?_) ?_, iff_of_true ⟨hlog, ?_⟩ ?_⟩
      · rw [hlog] at h
        simpa using List.append_cancel_left h.1
      · rintro ⟨r, v, d, ht⟩
        exact htaken ht.status
      · rw [hmove.sh, raise_sh, hnone]
        rfl
      · rcases hend with ⟨rfl, -⟩ | ⟨-, hend⟩
        · exact absurd hst htaken
        · exact hend
    | send hm hp hcl =>
      -- a drained sender finds the channel closed
      have hdrained : ¬ s.sh.status t.id = .released (.sendq c) .drained := fun hst' => by
        rw [reach_drained hr hm hst'] at hcl
        cases hcl
      have hlog : s'.sh.log = s.sh.log ++ [.returned t.id (.send c)] := by
        rw [hmove.sh]
        rfl
      refine ⟨iff_of_true ⟨hlog, hmove.at_ (by simp)⟩ ?_, iff_of_false (fun h => ?_) ?_⟩
      · rcases hend with ⟨-, hend⟩ | ⟨rfl, -⟩
        · exact hend
        · exact absurd hst hdrained
      · rw [hlog] at h
        simpa using List.append_cancel_left h.1
      · rintro ⟨r, rs, ss, ht⟩
        exact hdrained ht.status

/-- The sender of `deliveryProgram`, started first, parks; its waiter is taken, and it returns. -/
theorem blocked_send_outcome_taken :
    ∃ s s', (runtime deliveryProgram).run
        (List.replicate 7 (.main {}) ++ List.replicate 13 (.worker 0 {}))
        (State.initial [0] 0 [.go 1, .go 0, .startRuntime 1]) = some s ∧
      (runtime deliveryProgram).next (.worker 0 {}) s = some s' ∧
      s'.sh.log = s.sh.log ++ [.returned 0 (.send 0)] ∧
      ∃ r v d, TakenOut 0 (.sendq 0) .taken (.received 0 r (.fromSender ⟨0, v⟩ d)) s.sh.log := by
  have h : ((runtime deliveryProgram).run
      (List.replicate 7 (Act.main {}) ++ List.replicate 13 (Act.worker 0 {}))
      (State.initial [0] 0 [.go 1, .go 0, .startRuntime 1])).map (fun s => (s.workers, s.sh.log,
        ((runtime deliveryProgram).next (Act.worker 0 {}) s).isSome))
      = some ([.run ⟨0, .parked (.send 0 2 none), .running⟩],
          [.created 0, .created 1, .dispatched 0, .entered 0, .sent 0 0 7 .enqueued,
            .dispatched 1, .entered 1] ++ .received 0 1 (.fromSender ⟨0, 7⟩ 7) ::
          [.goready 0 (.task 1), .wake 0, .returned 1 (.recv 0 (some 7)), .died 1, .dispatched 0],
          true) := by rfl
  obtain ⟨s, hs, hst⟩ := Option.map_eq_some_iff.mp h
  obtain ⟨hw, hst⟩ := Prod.mk.inj hst
  obtain ⟨hlog, hn⟩ := Prod.mk.inj hst
  obtain ⟨s', hn⟩ := Option.isSome_iff_exists.mp hn
  have hP : deliveryProgram.Basic := by
    intro x
    rcases x with _ | _ | x <;> rfl
  have hU : deliveryProgram.Uncaught := by
    intro x
    rcases x with _ | _ | x <;> rfl
  have hr := System.run_reachable (M := runtime deliveryProgram) ⟨[0], 0, _, rfl⟩ hs
  have hkeep : ∀ a s, KeepsAccepted deliveryProgram a s := by
    intro a s w ch t x c k h _ _ _ hx
    rcases x with _ | _ | x <;> cases hx
  have htaken : ∃ r v d,
      TakenOut 0 (.sendq 0) .taken (.received 0 r (.fromSender ⟨0, v⟩ d)) s.sh.log :=
    ⟨1, 7, 7, _, _, hlog, ⟨rfl, rfl, rfl⟩, rfl, by simp [Event.update]⟩
  exact ⟨s, s', hs, hn, ((blocked_send_outcome hP hU (hr.mono fun a s _ => hkeep a s) (w := 0)
    (by rw [hw]; rfl) rfl hn).1.mpr htaken).1, htaken⟩

/-- A sender whose waiter the receiver takes, before it closes the channel. -/
def acceptedProgram : Program Nat Nat where
  code
    | 0 => .send 0 7 2 none
    | 1 => .recv 0 (fun _ => 3) none
    | 3 => .close 0 2 none
    | _ => .done
  variant := .channel
  overflowChecks := true
  own x := by split <;> rfl

/-- **A `close` in the gap**: the receiver has taken the waiter, so the value was accepted, and
    yet the sender panics. -/
theorem accepted_send_panics :
    ∃ s s', (runtime acceptedProgram).Reachable s ∧
      s.workers = [.run ⟨0, .parked (.send 0 2 none), .running⟩] ∧
      (∃ r v d, TakenOut 0 (.sendq 0) .taken (.received 0 r (.fromSender ⟨0, v⟩ d)) s.sh.log) ∧
      (runtime acceptedProgram).next (.worker 0 {}) s = some s' ∧
      s'.sh.aborted = some .sendOnClosed := by
  have h : ((runtime acceptedProgram).run
      (List.replicate 7 (Act.main {}) ++ List.replicate 14 (Act.worker 0 {}))
      (State.initial [0] 0 [.go 0, .go 1, .startRuntime 1])).map (fun s => (s.workers, s.sh.log,
        ((runtime acceptedProgram).next (Act.worker 0 {}) s).map (·.sh.aborted)))
      = some ([.run ⟨0, .parked (.send 0 2 none), .running⟩],
          [.created 0, .created 1, .dispatched 0, .entered 0, .sent 0 0 7 .enqueued,
            .dispatched 1, .entered 1] ++ .received 0 1 (.fromSender ⟨0, 7⟩ 7) ::
          [.goready 0 (.task 1), .wake 0, .returned 1 (.recv 0 (some 7)), .closed 0 1 [] [],
            .returned 1 (.close 0), .died 1, .dispatched 0],
          some (some .sendOnClosed)) := by rfl
  obtain ⟨s, hs, hst⟩ := Option.map_eq_some_iff.mp h
  obtain ⟨hw, hst⟩ := Prod.mk.inj hst
  obtain ⟨hlog, hn⟩ := Prod.mk.inj hst
  obtain ⟨s', hn, ha⟩ := Option.map_eq_some_iff.mp hn
  refine ⟨s, s', System.run_reachable (M := runtime acceptedProgram) ⟨[0], 0, _, rfl⟩ hs, hw,
    ⟨1, 7, 7, _, _, hlog, ⟨rfl, rfl, rfl⟩, rfl, ?_⟩, hn, ha⟩
  simp [Event.update]

end MyGoroutine
