import MyGoroutine.Chan.Fifo
import MyGoroutine.Chan.Uncaught
import MyGoroutine.Wake.Release

namespace MyGoroutine

/-!
# Delivered values — and a channel as a bounded queue

A `send` that finds a parked receiver leaves its value in `delivered`, under the receiver's id,
and the receiver collects it in a section of its own, later.  In between the entry stands for
exactly that exchange.

* `Status.delivered?` — the value that a parked receiver was given, read off its status;
* `reach_delivers`, `reach_delivered` — `delivered` holds exactly these values;
* `chan_bounded_fifo` — a channel is a bounded queue, and loses no value.
-/

variable {σ V : Type}

/-- The value that a parked receiver of `c` was given, until it goes on. -/
def Status.delivered? (c : ChanId) : Status V → Option V
  | .released (.recvq c') (.delivered v) => if c' = c then some v else none
  | _ => none

/-- The event delivers a value to a parked receiver of `c`. -/
def Event.delivers (c : ChanId) : Event V → Bool
  | .sent c' _ _ (.delivered _) => c' = c
  | _ => false

/-- An event about another channel delivers nothing on this one. -/
theorem delivers_of_chan? {c : ChanId} {e : Event V} (h : e.chan? ≠ some c) :
    e.delivers c = false := by
  cases e with
  | sent c' t d o =>
    cases o <;> first | rfl | exact decide_eq_false fun hc => h (by rw [hc]; rfl)
  | _ => rfl

/-- A value is delivered to a task exactly when a `send` has released it with this value. -/
theorem delivered?_eq_some {c : ChanId} {st : Status V} {v : V} :
    st.delivered? c = some v ↔ st = .released (.recvq c) (.delivered v) := by
  constructor
  · intro h
    unfold Status.delivered? at h
    split at h
    · split at h
      · cases h
        subst c
        rfl
      · cases h
    · cases h
  · rintro rfl
    exact if_pos rfl

/-- Only a delivery gives a receiver its value. -/
theorem delivered?_of_foldl {c : ChanId} {es : List (Event V)}
    (hes : ∀ e ∈ es, e.delivers c = false) {i : TaskId} {st : Status V} {v : V}
    (h : (es.foldl (Event.update i) st).delivered? c = some v) : st.delivered? c = some v := by
  rw [delivered?_eq_some] at *
  by_contra hne
  obtain ⟨e, he, hr⟩ := releases_of_foldl h hne
  rcases hr.recvq with ⟨t, d, rfl, -⟩ | ⟨t, rs, ss, -, -, hwhy⟩
  · exact absurd (hes _ he) (by simp [Event.delivers])
  · cases hwhy

/-- A value that was given stays until the receiver goes on. -/
theorem delivered?_of_evolves {c : ChanId} {st st' : Status V} (he : Evolves st st') {v : V}
    (h : st.delivered? c = some v) : st'.delivered? c = some v := by
  rcases he with rfl | ⟨src, why, rfl, -⟩
  · exact h
  · cases h

/-- What a move does to `delivered`. -/
theorem ChanMove.delivered {c : ChanId} {i : TaskId} {m m' : ChanInner V} {es : List (Event V)}
    (hm : ChanMove c i m m' es) :
    (∃ d r, es = [.sent c i d (.delivered r)] ∧ m'.delivered = m.delivered.insert r d) ∨
    ((∀ e ∈ es, e.delivers c = false) ∧
      (m'.delivered = m.delivered ∨ m'.delivered = m.delivered.erase i)) := by
  cases hm with
  | deliver => exact .inl ⟨_, _, rfl, rfl⟩
  | collect => exact .inr ⟨by simp [Event.delivers], .inr rfl⟩
  | @close es hcl hes =>
    refine .inr ⟨fun e he => ?_, .inl rfl⟩
    rcases List.mem_cons.mp he with rfl | he
    · rfl
    · rw [hes e he]; rfl
  | _ => exact .inr ⟨by simp [Event.delivers], .inl rfl⟩

/-- `delivered` holds the values given to the parked receivers. -/
def Shared.Delivers (sh : Shared σ V) : Prop :=
  ∀ (c : ChanId) (m : Chan V), sh.chans[c]? = some m →
    ∀ i, m.val.delivered.lookup i = (sh.status i).delivered? c

section Steps

variable {P : Program σ V} {ch : Choice} {free : Bool} {sh sh' : Shared σ V} {t : Task σ V}
  {e : Effect σ V}

/-- A step without deliveries, during which no receiver goes on. -/
theorem delivered_same {c : ChanId} {es : List (Event V)} (hl : sh'.log = sh.log ++ es)
    (hes : ∀ e ∈ es, e.delivers c = false)
    (hkeep : ∀ i v, (sh.status i).delivered? c = some v → (sh'.status i).delivered? c = some v)
    (i : TaskId) : (sh'.status i).delivered? c = (sh.status i).delivered? c := by
  refine Option.ext fun v => ⟨fun h => ?_, hkeep i v⟩
  rw [Shared.status, hl, statusOf_append] at h
  exact delivered?_of_foldl hes h

/-- A receiver that is queued, or was taken out of the queue, is in `gopark` or about to call
    it. -/
theorem Code.recv_of_source? {c : ChanId} {code : Code σ V} {st : Status V} (hag : code.agrees st)
    (h : st.source? = some (.recvq c)) :
    ∃ k hd, code = .park (.recv c k hd) ∨ code = .parked (.recv c k hd) := by
  obtain ⟨p, hp, hw⟩ := Code.park_of_source? hag h rfl
  cases p with
  | recv c' k hd => cases hw; exact ⟨k, hd, hp⟩
  | _ => cases hw

/-- The section after `gopark` in `recv`: the receiver collects its value. -/
private theorem delivers_collect {c : ChanId} {m : Chan V} {k : Option V → σ} (h : sh.Delivers)
    (hm : sh.chans[c]? = some m)
    (hsrc : ∀ c', c' ≠ c → (sh.status t.id).delivered? c' = none)
    (he : e = t.continue ((sh.setChan c { m with
        val := { m.val with delivered := m.val.delivered.erase t.id } }).record
      [.returned t.id (.recv c (m.val.delivered.lookup t.id))])
      (.user (k (m.val.delivered.lookup t.id)))) : e.sh.Delivers := by
  subst he
  intro c' m' hm' i
  have hst := status_append_one (show ((sh.setChan c { m with
      val := { m.val with delivered := m.val.delivered.erase t.id } }).record
    [.returned t.id (.recv c (m.val.delivered.lookup t.id))]).log = sh.log ++ [_] from rfl) i
  simp only [continue_sh] at hm' ⊢
  rw [hst]
  simp only [Event.update]
  by_cases hc : c' = c
  · subst hc
    have hlt := (List.getElem?_eq_some_iff.mp hm).1
    simp only [Shared.record, Shared.setChan, List.getElem?_set_self hlt, Option.some.injEq] at hm'
    subst hm'
    -- the entry of the receiver is gone, and so is its release
    rw [Slots.lookup_erase_ite]
    by_cases hi : i = t.id
    · rw [if_pos hi, if_pos hi.symm]
      rfl
    · rw [if_neg hi, if_neg (Ne.symm hi)]
      exact h c' m hm i
  · rw [Shared.record, Shared.setChan, List.getElem?_set_ne (Ne.symm hc)] at hm'
    rw [h c' m' hm' i]
    by_cases hi : t.id = i
    · subst hi
      rw [if_pos rfl]
      exact hsrc c' hc
    · rw [if_neg hi]

/-- **A step of a task keeps `delivered`.** -/
theorem TaskStep.delivers (hs : TaskStep P ch free sh t e) (h : sh.Delivers)
    (hp : sh.Unpoisoned) (hag : t.code.agrees (sh.status t.id))
    (hev : ∀ i, t.id ≠ i → Evolves (sh.status i) (e.sh.status i)) : e.sh.Delivers := by
  by_cases hown : ∀ c, (sh.status t.id).delivered? c = none
  · -- no release of a value is lost: the task has none, and another's stays with it
    have hkeep : ∀ c i v, (sh.status i).delivered? c = some v →
        (e.sh.status i).delivered? c = some v := by
      intro c i v hv
      by_cases hi : t.id = i
      · subst hi
        rw [hown c] at hv
        cases hv
      · exact delivered?_of_evolves (hev i hi) hv
    intro c m' hm' i
    have hlt : c < sh.chans.length := by
      rw [← hs.length_chans]
      exact (List.getElem?_eq_some_iff.mp hm').1
    obtain ⟨m₁, hm₁, heff⟩ := hs.chan (List.getElem?_eq_getElem hlt)
    have hold := h c _ (List.getElem?_eq_getElem hlt)
    rw [hm'] at hm₁
    cases hm₁
    cases heff with
    | same hv hl =>
      obtain ⟨es, hl, hes⟩ := hl
      rw [hv, hold, delivered_same hl (fun x hx => ?_) (hkeep c)]
      exact delivers_of_chan? (hes x hx)
    | move _ hm hl =>
      -- a move writes one entry, erases one, or leaves the map alone
      rcases hm.delivered with ⟨d, r, rfl, hd⟩ | ⟨hes, hd⟩
      · rw [hd, Slots.lookup_insert_ite, status_append_one hl]
        simp only [Event.update]
        by_cases hi : i = r
        · rw [if_pos hi, if_pos hi.symm]
          exact (if_pos rfl).symm
        · rw [if_neg hi, if_neg (Ne.symm hi)]
          exact hold i
      · rw [delivered_same hl hes (hkeep c), ← hold]
        rcases hd with hd | hd
        · rw [hd]
        · rw [hd, Slots.lookup_erase_ite]
          split
          · subst i
            rw [hold, hown c]
          · rfl
  · -- the task has been handed a value, so it is at the end of `recv`
    obtain ⟨c, hc⟩ := not_forall.mp hown
    obtain ⟨v, hv⟩ := Option.ne_none_iff_exists'.mp hc
    obtain ⟨k, hd, hc | hc⟩ := Code.recv_of_source? (c := c) hag
      (by rw [delivered?_eq_some.mp hv]; rfl)
    · rw [hs.of_park hc]
      exact h
    · cases hs.of_parked hc with
      | recvPoisoned hm hpo =>
        rw [hp _ (List.mem_of_getElem? hm)] at hpo
        cases hpo
      | recv hm =>
        refine delivers_collect h hm (fun c' hne => ?_) rfl
        rw [delivered?_eq_some] at hv
        rw [hv]
        exact if_neg (Ne.symm hne)

end Steps

/-- **`delivered` holds exactly the values that parked receivers have not collected yet**, as long
    as the polls are fresh. -/
theorem reach_delivers {P : Program σ V} (hP : P.Structured) (hU : P.Uncaught) {s : State σ V}
    (hr : (runtime P).Reach FreshPolls s) : s.sh.Delivers := by
  refine hr.invariant (I := fun s => s.sh.Delivers) ?_ ?_
  · rintro s ⟨caps, groups, calls, rfl⟩ c m hm i
    simp only [State.initial, List.getElem?_map, Option.map_eq_some_iff] at hm
    obtain ⟨cap, -, rfl⟩ := hm
    rfl
  · intro s s' a hr h hok hn
    have hd := reach_disciplined hP (fun _ _ h => h) hr
    obtain ⟨ha, hn⟩ := next_inv hn
    rcases hn.cases with ⟨w, ch, pc, e, rfl, hw, hs, hmove⟩ | ⟨ho, -⟩
    · have hwake := (hd.wakes (reach_shaped hr) (reach_placed hr) hw hP hs
        (fun c m hm => reach_chanInv hr hm) (hok w ch pc rfl hw) ha).1
      rw [hmove.sh]
      rcases hs.task_or with ⟨t, rfl, htask⟩ | hpc
      · refine htask.delivers h (reach_unpoisoned hU hr ha)
          (hd.agrees_of_run (reach_shaped hr) hw ha rfl) fun i hi => hwake.evolves ?_
        rintro u hu
        cases hu
        exact hi
      · -- a worker that runs no task leaves the channels alone
        have hsame := hs.sameChans hpc
        obtain ⟨es, hl, hes⟩ := hsame.log
        intro c m hm i
        rw [hsame.chans] at hm
        rw [h c m hm i, delivered_same hl fun e he =>
        delivers_of_chan? (by simp [chan?_of_ofWorker (hes e he)])]
        exact fun i v hv => delivered?_of_evolves (hwake.evolves fun t ht => absurd ht (hpc t)) hv
    · cases ho with
      | go hsh => rw [hsh]; exact h
      | @push id f hsh =>
        intro c m hm i
        have hst : s'.sh.status i = s.sh.status i :=
          status_of_neutral [.created id] (show s'.sh.log = s.sh.log ++ _ by rw [hsh]; rfl)
            (by simp [Event.neutral, Event.update]) i
        rw [hst]
        exact h c m (by rw [hsh] at hm; exact hm) i
      | same hsh =>
        intro c m hm i
        rw [status_of_log hsh.log]
        exact h c m (hsh.chans ▸ hm) i

/-- A basic program has fresh polls only. -/
theorem reach_delivered {P : Program σ V} (hP : P.Basic) (hU : P.Uncaught)
    {ok : Act → State σ V → Prop} {s : State σ V} (hr : (runtime P).Reach ok s) :
    s.sh.Delivers :=
  reach_delivers hP.structured hU (reach_freshPolls hP hr)

/-- **A channel is a bounded queue.**  In every state reached by a program that uses `go`,
    `gosched`, `sleep` and channels, and for every channel: the values accepted are, in order,
    those taken for a receiver, those in `buf` and those in the `sendq`, or those that `close`
    has drained from it; the receivers that have parked are, in order, those served, those in
    the `recvq`, and those that `close` has dismissed; `delivered` holds exactly the values
    that were sent to a parked receiver which has not gone on since; and a receiver that goes
    on collects its own. -/
theorem chan_bounded_fifo {P : Program σ V} (hP : P.Basic) (hU : P.Uncaught) {s : State σ V}
    (hr : (runtime P).Reachable s) {c : ChanId} {m : Chan V} (hm : s.sh.chans[c]? = some m) :
    (m.val.closed = false → matched c s.sh.log ++ m.val.buf ++ m.val.sendq.map (·.data)
      = committed c s.sh.log) ∧
    (m.val.closed = true → matched c s.sh.log ++ m.val.buf ++ drained c s.sh.log
      = committed c s.sh.log) ∧
    m.val.buf.length ≤ m.val.bufCap ∧
    served c s.sh.log ++ m.val.recvq ++ dismissed c s.sh.log = entered c s.sh.log ∧
    (∀ i v, m.val.delivered.lookup i = some v ↔
      ∃ t, TakenOut i (.recvq c) (.delivered v) (.sent c t v (.delivered i)) s.sh.log) ∧
    (∀ (w : Nat) ch (t : Task σ V) k h s', s.workers[w]? = some (.run t) →
      t.code = .parked (.recv c k h) → (runtime P).next (.worker w ch) s = some s' →
      s'.sh.log = s.sh.log ++ [.returned t.id (.recv c (m.val.delivered.lookup t.id))] ∧
      s'.workers[w]? = some (.run (t.goto (.user (k (m.val.delivered.lookup t.id)))))) := by
  have hfifo := reach_fifo hr hm
  have hinv := reach_chanInv hr hm
  refine ⟨fun hcl => ?_, fun hcl => ?_, hinv.fits, hfifo.receivers, fun i v => ?_, ?_⟩
  · have := hfifo.values
    rwa [(hfifo.open_ hcl).1, List.append_nil] at this
  · have := hfifo.values
    rwa [(hinv.queues_nil_of_closed hcl).2, List.map_nil, List.append_nil] at this
  · rw [reach_delivered hP hU hr c m hm i, delivered?_eq_some]
    constructor
    · intro hst
      -- the event that has released the receiver is the `send` that delivered
      have hlaw := reach_lawful hP.structured (fun _ _ h => h) (reach_freshPolls hP hr)
      obtain ⟨e, he⟩ := released_by hlaw hst
      obtain ⟨before, after, hlog, hrel, hq⟩ := he
      cases e with
      | sent c' t d o =>
        cases o <;> first | exact hrel.elim | skip
        obtain ⟨rfl, hc, hd⟩ := hrel
        cases hc
        cases hd
        exact ⟨t, before, after, hlog, ⟨rfl, rfl, rfl⟩, hq⟩
      | received c' t o => cases o <;> first | exact hrel.elim | cases hrel.2.2
      | closed => cases hrel.1
      | timerPop | added | reported => cases hrel.2.2
      | _ => exact hrel.elim
    · rintro ⟨t, ht⟩
      exact ht.status
  · intro w ch t k h s' hw hc hn
    obtain ⟨ha, e, hs, hmove⟩ := next_worker hn hw
    cases hs with
    | run hs =>
      cases hs.of_parked hc with
      | recvPoisoned hm' hp =>
        rw [reach_unpoisoned hU hr ha _ (List.mem_of_getElem? hm')] at hp
        cases hp
      | recv hm' =>
        rw [hm] at hm'
        cases hm'
        exact ⟨by rw [hmove.sh]; rfl, hmove.at_ (by simp)⟩

/-- A receiver that parks, and a sender that delivers to it. -/
def deliveryProgram : Program Nat Nat where
  code
    | 0 => .recv 0 (fun _ => 2) none
    | 1 => .send 0 7 2 none
    | _ => .done
  variant := .channel
  overflowChecks := true
  own x := by split <;> rfl

/-- The parked receiver's value waits in `delivered`, due to the one `send`. -/
theorem chan_bounded_fifo_delivery :
    ∃ s m, (runtime deliveryProgram).run
        (List.replicate 7 (.main {}) ++ List.replicate 9 (.worker 0 {}))
        (State.initial [0] 0 [.go 0, .go 1, .startRuntime 1]) = some s ∧
      s.sh.chans[0]? = some m ∧ m.val.delivered.lookup 0 = some 7 ∧
      ∃ t, TakenOut 0 (.recvq 0) (.delivered 7) (.sent 0 t 7 (.delivered 0)) s.sh.log := by
  have h : ((runtime deliveryProgram).run
      (List.replicate 7 (Act.main {}) ++ List.replicate 9 (Act.worker 0 {}))
      (State.initial [0] 0 [.go 0, .go 1, .startRuntime 1])).map
        (fun s => (s.sh.chans[0]?).map fun m => m.val.delivered.lookup 0)
      = some (some (some 7)) := by rfl
  obtain ⟨s, hs, hm⟩ := Option.map_eq_some_iff.mp h
  obtain ⟨m, hm, hl⟩ := Option.map_eq_some_iff.mp hm
  have hr := System.run_reachable (M := runtime deliveryProgram) ⟨[0], 0, _, rfl⟩ hs
  have hP : deliveryProgram.Basic := by
    intro x
    rcases x with _ | _ | x <;> rfl
  have hU : deliveryProgram.Uncaught := by
    intro x
    rcases x with _ | _ | x <;> rfl
  exact ⟨s, m, hs, hm, hl, ((chan_bounded_fifo hP hU hr hm).2.2.2.2.1 0 7).mp hl⟩

end MyGoroutine
