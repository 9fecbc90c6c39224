import MyGoroutine.Refine.Stand

namespace MyGoroutine

/-!
# The step of a task, seen from the network

Each step of a task is no step of the network, one step of the task's own process, or one that
completes the operation of a parked task as well.

* `TaskStep.keeps` — what a step leaves of the other tasks' entries;
* `Shared.Counts`, `TaskStep.counts` — no counter is negative, until the process aborts;
* `Shared.Reflects` — what the shared state and the network have in common;
* `Simulated` — the network follows the step of a task;
* `TaskStep.simulated` — it always can, unless the process aborts.
-/

open Network (Cmd Proc Config network)

variable {σ V : Type}

/-! ### The entries of the other tasks

Whether a parked task has passed its operation in the network is seen from its entry. A step that
leaves the entries of the other tasks alone leaves their places in the network alone.
-/

section Keeps

variable {c : ChanId} {t i : TaskId} {m m' : ChanInner V} {es : List (Event V)}

/-- A channel that is closed stays closed, and once it is empty, it stays empty. -/
theorem ChanMove.keeps_spent (hinv : m.Inv) (hm : ChanMove c t m m' es) (hcl : m.closed = true) :
    m'.closed = true ∧ (m.buf = [] → m'.buf = []) := by
  obtain ⟨-, hs⟩ := hinv.queues_nil_of_closed hcl
  cases hm with
  | deliver hop | push hop | enqueueSend hop | enqueueRecv hop | close hop =>
    rw [hop] at hcl
    cases hcl
  | take hq | refill hq | unwrap hq => rw [hs] at hq; cases hq
  | pop hq hb =>
    refine ⟨hcl, fun hnil => ?_⟩
    rw [hnil] at hb
    cases hb
  | exhausted | collect => exact ⟨hcl, id⟩

/-- A waiting sender stays in the `sendq`, or is taken out of it. -/
theorem ChanMove.keeps_sender (hinv : m.Inv) (hm : ChanMove c t m m' es) (hi : i ≠ t) {d : V}
    (hmem : ⟨i, d⟩ ∈ m.sendq) :
    ⟨i, d⟩ ∈ m'.sendq ∨ ∀ st, ∃ src why, es.foldl (Event.update i) st = .released src why := by
  cases hm with
  | deliver | push | pop | exhausted | enqueueRecv | collect => exact .inl hmem
  | enqueueSend => exact .inl (List.mem_append_left _ hmem)
  | take hq | refill hq =>
    rw [hq] at hmem
    rcases List.mem_cons.mp hmem with rfl | hmem
    · exact .inr fun st => ⟨_, _, if_pos rfl⟩
    · exact .inl hmem
  | unwrap hq hcap hb => exact absurd hb (hinv.buf_ne_nil (by rw [hq]; simp) hcap)
  | @close es hcl hes =>
    -- the events after that of `close` are about the task that closes
    have hrest : ∀ st, es.foldl (Event.update i) st = st := by
      intro st
      induction es with
      | nil => rfl
      | cons e es ih =>
        rw [List.foldl_cons, hes e (by simp)]
        simp only [Event.update, if_neg (Ne.symm hi)]
        exact ih fun e he => hes e (List.mem_cons_of_mem _ he)
    refine .inr fun st => ?_
    rw [List.foldl_cons, hrest]
    simp only [Event.update]
    split
    · exact ⟨_, _, rfl⟩
    · exact ⟨_, _, if_pos (List.mem_map.mpr ⟨_, hmem, rfl⟩)⟩

variable {P : Program σ V} {ch : Choice} {free : Bool} {sh sh' : Shared σ V} {e : Effect σ V}

/-- **What a step of a task leaves** of the entries of another one. -/
theorem TaskStep.keeps {t : Task σ V} (hs : TaskStep P ch free sh t e)
    (hinv : ∀ (c : ChanId) (m : Chan V), sh.chans[c]? = some m → m.val.Inv) (hi : i ≠ t.id) :
    sh.Keeps e.sh i := by
  intro c m hm
  obtain ⟨m', hm', heff⟩ := hs.chan hm
  refine ⟨m', hm', ?_⟩
  cases heff with
  | same hv =>
    rw [hv]
    exact ⟨fun hcl => ⟨hcl, id⟩, fun d hmem _ => hmem⟩
  | @move es _ hmove hl =>
    refine ⟨hmove.keeps_spent (hinv c m hm), fun d hmem hq => ?_⟩
    rcases hmove.keeps_sender (hinv c m hm) hi hmem with hmem | hrel
    · exact hmem
    · obtain ⟨src, why, hst⟩ := hrel (sh.status i)
      rw [Shared.status, hl, statusOf_append] at hq
      rw [show statusOf i sh.log = sh.status i from rfl, hst] at hq
      cases hq

/-- A step that leaves the channels alone leaves all entries. -/
theorem Shared.SameChans.keeps (h : sh.SameChans sh') (i : TaskId) : sh.Keeps sh' i := by
  intro c m hm
  exact ⟨m, by rw [h.chans]; exact hm, fun hcl => ⟨hcl, id⟩, fun d hmem _ => hmem⟩

end Keeps

/-! ### The counters

The network counts with integers and has no range. The counter of the code agrees with it as long as
no `add` has wrapped, and one that would wrap panics: with overflow checks at once, and without them
because the sum is then negative.
-/

/-- No wait group is poisoned, and no counter is negative. -/
def Shared.Counts (sh : Shared σ V) : Prop :=
  ∀ (g : GroupId) (m : WaitGroup), sh.groups[g]? = some m →
    m.poisoned = false ∧ 0 ≤ m.val.counter.toInt

/-- An `add` that does not panic leaves the exact sum, and has collected the waiters at zero. -/
theorem WaitGroupInner.add_exact {m inner : WaitGroupInner} {overflowChecks : Bool} {d : Int32}
    {woken : List TaskId} (h0 : 0 ≤ m.counter.toInt)
    (hadd : m.add overflowChecks d = (inner, .ok woken)) :
    inner.counter.toInt = m.counter.toInt + d.toInt ∧ 0 ≤ inner.counter.toInt ∧
      (woken = [] ∨ inner.counter.toInt = 0 ∧ woken = m.waiters) := by
  have hspec := add_spec overflowChecks d h0
  split at hspec
  · next hfit =>
    obtain ⟨m', woken', hadd', hsum⟩ := hspec
    rw [hadd] at hadd'
    cases hadd'
    refine ⟨hsum, hsum ▸ hfit.1, ?_⟩
    by_cases hz : inner.counter = 0
    · exact .inr ⟨by rw [hz]; rfl, ((WaitGroupInner.add_ok hadd).1 hz).1⟩
    · exact .inl ((WaitGroupInner.add_ok hadd).2 hz).1
  · obtain ⟨m', p, hadd'⟩ := hspec
    rw [hadd] at hadd'
    cases hadd'

section Counts

variable {P : Program σ V} {ch : Choice} {free : Bool} {sh sh' : Shared σ V} {t : Task σ V}
  {e : Effect σ V}

/-- Replacing one wait group. -/
theorem Shared.Counts.set {g : GroupId} {m : WaitGroup} (h : sh.Counts)
    (hg : sh'.groups = sh.groups.set g m) (hm : m.poisoned = false ∧ 0 ≤ m.val.counter.toInt) :
    sh'.Counts := by
  intro g' m' hm'
  rw [hg, List.getElem?_set] at hm'
  split at hm'
  · split at hm'
    · cases hm'
      exact hm
    · cases hm'
  · exact h g' m' hm'

/-- A step of a task leaves no counter negative, or aborts the process. -/
theorem TaskStep.counts (hB : P.Bare) (hs : TaskStep P ch free sh t e) (h : sh.Counts)
    (ha : e.sh.aborted = none) : e.sh.Counts := by
  have hbare : ∀ {x op}, P.code x = op → op.bare = true := fun {x op} hx => hx ▸ hB x
  cases hs with
  | @groupPanic x g k hd m m' p hc hx =>
    -- the counter that the panic leaves behind may be negative
    have hnone : hd = none := by
      rcases hx with ⟨d, hx⟩ | hx <;> exact Option.isNone_iff_eq_none.mp (hbare hx)
    rw [raise_sh, hnone] at ha
    cases ha
  | add hc hx hm hp hadd =>
    rw [finish_sh]
    obtain ⟨hpois, h0⟩ := h _ _ hm
    exact h.set rfl ⟨hpois, (WaitGroupInner.add_exact h0 hadd).2.1⟩
  | waitJoin hc hx hm =>
    have h0 := h _ _ hm
    exact h.set rfl h0
  | chanPoisoned | chanClosed | recvUnwrap | sleepOverflow | netFail =>
    rw [raise_sh]
    exact h
  | close =>
    rw [finish_sh]
    exact h
  | goready | wakeMore | wakeLast =>
    intro g m hm
    exact h g m (goready_groups sh _ _ ▸ hm)
  | _ => exact h

end Counts

/-! ### Following a step

Most steps are none of the network's: they are on the way to a park, or back from one. A section
that completes its own operation is a step of one process; one that takes a waiter completes two
operations, as a meeting of two processes or by a step of each. The lemmas follow the groups of
steps.
-/

/-- What the shared state and the network have in common. -/
structure Shared.Reflects (sh : Shared σ V) (a : Config σ ChanId V) : Prop where
  chan : a.chan = sh.view
  counter : a.counter = sh.tally
  next : a.next = sh.nextTaskId
  unborn : ∀ i, sh.nextTaskId ≤ i → a.proc i = .unborn
  senders : ∀ {c : ChanId} {m : Chan V} {w}, sh.chans[c]? = some m → w ∈ m.val.sendq →
    ∃ k, a.proc w.taskId = .live (.send c w.data k)
  receivers : ∀ {c : ChanId} {m : Chan V} {r}, sh.chans[c]? = some m → r ∈ m.val.recvq →
    ∃ k, a.proc r = .live (.recv c k)
  waiters : ∀ {g : GroupId} {m : WaitGroup} {i}, sh.groups[g]? = some m → i ∈ m.val.waiters →
    ∃ k, a.proc i = .live (.wait g k)

/-- The network has come to `a'` when the task `t` has taken the step `e`. -/
structure Simulated (P : Program σ V) (sh : Shared σ V) (t : Task σ V) (e : Effect σ V)
    (a a' : Config σ ChanId V) : Prop where
  /-- The network has the channels, -/
  chan : a'.chan = e.sh.view
  /-- the counters -/
  counter : a'.counter = e.sh.tally
  /-- and the ids of the program after the step. -/
  next : a'.next = e.sh.nextTaskId
  /-- Nothing is started from outside. -/
  pending : a'.pending = a.pending
  /-- The task that took the step stands where its code says, -/
  own : ∀ u, e.pc.task? = some u → u.state ≠ .dead → u.code.Stands P e.sh a'.proc t.id
  /-- and the others moved as the step moved them. -/
  others : ∀ i, i ≠ t.id → i < sh.nextTaskId → Moved P sh e.sh (a.proc i) (a'.proc i) i
  /-- Tasks without an id are not there. -/
  unborn : ∀ i, e.sh.nextTaskId ≤ i → a'.proc i = .unborn
  /-- A task that died in the step has halted. -/
  died : ∀ i, .died i ∈ e.sh.log → .died i ∈ sh.log ∨ i = t.id ∧ a'.proc i = .halted

section Follow

variable {P : Program σ V} {ch : Choice} {free : Bool} {sh sh' : Shared σ V} {t : Task σ V}
  {e : Effect σ V} {caps : ChanId → Option Nat} {ns : GroupId → Option Int} {fs : List σ}
  {a : Config σ ChanId V}

/-- The channel that a section has replaced. -/
theorem chan_of_set {c : ChanId} {m m' : Chan V} {es : List (Event V)}
    (hm : sh.chans[c]? = some m) : ((sh.setChan c m').record es).chans[c]? = some m' :=
  List.getElem?_set_self (List.getElem?_eq_some_iff.mp hm).1

/-- Events that release nobody leave the statuses of the others alone. -/
theorem status_of_inert {es : List (Event V)} {i : TaskId} (hl : sh'.log = sh.log ++ es)
    (hes : ∀ ev ∈ es, ev.inert = true) (hev : Evolves (sh.status i) (sh'.status i)) :
    sh'.status i = sh.status i := by
  rcases hev with hst | ⟨src, why, hq, hr⟩
  · exact hst
  · have hr' := hr
    rw [Shared.status, hl, statusOf_append] at hr'
    obtain ⟨ev, hmem, hrel⟩ := releases_of_foldl hr' (by
      rw [show statusOf i sh.log = .queued src from hq]
      simp)
    have := hes ev hmem
    cases ev with
    | sent c t d o | received c t o => cases o <;> first | exact hrel.elim | cases this
    | _ => first | exact hrel.elim | cases this

/-- The network takes no step, or steps of the task's own process. -/
private theorem simulated_own {p : Proc σ ChanId V} (ls : List Network.Label)
    (es : List (Event V)) (ha : sh.Reflects a) (hlt : t.id < sh.nextTaskId)
    (hev : ∀ i, i ≠ t.id → Evolves (sh.status i) (e.sh.status i))
    (hrun : (network P.cmd caps ns fs).run ls a
      = some { a with proc := Function.update a.proc t.id p, chan := e.sh.view })
    (htally : e.sh.tally = sh.tally) (hn : e.sh.nextTaskId = sh.nextTaskId)
    (hl : e.sh.log = sh.log ++ es) (hes : ∀ ev ∈ es, ev.inert = true)
    (hdied : ∀ i, .died i ∈ es → i = t.id ∧ p = .halted)
    (hown : ∀ u, e.pc.task? = some u → u.state ≠ .dead →
      u.code.Stands P e.sh (Function.update a.proc t.id p) t.id) :
    ∃ ls a', (network P.cmd caps ns fs).run ls a = some a' ∧ Simulated P sh t e a a' := by
  refine ⟨ls, _, hrun, rfl, ha.counter.trans htally.symm, ha.next.trans hn.symm, rfl, hown,
    fun i hi _ => ?_, fun i hi => ?_, fun i hi => ?_⟩
  · exact .same (Function.update_of_ne hi _ _) (status_of_inert hl hes (hev i hi))
  · have hne : i ≠ t.id := (hlt.trans_le (hn ▸ hi)).ne'
    exact (Function.update_of_ne hne _ _).trans (ha.unborn i (hn ▸ hi))
  · rw [hl] at hi
    refine (List.mem_append.mp hi).imp_right fun hi => ?_
    obtain ⟨rfl, rfl⟩ := hdied i hi
    exact ⟨rfl, Function.update_self _ _ _⟩

/-- The network takes no step. -/
private theorem simulated_none {code : Code σ V} (es : List (Event V)) (ha : sh.Reflects a)
    (hlt : t.id < sh.nextTaskId) (hev : ∀ i, i ≠ t.id → Evolves (sh.status i) (sh'.status i))
    (hview : sh'.view = sh.view) (htally : sh'.tally = sh.tally)
    (hn : sh'.nextTaskId = sh.nextTaskId) (hl : sh'.log = sh.log ++ es)
    (hes : ∀ ev ∈ es, ev.inert = true ∧ ∀ i, ev ≠ .died i)
    (hown : code.Stands P sh' a.proc t.id) {n : Notify} {sp : Option Nat} :
    ∃ ls a', (network P.cmd caps ns fs).run ls a = some a' ∧
      Simulated P sh t { sh := sh', pc := .run (t.goto code), notify := n, spawn := sp } a a' := by
  refine simulated_own (p := a.proc t.id) [] es ha hlt hev ?_ htally hn hl
    (fun ev hev => (hes ev hev).1) (fun i hi => absurd rfl ((hes _ hi).2 i)) fun u hu _ => ?_
  · rw [Function.update_eq_self, hview, ← ha.chan]
    rfl
  · cases hu
    rw [Function.update_eq_self]
    exact hown

/-- A step inside the runtime, which leaves the channels and the wait groups alone. -/
private theorem simulated_silent {code : Code σ V} (es : List (Event V)) (ha : sh.Reflects a)
    (hlt : t.id < sh.nextTaskId) (hev : ∀ i, i ≠ t.id → Evolves (sh.status i) (sh'.status i))
    (hc : sh'.chans = sh.chans) (hg : sh'.groups = sh.groups)
    (hn : sh'.nextTaskId = sh.nextTaskId) (hl : sh'.log = sh.log ++ es)
    (hes : ∀ ev ∈ es, (∀ c, ev.matches c = []) ∧ ev.inert = true ∧ ∀ i, ev ≠ .died i)
    (hown : code.Stands P sh' a.proc t.id) {n : Notify} {sp : Option Nat} :
    ∃ ls a', (network P.cmd caps ns fs).run ls a = some a' ∧
      Simulated P sh t { sh := sh', pc := .run (t.goto code), notify := n, spawn := sp } a a' :=
  simulated_none es ha hlt hev (view_same es hc hl fun c ev hev => (hes ev hev).1 c)
    (tally_congr hg) hn hl (fun ev hev => (hes ev hev).2) hown

/-- The task's process takes a step that leaves the channels alone. -/
private theorem simulated_step {p : Proc σ ChanId V} (es : List (Event V))
    (ha : sh.Reflects a) (hlt : t.id < sh.nextTaskId)
    (hev : ∀ i, i ≠ t.id → Evolves (sh.status i) (e.sh.status i))
    (hstep : Network.step P.cmd (.act t.id) a
      = some { a with proc := Function.update a.proc t.id p })
    (hc : e.sh.chans = sh.chans) (htally : e.sh.tally = sh.tally)
    (hn : e.sh.nextTaskId = sh.nextTaskId)
    (hl : e.sh.log = sh.log ++ es)
    (hes : ∀ ev ∈ es, (∀ c, ev.matches c = []) ∧ ev.inert = true ∧
      ∀ i, ev = .died i → i = t.id ∧ p = .halted)
    (hown : ∀ u, e.pc.task? = some u → u.state ≠ .dead →
      u.code.Stands P e.sh (Function.update a.proc t.id p) t.id) :
    ∃ ls a', (network P.cmd caps ns fs).run ls a = some a' ∧ Simulated P sh t e a a' := by
  have hview : e.sh.view = a.chan := by
    rw [view_same es hc hl fun c ev hev => (hes ev hev).1 c, ha.chan]
  refine simulated_own [.act t.id] es ha hlt hev (System.run_one ?_) htally hn hl
    (fun ev hev => (hes ev hev).2.1) (fun i hi => (hes _ hi).2.2 i rfl) hown
  rw [hview]
  exact hstep

/-- The task's process takes a step that is about nothing but the process. -/
private theorem simulated_tick {k : σ} (es : List (Event V)) (ha : sh.Reflects a)
    (hlt : t.id < sh.nextTaskId) (hev : ∀ i, i ≠ t.id → Evolves (sh.status i) (e.sh.status i))
    (hp : a.proc t.id = .live (.step k)) (hc : e.sh.chans = sh.chans)
    (hg : e.sh.groups = sh.groups) (hn : e.sh.nextTaskId = sh.nextTaskId)
    (hl : e.sh.log = sh.log ++ es)
    (hes : ∀ ev ∈ es, (∀ c, ev.matches c = []) ∧ ev.inert = true ∧ ∀ i, ev ≠ .died i)
    (hown : ∀ u, e.pc.task? = some u → u.code = .user k) :
    ∃ ls a', (network P.cmd caps ns fs).run ls a = some a' ∧ Simulated P sh t e a a' := by
  refine simulated_step es ha hlt hev (Network.step_act hp rfl) hc (tally_congr hg) hn hl
    (fun ev hev => ?_) fun u hu _ => ?_
  · obtain ⟨h1, h2, h3⟩ := hes ev hev
    exact ⟨h1, h2, fun i hi => absurd hi (h3 i)⟩
  · rw [hown u hu]
    exact .user (Function.update_self _ _ _)

/-- The task's process takes a step that changes the channel `c`. -/
private theorem simulated_chan {x : Cmd σ ChanId V} {p : Proc σ ChanId V} {c : ChanId}
    {m m' : Chan V} (es : List (Event V)) (ha : sh.Reflects a) (hlt : t.id < sh.nextTaskId)
    (hev : ∀ i, i ≠ t.id → Evolves (sh.status i) (e.sh.status i))
    (hp : a.proc t.id = .live x) (hm : sh.chans[c]? = some m)
    (hx : ∀ chan, chan c = some (m.val.view (matched c sh.log)) → x.effect P.cmd t.id chan
      = some (p, Function.update chan c (some (m'.val.view (matched c sh.log ++ matched c es)))))
    (hc : e.sh.chans = sh.chans.set c m') (htally : e.sh.tally = sh.tally)
    (hn : e.sh.nextTaskId = sh.nextTaskId) (hl : e.sh.log = sh.log ++ es)
    (hes : ∀ ev ∈ es, (∀ c', c' ≠ c → ev.matches c' = []) ∧ ev.inert = true ∧ ∀ i, ev ≠ .died i)
    (hown : ∀ u, e.pc.task? = some u → u.state ≠ .dead →
      u.code.Stands P e.sh (Function.update a.proc t.id p) t.id) :
    ∃ ls a', (network P.cmd caps ns fs).run ls a = some a' ∧ Simulated P sh t e a a' := by
  have hview := view_set es hm hc hl fun c' hne ev hev => (hes ev hev).1 c' hne
  refine simulated_own [.act t.id] es ha hlt hev (System.run_one ?_) htally hn hl
    (fun ev hev => (hes ev hev).2.1) (fun i hi => absurd rfl ((hes _ hi).2.2 i)) hown
  rw [hview, ← ha.chan]
  exact Network.step_act hp (hx _ (by rw [ha.chan, view_eq hm]))

/-- A process that exists has a number that was given out. -/
theorem Shared.Reflects.lt_of_live (ha : sh.Reflects a) {i : TaskId} {x : Cmd σ ChanId V}
    (h : a.proc i = .live x) : i < sh.nextTaskId := by
  by_contra hi
  rw [ha.unborn i (Nat.le_of_not_lt hi)] at h
  cases h

/-- The network takes steps of the task's own process and of the process `r`, whose operation is
    completed. -/
private theorem simulated_pair {r : TaskId} {y : Cmd σ ChanId V} {p q : Proc σ ChanId V}
    {ls : List Network.Label} (es : List (Event V)) (ha : sh.Reflects a) (hlt : t.id < sh.nextTaskId)
    (hr : r ≠ t.id) (hy : a.proc r = .live y)
    (hrun : (network P.cmd caps ns fs).run ls a = some { a with
      proc := Function.update (Function.update a.proc t.id p) r q, chan := e.sh.view })
    (hst : ∀ i, i ≠ r → e.sh.status i = sh.status i) (hmoved : Moved P sh e.sh (a.proc r) q r)
    (htally : e.sh.tally = sh.tally) (hn : e.sh.nextTaskId = sh.nextTaskId)
    (hl : e.sh.log = sh.log ++ es) (hdied : ∀ i, .died i ∉ es)
    (hown : ∀ proc, proc t.id = p → ∀ u, e.pc.task? = some u → u.code.Stands P e.sh proc t.id) :
    ∃ ls a', (network P.cmd caps ns fs).run ls a = some a' ∧ Simulated P sh t e a a' := by
  have hown' := hown (Function.update (Function.update a.proc t.id p) r q)
    (by rw [Function.update_of_ne (Ne.symm hr), Function.update_self])
  refine ⟨ls, _, hrun, rfl, ha.counter.trans htally.symm, ha.next.trans hn.symm, rfl,
    fun u hu _ => hown' u hu, fun i hi _ => ?_, fun i hi => ?_, fun i hi => ?_⟩
  · by_cases hir : i = r
    · subst hir
      simpa using hmoved
    · exact .same (by simp [hir, hi]) (hst i hir)
  · rw [hn] at hi
    have h1 : i ≠ t.id := (hlt.trans_le hi).ne'
    have h2 : i ≠ r := ((ha.lt_of_live hy).trans_le hi).ne'
    simpa [h1, h2] using ha.unborn i hi
  · rw [hl] at hi
    exact (List.mem_append.mp hi).imp_right fun hi => absurd hi (hdied i)

/-- `goready` is none of the network's business. -/
private theorem goready_inert (sh : Shared σ V) (waker : Waker) (id : TaskId) :
    ∃ es, (sh.goready waker id).1.log = sh.log ++ es ∧ ∀ ev ∈ es, (∀ c, ev.matches c = []) ∧
      ev.inert = true ∧ ∀ i, ev ≠ .died i := by
  unfold Shared.goready
  split <;> exact ⟨_, rfl, by simp [Event.matches, Event.inert]⟩

/-- `goready` gives out no id. -/
private theorem goready_next (sh : Shared σ V) (waker : Waker) (id : TaskId) :
    (sh.goready waker id).1.nextTaskId = sh.nextTaskId := by
  unfold Shared.goready
  split <;> rfl

/-- A value is handed to a parked receiver. -/
private theorem simulated_deliver {c : ChanId} {d : V} {k : σ} {m : Chan V} {r : TaskId}
    {recvq : List TaskId} (ha : sh.Reflects a) (hsrc : sh.Sources) (hinv : m.val.Inv)
    (hp : a.proc t.id = .live (.send c d k)) (hm : sh.chans[c]? = some m)
    (hcl : m.val.closed = false) (hq : m.val.recvq = r :: recvq) :
    ∃ ls a', (network P.cmd caps ns fs).run ls a = some a' ∧ Simulated P sh t
      (t.continue ((sh.setChan c { m with
          val := { m.val with recvq, delivered := m.val.delivered.insert r d } }).record
        [.sent c t.id d (.delivered r)]) (.wake [r] (.send c) k)) a a' := by
  obtain ⟨k', hr⟩ := ha.receivers hm (show r ∈ m.val.recvq by rw [hq]; simp)
  have hne : r ≠ t.id := by
    rintro rfl
    rw [hp] at hr
    cases hr
  obtain ⟨hb, -, -⟩ := hinv.recvq (by rw [hq]; simp)
  have hstr : sh.status r = .queued (.recvq c) :=
    hsrc.queued_of_entries rfl (by rw [entries_recvq hm, hq]; simp)
  obtain ⟨ls, hrun⟩ := Network.run_handOver P.cmd caps ns fs hp hr
    (show a.chan c = some (m.val.view (matched c sh.log)) by rw [ha.chan, view_eq hm]) hcl hb
  have hview : ((sh.setChan c { m with
      val := { m.val with recvq, delivered := m.val.delivered.insert r d } }).record
        [.sent c t.id d (.delivered r)]).view = _ := view_set [.sent c t.id d (.delivered r)] hm rfl rfl
      fun c' hne => by simp [Event.matches, hne.symm]
  refine simulated_pair (p := .live (P.cmd t.id k)) (q := .live (P.cmd r (k' (some d)))) _ ha
    (ha.lt_of_live hp) hne hr (hrun.trans ?_) (fun i hi => ?_)
    (.given (v := d) hstr ?_ fun k hk => ?_) rfl rfl rfl (by simp) fun proc hproc u hu => ?_
  · rw [continue_sh, hview, ← ha.chan]
    simp [Event.matches, ChanInner.view]
  · exact (status_append_one (e := .sent c t.id d (.delivered r)) rfl i).trans
      (if_neg (Ne.symm hi))
  · exact (status_append_one (e := .sent c t.id d (.delivered r)) rfl r).trans (if_pos rfl)
  · rw [hr] at hk
    cases hk
    rfl
  · cases hu
    exact .wake hproc

/-- The value of a parked sender is taken, by hand or into the place that a value has left. -/
private theorem simulated_take {c : ChanId} {d : V} {k : Option V → σ} {m : Chan V}
    {w : SendWaiter V} {sendq : List (SendWaiter V)} {buf : List V} (ha : sh.Reflects a)
    (hsrc : sh.Sources) (hinv : m.val.Inv) (hp : a.proc t.id = .live (.recv c k))
    (hm : sh.chans[c]? = some m) (hq : m.val.sendq = w :: sendq)
    (htake : m.val.bufCap = 0 ∧ d = w.data ∧ buf = [] ∨
      ∃ rest, m.val.buf = d :: rest ∧ buf = rest ++ [w.data]) :
    ∃ ls a', (network P.cmd caps ns fs).run ls a = some a' ∧ Simulated P sh t
      (t.continue ((sh.setChan c { m with val := { m.val with sendq, buf } }).record
        [.received c t.id (.fromSender w d)])
        (.wake [w.taskId] (.recv c (some d)) (k (some d)))) a a' := by
  obtain ⟨k', hw⟩ := ha.senders hm (show w ∈ m.val.sendq by rw [hq]; simp)
  have hne : w.taskId ≠ t.id := by
    intro h
    rw [h, hp] at hw
    cases hw
  have hop := (hinv.sendq (by rw [hq]; simp)).2
  have hstw : sh.status w.taskId = .queued (.sendq c) :=
    hsrc.queued_of_entries rfl (by rw [entries_sendq hm, hq]; simp)
  have hac : a.chan c = some (m.val.view (matched c sh.log)) := by rw [ha.chan, view_eq hm]
  -- the two processes meet, or the receiver goes first
  obtain ⟨ls, hrun⟩ : ∃ ls, (network P.cmd caps ns fs).run ls a = some { a with
      proc := Function.update (Function.update a.proc t.id (.live (P.cmd t.id (k (some d)))))
        w.taskId (.live (P.cmd w.taskId k'))
      chan := Function.update a.chan c
        (some { m.val.view (matched c sh.log ++ [d]) with buf }) } := by
    rcases htake with ⟨hcap, rfl, rfl⟩ | ⟨rest, hb, rfl⟩
    · have hb := hinv.buf_nil hcap
      obtain ⟨ls, hrun⟩ := Network.run_handOver P.cmd caps ns fs hw hp hac
        hop hb
      refine ⟨ls, hrun.trans ?_⟩
      rw [Function.update_comm hne]
      simp [ChanInner.view, hb]
    · exact ⟨_, Network.run_refill P.cmd caps ns fs hw hp hac hop hb hinv.fits⟩
  have hview : ((sh.setChan c { m with val := { m.val with sendq, buf } }).record
      [.received c t.id (.fromSender w d)]).view = _ :=
    view_set [.received c t.id (.fromSender w d)] hm rfl rfl
      fun c' hne => by simp [Event.matches, hne.symm]
  refine simulated_pair (p := .live (P.cmd t.id (k (some d))))
    (q := .live (P.cmd w.taskId k')) _ ha (ha.lt_of_live hp) hne hw (hrun.trans ?_)
    (fun i hi => ?_) (.accepted hstw ?_ fun d' k hk => ?_) rfl rfl rfl (by simp)
    fun proc hproc u hu => ?_
  · rw [continue_sh, hview, ← ha.chan]
    simp [Event.matches, ChanInner.view]
  · exact (status_append_one (e := .received c t.id (.fromSender w d)) rfl i).trans
      (if_neg (Ne.symm hi))
  · exact (status_append_one (e := .received c t.id (.fromSender w d)) rfl w.taskId).trans
      (if_pos rfl)
  · rw [hw] at hk
    cases hk
    rfl
  · cases hu
    exact .wake hproc

/-- The child of a `go` takes the next number. -/
private theorem simulated_fork {f k : σ} (ha : sh.Reflects a)
    (hp : a.proc t.id = .live (.fork f k)) :
    ∃ ls a', (network P.cmd caps ns fs).run ls a = some a' ∧ Simulated P sh t
      (t.continue { sh with nextTaskId := sh.nextTaskId + 1 } (.goPush sh.nextTaskId f k)) a a' := by
  have hlt := ha.lt_of_live hp
  -- the processes other than the task and its child stay
  have hold : ∀ i, i ≠ t.id → i ≠ sh.nextTaskId →
      Function.update (Function.update a.proc a.next (.live (P.cmd a.next f))) t.id
        (.live (P.cmd t.id k)) i = a.proc i := fun i hi hi' => by
    rw [Function.update_of_ne hi, ha.next, Function.update_of_ne hi']
  refine ⟨[.act t.id], _, System.run_one (Network.step_fork hp), ha.chan, ha.counter,
    congrArg (· + 1) ha.next, rfl, fun u hu _ => ?_, fun i hi hi' => .same (hold i hi hi'.ne) rfl,
    fun i hi => ?_, fun i hi => .inl hi⟩
  · cases hu
    refine .goPush (Function.update_self _ _ _) ((Function.update_of_ne hlt.ne' _ _).trans ?_)
    rw [ha.next, Function.update_self]
  · have hi : sh.nextTaskId < i := hi
    exact (hold i (hlt.trans hi).ne' hi.ne').trans (ha.unborn i hi.le)

/-- A call that wakes tasks at its end logs its section, and its return if there is nobody to
    wake. -/
private theorem finish_record (t : Task σ V) (sh : Shared σ V) (ev : Event V)
    (ids : List TaskId) (ret : Ret V) (k : σ) :
    ∃ es, (es = [] ∨ es = [.returned t.id ret]) ∧
      (t.finish (sh.record [ev]) ids ret k).sh = sh.record (ev :: es) := by
  rw [finish_sh, Shared.record_record]
  refine ⟨_, ?_, rfl⟩
  split <;> simp

/-- For the network such a call is over, whoever is still to be woken. -/
private theorem finish_stands {proc : TaskId → Proc σ ChanId V} {i : TaskId} {k : σ}
    (ids : List TaskId) (ret : Ret V) (h : proc i = .live (P.cmd i k)) :
    (finishCode ids ret k).Stands P sh proc i := by
  unfold finishCode
  split
  · exact .user h
  · exact .wake h

/-- `close` leaves the parked tasks where they are, on a closed channel. -/
private theorem simulated_close {c : ChanId} {k : σ} {m : Chan V} (ha : sh.Reflects a)
    (hsrc : sh.Sources) (hinv : m.val.Inv) (hp : a.proc t.id = .live (.close c k))
    (hm : sh.chans[c]? = some m) (hcl : m.val.closed = false) :
    ∃ ls a', (network P.cmd caps ns fs).run ls a = some a' ∧ Simulated P sh t
      (t.finish ((sh.setChan c { m with
          val := { m.val with closed := true, recvq := [], sendq := [] } }).record
        [.closed c t.id m.val.recvq m.val.sendq])
        (m.val.recvq ++ m.val.sendq.map (·.taskId)) (.close c) k) a a' := by
  have hlt := ha.lt_of_live hp
  obtain ⟨es, hes, hsh⟩ := finish_record t (sh.setChan c { m with
      val := { m.val with closed := true, recvq := [], sendq := [] } })
    (.closed c t.id m.val.recvq m.val.sendq) (m.val.recvq ++ m.val.sendq.map (·.taskId))
    (.close c) k
  have hview : ((sh.setChan c { m with
      val := { m.val with closed := true, recvq := [], sendq := [] } }).record
        (.closed c t.id m.val.recvq m.val.sendq :: es)).view = _ := view_set _ hm rfl rfl
      fun c' hne => by rcases hes with rfl | rfl <;> simp [Event.matches]
  have hshut : (m.val.view (matched c sh.log)).shut
      = some { m.val.view (matched c sh.log) with closed := true } := by
    simp [Network.Chan.shut, ChanInner.view, hcl]
  have hrun : Network.step P.cmd (.act t.id) a = _ := Network.step_act hp (Network.effect_close
    (show a.chan c = some (m.val.view (matched c sh.log)) by rw [ha.chan, view_eq hm]) hshut)
  -- the history after the section: whoever was parked is released
  have hst : ∀ i, i ≠ t.id → statusOf i (sh.log ++ .closed c t.id m.val.recvq m.val.sendq :: es)
      = (Event.closed c t.id m.val.recvq m.val.sendq).update i (sh.status i) := fun i hi => by
    rw [statusOf_append, List.foldl_cons]
    rcases hes with rfl | rfl
    · rfl
    · exact if_neg (Ne.symm hi)
  refine ⟨[.act t.id], _, System.run_one hrun, ?_, ?_, ?_, rfl, fun u hu _ => ?_,
    fun i hi hi' => ?_, fun i hi => ?_, fun i hi => ?_⟩
  · rw [hsh, hview, ← ha.chan]
    rcases hes with rfl | rfl <;> simp [Event.matches, ChanInner.view]
  · rw [hsh]
    exact ha.counter
  · rw [hsh]
    exact ha.next
  · rw [finish_pc] at hu
    cases hu
    exact finish_stands _ _ (Function.update_self _ _ _)
  · have hproc := Function.update_of_ne hi (.live (P.cmd t.id k)) a.proc
    rw [hsh]
    by_cases hr : i ∈ m.val.recvq
    · refine .drained (c := c) (.recvq c) (.inl rfl) hproc
        (hsrc.queued_of_entries rfl (by rw [entries_recvq hm]; exact List.count_pos_iff.mpr hr))
        ((hst i hi).trans (if_pos hr)) ⟨_, chan_of_set hm, rfl, fun _ => ?_⟩
      exact (hinv.recvq (List.ne_nil_of_mem hr)).1
    · by_cases hs : i ∈ m.val.sendq.map (·.taskId)
      · exact .drained (c := c) (.sendq c) (.inr rfl) hproc
          (hsrc.queued_of_entries rfl (by rw [entries_sendq hm]; exact List.count_pos_iff.mpr hs))
          ((hst i hi).trans ((if_neg hr).trans (if_pos hs))) ⟨_, chan_of_set hm, rfl, by simp⟩
      · exact .same hproc ((hst i hi).trans ((if_neg hr).trans (if_neg hs)))
  · rw [hsh] at hi
    exact (Function.update_of_ne (hlt.trans_le hi).ne' _ _).trans (ha.unborn i hi)
  · rw [hsh] at hi
    left
    rcases List.mem_append.mp hi with hi | hi
    · exact hi
    · rcases hes with rfl | rfl <;> simp at hi

/-- The waiters of a wait group wait once each. -/
theorem Shared.Sources.nodup_groupWaiters {g : GroupId} {m : WaitGroup} (h : sh.Sources)
    (hm : sh.groups[g]? = some m) : m.val.waiters.Nodup := by
  refine List.nodup_iff_count_le_one.mpr fun i => ?_
  rw [← entries_waiters hm]
  exact h.entries_le_one rfl

/-- `add` moves the counter; at zero the waiters pass. -/
private theorem simulated_add {overflowChecks : Bool} {g : GroupId} {d : Int32} {k : σ}
    {m : WaitGroup} {inner : WaitGroupInner} {woken : List TaskId} (ha : sh.Reflects a)
    (hsrc : sh.Sources) (h0 : 0 ≤ m.val.counter.toInt)
    (hp : a.proc t.id = .live (.add g d.toInt k)) (hm : sh.groups[g]? = some m)
    (hadd : m.val.add overflowChecks d = (inner, .ok woken)) :
    ∃ ls a', (network P.cmd caps ns fs).run ls a = some a' ∧ Simulated P sh t
      (t.finish ((sh.setGroup g { m with val := inner }).record [.added g t.id d woken])
        woken (.add g) k) a a' := by
  have hlt := ha.lt_of_live hp
  obtain ⟨hsum, hnn, hwoken⟩ := WaitGroupInner.add_exact h0 hadd
  have hwait : ∀ i ∈ woken, ∃ k, a.proc i = .live (.wait g k) := fun i hi => by
    rcases hwoken with rfl | ⟨-, rfl⟩
    · cases hi
    · exact ha.waiters hm hi
  have hnot : t.id ∉ woken := fun hi => by
    obtain ⟨k', hk'⟩ := hwait _ hi
    rw [hp] at hk'
    cases hk'
  -- the task's own process changes the counter
  have hn : a.counter g = some m.val.counter.toInt := by rw [ha.counter, tally_eq hm]
  have hstep : Network.step P.cmd (.act t.id) a = _ := Network.step_add hp hn (hsum ▸ hnn)
  rw [← hsum] at hstep
  generalize ha₁ : ({ a with
    proc := Function.update a.proc t.id (.live (P.cmd t.id k))
    counter := Function.update a.counter g (some inner.counter.toInt) } :
      Config σ ChanId V) = a₁ at hstep
  have hproc : ∀ i, i ≠ t.id → a₁.proc i = a.proc i := fun i hi => by
    rw [← ha₁]
    exact Function.update_of_ne hi _ _
  -- and the waiters pass, when there are some
  obtain ⟨a', hrun, hpassed, hrest, hchan, hcounter, hnext, hpending⟩ :
      ∃ a', (network P.cmd caps ns fs).run (woken.map .act) a₁ = some a' ∧
        (∀ j ∈ woken, ∀ k, a₁.proc j = .live (.wait g k) → a'.proc j = .live (P.cmd j k)) ∧
        (∀ j, j ∉ woken → a'.proc j = a₁.proc j) ∧ a'.chan = a₁.chan ∧
        a'.counter = a₁.counter ∧ a'.next = a₁.next ∧ a'.pending = a₁.pending := by
    rcases hwoken with rfl | ⟨hz, rfl⟩
    · exact ⟨a₁, rfl, by simp, fun _ _ => rfl, rfl, rfl, rfl, rfl⟩
    · refine Network.run_pass _ _ _ _ _ ?_ (fun j hj => ?_) (hsrc.nodup_groupWaiters hm)
      · rw [← ha₁, ← hz]
        exact Function.update_self _ _ _
      · rw [hproc j fun h => hnot (h ▸ hj)]
        exact hwait j hj
  have hsame : ∀ i, i ≠ t.id → i ∉ woken → a'.proc i = a.proc i := fun i hi hw =>
    (hrest i hw).trans (hproc i hi)
  obtain ⟨es, hes, hsh⟩ := finish_record t (sh.setGroup g { m with val := inner })
    (.added g t.id d woken) woken (.add g) k
  have hst : ∀ i, i ≠ t.id → statusOf i (sh.log ++ .added g t.id d woken :: es)
      = (Event.added g t.id d woken).update i (sh.status i) := fun i hi => by
    rw [statusOf_append, List.foldl_cons]
    rcases hes with rfl | rfl
    · rfl
    · exact if_neg (Ne.symm hi)
  refine ⟨.act t.id :: woken.map .act, a', (System.run_cons _ _ _).trans ?_, ?_, ?_, ?_, ?_,
    fun u hu _ => ?_, fun i hi hi' => ?_, fun i hi => ?_, fun i hi => ?_⟩
  · rw [show (network P.cmd caps ns fs).next (.act t.id) a = _ from hstep]
    exact hrun
  · have hview : ((sh.setGroup g { m with val := inner }).record
        (.added g t.id d woken :: es)).view = sh.view := view_same _ rfl rfl (by
      rcases hes with rfl | rfl <;> simp [Event.matches])
    rw [hsh, hview, hchan, ← ha₁]
    exact ha.chan
  · have htally : ((sh.setGroup g { m with val := inner }).record
        (.added g t.id d woken :: es)).tally = _ := tally_set hm rfl
    rw [hsh, htally, hcounter, ← ha₁, ha.counter]
  · rw [hsh, hnext, ← ha₁]
    exact ha.next
  · rw [hpending, ← ha₁]
  · rw [finish_pc] at hu
    cases hu
    refine finish_stands _ _ ((hrest _ hnot).trans ?_)
    rw [← ha₁]
    exact Function.update_self _ _ _
  · rw [hsh]
    by_cases hw : i ∈ woken
    · refine .counted (g := g) (hsrc.queued_of_entries rfl ?_) ((hst i hi).trans (if_pos hw))
        fun k' hk' => hpassed i hw k' ((hproc i hi).trans hk')
      rw [entries_waiters hm]
      rcases hwoken with rfl | ⟨-, rfl⟩
      · cases hw
      · exact List.count_pos_iff.mpr hw
    · exact .same (hsame i hi hw) ((hst i hi).trans (if_neg hw))
  · rw [hsh] at hi
    refine (hsame i (hlt.trans_le hi).ne' fun hw => ?_).trans (ha.unborn i hi)
    obtain ⟨k', hk'⟩ := hwait i hw
    exact absurd (ha.lt_of_live hk') (Nat.not_lt.mpr hi)
  · rw [hsh] at hi
    left
    rcases List.mem_append.mp hi with hi | hi
    · exact hi
    · rcases hes with rfl | rfl <;> simp at hi

/-- The section of a `send`, a `recv` or a `close`. -/
private theorem simulated_channel (hB : P.Bare) (hs : TaskStep P ch free sh t e)
    (hk : P.kind t.code = .channel) (huncaught : t.code.uncaught = true) (hsrc : sh.Sources)
    (hinv : ∀ (c : ChanId) (m : Chan V), sh.chans[c]? = some m → m.val.Inv)
    (hunp : sh.Unpoisoned) (hlt : t.id < sh.nextTaskId)
    (hev : ∀ i, i ≠ t.id → Evolves (sh.status i) (e.sh.status i)) (ha : sh.Reflects a)
    (hstands : t.code.Stands P sh a.proc t.id) (hab : e.sh.aborted = none) :
    ∃ ls a', (network P.cmd caps ns fs).run ls a = some a' ∧ Simulated P sh t e a a' := by
  cases hs with
  | chanPoisoned hc hm hp =>
    rw [hunp _ (List.mem_of_getElem? hm)] at hp
    cases hp
  | chanClosed hc =>
    rw [raise_sh, hc.handler_none hB.uncaught huncaught] at hab
    cases hab
  | recvUnwrap hc hx hm hp hsq hcap hb =>
    exact absurd hb ((hinv _ _ hm).buf_ne_nil (by rw [hsq]; simp) hcap)
  | sendDelivered hc hx hm hp hcl hrq =>
    exact simulated_deliver ha hsrc (hinv _ _ hm) (hstands.of_user hc hx) hm hcl hrq
  | recvTake hc hx hm hp hsq hcap =>
    have hb := (hinv _ _ hm).buf_nil hcap
    have : ∃ ls a', (network P.cmd caps ns fs).run ls a = some a' ∧ _ :=
      simulated_take ha hsrc (hinv _ _ hm) (hstands.of_user hc hx) hm hsq (.inl ⟨hcap, rfl, rfl⟩)
    rwa [← hb] at this
  | recvRefill hc hx hm hp hsq hcap hb =>
    exact simulated_take ha hsrc (hinv _ _ hm) (hstands.of_user hc hx) hm hsq
      (.inr ⟨_, hb, rfl⟩)
  | close hc hx hm hp hcl =>
    exact simulated_close ha hsrc (hinv _ _ hm) (hstands.of_user hc hx) hm hcl
  | @sendBuffered x c d k h m hc hx hm hp hcl hrq hb =>
    refine simulated_chan [.sent c t.id d .buffered, .returned t.id (.send c)] ha hlt hev
      (hstands.of_user hc hx) hm (fun chan hchan => Network.effect_send hchan ?_) rfl rfl rfl rfl
      (fun ev hev => ?_) fun u hu _ => ?_
    · simp [Network.Chan.offer, ChanInner.view, hcl, hb, Event.matches]
    · rcases List.mem_pair.mp hev with rfl | rfl <;> simp [Event.matches, Event.inert]
    · cases hu
      exact .user (Function.update_self _ _ _)
  | @recvBuf x c k h m d buf hc hx hm hp hsq hb =>
    refine simulated_chan [.received c t.id (.fromBuf d), .returned t.id (.recv c (some d))] ha hlt
      hev (hstands.of_user hc hx) hm (fun chan hchan => Network.effect_recv (o := some d) hchan ?_)
      rfl rfl rfl rfl (fun ev hev => ?_) fun u hu _ => ?_
    · simp [Network.Chan.pull, ChanInner.view, hb, Event.matches]
    · rcases List.mem_pair.mp hev with rfl | rfl
      · exact ⟨fun c' hne => if_neg (Ne.symm hne), rfl, by simp⟩
      · exact ⟨fun c' hne => rfl, rfl, by simp⟩
    · cases hu
      exact .user (Function.update_self _ _ _)
  | @recvClosed x c k h m hc hx hm hp hcl hsq hb =>
    refine simulated_chan [.received c t.id .closed, .returned t.id (.recv c none)] ha hlt hev
      (hstands.of_user hc hx) hm (fun chan hchan => Network.effect_recv (o := none) hchan ?_)
      (Slots.set_of_getElem? hm).symm rfl rfl rfl (fun ev hev => ?_) fun u hu _ => ?_
    · simp [Network.Chan.pull, ChanInner.view, hb, hcl, Event.matches]
    · rcases List.mem_pair.mp hev with rfl | rfl <;> simp [Event.matches, Event.inert]
    · cases hu
      exact .user (Function.update_self _ _ _)
  | @sendEnqueued x c d k h m hc hx hm hp hcl hrq hb =>
    refine simulated_none [_] ha hlt hev (view_queues [_] hm rfl rfl (by simp [Event.matches])
      fun _ => rfl) rfl rfl rfl (by simp [Event.inert]) (.park ?_)
    rw [hstands.of_user hc hx]
    exact .sending ((status_append_one (e := .sent c t.id d .enqueued) rfl _).trans (if_pos rfl))
      (chan_of_set hm) (by simp)
  | @recvEnqueued x c k h m hc hx hm hp hcl hsq hb =>
    refine simulated_none [_] ha hlt hev (view_queues [_] hm rfl rfl (by simp [Event.matches])
      fun _ => rfl) rfl rfl rfl (by simp [Event.inert]) (.park ?_)
    rw [hstands.of_user hc hx]
    exact .receiving ((status_append_one (e := .received c t.id .enqueued) rfl _).trans
      (if_pos rfl))
  | groupPanic hc hx =>
    rcases hx with ⟨d, hx⟩ | hx <;> cases (Program.kind_user hc hx).symm.trans hk
  | _ =>
    rw [‹t.code = _›] at hk
    first | cases hk | cases (congrArg Op.kind ‹P.code _ = _›).symm.trans hk

/-- The section of an `add` or a `wait`. -/
private theorem simulated_group (hB : P.Bare) (hs : TaskStep P ch free sh t e)
    (hk : P.kind t.code = .group) (hsrc : sh.Sources) (hcount : sh.Counts)
    (hlt : t.id < sh.nextTaskId)
    (hev : ∀ i, i ≠ t.id → Evolves (sh.status i) (e.sh.status i)) (ha : sh.Reflects a)
    (hstands : t.code.Stands P sh a.proc t.id) (hab : e.sh.aborted = none) :
    ∃ ls a', (network P.cmd caps ns fs).run ls a = some a' ∧ Simulated P sh t e a a' := by
  have hbare : ∀ {x op}, P.code x = op → op.bare = true := fun {x op} hx => hx ▸ hB x
  cases hs with
  | @groupPanic x g k h m m' p hc hx =>
    have hnone : h = none := by
      rcases hx with ⟨d, hx⟩ | hx <;> exact Option.isNone_iff_eq_none.mp (hbare hx)
    rw [raise_sh, hnone] at hab
    cases hab
  | add hc hx hm hp hadd =>
    exact simulated_add ha hsrc (hcount _ _ hm).2 (hstands.of_user hc hx) hm hadd
  | @waitZero x g k h m hc hx hm hp h0 =>
    have hn : a.counter g = some 0 := by
      rw [ha.counter, tally_eq hm, h0]
      rfl
    exact simulated_step [.returned t.id (.wait g)] ha hlt hev
      (Network.step_wait (hstands.of_user hc hx) hn) rfl rfl rfl rfl
      (by simp [Event.matches, Event.inert]) fun u hu _ => by
        cases hu
        exact .user (Function.update_self _ _ _)
  | @waitJoin x g k h m hc hx hm hp h0 =>
    -- the counter stays, and the process still stands at its `wait`
    have htally : ((sh.setGroup g { m with
        val := { m.val with waiters := m.val.waiters ++ [t.id] } }).record
          [.joined g t.id]).tally = sh.tally := by
      rw [tally_set hm rfl, ← tally_eq hm, Function.update_eq_self]
    refine simulated_none [_] ha hlt hev (view_same [_] rfl rfl (by simp [Event.matches])) htally
      rfl rfl (by simp [Event.inert]) (.park ?_)
    rw [hstands.of_user hc hx]
    exact .joined ((status_append_one (e := .joined g t.id) rfl _).trans (if_pos rfl))
  | chanPoisoned hs | chanClosed hs => rcases hs.kind with hc | hc <;> cases hc.symm.trans hk
  | _ =>
    rw [‹t.code = _›] at hk
    first | cases hk | cases (congrArg Op.kind ‹P.code _ = _›).symm.trans hk

/-- The first step of another call, and the end of the closure. -/
private theorem simulated_call (hP : P.Structured) (hB : P.Bare) (hs : TaskStep P ch free sh t e)
    (hk : P.kind t.code = .call) (hlt : t.id < sh.nextTaskId)
    (hev : ∀ i, i ≠ t.id → Evolves (sh.status i) (e.sh.status i)) (ha : sh.Reflects a)
    (hstands : t.code.Stands P sh a.proc t.id) (hab : e.sh.aborted = none) :
    ∃ ls a', (network P.cmd caps ns fs).run ls a = some a' ∧ Simulated P sh t e a a' := by
  have hop : ∀ {x op}, P.code x = op → op.structured = true := fun {x op} hx => hx ▸ hP x
  have hbare : ∀ {x op}, P.code x = op → op.bare = true := fun {x op} hx => hx ▸ hB x
  cases hs with
  -- direct calls of `gopark` and `goready`
  | gopark _ hx | goready _ _ hx => cases hop hx
  | sleepOverflow hc hx | netFail hc hx =>
    rw [raise_sh, Option.isNone_iff_eq_none.mp (hbare hx)] at hab
    cases hab
  -- the process of the task stays at the operation
  | sleep hc hx =>
    exact simulated_silent [] ha hlt hev rfl rfl rfl (List.append_nil _).symm (by simp)
      (.sleepPush (hstands.of_user hc hx))
  | netAdd hc hx =>
    exact simulated_silent [] ha hlt hev rfl rfl rfl (List.append_nil _).symm (by simp)
      (.registerRead (hstands.of_user hc hx))
  | ioSpawn hf hc hx =>
    exact simulated_silent [] ha hlt hev rfl rfl rfl (List.append_nil _).symm (by simp)
      (.spawnWorker (hstands.of_user hc hx))
  | ioBlock hf hc hx =>
    exact simulated_silent [] ha hlt hev rfl rfl rfl (List.append_nil _).symm (by simp)
      (.blocking (hstands.of_user hc hx))
  -- the process of the task goes on
  | go hc hx => exact simulated_fork ha (hstands.of_user hc hx)
  | gosched hc hx | currentTaskId hc hx =>
    exact simulated_tick [] ha hlt hev (hstands.of_user hc hx) rfl rfl rfl
      (List.append_nil _).symm (by simp) fun u hu => by
        cases hu
        rfl
  | done hc hx =>
    refine simulated_step [.died t.id] ha hlt hev (Network.step_act (hstands.of_user hc hx) rfl)
      rfl rfl rfl rfl (fun ev hev => ?_) fun u hu hd => ?_
    · rw [List.mem_singleton.mp hev]
      exact ⟨fun _ => rfl, rfl, fun i hi => by cases hi; exact ⟨rfl, rfl⟩⟩
    · cases hu
      exact absurd rfl hd
  | chanPoisoned hs | chanClosed hs => rcases hs.kind with hc | hc <;> cases hc.symm.trans hk
  | groupPanic hc hx =>
    rcases hx with ⟨d, hx⟩ | hx <;> cases (Program.kind_user hc hx).symm.trans hk
  | _ =>
    rw [‹t.code = _›] at hk
    first | cases hk | cases (congrArg Op.kind ‹P.code _ = _›).symm.trans hk

/-- A later step of a call, up to `gopark`. -/
private theorem simulated_inside (hs : TaskStep P ch free sh t e) (hk : P.kind t.code = .inside)
    (hlt : t.id < sh.nextTaskId)
    (hev : ∀ i, i ≠ t.id → Evolves (sh.status i) (e.sh.status i)) (ha : sh.Reflects a)
    (hstands : t.code.Stands P sh a.proc t.id) :
    ∃ ls a', (network P.cmd caps ns fs).run ls a = some a' ∧ Simulated P sh t e a a' := by
  cases hs with
  | entry hc =>
    rw [hc] at hstands
    cases hstands with
    | entry h =>
      exact simulated_silent [_] ha hlt hev rfl rfl rfl rfl (by simp [Event.matches, Event.inert])
        (.user h)
  | goPush hf hc =>
    rw [hc] at hstands
    cases hstands with
    | goPush h =>
      exact simulated_silent [_] ha hlt hev rfl rfl rfl rfl (by simp [Event.matches, Event.inert])
        (.user h)
  | sleepPush hc =>
    rw [hc] at hstands
    cases hstands with
    | sleepPush h =>
      exact simulated_silent [_] ha hlt hev rfl rfl rfl rfl (by simp [Event.matches, Event.inert])
        (.park (h ▸ .sleep))
  | wakeNil hc =>
    rw [hc] at hstands
    cases hstands with
    | wake h =>
      exact simulated_silent [] ha hlt hev rfl rfl rfl (List.append_nil _).symm (by simp) (.user h)
  | @wakeLast id ret k hf hc =>
    rw [hc] at hstands
    cases hstands with
    | wake h =>
      obtain ⟨es, hl, hes⟩ := goready_inert sh (.task t.id) id
      refine simulated_silent (es ++ [.returned t.id ret]) ha hlt hev (goready_chans _ _ _)
        (goready_groups _ _ _) (goready_next _ _ _)
        ((congrArg (· ++ [_]) hl).trans (List.append_assoc _ _ _)) ?_ (.user h)
      rintro ev hev
      rcases List.mem_append.mp hev with hev | hev
      · exact hes ev hev
      · rw [List.mem_singleton.mp hev]
        exact ⟨fun _ => rfl, rfl, by simp⟩
  | wakeMore hf hc =>
    rw [hc] at hstands
    cases hstands with
    | wake h =>
      obtain ⟨es, hl, hes⟩ := goready_inert sh (.task t.id) _
      exact simulated_silent es ha hlt hev (goready_chans _ _ _) (goready_groups _ _ _)
        (goready_next _ _ _) hl hes (.wake h)
  | park hc =>
    rw [hc] at hstands
    cases hstands with
    | park h =>
      refine simulated_own (p := a.proc t.id) [] [] ha hlt hev ?_ rfl rfl
        (List.append_nil _).symm (by simp) (by simp) fun u hu _ => ?_
      · rw [Function.update_eq_self, ← ha.chan]
        rfl
      · cases hu
        rw [Function.update_eq_self]
        exact .parked h
  | registerRead hc =>
    rw [hc] at hstands
    cases hstands with
    | registerRead h =>
      exact simulated_silent [_] ha hlt hev rfl rfl rfl rfl (by simp [Event.matches, Event.inert])
        (.park (h ▸ .reading))
  | spawnWorker hf hc =>
    rw [hc] at hstands
    cases hstands with
    | spawnWorker h =>
      exact simulated_silent [] ha hlt hev rfl rfl rfl (List.append_nil _).symm (by simp)
        (.threadSpawn h)
  | threadSpawn hc =>
    rw [hc] at hstands
    cases hstands with
    | threadSpawn h =>
      exact simulated_silent [] ha hlt hev rfl rfl rfl (List.append_nil _).symm (by simp)
        (.blocking h)
  -- the operation ends in these steps
  | unregister hc =>
    rw [hc] at hstands
    cases hstands with
    | unregister h =>
      exact simulated_tick [_] ha hlt hev h rfl rfl rfl rfl (by simp [Event.matches, Event.inert])
        fun u hu => by
          cases hu
          rfl
  | blocking hc =>
    rw [hc] at hstands
    cases hstands with
    | blocking h =>
      exact simulated_tick [] ha hlt hev h rfl rfl rfl (List.append_nil _).symm (by simp)
        fun u hu => by
          cases hu
          rfl
  | chanPoisoned hs | chanClosed hs => rcases hs.kind with hc | hc <;> cases hc.symm.trans hk
  | groupPanic hc hx =>
    rcases hx with ⟨d, hx⟩ | hx <;> cases (Program.kind_user hc hx).symm.trans hk
  | _ =>
    rw [‹t.code = _›] at hk
    first | cases hk | cases (congrArg Op.kind ‹P.code _ = _›).symm.trans hk

/-- A `recv` collects after `gopark` what its release has left for it: a value, or nothing when
    `close` has ended the wait, and then the process receives from the drained channel. -/
private theorem simulated_collect {c : ChanId} {k : Option V → σ} {h : Handler σ} {m : Chan V}
    (ha : sh.Reflects a) (hlt : t.id < sh.nextTaskId)
    (hev : ∀ i, i ≠ t.id → Evolves (sh.status i) ((t.continue ((sh.setChan c { m with
        val := { m.val with delivered := m.val.delivered.erase t.id } }).record
      [.returned t.id (.recv c (m.val.delivered.lookup t.id))])
      (.user (k (m.val.delivered.lookup t.id)))).sh.status i))
    (hpark : Park.Stands P sh t.id (.recv c k h) (a.proc t.id))
    (hq : (sh.status t.id).queue? = none) (hm : sh.chans[c]? = some m)
    (hdel : m.val.delivered.lookup t.id = (sh.status t.id).delivered? c) :
    ∃ ls a', (network P.cmd caps ns fs).run ls a = some a' ∧ Simulated P sh t
      (t.continue ((sh.setChan c { m with
          val := { m.val with delivered := m.val.delivered.erase t.id } }).record
        [.returned t.id (.recv c (m.val.delivered.lookup t.id))])
        (.user (k (m.val.delivered.lookup t.id)))) a a' := by
  generalize hx : a.proc t.id = x at hpark
  cases hpark with
  | receiving hst =>
    rw [hst] at hq
    cases hq
  | dismissed hst hm' hcl hb =>
    rw [hm] at hm'
    cases hm'
    have hnone : m.val.delivered.lookup t.id = none := by
      rw [hdel, hst]
      rfl
    rw [hnone] at hev ⊢
    refine simulated_chan [.returned t.id (.recv c none)] ha hlt hev hx hm
      (fun chan hchan => Network.effect_recv (o := none) hchan ?_) rfl rfl rfl rfl
      (by simp [Event.matches, Event.inert]) fun u hu _ => ?_
    · simp [Network.Chan.pull, ChanInner.view, hb, hcl, Event.matches]
    · cases hu
      exact .user (Function.update_self _ _ _)
  | @given _ _ _ v hst =>
    have hsome : m.val.delivered.lookup t.id = some v := by
      rw [hdel, hst]
      exact if_pos rfl
    rw [hsome] at hev ⊢
    exact simulated_none [_] ha hlt hev (view_queues [_] hm rfl rfl (by simp [Event.matches])
      fun _ => rfl) rfl rfl rfl (by simp [Event.inert]) (.user hx)

/-- The step after `gopark`: the operation is over, unless `close` has ended the wait. -/
private theorem simulated_resume (hB : P.Bare) (hs : TaskStep P ch free sh t e)
    (hk : P.kind t.code = .resume) (huncaught : t.code.uncaught = true) (hunp : sh.Unpoisoned)
    (hdel : sh.Delivers) (hag : t.code.agrees (sh.status t.id))
    (hq : t.code.settles = true → (sh.status t.id).queue? = none) (hlt : t.id < sh.nextTaskId)
    (hev : ∀ i, i ≠ t.id → Evolves (sh.status i) (e.sh.status i)) (ha : sh.Reflects a)
    (hstands : t.code.Stands P sh a.proc t.id) (hab : e.sh.aborted = none) :
    ∃ ls a', (network P.cmd caps ns fs).run ls a = some a' ∧ Simulated P sh t e a a' := by
  cases hs with
  | chanPoisoned hc hm hp =>
    rw [hunp _ (List.mem_of_getElem? hm)] at hp
    cases hp
  | chanClosed hc =>
    rw [raise_sh, hc.handler_none hB.uncaught huncaught] at hab
    cases hab
  | resumeGopark h =>
    rw [h] at hag
    obtain ⟨src, hw, -⟩ := hag
    cases hw
  -- the network has waited for nothing: its process goes on with a step of its own
  | resumeSleep hc =>
    rw [hc] at hstands
    cases hstands with
    | parked h =>
      generalize hp : a.proc t.id = x at h
      cases h
      exact simulated_tick [_] ha hlt hev hp rfl rfl rfl rfl (by simp [Event.matches, Event.inert])
        fun u hu => by
          cases hu
          rfl
  | resumeNet hc =>
    rw [hc] at hstands
    cases hstands with
    | parked h =>
      generalize hp : a.proc t.id = x at h
      cases h
      exact simulated_silent [] ha hlt hev rfl rfl rfl (List.append_nil _).symm (by simp)
        (.unregister hp)
  -- the sender's entry is gone: a `recv` has taken it, since the channel is not closed
  | resumeSend hc hm hp hcl =>
    rw [hc] at hstands hq
    cases hstands with
    | parked h =>
      generalize hx : a.proc t.id = x at h
      cases h with
      | sending hst =>
        have := hq rfl
        rw [hst] at this
        cases this
      | refused hst hm' hcl' =>
        rw [hm] at hm'
        cases hm'
        rw [hcl] at hcl'
        cases hcl'
      | accepted =>
        exact simulated_silent [_] ha hlt hev rfl rfl rfl rfl
          (by simp [Event.matches, Event.inert]) (.user hx)
  -- the waiter's entry is gone, so an `add` has come to zero
  | resumeWait hc =>
    rw [hc] at hstands hq
    cases hstands with
    | parked h =>
      generalize hx : a.proc t.id = x at h
      cases h with
      | joined hst =>
        have := hq rfl
        rw [hst] at this
        cases this
      | counted =>
        exact simulated_silent [_] ha hlt hev rfl rfl rfl rfl
          (by simp [Event.matches, Event.inert]) (.user hx)
  | resumeRecv hc hm hp =>
    rw [hc] at hstands hq
    cases hstands with
    | parked hpark => exact simulated_collect ha hlt hev hpark (hq rfl) hm (hdel _ _ hm _)
  | groupPanic hc hx =>
    rcases hx with ⟨d, hx⟩ | hx <;> cases (Program.kind_user hc hx).symm.trans hk
  | _ =>
    rw [‹t.code = _›] at hk
    first | cases hk | cases (congrArg Op.kind ‹P.code _ = _›).symm.trans hk

/-- **The network follows each step of a task** that does not abort the process. -/
theorem TaskStep.simulated (hP : P.Structured) (hB : P.Bare) (hs : TaskStep P ch free sh t e)
    (huncaught : t.code.uncaught = true) (hsrc : sh.Sources)
    (hinv : ∀ (c : ChanId) (m : Chan V), sh.chans[c]? = some m → m.val.Inv)
    (hcount : sh.Counts) (hunp : sh.Unpoisoned) (hdel : sh.Delivers)
    (hag : t.code.agrees (sh.status t.id))
    (hq : t.code.settles = true → (sh.status t.id).queue? = none)
    (hev : ∀ i, i ≠ t.id → Evolves (sh.status i) (e.sh.status i)) (ha : sh.Reflects a)
    (hstands : t.code.Stands P sh a.proc t.id) (hab : e.sh.aborted = none) :
    ∃ ls a', (network P.cmd caps ns fs).run ls a = some a' ∧ Simulated P sh t e a a' := by
  have hlt : t.id < sh.nextTaskId := by
    obtain ⟨x, hx⟩ := hstands.live
    exact ha.lt_of_live hx
  cases hk : P.kind t.code with
  | channel =>
    exact simulated_channel hB hs hk huncaught hsrc hinv hunp hlt hev ha hstands hab
  | group => exact simulated_group hB hs hk hsrc hcount hlt hev ha hstands hab
  | call => exact simulated_call hP hB hs hk hlt hev ha hstands hab
  | inside => exact simulated_inside hs hk hlt hev ha hstands
  | resume =>
    exact simulated_resume hB hs hk huncaught hunp hdel hag hq hlt hev ha hstands hab

end Follow

end MyGoroutine
