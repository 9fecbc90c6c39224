import MyGoroutine.Chan.Close
import MyGoroutine.Chan.Share
import MyGoroutine.Sched.Launch
import MyGoroutine.Wake.Match

namespace MyGoroutine

/-!
# A producer and its consumers (`examples/channel_demo.rs`)

One task sends a list of values over a channel and closes it; any number of others loop on
`recv` until it returns `None`.  No operation panics, nobody is stuck while a task is left, and
in the end the consumers have received the values, each once and in order.

* `Stage`, `pipeline` — the closures, and the program they make;
* `Stage.Fits`, `Code.Fits` — what a point of a closure says about the channel;
* `PipeStep` — what a step of a task does to the channel and the history;
* `State.Piped`, `reach_piped` — the invariant;
* `pipeline_spec` — the specification.
-/

/-! ### The program

The closures are those of the example: a producer that sends a list and closes the channel, and
consumers that loop on `recv`. The main thread creates them in any order, so the producer's id is
the number of consumers before it.
-/

/-- The points of the closures. -/
inductive Stage (V : Type) where
  /-- The producer, with the values still to send. -/
  | produce (rest : List V)
  /-- The producer after `close`. -/
  | closed
  /-- A consumer at the top of its loop. -/
  | consume
  /-- A consumer after `recv` has returned `None`. -/
  | finished

variable {V : Type}

/-- `while let Some(val) = ch.recv()`. -/
def Stage.next : Option V → Stage V
  | some _ => .consume
  | none => .finished

/-- The closures of the producer and of the consumers, over the channel `0`. -/
def pipeline (V : Type) : Program (Stage V) V where
  code
    | .produce (v :: rest) => .send 0 v (.produce rest) none
    | .produce [] => .close 0 .closed none
    | .consume => .recv 0 Stage.next none
    | .closed => .done
    | .finished => .done
  variant := .channel
  overflowChecks := true
  own x := by split <;> rfl

/-- The closures in the order of the `go` calls: the producer of `vs` comes after `a` consumers
    and before `b` others, so it has the id `a`. -/
def pipelineTasks (vs : List V) (a b : Nat) : List (Stage V) :=
  List.replicate a .consume ++ .produce vs :: List.replicate b .consume

/-- There is one producer beside the consumers. -/
theorem length_pipelineTasks (vs : List V) (a b : Nat) :
    (pipelineTasks vs a b).length = a + b + 1 := by
  simp [pipelineTasks]
  omega

/-- The task `a` is the producer, and all others are consumers. -/
theorem pipelineTasks_getElem? {vs : List V} {a b i : Nat} {x : Stage V}
    (h : (pipelineTasks vs a b)[i]? = some x) :
    (i = a ∧ x = .produce vs) ∨ (i ≠ a ∧ x = .consume) := by
  rcases Nat.lt_trichotomy i a with hi | rfl | hi
  · rw [pipelineTasks, List.getElem?_append_left (by simpa using hi)] at h
    exact .inr ⟨hi.ne, List.eq_of_mem_replicate (List.mem_of_getElem? h)⟩
  · rw [pipelineTasks, List.getElem?_append_right (by simp)] at h
    simp only [List.length_replicate, Nat.sub_self, List.getElem?_cons_zero,
      Option.some.injEq] at h
    exact .inl ⟨rfl, h.symm⟩
  · rw [pipelineTasks, List.getElem?_append_right (by simpa using hi.le)] at h
    obtain ⟨d, hd⟩ := Nat.exists_eq_add_of_lt hi
    rw [List.length_replicate, show i - a = d + 1 by omega, List.getElem?_cons_succ] at h
    exact .inr ⟨hi.ne', List.eq_of_mem_replicate (List.mem_of_getElem? h)⟩

section Code

variable {x k : Stage V} {c : ChanId} {v : V} {h : Handler (Stage V)}

/-- The closures use the channel only. -/
theorem pipeline_basic : (pipeline V).Basic := by
  intro x
  cases x with
  | produce rest => cases rest <;> rfl
  | _ => rfl

/-- The closures catch no panic. -/
theorem pipeline_uncaught : (pipeline V).Uncaught := by
  intro x
  cases x with
  | produce rest => cases rest <;> rfl
  | _ => rfl

/-- Only the producer sends, and it sends its next value. -/
theorem pipeline_send (hx : (pipeline V).code x = .send c v k h) :
    ∃ rest, x = .produce (v :: rest) ∧ c = 0 ∧ k = .produce rest ∧ h = none := by
  cases x with
  | produce rest =>
    cases rest with
    | nil => cases hx
    | cons w rest => cases hx; exact ⟨rest, rfl, rfl, rfl, rfl⟩
  | _ => cases hx

/-- Only the producer closes, when it has sent everything. -/
theorem pipeline_close (hx : (pipeline V).code x = .close c k h) :
    x = .produce [] ∧ c = 0 ∧ k = .closed ∧ h = none := by
  cases x with
  | produce rest => cases rest <;> cases hx; exact ⟨rfl, rfl, rfl, rfl⟩
  | _ => cases hx

/-- Only a consumer receives. -/
theorem pipeline_recv {k : Option V → Stage V} (hx : (pipeline V).code x = .recv c k h) :
    x = .consume ∧ c = 0 ∧ k = Stage.next ∧ h = none := by
  cases x with
  | produce rest => cases rest <;> cases hx
  | consume => cases hx; exact ⟨rfl, rfl, rfl, rfl⟩
  | _ => cases hx

/-- A closure ends after `close`, or after a `recv` that has returned `None`. -/
theorem pipeline_done (hx : (pipeline V).code x = .done) : x = .closed ∨ x = .finished := by
  cases x with
  | produce rest => cases rest <;> cases hx
  | closed => exact .inl rfl
  | finished => exact .inr rfl
  | consume => cases hx

/-- The operation is one on a channel, or the end of the closure. -/
def Op.onChan {σ : Type} : Op σ V → Bool
  | .send _ _ _ _ => true
  | .recv _ _ _ => true
  | .close _ _ _ => true
  | .done => true
  | _ => false

/-- The closures do nothing but send, receive, close and end. -/
theorem pipeline_onChan {op : Op (Stage V) V} (hx : (pipeline V).code x = op) :
    op.onChan = true := by
  subst hx
  cases x with
  | produce rest => cases rest <;> rfl
  | _ => rfl

end Code

/-! ### What a point of a closure says

A closure is nothing but its point, and that says all the proof has to know of a task: how much of
the list the producer has committed, and that a consumer which learns of the end finds the channel
closed and empty.
-/

section Fits

variable (vs : List V) (p : TaskId) (m : ChanInner V) (log : List (Event V)) (i : TaskId)

/-- What it says that the task `i` is at this point: the producer of `vs` is the task `p`. -/
def Stage.Fits : Stage V → Prop
  | .produce rest => i = p ∧ m.closed = false ∧ committed 0 log ++ rest = vs
  | .closed => i = p ∧ m.closed = true ∧ committed 0 log = vs
  | .consume => i ≠ p
  | .finished => i ≠ p ∧ .returned i (.recv 0 none) ∈ log

/-- The same, inside an operation that parks. -/
def Park.Fits : Park (Stage V) V → Prop
  | .send c k _ => c = 0 ∧ ∃ rest, k = .produce rest ∧ k.Fits vs p m log i
  | .recv c k _ => c = 0 ∧ k = Stage.next ∧ i ≠ p
  | _ => False

/-- The same, for every point of the code. -/
def Code.Fits : Code (Stage V) V → Prop
  | .entry x => x.Fits vs p m log i
  | .user x => x.Fits vs p m log i
  | .wake _ ret k => (∀ c, ret ≠ .recv c none) ∧ k.Fits vs p m log i
  | .park q => q.Fits vs p m log i
  | .parked q => q.Fits vs p m log i
  | _ => False

end Fits

section FitsLemmas

variable {vs : List V} {p : TaskId} {m m' : ChanInner V} {log es : List (Event V)} {i : TaskId}

/-- Events that commit nothing leave the committed values alone. -/
theorem committed_append_nil (hes : committed 0 es = []) :
    committed 0 (log ++ es) = committed 0 log := by
  show gather _ (log ++ es) = _
  rw [gather_append, show gather _ es = [] from hes, List.append_nil]

/-- A point of a consumer stays right as the history grows, and one of the producer as long as
    nobody else sends or closes. -/
theorem Stage.Fits.mono {x : Stage V} (h : x.Fits vs p m log i)
    (hp : i = p → m'.closed = m.closed ∧ committed 0 es = []) :
    x.Fits vs p m' (log ++ es) i := by
  cases x with
  | produce rest =>
    obtain ⟨hi, hcl, hv⟩ := h
    obtain ⟨hcl', hes⟩ := hp hi
    exact ⟨hi, hcl'.trans hcl, by rw [committed_append_nil hes, hv]⟩
  | closed =>
    obtain ⟨hi, hcl, hv⟩ := h
    obtain ⟨hcl', hes⟩ := hp hi
    exact ⟨hi, hcl'.trans hcl, by rw [committed_append_nil hes, hv]⟩
  | consume => exact h
  | finished => exact ⟨h.1, List.mem_append_left _ h.2⟩

/-- Inside a park a consumer stays right too, and the producer under the same condition. -/
theorem Park.Fits.mono {q : Park (Stage V) V} (h : q.Fits vs p m log i)
    (hp : i = p → m'.closed = m.closed ∧ committed 0 es = []) :
    q.Fits vs p m' (log ++ es) i := by
  cases q with
  | send c k hd =>
    obtain ⟨hc, rest, hk, hfit⟩ := h
    exact ⟨hc, rest, hk, hfit.mono hp⟩
  | recv => exact h
  | _ => exact h.elim

/-- Every point of a closure stays right under this condition. -/
theorem Code.Fits.mono {c : Code (Stage V) V} (h : c.Fits vs p m log i)
    (hp : i = p → m'.closed = m.closed ∧ committed 0 es = []) :
    c.Fits vs p m' (log ++ es) i := by
  cases c with
  | entry x | user x => exact Stage.Fits.mono h hp
  | wake ids ret k => exact ⟨h.1, h.2.mono hp⟩
  | park q | parked q => exact Park.Fits.mono h hp
  | _ => exact h.elim

/-- After a `recv` that has returned `o`. -/
theorem Code.fits_next {o : Option V} (hi : i ≠ p)
    (hnone : o = none → .returned i (.recv 0 none) ∈ log) :
    (Code.user (Stage.next o)).Fits vs p m log i := by
  cases o with
  | none => exact ⟨hi, hnone rfl⟩
  | some v => exact hi

end FitsLemmas

/-! ### Steps

What the pipeline needs to know of a step is small: the channel is left alone or moved, the history
grows by events that fit, and the task is at a point that fits. The branches follow the calls of the
two kinds of closure.
-/

/-- What a step of the task `t` does to the channel and the history, as far as the pipeline goes. -/
structure PipeStep (vs : List V) (p : TaskId) (m m' : ChanInner V) (t : TaskId)
    (log es : List (Event V)) : Prop where
  /-- The step does not panic, -/
  unpanicked : ∀ i e, .panicked i e ∉ es
  /-- and creates no task. -/
  created : ∀ i, .created i ∉ es
  /-- Only the producer sends and closes. -/
  others : t ≠ p → m'.closed = m.closed ∧ committed 0 es = []
  /-- An exhausted channel stays exhausted. -/
  exhausted : m.Exhausted → m'.Exhausted
  /-- A closed channel stays closed. -/
  closed : m.closed = true → m'.closed = true
  /-- Who is told the end finds the channel exhausted. -/
  ended : ∀ i, .returned i (.recv 0 none) ∈ es → m'.Exhausted
  /-- No waiting sender is drained. -/
  drained : drained 0 es = []
  /-- Values are taken for the task of the step, or for a parked receiver. -/
  receivers : ∀ x ∈ shared 0 es, (x.1 = t ∧ t ≠ p) ∨ x.1 ∈ m.recvq
  /-- Who dies has done its part. -/
  died : ∀ i, .died i ∈ es → i = t ∧
    (i = p → m'.closed = true ∧ committed 0 (log ++ es) = vs) ∧
    (i ≠ p → .returned i (.recv 0 none) ∈ log)

section Steps

variable {vs : List V} {p : TaskId} {ch : Choice} {free : Bool} {sh sh' : Shared (Stage V) V}
  {t : Task (Stage V) V} {e : Effect (Stage V) V} {m : Chan V} {log es : List (Event V)}

/-- Events that are no part of the pipeline. -/
def Event.aside : Event V → Bool
  | .created _ => false
  | .died _ => false
  | .panicked _ _ => false
  | .returned _ (.recv _ none) => false
  | .sent _ _ _ _ => false
  | .received _ _ _ => false
  | .closed _ _ _ _ => false
  | _ => true

/-- What a worker logs is aside. -/
theorem aside_of_ofWorker {ev : Event V} (h : ev.ofWorker = true) : ev.aside = true := by
  cases ev <;> first | rfl | cases h

/-- Such an event is about no value. -/
theorem Event.aside.gathers {ev : Event V} (h : ev.aside = true) :
    ev.commits 0 = [] ∧ ev.drains 0 = [] ∧ ev.shares 0 = [] := by
  cases ev <;> first | exact ⟨rfl, rfl, rfl⟩ | cases h

/-- They carry no value. -/
theorem gather_aside (hes : ∀ ev ∈ es, ev.aside = true) :
    committed 0 es = [] ∧ drained 0 es = [] ∧ shared 0 es = [] :=
  ⟨List.flatMap_eq_nil_iff.mpr fun ev hev => (Event.aside.gathers (hes ev hev)).1,
    List.flatMap_eq_nil_iff.mpr fun ev hev => (Event.aside.gathers (hes ev hev)).2.1,
    List.flatMap_eq_nil_iff.mpr fun ev hev => (Event.aside.gathers (hes ev hev)).2.2⟩

/-- A step with such events only leaves the channel alone. -/
theorem PipeStep.of_aside (hes : ∀ ev ∈ es, ev.aside = true) (m : ChanInner V) (t : TaskId) :
    PipeStep vs p m m t log es where
  unpanicked i e h := by cases hes _ h
  created i h := by cases hes _ h
  others _ := ⟨rfl, (gather_aside hes).1⟩
  exhausted h := h
  closed h := h
  ended i h := by cases hes _ h
  drained := (gather_aside hes).2.1
  receivers x hx := by
    rw [(gather_aside hes).2.2] at hx
    cases hx
  died i h := by cases hes _ h

/-- The event is the first section of a `send` or a `recv` of the task `t`. -/
def Event.isMove (t : TaskId) : Event V → Prop
  | .sent c i _ _ => c = 0 ∧ i = t
  | .received c i _ => c = 0 ∧ i = t
  | _ => False

/-- A step that logs the section of a `send` or a `recv`, and events aside. -/
theorem PipeStep.of_move {m m' : ChanInner V} {i : TaskId} {ev : Event V} (hev : ev.isMove i)
    (hes : ∀ ev ∈ es, ev.aside = true)
    (hothers : i ≠ p → m'.closed = m.closed ∧ ev.commits 0 = [])
    (hexhausted : m.Exhausted → m'.Exhausted) (hclosed : m.closed = true → m'.closed = true)
    (hshares : ∀ x ∈ ev.shares 0, (x.1 = i ∧ i ≠ p) ∨ x.1 ∈ m.recvq) :
    PipeStep vs p m m' i log (ev :: es) := by
  obtain ⟨hcommit, hdrain, hshare⟩ := gather_aside hes
  have hnot : ∀ {ev' : Event V}, ev' ∈ ev :: es → ev'.isMove i ∨ ev'.aside = true := by
    intro ev' h
    rcases List.mem_cons.mp h with rfl | h
    · exact .inl hev
    · exact .inr (hes _ h)
  refine ⟨fun j e h => ?_, fun j h => ?_, fun hne => ⟨(hothers hne).1, ?_⟩, hexhausted, hclosed,
    fun j h => ?_, ?_, fun x hx => ?_, fun j h => ?_⟩
  · rcases hnot h with h | h <;> cases h
  · rcases hnot h with h | h <;> cases h
  · show ev.commits 0 ++ committed 0 es = []
    rw [(hothers hne).2, hcommit]
    rfl
  · rcases hnot h with h | h <;> cases h
  · show ev.drains 0 ++ MyGoroutine.drained 0 es = []
    rw [hdrain, List.append_nil]
    cases ev <;> first | rfl | exact hev.elim
  · have hx : x ∈ ev.shares 0 ++ shared 0 es := hx
    rw [hshare, List.append_nil] at hx
    exact hshares x hx
  · rcases hnot h with h | h <;> cases h

/-- The step of a task seen from the pipeline. -/
def TaskStep.Pipes (vs : List V) (p : TaskId) (sh : Shared (Stage V) V) (m : Chan V)
    (t : Task (Stage V) V) (e : Effect (Stage V) V) : Prop :=
  ∃ m' es, e.sh.chans = [m'] ∧ e.sh.aborted = sh.aborted ∧ e.sh.log = sh.log ++ es ∧
    PipeStep vs p m.val m'.val t.id sh.log es ∧
    ∀ u, e.pc.task? = some u → u.id = t.id ∧
      (u.state ≠ .dead → u.code.Fits vs p m'.val (sh.log ++ es) t.id)

/-- A step with events aside, after which the task is at a point that fits. -/
private theorem pipes_aside (es : List (Event V)) (hchans : e.sh.chans = [m])
    (ha : e.sh.aborted = sh.aborted) (hl : e.sh.log = sh.log ++ es)
    (hes : ∀ ev ∈ es, ev.aside = true) {u : Task (Stage V) V} (hu : e.pc.task? = some u)
    (hid : u.id = t.id) (hfit : u.state ≠ .dead → u.code.Fits vs p m.val (sh.log ++ es) t.id) :
    TaskStep.Pipes vs p sh m t e := by
  refine ⟨m, es, hchans, ha, hl, .of_aside hes _ _, fun v hv => ?_⟩
  rw [hu] at hv
  cases hv
  exact ⟨hid, hfit⟩

/-- A step that moves the channel. -/
private theorem pipes_move (m' : ChanInner V) {code : Code (Stage V) V} (hchans : sh.chans = [m])
    (he : e = t.continue ((sh.setChan 0 { m with val := m' }).record es) code)
    (hstep : PipeStep vs p m.val m' t.id sh.log es)
    (hfit : code.Fits vs p m' (sh.log ++ es) t.id) :
    TaskStep.Pipes vs p sh m t e := by
  subst he
  refine ⟨{ m with val := m' }, es, ?_, rfl, rfl, hstep, ?_⟩
  · show sh.chans.set 0 _ = _
    rw [hchans]
    rfl
  · rintro u ⟨⟩
    exact ⟨rfl, fun _ => hfit⟩

/-- A call that a task of the pipeline makes is one on its channel. -/
theorem ChanCall.onPipe {c : ChanId} {hd : Handler (Stage V)} {sec : ChanSection}
    (hs : ChanCall (pipeline V) t c hd sec) (hfit : t.code.Fits vs p m.val sh.log t.id) :
    c = 0 := by
  cases hs with
  | send hc hx => exact (pipeline_send hx).choose_spec.2.1
  | recv hc hx => exact (pipeline_recv hx).2.1
  | close hc hx => exact (pipeline_close hx).2.1
  | sendResume hc | recvResume hc =>
    rw [hc] at hfit
    exact hfit.1

/-- The producer sends and closes only while the channel is open. -/
theorem ChanCall.pipe_open {c : ChanId} {hd : Handler (Stage V)} {sec : ChanSection}
    (hs : ChanCall (pipeline V) t c hd sec) (hsec : sec ≠ .recv ∧ sec ≠ .recvResume)
    (hfit : t.code.Fits vs p m.val sh.log t.id) : m.val.closed = false := by
  cases hs with
  | send hc hx =>
    obtain ⟨rest, rfl, -⟩ := pipeline_send hx
    rw [hc] at hfit
    exact hfit.2.1
  | close hc hx =>
    obtain ⟨rfl, -⟩ := pipeline_close hx
    rw [hc] at hfit
    exact hfit.2.1
  | sendResume hc =>
    rw [hc] at hfit
    obtain ⟨-, rest, rfl, hfit⟩ := hfit
    exact hfit.2.1
  | recv => exact absurd rfl hsec.1
  | recvResume => exact absurd rfl hsec.2

/-- The only channel. -/
private theorem chan_eq {m₀ : Chan V} (hchans : sh.chans = [m]) (hm : sh.chans[0]? = some m₀) :
    m = m₀ := by
  rw [hchans] at hm
  exact Option.some.inj hm

/-- Events aside say nothing about a point of a closure. -/
theorem Stage.Fits.aside {x : Stage V} {i : TaskId} (h : x.Fits vs p m.val log i)
    (hes : ∀ ev ∈ es, ev.aside = true) : x.Fits vs p m.val (log ++ es) i :=
  h.mono fun _ => ⟨rfl, (gather_aside hes).1⟩

/-- No section panics: the channel is not poisoned, and the producer finds it open. -/
private theorem not_chanPanic (hchans : sh.chans = [m]) (hpo : m.poisoned = false)
    (hfit : t.code.Fits vs p m.val sh.log t.id) {c : ChanId} {m₀ : Chan V} {hd : Handler (Stage V)}
    {sec : ChanSection} (hs : ChanCall (pipeline V) t c hd sec) (hm : sh.chans[c]? = some m₀)
    (hp : m₀.poisoned = true ∨ m₀.val.closed = true ∧ sec ≠ .recv ∧ sec ≠ .recvResume) :
    False := by
  obtain rfl := hs.onPipe hfit
  obtain rfl := chan_eq hchans hm
  rcases hp with hp | ⟨hcl, hsec⟩
  · rw [hpo] at hp
    cases hp
  · rw [hs.pipe_open hsec hfit] at hcl
    cases hcl

/-- The producer's next value moves from `rest` to the history: it is delivered, put into the
    buffer, or left in the `sendq`. -/
private theorem pipes_send {rest : List V} {d : V} (m' : ChanInner V) {o : SendOutcome}
    {es : List (Event V)} {code : Code (Stage V) V} (hchans : sh.chans = [m])
    (hfit : (Stage.produce (d :: rest)).Fits vs p m.val sh.log t.id)
    (he : e = t.continue ((sh.setChan 0 { m with val := m' }).record (.sent 0 t.id d o :: es)) code)
    (hm' : m'.closed = false) (hes : ∀ ev ∈ es, ev.aside = true)
    (ho : ∀ r, o = .delivered r → r ∈ m.val.recvq)
    (hcode : ∀ log, (Stage.produce rest).Fits vs p m' log t.id → code.Fits vs p m' log t.id) :
    TaskStep.Pipes vs p sh m t e := by
  obtain ⟨hi, hcl, hv⟩ := hfit
  refine pipes_move m' hchans he (.of_move ⟨rfl, rfl⟩ hes (fun hne => absurd hi hne)
    (fun h => absurd (hcl.symm.trans h.1) (by decide))
    (fun h => absurd (hcl.symm.trans h) (by decide)) fun x hx => ?_) (hcode _ ⟨hi, hm', ?_⟩)
  · cases o with
    | delivered r =>
      obtain rfl : x = (r, d) := by simpa [Event.shares] using hx
      exact .inr (ho r rfl)
    | buffered | enqueued => cases hx
  · have hcommit : committed 0 (.sent 0 t.id d o :: es) = [d] :=
      congrArg ([d] ++ ·) (gather_aside hes).1
    show gather _ (sh.log ++ _) ++ rest = vs
    rw [gather_append, show gather _ (Event.sent 0 t.id d o :: es) = [d] from hcommit,
      List.append_assoc]
    exact hv

/-- A consumer takes a value out of the channel, or enters the `recvq`. -/
private theorem pipes_recv (m' : ChanInner V) {o : RecvOutcome V} {es : List (Event V)}
    {code : Code (Stage V) V} (hchans : sh.chans = [m]) (hi : t.id ≠ p) (hex : ¬ m.val.Exhausted)
    (he : e = t.continue ((sh.setChan 0 { m with val := m' }).record (.received 0 t.id o :: es))
      code)
    (hm' : m'.closed = m.val.closed) (hes : ∀ ev ∈ es, ev.aside = true)
    (hcode : ∀ log, code.Fits vs p m' log t.id) : TaskStep.Pipes vs p sh m t e := by
  refine pipes_move m' hchans he (.of_move ⟨rfl, rfl⟩ hes (fun _ => ⟨hm', rfl⟩)
    (fun h => absurd h hex) (fun h => hm'.trans h) fun x hx => ?_) (hcode _)
  cases o with
  | fromSender w d | fromBuf d =>
    obtain rfl : x = (t.id, d) := by simpa [Event.shares] using hx
    exact .inl ⟨rfl, hi⟩
  | closed | enqueued => cases hx

/-- The producer closes the channel, with nobody left in the `sendq`. -/
private theorem pipes_close (hchans : sh.chans = [m])
    (hfit : (Stage.produce []).Fits vs p m.val sh.log t.id) (hq : m.val.sendq = []) :
    TaskStep.Pipes vs p sh m t
      (t.finish ((sh.setChan 0 { m with
          val := { m.val with closed := true, recvq := [], sendq := [] } }).record
        [.closed 0 t.id m.val.recvq m.val.sendq])
        (m.val.recvq ++ m.val.sendq.map (·.taskId)) (.close 0) .closed) := by
  obtain ⟨hi, -, hv⟩ := hfit
  rw [List.append_nil] at hv
  cases hids : m.val.recvq ++ m.val.sendq.map (·.taskId) with
  -- with nobody to wake the call ends in this section
  | nil =>
    refine pipes_move { m.val with closed := true, recvq := [], sendq := [] } hchans
      (by rw [Task.finish, Shared.record_record]) ?_ ?_
    · constructor <;>
        simp [ChanInner.Exhausted, hi, hq, Event.commits, Event.drains, Event.shares]
    · refine ⟨hi, rfl, ?_⟩
      rw [← hv]
      simp [Event.commits]
  | cons id ids =>
    refine pipes_move _ hchans rfl ?_ ⟨by simp, hi, rfl, ?_⟩
    · constructor <;>
        simp [ChanInner.Exhausted, hi, hq, Event.commits, Event.drains, Event.shares]
    · rw [← hv]
      simp [Event.commits]

/-- The section of a `send`, a `recv` or the `close`. -/
private theorem pipes_channel (hs : TaskStep (pipeline V) ch free sh t e)
    (hk : (pipeline V).kind t.code = .channel) (hchans : sh.chans = [m])
    (hpo : m.poisoned = false) (hinv : m.val.Inv) (hfit : t.code.Fits vs p m.val sh.log t.id)
    (hsend : t.code = .user (.produce []) → m.val.sendq = []) : TaskStep.Pipes vs p sh m t e := by
  cases hs with
  | chanPoisoned hs hm hp => exact (not_chanPanic hchans hpo hfit hs hm (.inl hp)).elim
  | chanClosed hs hm _ hcl hsec =>
    exact (not_chanPanic hchans hpo hfit hs hm (.inr ⟨hcl, hsec⟩)).elim
  | recvUnwrap hc hx hm hp hq hcap hb =>
    obtain ⟨-, rfl, -⟩ := pipeline_recv hx
    obtain rfl := chan_eq hchans hm
    exact absurd hb (hinv.buf_ne_nil (by rw [hq]; simp) hcap)
  -- the producer
  | sendDelivered hc hx hm hp hcl hq =>
    obtain ⟨rest, rfl, rfl, rfl, rfl⟩ := pipeline_send hx
    obtain rfl := chan_eq hchans hm
    rw [hc] at hfit
    exact pipes_send _ hchans hfit rfl hcl (by simp)
      (fun r hr => by cases hr; rw [hq]; exact List.mem_cons_self) fun _ h => ⟨by simp, h⟩
  | sendBuffered hc hx hm hp hcl hq hb =>
    obtain ⟨rest, rfl, rfl, rfl, rfl⟩ := pipeline_send hx
    obtain rfl := chan_eq hchans hm
    rw [hc] at hfit
    exact pipes_send _ hchans hfit rfl hcl (by simp [Event.aside]) (by simp) fun _ h => h
  | sendEnqueued hc hx hm hp hcl hq hb =>
    obtain ⟨rest, rfl, rfl, rfl, rfl⟩ := pipeline_send hx
    obtain rfl := chan_eq hchans hm
    rw [hc] at hfit
    exact pipes_send _ hchans hfit rfl hcl (by simp) (by simp) fun _ h => ⟨rfl, rest, rfl, h⟩
  | close hc hx hm hp hcl =>
    obtain ⟨rfl, rfl, rfl, rfl⟩ := pipeline_close hx
    obtain rfl := chan_eq hchans hm
    have hq := hsend hc
    rw [hc] at hfit
    exact pipes_close hchans hfit hq
  -- the consumers
  | recvTake hc hx hm hp hq =>
    obtain ⟨rfl, rfl, rfl, rfl⟩ := pipeline_recv hx
    obtain rfl := chan_eq hchans hm
    rw [hc] at hfit
    have hcl := (hinv.sendq (by rw [hq]; simp)).2
    exact pipes_recv _ hchans hfit (fun h => absurd (hcl.symm.trans h.1) (by decide)) rfl rfl
      (by simp) fun _ => ⟨by simp, hfit⟩
  | recvRefill hc hx hm hp hq =>
    obtain ⟨rfl, rfl, rfl, rfl⟩ := pipeline_recv hx
    obtain rfl := chan_eq hchans hm
    rw [hc] at hfit
    have hcl := (hinv.sendq (by rw [hq]; simp)).2
    exact pipes_recv _ hchans hfit (fun h => absurd (hcl.symm.trans h.1) (by decide)) rfl rfl
      (by simp) fun _ => ⟨by simp, hfit⟩
  | recvBuf hc hx hm hp hq hb =>
    obtain ⟨rfl, rfl, rfl, rfl⟩ := pipeline_recv hx
    obtain rfl := chan_eq hchans hm
    rw [hc] at hfit
    refine pipes_recv _ hchans hfit (fun h => ?_) rfl rfl (by simp [Event.aside]) fun _ =>
      Code.fits_next hfit (by simp)
    rw [h.2] at hb
    cases hb
  | recvEnqueued hc hx hm hp hcl =>
    obtain ⟨rfl, rfl, rfl, rfl⟩ := pipeline_recv hx
    obtain rfl := chan_eq hchans hm
    rw [hc] at hfit
    exact pipes_recv _ hchans hfit (fun h => absurd (hcl.symm.trans h.1) (by decide)) rfl rfl
      (by simp) fun _ => ⟨rfl, rfl, hfit⟩
  | @recvClosed x c k hd m₀ hc hx hm hp hcl hq hb =>
    obtain ⟨rfl, rfl, rfl, rfl⟩ := pipeline_recv hx
    obtain rfl := chan_eq hchans hm
    rw [hc] at hfit
    refine ⟨m, [.received 0 t.id .closed, .returned t.id (.recv 0 none)], hchans, rfl, rfl, ?_, ?_⟩
    · constructor <;>
        simp [ChanInner.Exhausted, hcl, hb, Event.commits, Event.drains, Event.shares]
    · rintro u ⟨⟩
      exact ⟨rfl, fun _ => Code.fits_next hfit (by simp)⟩
  | groupPanic hc hx =>
    rcases hx with ⟨d, hx⟩ | hx <;> cases (Program.kind_user hc hx).symm.trans hk
  | _ =>
    rw [‹t.code = _›] at hk
    first | cases hk | cases (congrArg Op.kind ‹(pipeline V).code _ = _›).symm.trans hk

/-- A later step of a call: what is left of it has nothing to do with the channel. -/
private theorem pipes_inside (hs : TaskStep (pipeline V) ch free sh t e)
    (hk : (pipeline V).kind t.code = .inside) (hchans : sh.chans = [m])
    (hfit : t.code.Fits vs p m.val sh.log t.id) : TaskStep.Pipes vs p sh m t e := by
  cases hs with
  -- a closure of the pipeline does none of these
  | goPush _ hc | sleepPush hc | registerRead hc | unregister hc | spawnWorker _ hc
  | threadSpawn hc | blocking hc =>
    rw [hc] at hfit
    exact hfit.elim
  | entry hc =>
    rw [hc] at hfit
    exact pipes_aside [.entered t.id] hchans rfl rfl (by simp [Event.aside]) rfl rfl
      fun _ => Stage.Fits.aside hfit (by simp [Event.aside])
  | wakeNil hc =>
    rw [hc] at hfit
    exact pipes_aside [] hchans rfl (by simp) (by simp) rfl rfl fun _ => hfit.2.aside (by simp)
  | @wakeMore id id' ids ret k _ hc =>
    rw [hc] at hfit
    obtain ⟨es, hl, hes⟩ := goready_ofWorker sh (.task t.id) id
    have haside : ∀ ev ∈ es, ev.aside = true := fun ev hev => aside_of_ofWorker (hes ev hev)
    exact pipes_aside es ((goready_chans _ _ _).trans hchans) (goready_aborted _ _ _) hl haside rfl
      rfl fun _ => ⟨hfit.1, hfit.2.aside haside⟩
  | @wakeLast id ret k _ hc =>
    rw [hc] at hfit
    obtain ⟨es, hl, hes⟩ := goready_ofWorker sh (.task t.id) id
    have haside : ∀ ev ∈ es ++ [.returned t.id ret], ev.aside = true := by
      intro ev hev
      rcases List.mem_append.mp hev with hev | hev
      · exact aside_of_ofWorker (hes ev hev)
      · rw [List.mem_singleton.mp hev]
        have hret := hfit.1
        cases ret with
        | recv c o =>
          cases o with
          | none => exact absurd rfl (hret c)
          | some v => rfl
        | _ => rfl
    refine pipes_aside (es ++ [.returned t.id ret]) ((goready_chans _ _ _).trans hchans)
      (goready_aborted _ _ _) ?_ haside rfl rfl fun _ => hfit.2.aside haside
    show (sh.goready _ id).1.log ++ _ = _
    rw [hl, List.append_assoc]
  | park hc =>
    rw [hc] at hfit
    refine pipes_aside [] hchans rfl (by simp) (by simp) rfl rfl fun _ => ?_
    rw [List.append_nil]
    exact hfit
  | chanPoisoned hs | chanClosed hs => rcases hs.kind with hc | hc <;> cases hc.symm.trans hk
  | groupPanic hc hx =>
    rcases hx with ⟨d, hx⟩ | hx <;> cases (Program.kind_user hc hx).symm.trans hk
  | _ =>
    rw [‹t.code = _›] at hk
    first | cases hk | cases (congrArg Op.kind ‹(pipeline V).code _ = _›).symm.trans hk

/-- The step after `gopark`: the producer goes on, and a consumer collects its value, or learns that
    the channel is exhausted. -/
private theorem pipes_resume (hs : TaskStep (pipeline V) ch free sh t e)
    (hk : (pipeline V).kind t.code = .resume) (hchans : sh.chans = [m])
    (hpo : m.poisoned = false) (hfit : t.code.Fits vs p m.val sh.log t.id)
    (hnone : ∀ k h, t.code = .parked (.recv 0 k h) → m.val.delivered.lookup t.id = none →
      m.val.Exhausted) : TaskStep.Pipes vs p sh m t e := by
  cases hs with
  | chanPoisoned hs hm hp => exact (not_chanPanic hchans hpo hfit hs hm (.inl hp)).elim
  | chanClosed hs hm _ hcl hsec =>
    exact (not_chanPanic hchans hpo hfit hs hm (.inr ⟨hcl, hsec⟩)).elim
  | resumeSleep hc | resumeWait hc | resumeNet hc | resumeGopark hc =>
    rw [hc] at hfit
    exact hfit.elim
  | @resumeSend c k hd m₀ hc =>
    rw [hc] at hfit
    obtain ⟨-, rest, -, hfit⟩ := hfit
    exact pipes_aside [.returned t.id (.send c)] hchans rfl rfl (by simp [Event.aside]) rfl rfl
      fun _ => Stage.Fits.aside hfit (by simp [Event.aside])
  | resumeRecv hc hm hp =>
    have hcode := hc
    rw [hc] at hfit
    obtain ⟨rfl, rfl, hne⟩ := hfit
    obtain rfl := chan_eq hchans hm
    have hex := hnone _ _ hcode
    refine pipes_move _ hchans rfl ?_ (Code.fits_next hne fun h => by simp [h])
    constructor <;> simp [ChanInner.Exhausted, Event.commits, Event.drains, Event.shares]
    exact fun h => hex h.symm
  | groupPanic hc hx =>
    rcases hx with ⟨d, hx⟩ | hx <;> cases (Program.kind_user hc hx).symm.trans hk
  | _ =>
    rw [‹t.code = _›] at hk
    first | cases hk | cases (congrArg Op.kind ‹(pipeline V).code _ = _›).symm.trans hk

/-- The only other call is the end of a closure. -/
private theorem pipes_done (hs : TaskStep (pipeline V) ch free sh t e)
    (hk : (pipeline V).kind t.code = .call) (hchans : sh.chans = [m])
    (hfit : t.code.Fits vs p m.val sh.log t.id) : TaskStep.Pipes vs p sh m t e := by
  cases hs with
  | done hc hx =>
    refine ⟨m, [.died t.id], hchans, rfl, rfl, ?_, ?_⟩
    · rw [hc] at hfit
      constructor <;> simp [Event.commits, Event.drains, Event.shares]
      rcases pipeline_done hx with rfl | rfl
      · exact ⟨fun _ => ⟨hfit.2.1, hfit.2.2⟩, fun hne => absurd hfit.1 hne⟩
      · exact ⟨fun hi => absurd hi hfit.1, fun _ => hfit.2⟩
    · rintro u ⟨⟩
      exact ⟨rfl, fun h => absurd rfl h⟩
  | go _ hx | gosched _ hx | currentTaskId _ hx | sleep _ hx | sleepOverflow _ hx | netFail _ hx
  | netAdd _ hx | ioSpawn _ _ hx | ioBlock _ _ hx | gopark _ hx | goready _ _ hx =>
    cases pipeline_onChan hx
  | chanPoisoned hs | chanClosed hs => rcases hs.kind with hc | hc <;> cases hc.symm.trans hk
  | groupPanic hc hx =>
    rcases hx with ⟨d, hx⟩ | hx <;> cases (Program.kind_user hc hx).symm.trans hk
  | _ =>
    rw [‹t.code = _›] at hk
    first | cases hk | cases (congrArg Op.kind ‹(pipeline V).code _ = _›).symm.trans hk

/-- **The step of a task seen from the pipeline.** -/
theorem TaskStep.pipes (hs : TaskStep (pipeline V) ch free sh t e) (hchans : sh.chans = [m])
    (hpo : m.poisoned = false) (hinv : m.val.Inv) (hfit : t.code.Fits vs p m.val sh.log t.id)
    (hsend : t.code = .user (.produce []) → m.val.sendq = [])
    (hnone : ∀ k h, t.code = .parked (.recv 0 k h) → m.val.delivered.lookup t.id = none →
      m.val.Exhausted) : TaskStep.Pipes vs p sh m t e := by
  cases hk : (pipeline V).kind t.code with
  | channel => exact pipes_channel hs hk hchans hpo hinv hfit hsend
  | group => exact absurd hk (pipeline_basic.kind_ne_group _)
  | call => exact pipes_done hs hk hchans hfit
  | inside => exact pipes_inside hs hk hchans hfit
  | resume => exact pipes_resume hs hk hchans hpo hfit hnone

end Steps

/-! ### Runs

The invariant puts the points of all tasks together: the producer has committed a prefix of its
list, the channel is closed only when the list is exhausted, and the parked tasks are in the queue
that fits their role.
-/

/-- The state of a pipeline: `m` is the channel, the task `p` sends the values `vs`, and the tasks
    have the ids below `n`. -/
structure State.Piped (vs : List V) (p n : Nat) (m : Chan V) (s : State (Stage V) V) : Prop where
  /-- The program has one channel. -/
  chans : s.sh.chans = [m]
  /-- No panic has happened, -/
  aborted : s.sh.aborted = none
  /-- caught or not. -/
  unpanicked : ∀ i e, .panicked i e ∉ s.sh.log
  /-- Every task is where its closure says. -/
  fits : ∀ t, s.Live t → t.code.Fits vs p m.val s.sh.log t.id
  /-- There are no tasks but the `n` of the main thread. -/
  ids : ∀ i : Nat, .created i ∈ s.sh.log → i < n
  /-- The producer finishes after it has sent everything and closed the channel, -/
  producer : .died p ∈ s.sh.log → m.val.closed = true ∧ committed 0 s.sh.log = vs
  /-- and a consumer after it has seen the end. -/
  consumers : ∀ i, i ≠ p → .died i ∈ s.sh.log → .returned i (.recv 0 none) ∈ s.sh.log
  /-- Who was told the end finds the channel exhausted. -/
  ended : ∀ i, .returned i (.recv 0 none) ∈ s.sh.log → m.val.Exhausted
  /-- No waiting sender was drained. -/
  drained : drained 0 s.sh.log = []
  /-- The values went to consumers. -/
  receivers : ∀ x ∈ shared 0 s.sh.log, x.1 ≠ p ∧ .created x.1 ∈ s.sh.log

section Runs

variable {vs : List V} {p n : Nat} {m : Chan V} {ch : Choice} {s s' : State (Stage V) V} {w : Nat}
  {pc : Pc (Stage V) V} {e : Effect (Stage V) V}

namespace State.Piped

variable (h : s.Piped vs p n m)
include h

/-- The channel `0` is the channel of the pipeline. -/
theorem chan : s.sh.chans[0]? = some m := by
  rw [h.chans]
  rfl

/-- A task that is queued is the producer in the `sendq`, or a consumer in the `recvq`. -/
theorem queued_cases (hd : s.Disciplined) {t : Task (Stage V) V} {src : Source} (ht : s.Live t)
    (hq : s.sh.status t.id = .queued src) :
    (t.id = p ∧ src = .sendq 0) ∨ (t.id ≠ p ∧ src = .recvq 0) := by
  have hag := hd.agree h.aborted t ht
  have hfit := h.fits t ht
  rw [hq] at hag
  cases hc : t.code with
  | park q | parked q =>
    rw [hc] at hag hfit
    obtain ⟨src', hw, hs⟩ := hag
    cases hs
    cases q with
    | send c k hd =>
      obtain ⟨rfl, rest, rfl, hfit⟩ := hfit
      cases src <;> cases hw
      exact .inl ⟨hfit.1, rfl⟩
    | recv c k hd =>
      obtain ⟨rfl, -, hne⟩ := hfit
      cases src <;> cases hw
      exact .inr ⟨hne, rfl⟩
    | _ => exact hfit.elim
  | unregister | _ => rw [hc] at hag hfit; first | exact hfit.elim | cases hag

/-- A parked receiver is a consumer. -/
theorem recvq_ne (hd : s.Disciplined) (hsh : s.Shaped) {r : TaskId} (hr : r ∈ m.val.recvq) :
    r ≠ p ∧ ∃ t, s.Live t ∧ t.id = r := by
  have hq := queued_of_recvq hd.sources h.chan hr
  obtain ⟨t, ht, rfl⟩ := hd.exists_live hsh hq
  rcases h.queued_cases hd ht hq with ⟨-, hsrc⟩ | ⟨hne, -⟩
  · cases hsrc
  · exact ⟨hne, t, ht, rfl⟩

/-- A parked sender is the producer. -/
theorem sendq_eq (hd : s.Disciplined) (hsh : s.Shaped) {x : SendWaiter V} (hx : x ∈ m.val.sendq) :
    s.sh.status p = .queued (.sendq 0) := by
  have hq := queued_of_sendq hd.sources h.chan (List.mem_map_of_mem hx)
  obtain ⟨t, ht, hid⟩ := hd.exists_live hsh hq
  rw [← hid] at hq
  rcases h.queued_cases hd ht hq with ⟨hp, -⟩ | ⟨-, hsrc⟩
  · exact hp ▸ hq
  · cases hsrc

/-- The step rule: what the step does to the channel and the history, to the worker's own task, and
    to no other. -/
theorem of_step {m' : Chan V} {tid : TaskId} {es : List (Event V)} (hsh : s.Shaped)
    (hp : s.Placed) (hw : s.workers[w]? = some pc)
    (hs : WorkerStep (pipeline V) ch (queueFree s.workers) s.sh pc e)
    (hmove : WorkerMove s s' w pc e) (hchans : e.sh.chans = [m']) (ha : e.sh.aborted = none)
    (hl : e.sh.log = s.sh.log ++ es) (hstep : PipeStep vs p m.val m'.val tid s.sh.log es)
    (hrun : ∀ t, pc = .run t → t.id = tid) (hne : (∀ t, pc ≠ .run t) → tid ≠ p)
    (hown : ∀ u, (∃ t, pc = .run t) → e.pc.task? = some u → u.state ≠ .dead →
      u.code.Fits vs p m'.val (s.sh.log ++ es) u.id)
    (hrecv : ∀ x ∈ shared 0 es, x.1 ≠ p ∧ .created x.1 ∈ s.sh.log) : s'.Piped vs p n m' := by
  rw [← hmove.sh] at hchans ha hl
  have hmem : ∀ {ev : Event V}, ev ∈ s'.sh.log → ev ∈ s.sh.log ∨ ev ∈ es := fun hev => by
    rw [hl] at hev
    exact List.mem_append.mp hev
  have hold : ∀ {ev : Event V}, ev ∈ s.sh.log → ev ∈ s'.sh.log := fun hev => by
    rw [hl]
    exact List.mem_append_left _ hev
  -- the producer is not dead while it makes a step
  have hself : .died p ∈ s.sh.log → tid ≠ p := by
    intro hdied
    rcases hs.task_or with ⟨t, rfl, -⟩ | hpc
    · rw [← hrun t rfl]
      rintro rfl
      exact (not_died_of_live hsh hp (.inr ⟨_, List.mem_of_getElem? hw, rfl,
        (hsh.workers _ (List.mem_of_getElem? hw)).run⟩)).2 hdied
    · exact hne hpc
  have hmono : ∀ i (c : Code (Stage V) V), i ≠ tid → c.Fits vs p m.val s.sh.log i →
      c.Fits vs p m'.val s'.sh.log i := by
    intro i c hi hc
    rw [hl]
    refine hc.mono fun hip => hstep.others ?_
    rintro rfl
    exact hi hip
  refine ⟨hchans, ha, fun i ev hev => ?_, fun t ht => ?_, fun i hi => ?_, fun hdied => ?_,
    fun i hi hdied => ?_, fun i hi => ?_, ?_, fun x hx => ?_⟩
  · rcases hmem hev with hev | hev
    · exact h.unpanicked i ev hev
    · exact hstep.unpanicked i ev hev
  · refine ht.worker (J := fun i c => c.Fits vs p m'.val s'.sh.log i) hsh hp hw hs hmove h.fits
      (fun u hpc hu hdead => ?_) (fun i c hi hc => ?_) fun i f _ _ hgo => ?_
    · rw [hl]
      exact hown u hpc hu hdead
    · rcases hs.task_or with ⟨t, rfl, -⟩ | hpc
      · exact hmono i c (hrun t rfl ▸ (hi t rfl).symm) hc
      · rw [hl]
        exact hc.mono fun _ => hstep.others (hne hpc)
    · obtain ⟨t, k, rfl, hc⟩ := hgo
      have hfit := h.fits t (.inr ⟨_, List.mem_of_getElem? hw, rfl,
        (hsh.workers _ (List.mem_of_getElem? hw)).run⟩)
      rw [hc] at hfit
      exact hfit.elim
  · rcases hmem hi with hi | hi
    · exact h.ids i hi
    · exact absurd hi (hstep.created i)
  · rcases hmem hdied with hdied | hdied
    · obtain ⟨hcl, hes⟩ := hstep.others (hself hdied)
      obtain ⟨hcl', hv⟩ := h.producer hdied
      rw [hl, committed_append_nil hes]
      exact ⟨hcl.trans hcl', hv⟩
    · rw [hl]
      exact (hstep.died p hdied).2.1 rfl
  · rcases hmem hdied with hdied | hdied
    · exact hold (h.consumers i hi hdied)
    · exact hold ((hstep.died i hdied).2.2 hi)
  · rcases hmem hi with hi | hi
    · exact hstep.exhausted (h.ended i hi)
    · exact hstep.ended i hi
  · show gather _ s'.sh.log = []
    rw [hl, gather_append, show gather _ s.sh.log = [] from h.drained, List.nil_append]
    exact hstep.drained
  · have hx' : x ∈ shared 0 s.sh.log ++ shared 0 es := by
      rw [← show gather (Event.shares 0) (s.sh.log ++ es) = _ from gather_append _ _ _, ← hl]
      exact hx
    rcases List.mem_append.mp hx' with hx | hx
    · exact ⟨(h.receivers x hx).1, hold (h.receivers x hx).2⟩
    · exact ⟨(hrecv x hx).1, hold (hrecv x hx).2⟩

/-- **A step of a worker keeps the invariant.** -/
theorem worker (hr : (runtime (pipeline V)).Reachable s) (hw : s.workers[w]? = some pc)
    (hs : WorkerStep (pipeline V) ch (queueFree s.workers) s.sh pc e)
    (hmove : WorkerMove s s' w pc e) : ∃ m', s'.Piped vs p n m' := by
  have hd := reach_disciplined_basic pipeline_basic hr
  have hsh := reach_shaped hr
  have hp := reach_placed hr
  have hmem := List.mem_of_getElem? hw
  rcases hs.task_or with ⟨t, rfl, htask⟩ | hpc
  · have hlive : s.Live t := .inr ⟨_, hmem, rfl, (hsh.workers _ hmem).run⟩
    have hborn := not_died_of_live hsh hp hlive
    have hinv := reach_chanInv hr h.chan
    have hag := hd.agree h.aborted t hlive
    -- the sender of a waiter is parked, so the producer finds the `sendq` empty
    have hsend : t.code = .user (.produce []) → m.val.sendq = [] := by
      intro hc
      have hfit := h.fits t hlive
      rw [hc] at hag hfit
      obtain ⟨hid, -⟩ := hfit
      refine List.eq_nil_iff_forall_not_mem.mpr fun x hx => ?_
      have hq := h.sendq_eq hd hsh hx
      rw [← hid, show s.sh.status t.id = .idle from hag] at hq
      cases hq
    obtain ⟨m', es, hchans, ha, hl, hstep, hown⟩ := htask.pipes h.chans
      (reach_unpoisoned pipeline_uncaught hr h.aborted m (by rw [h.chans]; simp)) hinv
      (h.fits t hlive) hsend fun k hd' hc => recv_none_exhausted pipeline_basic pipeline_uncaught
        hr h.aborted hw hc h.chan
    refine ⟨m', h.of_step hsh hp hw (.run htask) hmove hchans (ha.trans h.aborted) hl hstep
      (by rintro u ⟨⟩; rfl) (fun hne => absurd rfl (hne t)) (fun u _ hu hdead => ?_)
      fun x hx => ?_⟩
    · obtain ⟨hid, hfit⟩ := hown u hu
      rw [hid]
      exact hfit hdead
    · rcases hstep.receivers x hx with ⟨hx, hne⟩ | hx
      · rw [hx]
        exact ⟨hne, hborn.1⟩
      · obtain ⟨hne, u, hu, hid⟩ := h.recvq_ne hd hsh hx
        exact ⟨hne, hid ▸ (not_died_of_live hsh hp hu).1⟩
  · have hsame := hs.sameChans hpc
    obtain ⟨es, hl, hes⟩ := hsame.log
    have haside : ∀ ev ∈ es, ev.aside = true := fun ev hev => aside_of_ofWorker (hes ev hev)
    refine ⟨m, h.of_step hsh hp hw hs hmove (hsame.chans.trans h.chans)
      ((hs.aborted hpc).trans h.aborted) hl (.of_aside haside m.val (p + 1))
      (fun t ht => absurd ht (hpc t)) (fun _ => (Nat.lt_succ_self p).ne')
      (fun u hu => absurd hu (not_exists.mpr hpc)) fun x hx => ?_⟩
    obtain ⟨ev, hev, hx⟩ := List.mem_flatMap.mp hx
    rw [(Event.aside.gathers (haside ev hev)).2.2] at hx
    cases hx

end State.Piped

/-- The task that the main thread is about to queue: its closure, and that nothing has happened
    yet but the creation of tasks. -/
theorem State.Launched.of_goPush {σ : Type} {s : State σ V} {gos : List σ} {ns : List Nat}
    {chans : List (Chan V)} (h : s.Launched gos ns chans) {i : TaskId} {f : σ}
    (hm : s.main.pc = .goPush i f) :
    gos[i]? = some f ∧ s.sh.chans = chans ∧ ∀ e ∈ s.sh.log, ∃ i, e = .created i := by
  cases h with
  | pushing hw hlog hdone hchans hm' => rw [hm'] at hm; cases hm
  | goPush hw hlog hdone hchans hf hm' => rw [hm'] at hm; cases hm; exact ⟨hf, hchans, hlog⟩
  | started hdone hm' => rw [hm] at hm'; cases hm'

/-- The main thread and the environment keep the invariant. -/
theorem State.Piped.outer {a b : Nat} {ns : List Nat} {chans : List (Chan V)}
    (h : s.Piped vs a (a + b + 1) m) (hlaunch : s.Launched (pipelineTasks vs a b) ns chans)
    (hopen : ∀ m ∈ chans, m.val.closed = false) (ho : OuterStep s s') (hmove : OuterMove s s') :
    s'.Piped vs a (a + b + 1) m := by
  -- all that is logged is the creation of tasks
  obtain ⟨es, hl, hes, hnew⟩ : ∃ es, s'.sh.log = s.sh.log ++ es ∧
      (∀ ev ∈ es, ∃ i, ev = .created i) ∧
      ∀ i, .created i ∈ es → ∃ f, s.main.pc = .goPush i f := by
    cases ho with
    | go hsh => exact ⟨[], by rw [hsh, List.append_nil], by simp, by simp⟩
    | @push id f hsh _ _ hpc => exact ⟨[.created id], by rw [hsh]; rfl, by simp, by simpa using ⟨f, hpc⟩⟩
    | same hsh => exact ⟨[], by rw [hsh.log, List.append_nil], by simp, by simp⟩
  have hchans : s'.sh.chans = s.sh.chans := by
    cases ho with
    | go hsh => rw [hsh]
    | push hsh => rw [hsh]; rfl
    | same hsh => exact hsh.chans
  have hgather : ∀ {β : Type} (f : Event V → List β) (log : List (Event V)), (∀ i, f (.created i) = []) →
      (∀ ev ∈ log, ∃ i, ev = .created i) → gather f log = [] := fun f log hf hlog =>
    List.flatMap_eq_nil_iff.mpr fun ev hev => by
      obtain ⟨i, rfl⟩ := hlog ev hev
      exact hf i
  have hold : ∀ {ev : Event V}, ev ∈ s'.sh.log → (∀ i, ev ≠ .created i) → ev ∈ s.sh.log := by
    intro ev hev hne
    rw [hl] at hev
    rcases List.mem_append.mp hev with hev | hev
    · exact hev
    · obtain ⟨i, rfl⟩ := hes ev hev
      exact absurd rfl (hne i)
  have hsame : ∀ {β : Type} (f : Event V → List β), (∀ i, f (.created i) = []) →
      gather f s'.sh.log = gather f s.sh.log := fun f hf => by
    rw [hl, gather_append, hgather f es hf hes, List.append_nil]
  refine ⟨hchans.trans h.chans, ho.aborted.trans h.aborted,
    fun i ev hev => h.unpanicked i ev (hold hev (by simp)), fun t ht => ?_, fun i hi => ?_,
    fun hdied => ?_, fun i hi hdied => ?_, fun i hi => h.ended i (hold hi (by simp)), ?_,
    fun x hx => ?_⟩
  · refine ht.outer (J := fun i c => c.Fits vs a m.val s'.sh.log i) ho hmove h.fits
      (fun i c hc => ?_) fun i f hpc => ?_
    · rw [hl]
      exact hc.mono fun _ => ⟨rfl, hgather _ _ (fun _ => rfl) hes⟩
    · -- the task that main is about to queue: nothing has been sent yet
      obtain ⟨hf, hch, hlog⟩ := hlaunch.of_goPush hpc
      rcases pipelineTasks_getElem? hf with ⟨rfl, rfl⟩ | ⟨hne, rfl⟩
      · refine ⟨rfl, hopen m (by rw [← hch, h.chans]; simp), ?_⟩
        rw [show committed 0 s'.sh.log = _ from hsame _ fun _ => rfl,
          hgather _ _ (fun _ => rfl) hlog, List.nil_append]
      · exact hne
  · rw [hl] at hi
    rcases List.mem_append.mp hi with hi | hi
    · exact h.ids i hi
    · obtain ⟨f, hpc⟩ := hnew i hi
      have := (List.getElem?_eq_some_iff.mp (hlaunch.of_goPush hpc).1).1
      rwa [length_pipelineTasks] at this
  · rw [show committed 0 s'.sh.log = _ from hsame _ fun _ => rfl]
    exact h.producer (hold hdied (by simp))
  · rw [hl]
    exact List.mem_append_left _ (h.consumers i hi (hold hdied (by simp)))
  · exact (hsame _ fun _ => rfl).trans h.drained
  · rw [show shared 0 s'.sh.log = _ from hsame _ fun _ => rfl] at hx
    rw [hl]
    exact ⟨(h.receivers x hx).1, List.mem_append_left _ (h.receivers x hx).2⟩

/-- Where the runs of `pipeline_spec` start: the main thread has made a channel of capacity `cap`;
    it is about to queue the tasks, and to start the runtime with the thread counts `ns`. -/
def pipelineStart (vs : List V) (cap a b : Nat) (ns : List Nat) : State (Stage V) V :=
  .initial [cap] 0 (launch (pipelineTasks vs a b) ns)

/-- The runs of the producer and its consumers. -/
def pipelineRun (vs : List V) (cap a b : Nat) (ns : List Nat) : System (State (Stage V) V) Act :=
  (runtime (pipeline V)).startingAt (pipelineStart vs cap a b ns)

/-- They are runs of the runtime. -/
theorem pipelineRun_reachable {cap a b : Nat} {ns : List Nat}
    (hr : (pipelineRun vs cap a b ns).Reachable s) : (runtime (pipeline V)).Reachable s :=
  System.startingAt_reach (show (runtime (pipeline V)).init (pipelineStart vs cap a b ns) from
    ⟨[cap], 0, _, rfl⟩) hr

/-- **The invariant**, in every state reached. -/
theorem reach_piped {cap a b : Nat} {ns : List Nat}
    (hr : (pipelineRun vs cap a b ns).Reachable s) : ∃ m, s.Piped vs a (a + b + 1) m := by
  refine hr.invariant (I := fun s => ∃ m, s.Piped vs a (a + b + 1) m) ?_ ?_
  · rintro s rfl
    refine ⟨Chan.withCapacity V cap, rfl, rfl, ?_, fun t ht => ?_, ?_, ?_, ?_, ?_, rfl, ?_⟩ <;>
      try simp [pipelineStart, State.initial]
    rcases ht with (ht | ⟨i, ht⟩) | ⟨pc, hpc, -⟩
    · cases ht
    · simp [pipelineStart, State.initial, GlobalQueue.new] at ht
    · cases hpc
  · rintro s s' act hr ⟨m, h⟩ hn
    rcases (next_inv hn).2.cases with ⟨w, ch, pc, e, rfl, hw, hs, hmove⟩ | ⟨ho, hmove⟩
    · exact h.worker (pipelineRun_reachable hr) hw hs hmove
    · exact ⟨m, h.outer (reach_launched hr) (by simp [Chan.withCapacity]) ho hmove⟩

end Runs

/-! ### Nobody is stuck

If nobody were active, all unfinished tasks would be in the channel's queues. The producer would
wait in the `sendq`, and then no consumer could wait, or have finished; or it would have finished,
and then the channel is closed and nobody waits on it.
-/

/-- The task `i` is running or runnable, or about to be made runnable: it is live and in no park that
    waits to be woken, or somebody owes it a `goready`, or it has a token. -/
def State.Active {σ V : Type} (s : State σ V) (i : TaskId) : Prop :=
  (∃ t, s.Live t ∧ t.id = i ∧ ¬ s.Parking i) ∨ 0 < s.total (Pc.owed i) ∨
    i ∈ s.sh.queue.pendingReady

/-- A live task that is not active is queued somewhere. -/
theorem State.Disciplined.queued_of_inactive {σ V : Type} {s : State σ V} (h : s.Disciplined)
    {t : Task σ V} (ht : s.Live t) (hn : ¬ s.Active t.id) : ∃ src, s.sh.status t.id = .queued src := by
  have hpark : s.Parking t.id := by
    by_contra hp
    exact hn (.inl ⟨t, ht, rfl, hp⟩)
  have howed : s.total (Pc.owed t.id) = 0 := by
    by_contra ho
    exact hn (.inr (.inl (Nat.pos_of_ne_zero ho)))
  have htok : s.sh.queue.token t.id = 0 := if_neg fun hmem => hn (.inr (.inr hmem))
  have hopen := parking_iff.mp hpark
  have hbal := h.balance t.id
  unfold State.causes Shared.queued at hbal
  cases hst : s.sh.status t.id with
  | queued src => exact ⟨src, rfl⟩
  | idle | released =>
    simp only [hst, Status.queue?, Option.isSome_none, Bool.false_eq_true, if_false] at hbal
    omega

section Spec

variable {vs : List V} {cap a b : Nat} {ns : List Nat} {s : State (Stage V) V} {m : Chan V}

/-- Once a task waits somewhere, all tasks have been created. -/
theorem State.Launched.all_created {σ : Type} {s : State σ V} {gos : List σ} {chans : List (Chan V)}
    (h : s.Launched gos ns chans) {j : TaskId} {src : Source}
    (hq : s.sh.status j = .queued src) : ∀ i < gos.length, .created i ∈ s.sh.log := by
  have hidle : (∀ e ∈ s.sh.log, ∃ i, e = .created i) → s.sh.status j = .idle := fun hlog =>
    foldl_neutral (fun e he => by obtain ⟨i, rfl⟩ := hlog e he; exact fun _ _ => rfl) j .idle
  cases h with
  | pushing _ hlog | goPush _ hlog => rw [hidle hlog] at hq; cases hq
  | started hdone => exact hdone

namespace State.Piped

variable {p n : Nat}

/-- If nobody is active, an unfinished task is the producer in the `sendq`, or a consumer in the
    `recvq`. -/
theorem waits (h : s.Piped vs p n m) (hr : (runtime (pipeline V)).Reachable s)
    (hno : ∀ j, ¬ s.Active j) {i : TaskId} (hc : .created i ∈ s.sh.log)
    (hdied : .died i ∉ s.sh.log) :
    ∃ src, s.sh.status i = .queued src ∧
      ((i = p ∧ m.val.sendq ≠ []) ∨ (i ≠ p ∧ m.val.recvq ≠ [])) := by
  have hd := reach_disciplined_basic pipeline_basic hr
  obtain ⟨t, ht, rfl⟩ := live_of_created (reach_shaped hr) (reach_placed hr) hc hdied
  obtain ⟨src, hq⟩ := hd.queued_of_inactive ht (hno t.id)
  refine ⟨src, hq, ?_⟩
  have hone : src.isFd = false → s.sh.entries src t.id = 1 := fun hf => by
    rw [hd.sources.entries src t.id hf, hq]
    exact if_pos rfl
  rcases h.queued_cases hd ht hq with ⟨hp, rfl⟩ | ⟨hp, rfl⟩
  · refine .inl ⟨hp, fun hnil => ?_⟩
    have := hone rfl
    rw [entries_sendq h.chan, hnil] at this
    cases this
  · refine .inr ⟨hp, fun hnil => ?_⟩
    have := hone rfl
    rw [entries_recvq h.chan, hnil] at this
    cases this

end State.Piped

/-- There is a consumer. -/
theorem exists_consumer (hm : 0 < a + b) : ∃ j, j ≤ a + b ∧ j ≠ a := by
  by_cases h0 : a = 0
  · exact ⟨1, by omega, by omega⟩
  · exact ⟨0, by omega, by omega⟩

/-- **While a task is unfinished, some task is active.** -/
theorem pipeline_not_stuck (hm : 0 < a + b) (hr : (pipelineRun vs cap a b ns).Reachable s)
    {i : TaskId} (hc : .created i ∈ s.sh.log) (hdied : .died i ∉ s.sh.log) : ∃ j, s.Active j := by
  by_contra hno
  have hno : ∀ j, ¬ s.Active j := fun j hj => hno ⟨j, hj⟩
  have hr' := pipelineRun_reachable hr
  obtain ⟨m, h⟩ := reach_piped hr
  have hinv := reach_chanInv hr' h.chan
  obtain ⟨src, hq, hi⟩ := h.waits hr' hno hc hdied
  have hall : ∀ j, j ≤ a + b → .created j ∈ s.sh.log := fun j hj =>
    (reach_launched hr).all_created hq j (by rw [length_pipelineTasks]; omega)
  -- an open channel with nobody active: the producer waits in the `sendq`, and so nobody can wait
  -- in the `recvq`
  have hopen : m.val.closed = false := by
    rcases hi with ⟨-, hs⟩ | ⟨-, hrecv⟩
    · exact (hinv.sendq hs).2
    · exact (hinv.recvq hrecv).2.2
  have hproducer : m.val.sendq ≠ [] := by
    have hdied : .died a ∉ s.sh.log := fun hd => by
      rw [(h.producer hd).1] at hopen
      cases hopen
    obtain ⟨-, -, hw⟩ := h.waits hr' hno (hall a (by omega)) hdied
    rcases hw with ⟨-, hs⟩ | ⟨hne, -⟩
    · exact hs
    · exact absurd rfl hne
  obtain ⟨j, hj, hja⟩ := exists_consumer hm
  have hdied : .died j ∉ s.sh.log := fun hd => by
    rw [(h.ended j (h.consumers j hja hd)).1] at hopen
    cases hopen
  obtain ⟨-, -, hw⟩ := h.waits hr' hno (hall j hj) hdied
  rcases hw with ⟨hp, -⟩ | ⟨-, hrecv⟩
  · exact hja hp
  · exact hproducer (hinv.recvq hrecv).2.1

/-! ### The specification

When all tasks have finished, the channel is closed and drained, so what was committed was matched;
the order law makes it one list, and the shares of the consumers are its parts.
-/

/-- What is left when all tasks have finished. -/
theorem pipeline_result (hm : 0 < a + b) (hr : (pipelineRun vs cap a b ns).Reachable s)
    (hall : ∀ i ≤ a + b, .died i ∈ s.sh.log) :
    ∃ xs : List (TaskId × V), xs.map (·.2) = vs ∧ (∀ x ∈ xs, x.1 ≠ a ∧ x.1 ≤ a + b) ∧
      ∀ i, receivedBy 0 i s.sh.log = shareOf i xs := by
  have hr' := pipelineRun_reachable hr
  obtain ⟨m, h⟩ := reach_piped hr
  have hids : ∀ {i : TaskId}, .created i ∈ s.sh.log → i ≤ a + b := fun hc =>
    Nat.lt_succ_iff.mp (h.ids _ hc)
  refine ⟨shared 0 s.sh.log, ?_, fun x hx => ⟨(h.receivers x hx).1, hids (h.receivers x hx).2⟩,
    fun i => ?_⟩
  · -- some consumer has seen the end, so nothing is left in the channel
    obtain ⟨j, hj, hja⟩ := exists_consumer hm
    obtain ⟨hcl, hbuf⟩ := h.ended j (h.consumers j hja (hall j hj))
    have hsendq := ((reach_chanInv hr' h.chan).queues_nil_of_closed hcl).2
    have hfifo := (reach_fifo hr' h.chan).values
    rw [hbuf, hsendq, h.drained] at hfifo
    rw [map_snd_shared, ← (h.producer (hall a (by omega))).2, ← hfifo]
    simp
  · obtain ⟨f, hacc, hf⟩ := reach_received pipeline_basic pipeline_uncaught hr' 0 i
    obtain rfl : f = [] := by
      by_contra hne
      exact (hf hne).2 (hall i (hids (hf hne).1))
    rw [← hacc, List.append_nil]

/-- **A producer and its consumers.**  For any list `vs` of values, any capacity and any consumers,
    `a` of them started before the producer and `b` after it, and any interleaving: no operation
    panics; while a task is unfinished, some task is running, runnable or about to be woken; and
    once all tasks have finished, the consumers have received the values, each value once and each
    consumer its values in order.  A single consumer has received the whole list. -/
theorem pipeline_spec (vs : List V) (cap a b : Nat) (ns : List Nat) (hm : 0 < a + b)
    {s : State (Stage V) V} (hr : (pipelineRun vs cap a b ns).Reachable s) :
    (s.sh.aborted = none ∧ ∀ i e, .panicked i e ∉ s.sh.log) ∧
    (∀ i, .created i ∈ s.sh.log → .died i ∉ s.sh.log → ∃ j, s.Active j) ∧
    ((∀ i ≤ a + b, .died i ∈ s.sh.log) →
      (∃ xs : List (TaskId × V), xs.map (·.2) = vs ∧ (∀ x ∈ xs, x.1 ≠ a ∧ x.1 ≤ a + b) ∧
        ∀ i, receivedBy 0 i s.sh.log = shareOf i xs) ∧
      (a + b = 1 → receivedBy 0 (1 - a) s.sh.log = vs)) := by
  obtain ⟨m, h⟩ := reach_piped hr
  refine ⟨⟨h.aborted, h.unpanicked⟩, fun i hc hd => pipeline_not_stuck hm hr hc hd, fun hall => ?_⟩
  obtain ⟨xs, hvs, hids, hrecv⟩ := pipeline_result hm hr hall
  refine ⟨⟨xs, hvs, hids, hrecv⟩, fun hone => ?_⟩
  have honly : ∀ i : Nat, i ≠ a → i ≤ a + b → i = 1 - a := fun i h1 h2 => by omega
  rw [hrecv, shareOf, List.filter_eq_self.mpr fun x hx => ?_, hvs]
  exact decide_eq_true (honly x.1 (hids x hx).1 (hids x hx).2)

end Spec

/-- Two consumers, one started before the producer of `[7, 8, 9]` and one after it, on a single
    worker and a channel without a buffer: the first receives `7`, and the second the others. -/
theorem pipeline_spec_shared :
    ∃ s, (pipelineRun [7, 8, 9] 0 1 1 [1]).run
        (List.replicate 8 (Act.main {}) ++ List.replicate 41 (Act.worker 0 {}))
        (pipelineStart [7, 8, 9] 0 1 1 [1]) = some s ∧
      receivedBy 0 0 s.sh.log = [7] ∧ receivedBy 0 2 s.sh.log = [8, 9] ∧
      ∃ xs : List (TaskId × Nat), xs.map (·.2) = [7, 8, 9] ∧ (∀ x ∈ xs, x.1 ≠ 1 ∧ x.1 ≤ 2) ∧
        ∀ i, receivedBy 0 i s.sh.log = shareOf i xs := by
  have h : ((pipelineRun [7, 8, 9] 0 1 1 [1]).run
      (List.replicate 8 (Act.main {}) ++ List.replicate 41 (Act.worker 0 {}))
      (pipelineStart [7, 8, 9] 0 1 1 [1])).map
        (fun s => (receivedBy 0 0 s.sh.log, receivedBy 0 2 s.sh.log,
          (List.range 3).all fun i => s.sh.log.any (·.isDied i))) = some ([7], [8, 9], true) := by
    rfl
  obtain ⟨s, hs, hst⟩ := Option.map_eq_some_iff.mp h
  simp only [Prod.mk.injEq] at hst
  obtain ⟨h0, h2, hall⟩ := hst
  have hdied : ∀ i ≤ 1 + 1, .died i ∈ s.sh.log := by
    intro i hi
    obtain ⟨e, he, hd⟩ := List.any_eq_true.mp
      (List.all_eq_true.mp hall i (List.mem_range.mpr (Nat.lt_succ_of_le hi)))
    exact isDied_iff.mp hd ▸ he
  have hr := System.run_reachable (M := pipelineRun [7, 8, 9] 0 1 1 [1]) rfl hs
  exact ⟨s, hs, h0, h2, ((pipeline_spec [7, 8, 9] 0 1 1 [1] (by decide) hr).2.2 hdied).1⟩

end MyGoroutine
