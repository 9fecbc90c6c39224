import MyGoroutine.Chan.Delivered
import MyGoroutine.Group.Counter
import MyGoroutine.Group.Move
import MyGoroutine.Lib.Network

namespace MyGoroutine

/-!
# Where a task stands in the network

The runtime interprets the closures of a program with queues of parked tasks, values left in
`delivered`, tokens and `goready` calls.  The network of the same closures has none of these.
At every point of its code a task stands somewhere in the network: at its next operation, at the
one it is parked in, or already behind it, when somebody else has completed it.

* `Program.Bare` — the programs that catch no panic at all;
* `Program.cmd` — the program as the code of a network;
* `Shared.view`, `Shared.tally` — the channels and the wait groups of the runtime as the channels
  and counters of a network;
* `Park.Stands`, `Code.Stands` — where a task stands;
* `Moved`, `Code.Stands.moved` — what a step does to the place of another task.
-/

open Network (Cmd Proc)

variable {σ V : Type}

/-- No handler catches a panic of the operation, whatever it is about. -/
def Op.bare : Op σ V → Bool
  | .sleep _ _ h => h.isNone
  | .add _ _ _ h => h.isNone
  | .wait _ _ h => h.isNone
  | .netPollRead _ _ h => h.isNone
  | op => op.uncaught

/-- The closures catch no panic. -/
def Program.Bare (P : Program σ V) : Prop := ∀ x, (P.code x).bare = true

/-- In particular, no section of a channel has a handler. -/
theorem Program.Bare.uncaught {P : Program σ V} (h : P.Bare) : P.Uncaught := by
  intro x
  have hx := h x
  generalize P.code x = op at hx
  cases op <;> first | exact hx | rfl

/-- The operation as a step of the process `i`.  What a task waits for outside the program, a point
    in time, an fd or a blocking call, is nothing that the network knows; direct calls of `gopark`
    and `goready` have no counterpart. -/
def Op.cmd (i : TaskId) : Op σ V → Cmd σ ChanId V
  | .go f k => .fork f k
  | .gosched k => .step k
  | .currentTaskId k => .step (k i)
  | .sleep _ k _ => .step k
  | .send c data k _ => .send c data k
  | .recv c k _ => .recv c k
  | .close c k _ => .close c k
  | .add g delta k _ => .add g delta.toInt k
  | .wait g k _ => .wait g k
  | .netPollRead _ k _ => .step k
  | .io k => .step k
  | _ => .halt

/-- The operation of a closure, as a command of the network. -/
def Program.cmd (P : Program σ V) (i : TaskId) (x : σ) : Cmd σ ChanId V := (P.code x).cmd i

/-- A channel with the history `taken`, without its queues. -/
def ChanInner.view (m : ChanInner V) (taken : List V) : Network.Chan V where
  taken
  buf := m.buf
  cap := m.bufCap
  closed := m.closed

/-- The channels of the program, as the network has them. -/
def Shared.view (sh : Shared σ V) (c : ChanId) : Option (Network.Chan V) :=
  (sh.chans[c]?).map fun m => m.val.view (matched c sh.log)

/-- The counters of the wait groups. -/
def Shared.tally (sh : Shared σ V) (g : GroupId) : Option Int :=
  (sh.groups[g]?).map fun m => m.val.counter.toInt

section View

variable {sh sh' : Shared σ V} {c : ChanId} {m m' : Chan V}

/-- What the network sees of a channel. -/
theorem view_eq (hm : sh.chans[c]? = some m) :
    sh.view c = some (m.val.view (matched c sh.log)) := by
  rw [Shared.view, hm]
  rfl

/-- Nothing is taken from a channel, and the channels stay. -/
theorem view_same (es : List (Event V)) (hc : sh'.chans = sh.chans) (hl : sh'.log = sh.log ++ es)
    (hes : ∀ c, ∀ e ∈ es, e.matches c = []) : sh'.view = sh.view := by
  funext c
  rw [Shared.view, Shared.view, hc, hl, matched, gather_quiet (hes c)]

/-- The channel `c` is replaced, and the events tell what was taken from it. -/
theorem view_set (es : List (Event V)) (hm : sh.chans[c]? = some m)
    (hc : sh'.chans = sh.chans.set c m') (hl : sh'.log = sh.log ++ es)
    (hes : ∀ c', c' ≠ c → ∀ e ∈ es, e.matches c' = []) :
    sh'.view = Function.update sh.view c
      (some (m'.val.view (matched c sh.log ++ matched c es))) := by
  funext c'
  by_cases h : c' = c
  · subst h
    rw [Function.update_self, ← gather_append, ← hl]
    refine view_eq ?_
    rw [hc, List.getElem?_set_self', hm]
    rfl
  · rw [Function.update_of_ne h, Shared.view, Shared.view, hc,
      List.getElem?_set_ne (Ne.symm h), hl, matched, gather_quiet (hes c' h)]

/-- Only the queues of a channel change. -/
theorem view_queues (es : List (Event V)) (hm : sh.chans[c]? = some m)
    (hc : sh'.chans = sh.chans.set c m') (hl : sh'.log = sh.log ++ es)
    (hes : ∀ c, ∀ e ∈ es, e.matches c = []) (hv : ∀ taken, m'.val.view taken = m.val.view taken) :
    sh'.view = sh.view := by
  rw [view_set es hm hc hl fun c' _ => hes c', matched, matched, ← gather_append,
    gather_quiet (hes c), hv, ← view_eq hm, Function.update_eq_self]

/-- What the network sees of a wait group. -/
theorem tally_eq {g : GroupId} {n : WaitGroup} (hn : sh.groups[g]? = some n) :
    sh.tally g = some n.val.counter.toInt := by
  rw [Shared.tally, hn]
  rfl

/-- The network sees nothing but the counters. -/
theorem tally_congr (hg : sh'.groups = sh.groups) : sh'.tally = sh.tally := by
  funext g
  rw [Shared.tally, Shared.tally, hg]

/-- The wait group `g` is replaced. -/
theorem tally_set {g : GroupId} {n n' : WaitGroup} (hn : sh.groups[g]? = some n)
    (hg : sh'.groups = sh.groups.set g n') :
    sh'.tally = Function.update sh.tally g (some n'.val.counter.toInt) := by
  funext g'
  by_cases h : g' = g
  · subst h
    rw [Function.update_self]
    refine tally_eq ?_
    rw [hg, List.getElem?_set_self', hn]
    rfl
  · rw [Function.update_of_ne h, Shared.tally, Shared.tally, hg,
      List.getElem?_set_ne (Ne.symm h)]

end View

/-! ### Standing

Where a process of the network is follows from the point of the task's code. Inside an operation it
depends on more: a parked sender has passed its `send` in the network as soon as its waiter is
taken, long before it goes on.
-/

/-- The process of a parked task `i`. -/
inductive Park.Stands (P : Program σ V) (sh : Shared σ V) (i : TaskId) :
    Park σ V → Proc σ ChanId V → Prop where
  /-- A sleeping task stands before a step. -/
  | sleep {k} : Stands P sh i (.sleep k) (.live (.step k))
  /-- A sender in the `sendq` stands before its `send`. -/
  | sending {c k h m d} (hst : sh.status i = .queued (.sendq c)) (hm : sh.chans[c]? = some m)
      (hmem : ⟨i, d⟩ ∈ m.val.sendq) : Stands P sh i (.send c k h) (.live (.send c d k))
  /-- `close` has drained the sender: it stands at a `send` on a closed channel. -/
  | refused {c k h m d} (hst : sh.status i = .released (.sendq c) .drained)
      (hm : sh.chans[c]? = some m) (hcl : m.val.closed = true) :
      Stands P sh i (.send c k h) (.live (.send c d k))
  /-- A receiver has taken the value: the `send` is over. -/
  | accepted {c k h} (hst : sh.status i = .released (.sendq c) .taken) :
      Stands P sh i (.send c k h) (.live (P.cmd i k))
  /-- A receiver in the `recvq` stands before its `recv`. -/
  | receiving {c k h} (hst : sh.status i = .queued (.recvq c)) :
      Stands P sh i (.recv c k h) (.live (.recv c k))
  /-- `close` has dismissed the receiver: nothing will come any more. -/
  | dismissed {c k h m} (hst : sh.status i = .released (.recvq c) .drained)
      (hm : sh.chans[c]? = some m) (hcl : m.val.closed = true) (hb : m.val.buf = []) :
      Stands P sh i (.recv c k h) (.live (.recv c k))
  /-- A sender has delivered a value: the `recv` is over. -/
  | given {c k h v} (hst : sh.status i = .released (.recvq c) (.delivered v)) :
      Stands P sh i (.recv c k h) (.live (P.cmd i (k (some v))))
  /-- A waiter stands before its `wait`. -/
  | joined {g k} (hst : sh.status i = .queued (.waiters g)) :
      Stands P sh i (.wait g k) (.live (.wait g k))
  /-- The counter has come to zero: the `wait` is over. -/
  | counted {g k why} (hst : sh.status i = .released (.waiters g) why) :
      Stands P sh i (.wait g k) (.live (P.cmd i k))
  /-- A task that waits for an fd stands before a step. -/
  | reading {fd k} : Stands P sh i (.netPollRead fd k) (.live (.step k))

/-- The process of the task `i` at a point of its code.  The child of a `go` exists in the network
    before it is queued. -/
inductive Code.Stands (P : Program σ V) (sh : Shared σ V) (proc : TaskId → Proc σ ChanId V)
    (i : TaskId) : Code σ V → Prop where
  /-- The closure is about to start, -/
  | entry {f} (h : proc i = .live (P.cmd i f)) : Stands P sh proc i (.entry f)
  /-- or goes on. -/
  | user {x} (h : proc i = .live (P.cmd i x)) : Stands P sh proc i (.user x)
  /-- The child exists for the network as soon as it has its id. -/
  | goPush {id f k} (h : proc i = .live (P.cmd i k)) (hf : proc id = .live (P.cmd id f)) :
      Stands P sh proc i (.goPush id f k)
  /-- Inside a call that is one step of the network, the process still stands before it. -/
  | sleepPush {w k} (h : proc i = .live (.step k)) : Stands P sh proc i (.sleepPush w k)
  /-- The section has decided the call; what it still owes is nothing to the network. -/
  | wake {ids ret k} (h : proc i = .live (P.cmd i k)) : Stands P sh proc i (.wake ids ret k)
  | registerRead {fd k} (h : proc i = .live (.step k)) : Stands P sh proc i (.registerRead fd k)
  | unregister {fd k} (h : proc i = .live (.step k)) : Stands P sh proc i (.unregister fd k)
  | spawnWorker {k} (h : proc i = .live (.step k)) : Stands P sh proc i (.spawnWorker k)
  | threadSpawn {w k} (h : proc i = .live (.step k)) : Stands P sh proc i (.threadSpawn w k)
  | blocking {k} (h : proc i = .live (.step k)) : Stands P sh proc i (.blocking k)
  /-- A parked task, and one that is about to park, stands where its reason says. -/
  | park {p} (h : p.Stands P sh i (proc i)) : Stands P sh proc i (.park p)
  | parked {p} (h : p.Stands P sh i (proc i)) : Stands P sh proc i (.parked p)

section Standing

variable {P : Program σ V} {sh : Shared σ V} {proc : TaskId → Proc σ ChanId V} {i : TaskId}
  {code : Code σ V}

/-- The process of a parked task has not finished. -/
theorem Park.Stands.live {p : Park σ V} {x : Proc σ ChanId V} (h : p.Stands P sh i x) :
    ∃ y, x = .live y := by
  cases h <;> exact ⟨_, rfl⟩

/-- A task that has not finished is a process that has not. -/
theorem Code.Stands.live (h : code.Stands P sh proc i) : ∃ x, proc i = .live x := by
  cases h with
  | park h | parked h => exact h.live
  | entry h | user h | goPush h | sleepPush h | wake h | registerRead h | unregister h
  | spawnWorker h | threadSpawn h | blocking h => exact ⟨_, h⟩

/-- The process of a task that is about to call an operation. -/
theorem Code.Stands.of_user {x : σ} {op : Op σ V} (h : code.Stands P sh proc i)
    (hc : code = .user x) (hx : P.code x = op) : proc i = .live (op.cmd i) := by
  subst hc hx
  cases h with
  | user h => exact h

/-- The process of a task in a park. -/
theorem Code.Stands.of_park {p : Park σ V} (h : code.Stands P sh proc i)
    (hc : code = .park p ∨ code = .parked p) : p.Stands P sh i (proc i) := by
  rcases hc with rfl | rfl
  · cases h with
    | park h => exact h
  · cases h with
    | parked h => exact h

end Standing

/-! ### The other tasks

A step of one task moves the place of another one in the network only by taking its entry out.
-/

/-- What a step does to another task `i`: nothing, or it completes the operation in which the task
    is parked, or it closes its channel. -/
inductive Moved (P : Program σ V) (sh sh' : Shared σ V) (p p' : Proc σ ChanId V) (i : TaskId) :
    Prop where
  /-- Nothing has happened to the task. -/
  | same (hp : p' = p) (hst : sh'.status i = sh.status i)
  /-- A `close` has drained it; its process has not moved. -/
  | drained {c} (src : Source) (hsrc : src = .recvq c ∨ src = .sendq c) (hp : p' = p)
      (hst : sh.status i = .queued src) (hst' : sh'.status i = .released src .drained)
      (hcl : ∃ m, sh'.chans[c]? = some m ∧ m.val.closed = true ∧
        (src = .recvq c → m.val.buf = []))
  /-- A receiver has taken its value, and its `send` is over. -/
  | accepted {c} (hst : sh.status i = .queued (.sendq c))
      (hst' : sh'.status i = .released (.sendq c) .taken)
      (hp : ∀ d k, p = .live (.send c d k) → p' = .live (P.cmd i k))
  /-- A sender has delivered a value to it, and its `recv` is over. -/
  | given {c v} (hst : sh.status i = .queued (.recvq c))
      (hst' : sh'.status i = .released (.recvq c) (.delivered v))
      (hp : ∀ k, p = .live (.recv c k) → p' = .live (P.cmd i (k (some v))))
  /-- The counter has come to zero, and its `wait` is over. -/
  | counted {g} (hst : sh.status i = .queued (.waiters g))
      (hst' : sh'.status i = .released (.waiters g) .counted)
      (hp : ∀ k, p = .live (.wait g k) → p' = .live (P.cmd i k))
  /-- The task was parked for something outside the program. -/
  | elsewhere {src why} (hp : p' = p) (hst : sh.status i = .queued src)
      (hst' : sh'.status i = .released src why)
      (hsrc : ∀ c, src ≠ .recvq c ∧ src ≠ .sendq c ∧ src ≠ .waiters c)

/-- The channels keep the waiting senders whose status stays, and a closed channel stays closed
    and, once it is empty, empty. -/
def Shared.Keeps (sh sh' : Shared σ V) (i : TaskId) : Prop :=
  ∀ (c : ChanId) (m : Chan V), sh.chans[c]? = some m → ∃ m', sh'.chans[c]? = some m' ∧
    (m.val.closed = true → m'.val.closed = true ∧ (m.val.buf = [] → m'.val.buf = [])) ∧
    ∀ d, ⟨i, d⟩ ∈ m.val.sendq → sh'.status i = .queued (.sendq c) → ⟨i, d⟩ ∈ m'.val.sendq

section Moves

variable {P : Program σ V} {sh sh' : Shared σ V} {i : TaskId}

/-- **A parked task stays where it stands** through the steps of others: its process has not moved,
    or an operation of another process has completed its own. -/
theorem Park.Stands.moved {p : Park σ V} {x x' : Proc σ ChanId V} (h : p.Stands P sh i x)
    (hag : ∃ src, p.waitsAt src ∧ (sh.status i).source? = some src) (hk : sh.Keeps sh' i)
    (hm : Moved P sh sh' x x' i) : p.Stands P sh' i x' := by
  cases hm with
  -- the place and the status are as before, and the channel keeps what they refer to
  | same hp hst =>
    rw [hp]
    cases h with
    | sleep => exact .sleep
    | reading => exact .reading
    | joined hq => exact .joined (hst.trans hq)
    | counted hr => exact .counted (hst.trans hr)
    | sending hq hm hmem =>
      obtain ⟨m', hm', -, hkeep⟩ := hk _ _ hm
      exact .sending (hst.trans hq) hm' (hkeep _ hmem (hst.trans hq))
    | refused hr hm hcl =>
      obtain ⟨m', hm', hkeep, -⟩ := hk _ _ hm
      exact .refused (hst.trans hr) hm' (hkeep hcl).1
    | accepted hr => exact .accepted (hst.trans hr)
    | receiving hq => exact .receiving (hst.trans hq)
    | dismissed hr hm hcl hb =>
      obtain ⟨m', hm', hkeep, -⟩ := hk _ _ hm
      exact .dismissed (hst.trans hr) hm' (hkeep hcl).1 ((hkeep hcl).2 hb)
    | given hr => exact .given (hst.trans hr)
  -- `close` drains the task: a sender finds the channel closed, a receiver finds it empty as well
  | drained src hsrc hp hq hr hcl =>
    rw [hp]
    obtain ⟨m', hm', hcl, hb⟩ := hcl
    cases h with
    | sleep => exact .sleep
    | reading => exact .reading
    | joined hq' =>
      rw [hq] at hq'
      cases hq'
      rcases hsrc with hsrc | hsrc <;> cases hsrc
    | sending hq' =>
      rw [hq] at hq'
      cases hq'
      rcases hsrc with hsrc | hsrc <;> cases hsrc
      exact .refused hr hm' hcl
    | receiving hq' =>
      rw [hq] at hq'
      cases hq'
      rcases hsrc with hsrc | hsrc <;> cases hsrc
      exact .dismissed hr hm' hcl (hb rfl)
    | refused hr' | accepted hr' | dismissed hr' | given hr' | counted hr' =>
      rw [hq] at hr'
      cases hr'
  -- a `recv` takes the value of a sender, who has now passed its `send` in the network
  | accepted hq hr hp =>
    obtain ⟨src, hw, hsrc⟩ := hag
    rw [hq] at hsrc
    cases hsrc
    cases h with
    | sleep | receiving | dismissed | given | joined | counted | reading => cases hw
    | sending hq' =>
      cases hw
      rw [hp _ _ rfl]
      exact .accepted hr
    | refused hr' | accepted hr' => rw [hq] at hr'; cases hr'
  -- a `send` leaves a value for a receiver, who has now passed its `recv`
  | given hq hr hp =>
    obtain ⟨src, hw, hsrc⟩ := hag
    rw [hq] at hsrc
    cases hsrc
    cases h with
    | sleep | sending | refused | accepted | joined | counted | reading => cases hw
    | receiving hq' =>
      cases hw
      rw [hp _ rfl]
      exact .given hr
    | dismissed hr' | given hr' => rw [hq] at hr'; cases hr'
  -- an `add` comes to zero, and the waiter has now passed its `wait`
  | counted hq hr hp =>
    obtain ⟨src, hw, hsrc⟩ := hag
    rw [hq] at hsrc
    cases hsrc
    cases h with
    | joined hq' =>
      cases hw
      rw [hp _ rfl]
      exact .counted hr
    | counted hr' => rw [hq] at hr'; cases hr'
    | _ => cases hw
  -- the entry was in the heap or with the poller: the place is inside `sleep` or `net_poll_read`
  | elsewhere hp hq hr hsrc =>
    rw [hp]
    cases h with
    | sleep => exact .sleep
    | reading => exact .reading
    | sending hq' => rw [hq] at hq'; cases hq'; exact absurd rfl (hsrc _).2.1
    | receiving hq' => rw [hq] at hq'; cases hq'; exact absurd rfl (hsrc _).1
    | joined hq' => rw [hq] at hq'; cases hq'; exact absurd rfl (hsrc _).2.2
    | refused hr' | accepted hr' | dismissed hr' | given hr' | counted hr' =>
      rw [hq] at hr'
      cases hr'

/-- **The place of another task** after a step: the task stands where it has stood, or behind the
    operation that the step completes. -/
theorem Code.Stands.moved {proc proc' : TaskId → Proc σ ChanId V} {code : Code σ V}
    (h : code.Stands P sh proc i) (hag : code.agrees (sh.status i)) (hk : sh.Keeps sh' i)
    (hchild : ∀ id f k, code = .goPush id f k → proc' id = proc id)
    (hm : Moved P sh sh' (proc i) (proc' i) i) : code.Stands P sh' proc' i := by
  -- a task without an entry is not moved
  have hfix : (sh.status i).queue? = none → proc' i = proc i := fun hq => by
    cases hm with
    | same hp => exact hp
    | drained _ _ _ hq' | accepted hq' | given hq' | counted hq' | elsewhere _ hq' =>
      rw [hq'] at hq
      cases hq
  have hcalm : code.calm = true → proc' i = proc i := fun hc =>
    hfix (by rw [(Code.agrees_of_calm hc).mp hag]; rfl)
  cases h with
  | entry h => exact .entry ((hcalm rfl).trans h)
  | user h => exact .user ((hcalm rfl).trans h)
  | goPush h hf => exact .goPush ((hcalm rfl).trans h) ((hchild _ _ _ rfl).trans hf)
  | sleepPush h => exact .sleepPush ((hcalm rfl).trans h)
  | wake h => exact .wake ((hcalm rfl).trans h)
  | registerRead h => exact .registerRead ((hcalm rfl).trans h)
  | spawnWorker h => exact .spawnWorker ((hcalm rfl).trans h)
  | threadSpawn h => exact .threadSpawn ((hcalm rfl).trans h)
  | blocking h => exact .blocking ((hcalm rfl).trans h)
  | unregister h =>
    obtain ⟨why, hst⟩ := hag
    exact .unregister ((hfix (by rw [hst]; rfl)).trans h)
  | park h => exact .park (h.moved hag hk hm)
  | parked h => exact .parked (h.moved hag hk hm)

end Moves

end MyGoroutine
