import MyGoroutine.Chan.Pipeline
import MyGoroutine.Lib.Determinacy
import MyGoroutine.Refine.Run

namespace MyGoroutine

/-!
# The runtime refines the network

The network knows neither queues of parked tasks nor wakeups: whenever a value can be sent or
received or a counter is zero, the step is there to be taken.  The runtime does not miss such a
step.  If all tasks wait in queues of channels and wait groups, the network is at rest: no process
of it can take a step, alone or together with another.

* `State.Stalled` — all tasks wait for one another;
* `QueuedAt`, `State.Mirrors.queuedAt` — where a task of a stalled state is in the network;
* `State.Mirrors.atRest` — a stalled runtime is the picture of a network at rest;
* `runtime_refines_network` — the refinement.
-/

open Network (Cmd Proc Config network)

variable {σ V : Type}

/-- What the task waits for comes from another task, not from a timer or an fd. -/
def Source.internal : Source → Bool
  | .timer _ => false
  | .fd _ => false
  | _ => true

/-- The main thread has no `go` to make, and every task waits in the queue of a channel or of a
    wait group. -/
structure State.Stalled (s : State σ V) : Prop where
  main : s.main.pc.pushes = none
  rest : ∀ f, .go f ∉ s.main.rest
  tasks : ∀ t, s.Live t → ∃ src, s.sh.status t.id = .queued src ∧ src.internal = true

/-- The task `i` is in the queue of what its process is at. -/
inductive QueuedAt (sh : Shared σ V) (i : TaskId) : Cmd σ ChanId V → Prop where
  | send {c d k m} (hm : sh.chans[c]? = some m) (hmem : ⟨i, d⟩ ∈ m.val.sendq) :
      QueuedAt sh i (.send c d k)
  | recv {c k m} (hm : sh.chans[c]? = some m) (hmem : i ∈ m.val.recvq) : QueuedAt sh i (.recv c k)
  | wait {g k m} (hm : sh.groups[g]? = some m) (hmem : i ∈ m.val.waiters) :
      QueuedAt sh i (.wait g k)

section Stalled

variable {P : Program σ V} {s : State σ V} {a : Config σ ChanId V} {i : TaskId}
  {x : Cmd σ ChanId V}

/-- A task in the `recvq` of `c` is in the list. -/
theorem Shared.Sources.mem_recvq {sh : Shared σ V} (h : sh.Sources) {c : ChanId}
    (hq : sh.status i = .queued (.recvq c)) : ∃ m, sh.chans[c]? = some m ∧ i ∈ m.val.recvq := by
  have hone : sh.entries (.recvq c) i = 1 := by
    rw [h.entries _ i rfl, hq]
    exact if_pos rfl
  cases hm : sh.chans[c]? with
  | none =>
    rw [Shared.entries, hm] at hone
    cases hone
  | some m =>
    rw [entries_recvq hm] at hone
    exact ⟨m, rfl, List.count_pos_iff.mp (hone ▸ Nat.one_pos)⟩

/-- A task in the `sendq` of `c` is in the list. -/
theorem Shared.Sources.mem_sendq {sh : Shared σ V} (h : sh.Sources) {c : ChanId}
    (hq : sh.status i = .queued (.sendq c)) :
    ∃ m w, sh.chans[c]? = some m ∧ w ∈ m.val.sendq ∧ w.taskId = i := by
  have hone : sh.entries (.sendq c) i = 1 := by
    rw [h.entries _ i rfl, hq]
    exact if_pos rfl
  cases hm : sh.chans[c]? with
  | none =>
    rw [Shared.entries, hm] at hone
    cases hone
  | some m =>
    rw [entries_sendq hm] at hone
    obtain ⟨w, hw, hid⟩ := List.mem_map.mp (List.count_pos_iff.mp (hone ▸ Nat.one_pos))
    exact ⟨m, w, rfl, hw, hid⟩

/-- A task among the waiters of `g` is in the list. -/
theorem Shared.Sources.mem_waiters {sh : Shared σ V} (h : sh.Sources) {g : GroupId}
    (hq : sh.status i = .queued (.waiters g)) :
    ∃ m, sh.groups[g]? = some m ∧ i ∈ m.val.waiters := by
  have hone : sh.entries (.waiters g) i = 1 := by
    rw [h.entries _ i rfl, hq]
    exact if_pos rfl
  cases hm : sh.groups[g]? with
  | none =>
    rw [Shared.entries, hm] at hone
    cases hone
  | some m =>
    rw [entries_waiters hm] at hone
    exact ⟨m, rfl, List.count_pos_iff.mp (hone ▸ Nat.one_pos)⟩

/-- Nobody in a stalled state is in the middle of a `go`. -/
theorem State.Stalled.births (h : s.Stalled) (hd : s.Disciplined) (hsh : s.Shaped)
    (ha : s.sh.aborted = none) : s.total (Pc.births i) = 0 := by
  by_contra hpos
  obtain ⟨w, pc, hw, hpc⟩ := Slots.exists_pos_of_sum_pos (l := s.workers) (f := Pc.births i)
    (Nat.pos_of_ne_zero hpos)
  cases pc with
  | run t =>
    have hlive : s.Live t :=
      .inr ⟨_, List.mem_of_getElem? hw, rfl, (hsh.workers _ (List.mem_of_getElem? hw)).run⟩
    have hag := hd.agree ha t hlive
    obtain ⟨src, hq, -⟩ := h.tasks t hlive
    -- a task in a `go` has an idle status
    have hcalm : t.code.calm = true := by
      cases hc : t.code <;> simp [Pc.births, Code.birth, hc] at hpc ⊢
      rfl
    rw [Code.agrees_of_calm hcalm, hq] at hag
    cases hag
  | _ => exact absurd hpc (Nat.lt_irrefl 0)

/-- In a stalled state every task that has been given a number exists. -/
theorem State.Stalled.created (hst : s.Stalled) (hd : s.Disciplined) (hsh : s.Shaped)
    (hp : s.Placed) (ha : s.sh.aborted = none) (hi : i < s.sh.nextTaskId) :
    .created i ∈ s.sh.log := by
  have hids := hp.ids i
  have hmain : s.main.pc.births i = 0 := if_neg (by rw [hst.main]; simp)
  rw [hst.births hd hsh ha, hmain, issued, if_pos hi] at hids
  obtain ⟨e, he, hc⟩ := List.countP_pos_iff.mp
    (show 0 < s.sh.log.countP (·.isCreated i) by omega)
  exact isCreated_iff.mp hc ▸ he

/-- Every task that was given a number has finished. -/
def Shared.finishedAll (sh : Shared σ V) : Bool :=
  (List.range sh.nextTaskId).all fun i => sh.log.any (·.isDied i)

/-- The check finds all tasks finished. -/
theorem died_of_finishedAll {sh : Shared σ V} (h : sh.finishedAll = true) :
    ∀ i < sh.nextTaskId, .died i ∈ sh.log := by
  intro i hi
  obtain ⟨e, he, hd⟩ := List.any_eq_true.mp
    (List.all_eq_true.mp h i (List.mem_range.mpr hi))
  exact isDied_iff.mp hd ▸ he

/-- A state in which all tasks have finished is stalled. -/
theorem stalled_of_died (hr : (runtime P).Reachable s)
    (hmain : s.main.pc.pushes = none) (hrest : s.main.rest = [])
    (hall : ∀ i < s.sh.nextTaskId, .died i ∈ s.sh.log) : s.Stalled := by
  refine ⟨hmain, by simp [hrest], fun t ht => ?_⟩
  obtain ⟨hcreated, hdied⟩ := not_died_of_live (reach_shaped hr) (reach_placed hr) ht
  refine absurd (hall t.id ?_) hdied
  by_contra hlt
  have hids := (reach_placed hr).ids t.id
  have hpos : 0 < s.sh.log.countP (·.isCreated t.id) :=
    List.countP_pos_iff.mpr ⟨_, hcreated, isCreated_iff.mpr rfl⟩
  rw [issued, if_neg hlt] at hids
  omega

/-- In a stalled state every process is a task. -/
theorem State.Mirrors.task_of_live (h : s.Mirrors P a) (hd : s.Disciplined) (hsh : s.Shaped)
    (hp : s.Placed) (ha : s.sh.aborted = none) (hst : s.Stalled) (hx : a.proc i = .live x) :
    ∃ t, s.Live t ∧ t.id = i := by
  refine live_of_created hsh hp (hst.created hd hsh hp ha ?_) fun hi => ?_
  · by_contra hi
    rw [h.unborn i (Nat.le_of_not_lt hi)] at hx
    cases hx
  · rw [h.died i hi] at hx
    cases hx

/-- **Where the tasks of a stalled state are.** -/
theorem State.Mirrors.queuedAt (h : s.Mirrors P a) (hd : s.Disciplined) (hsh : s.Shaped)
    (hp : s.Placed) (ha : s.sh.aborted = none) (hst : s.Stalled) (hx : a.proc i = .live x) :
    QueuedAt s.sh i x := by
  obtain ⟨t, ht, rfl⟩ := h.task_of_live hd hsh hp ha hst hx
  obtain ⟨src, hq, hsrc⟩ := hst.tasks t ht
  obtain ⟨p, hc, hwait⟩ := Code.park_of_source? (hd.agree ha t ht) (by rw [hq]; rfl) (by
    cases src <;> first | rfl | cases hsrc)
  have hpark := (h.tasks t ht).of_park hc
  rw [hx] at hpark
  cases hpark with
  | sending _ hm hmem => exact .send hm hmem
  | receiving =>
    cases src <;> cases hwait
    obtain ⟨m, hm, hmem⟩ := hd.sources.mem_recvq hq
    exact .recv hm hmem
  | joined =>
    cases src <;> cases hwait
    obtain ⟨m, hm, hmem⟩ := hd.sources.mem_waiters hq
    exact .wait hm hmem
  | refused hr | accepted hr | dismissed hr | given hr | counted hr =>
    rw [hq] at hr
    cases hr
  | sleep | reading =>
    cases src <;> first | (cases hwait; done) | cases hsrc

/-- A process that waits can take no step on its own. -/
theorem QueuedAt.act (h : QueuedAt s.sh i x) (hm : s.Mirrors P a)
    (hinv : ∀ (c : ChanId) (m : Chan V), s.sh.chans[c]? = some m → m.val.Inv)
    (hset : ∀ (g : GroupId) (m : WaitGroup), s.sh.groups[g]? = some m → m.val.Settled) :
    a.act P.cmd i x = none := by
  cases h with
  | @send c d k m hm' hmem =>
    obtain ⟨hfull, hop⟩ := (hinv c m hm').sendq (List.ne_nil_of_mem hmem)
    have hoffer : (m.val.view (matched c s.sh.log)).offer d = none :=
      if_neg fun h => absurd h.2 hfull.not_lt
    simp [Config.act, Cmd.effect, Network.on, hm.chan, view_eq hm', hoffer]
  | @recv c k m hm' hmem =>
    obtain ⟨hb, -, hop⟩ := (hinv c m hm').recvq (List.ne_nil_of_mem hmem)
    simp [Config.act, Cmd.effect, Network.on, hm.chan, view_eq hm', Network.Chan.pull,
      ChanInner.view, hb, hop]
  | @wait g k m hm' hmem =>
    -- at zero nobody waits
    have hne : m.val.counter.toInt ≠ 0 := fun h0 => by
      have hz : m.val.counter = 0 := Int32.toInt_inj.mp h0
      rw [hset g m hm' hz] at hmem
      cases hmem
    simp [Config.act, hm.counter, tally_eq hm', hne]

/-- **A stalled runtime is the picture of a network at rest.** -/
theorem State.Mirrors.atRest (h : s.Mirrors P a) (hd : s.Disciplined) (hsh : s.Shaped)
    (hp : s.Placed) (ha : s.sh.aborted = none)
    (hinv : ∀ (c : ChanId) (m : Chan V), s.sh.chans[c]? = some m → m.val.Inv)
    (hset : ∀ (g : GroupId) (m : WaitGroup), s.sh.groups[g]? = some m → m.val.Settled)
    (hst : s.Stalled) {caps : ChanId → Option Nat} {ns : GroupId → Option Int} {fs : List σ} :
    (network P.cmd caps ns fs).AtRest a := by
  have hat : ∀ {i x}, a.proc i = .live x → QueuedAt s.sh i x :=
    fun hx => h.queuedAt hd hsh hp ha hst hx
  intro l
  cases l with
  | start =>
    have hnil : a.pending = [] := by
      rw [h.pending]
      refine List.filterMap_eq_nil_iff.mpr fun op hop => ?_
      cases op with
      | go f => exact absurd hop (hst.rest f)
      | startRuntime n => rfl
    simp [network, Network.step, hnil]
  | act i =>
    show Network.step P.cmd (.act i) a = none
    cases hx : a.proc i with
    | unborn | halted => simp [Network.step, hx]
    | live x =>
      simp only [Network.step, hx]
      exact (hat hx).act h hinv hset
  | meet i j =>
    show Network.step P.cmd (.meet i j) a = none
    cases hx : a.proc i with
    | unborn | halted => simp [Network.step, hx]
    | live x =>
      cases hy : a.proc j with
      | unborn | halted => simp [Network.step, hx, hy]
      | live y =>
        simp only [Network.step, hx, hy, Config.join, Option.map_eq_none_iff]
        -- nobody waits to send and nobody to receive on the same channel
        cases hat hx with
        | recv | wait => rfl
        | @send c d k m hm hmem =>
          cases hat hy with
          | send | wait => rfl
          | @recv c' k' m' hm' hmem' =>
            refine if_neg ?_
            rintro rfl
            rw [hm] at hm'
            cases hm'
            have hnil := ((hinv c m hm).recvq (List.ne_nil_of_mem hmem')).2.1
            rw [hnil] at hmem
            cases hmem

end Stalled

/-- Somebody is active, or waits for a timer or an fd, or the main thread has a `go` to make. -/
def State.Busy (s : State σ V) : Prop :=
  (∃ i, s.Active i) ∨ (∃ i src, s.sh.status i = .queued src ∧ src.internal = false) ∨
    (∃ id, s.main.pc.pushes = some id) ∨ ∃ f, .go f ∈ s.main.rest

/-- A state that is not busy is stalled. -/
theorem State.Disciplined.stalled {s : State σ V} (hd : s.Disciplined) (hno : ¬ s.Busy) :
    s.Stalled := by
  simp only [State.Busy, not_or, not_exists] at hno
  obtain ⟨hactive, houtside, hmain, hrest⟩ := hno
  refine ⟨Option.eq_none_iff_forall_not_mem.mpr hmain, hrest, fun t ht => ?_⟩
  obtain ⟨src, hq⟩ := hd.queued_of_inactive ht (hactive t.id)
  exact ⟨src, hq, (Bool.not_eq_false _).mp fun h => houtside t.id src ⟨hq, h⟩⟩

/-- **The runtime refines the network.**  For every program of closures that call neither `gopark`
    nor `goready` themselves and catch no panic, every number of workers and every interleaving
    with fresh polls: as long as the process has not aborted, the state is the picture of a
    configuration that the network of the program reaches, from the same channels, the same wait
    groups and the same closures passed to `go` by the main thread; and if the network can take a
    step there, then somebody is active, or waits for a timer or an fd, or the main thread has a
    `go` to make. -/
theorem runtime_refines_network {P : Program σ V} (hP : P.Structured) (hB : P.Bare)
    {caps : List Nat} {groups : Nat} {calls : List (MainOp σ)} {s : State σ V}
    (hr : ((runtime P).startingAt (.initial caps groups calls)).Reach FreshPolls s)
    (ha : s.sh.aborted = none) :
    ∃ a, (P.network caps groups calls).Reachable a ∧ s.Mirrors P a ∧
      ((P.network caps groups calls).AtRest a ∨ s.Busy) := by
  obtain ⟨a, hreach, h⟩ := reach_mirrors hP hB hr ha
  have hr' : (runtime P).Reach FreshPolls s :=
    System.startingAt_reach (show (runtime P).init _ from ⟨caps, groups, calls, rfl⟩) hr
  have hd := reach_disciplined hP (fun _ _ h => h) hr'
  refine ⟨a, hreach, h, or_iff_not_imp_right.mpr fun hno => ?_⟩
  exact h.atRest hd (reach_shaped hr') (reach_placed hr') ha (fun c m hm => reach_chanInv hr' hm)
    (fun g m hm => reach_settled hr' hm) (hd.stalled hno)

/-- The program uses one channel only. -/
theorem deliveryProgram_basic : deliveryProgram.Basic := by
  intro x
  rcases x with _ | _ | x <;> rfl

/-- The program catches no panic. -/
theorem deliveryProgram_bare : deliveryProgram.Bare := by
  intro x
  rcases x with _ | _ | x <;> rfl

/-- The sender of `deliveryProgram` has left its value in `delivered`, and the receiver is not yet
    awake: in the network the two have met. -/
theorem runtime_refines_network_delivery :
    ∃ s a, ((runtime deliveryProgram).startingAt
        (.initial [0] 0 [.go 0, .go 1, .startRuntime 1])).run
        (List.replicate 7 (.main {}) ++ List.replicate 9 (.worker 0 {}))
        (.initial [0] 0 [.go 0, .go 1, .startRuntime 1]) = some s ∧
      (deliveryProgram.network [0] 0 [.go 0, .go 1, .startRuntime 1]).Reachable a ∧
      s.Mirrors deliveryProgram a ∧ a.chan 0 = some ⟨[7], [], 0, false⟩ := by
  have h : (((runtime deliveryProgram).startingAt
      (.initial [0] 0 [.go 0, .go 1, .startRuntime 1])).run
      (List.replicate 7 (Act.main {}) ++ List.replicate 9 (Act.worker 0 {}))
      (.initial [0] 0 [.go 0, .go 1, .startRuntime 1])).map
        (fun s => (s.sh.aborted, s.sh.view 0)) = some (none, some ⟨[7], [], 0, false⟩) := by rfl
  obtain ⟨s, hs, hst⟩ := Option.map_eq_some_iff.mp h
  obtain ⟨ha, hview⟩ := Prod.mk.inj hst
  have hr := startingAt_freshPolls deliveryProgram_basic (.init ⟨[0], 0, _, rfl⟩)
    (System.run_reachable rfl hs)
  obtain ⟨a, hreach, hmir, -⟩ := runtime_refines_network deliveryProgram_basic.structured
    deliveryProgram_bare hr ha
  exact ⟨s, a, hs, hreach, hmir, by rw [hmir.chan, hview]⟩

end MyGoroutine
