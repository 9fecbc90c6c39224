import MyGoroutine.Refine.Misuse

namespace MyGoroutine

/-!
# Programs whose channels have owners

When each channel is sent to and closed by one task and received from by one task, neither the
number of workers nor the order of their steps can be observed.  If some run comes to rest
without a panic, then no run panics, unless a `sleep` would go on for longer than the clock can
tell, and all runs that come to rest have received the same values from each channel, have left the
same values in it, have finished the same tasks, and have left the same tasks waiting in the same
queues.

* `State.Mirrors.died_iff`, `sendq_iff`, `recvq_iff` — a stalled state, read off the network;
* `runtime_determinate` — the result.
-/

open Network (Cmd Proc Config network)

variable {σ V : Type}

namespace State.Mirrors

variable {P : Program σ V} {s : State σ V} {a : Config σ ChanId V} {i : TaskId} {c : ChanId}
  (h : s.Mirrors P a) (hd : s.Disciplined) (hsh : s.Shaped) (ha : s.sh.aborted = none)
include h hd hsh ha

/-- The tasks that have finished. -/
theorem died_iff (hp : s.Placed) (hst : s.Stalled) : .died i ∈ s.sh.log ↔ a.proc i = .halted := by
  refine ⟨h.died i, fun hi => ?_⟩
  by_contra hdied
  have hlt : i < s.sh.nextTaskId := by
    by_contra hlt
    rw [h.unborn i (Nat.le_of_not_lt hlt)] at hi
    cases hi
  obtain ⟨t, ht, rfl⟩ := live_of_created hsh hp (hst.created hd hsh hp ha hlt) hdied
  obtain ⟨x, hx⟩ := (h.tasks t ht).live
  rw [hi] at hx
  cases hx

/-- The tasks that wait to send. -/
theorem sendq_iff (hp : s.Placed) (hst : s.Stalled) :
    s.sh.status i = .queued (.sendq c) ↔ ∃ d k, a.proc i = .live (.send c d k) := by
  constructor
  · intro hq
    obtain ⟨m, w, hm, hw, rfl⟩ := hd.sources.mem_sendq hq
    obtain ⟨k, hk⟩ := (h.reflects hd hsh ha).senders hm hw
    exact ⟨w.data, k, hk⟩
  · rintro ⟨d, k, hk⟩
    cases h.queuedAt hd hsh hp ha hst hk with
    | send hm hmem =>
      refine hd.sources.queued_of_entries rfl ?_
      rw [entries_sendq hm]
      exact List.count_pos_iff.mpr (List.mem_map.mpr ⟨_, hmem, rfl⟩)

/-- The tasks that wait to receive. -/
theorem recvq_iff (hp : s.Placed) (hst : s.Stalled) :
    s.sh.status i = .queued (.recvq c) ↔ ∃ k, a.proc i = .live (.recv c k) := by
  constructor
  · intro hq
    obtain ⟨m, hm, hmem⟩ := hd.sources.mem_recvq hq
    exact (h.reflects hd hsh ha).receivers hm hmem
  · rintro ⟨k, hk⟩
    cases h.queuedAt hd hsh hp ha hst hk with
    | recv hm hmem =>
      refine hd.sources.queued_of_entries rfl ?_
      rw [entries_recvq hm]
      exact List.count_pos_iff.mpr hmem

end State.Mirrors

/-- **The schedule cannot be observed.**  For a program in which every channel has one task that
    sends and closes and one that receives, and tasks create no others: if some run, on any number
    of workers, stalls without a panic, then no run with the same `go` calls panics, unless in a
    `sleep` whose end is no `Instant`, and every run that stalls ends with the same channels, that
    is, the same values received and the same values left, the same tasks finished, and the same
    tasks waiting in the same queues. -/
theorem runtime_determinate {P : Program σ V} (hP : P.Basic) (hB : P.Bare)
    (O : Network.Ownership P.cmd) {caps : List Nat} {groups : Nat}
    {calls calls' : List (MainOp σ)}
    (hO : ∀ i f, (calls.filterMap MainOp.go?)[i]? = some f → O.pts i f)
    (hcalls : calls'.filterMap MainOp.go? = calls.filterMap MainOp.go?) {s s' : State σ V}
    (hr : ((runtime P).startingAt (.initial caps groups calls)).Reachable s)
    (ha : s.sh.aborted = none) (hst : s.Stalled)
    (hr' : ((runtime P).startingAt (.initial caps groups calls')).Reachable s') :
    (∀ p, s'.sh.aborted = some p → p = .instantOverflow ∧
        ∃ x d k h, P.code x = .sleep d k h ∧ Instant.last < s'.sh.clock + d) ∧
      (s'.Stalled → s'.sh.view = s.sh.view ∧ ∀ i,
        (.died i ∈ s'.sh.log ↔ .died i ∈ s.sh.log) ∧ ∀ c,
          (s'.sh.status i = .queued (.sendq c) ↔ s.sh.status i = .queued (.sendq c)) ∧
          (s'.sh.status i = .queued (.recvq c) ↔ s.sh.status i = .queued (.recvq c))) := by
  have hback : ∀ {groups calls s}, ((runtime P).startingAt (.initial caps groups calls)).Reachable s
      → (runtime P).Reachable s := fun {groups calls s} hr =>
    System.startingAt_reach (show (runtime P).init _ from ⟨caps, groups, calls, rfl⟩) hr
  have hinv : ∀ {s}, (runtime P).Reachable s → ∀ (c : ChanId) (m : Chan V),
      s.sh.chans[c]? = some m → m.val.Inv := fun hr c m hm => reach_chanInv hr hm
  have hset : ∀ {s}, (runtime P).Reachable s → ∀ (g : GroupId) (m : WaitGroup),
      s.sh.groups[g]? = some m → m.val.Settled := fun hr g m hm => reach_settled hr hm
  have hO' : ∀ i f, (calls'.filterMap MainOp.go?)[i]? = some f → O.pts i f := by rwa [hcalls]
  obtain ⟨a, hareach, h⟩ := reach_mirrors_basic hP hB hr ha
  have hs := hback hr
  have hd := reach_disciplined_basic hP hs
  have hsh := reach_shaped hs
  have hp := reach_placed hs
  have hrest : (P.network caps groups calls).AtRest a :=
    h.atRest hd hsh hp ha (hinv hs) (hset hs) hst
  have hs' := hback hr'
  refine ⟨fun e he => ?_, fun hst' => ?_⟩
  -- an abort would be a misuse that the stalled run shows as well
  · obtain hover | ⟨a', i, x, hareach', hmis⟩ := reach_misused hP hB
      (reach_keepsAccepted hP hB O hO' hr') he
    · exact hover
    exfalso
    rw [Program.network, hcalls] at hareach'
    have hmis := Network.misused_at_rest O hO hareach hrest hareach' hmis
    obtain ⟨c, b, hx, hc, hcl⟩ := hmis.closed
    cases h.queuedAt hd hsh hp ha hst hmis.proc with
    | recv | wait => exact hx
    | send hm hmem =>
      cases hx
      rw [h.chan, view_eq hm] at hc
      cases hc
      -- nobody waits to send on a closed channel
      have hop := ((hinv hs _ _ hm).sendq (List.ne_nil_of_mem hmem)).2
      cases hop.symm.trans hcl
  have ha' := hst'.not_aborted hP.structured hB (fun _ _ h => h)
    (startingAt_freshPolls hP (.init ⟨caps, groups, calls', rfl⟩) hr')
  obtain ⟨a', hareach', h'⟩ := reach_mirrors_basic hP hB hr' ha'
  have hd' := reach_disciplined_basic hP hs'
  have hsh' := reach_shaped hs'
  have hp' := reach_placed hs'
  rw [Program.network, hcalls] at hareach'
  obtain rfl : a = a' := Network.network_determinate O hO hareach hrest hareach'
    (h'.atRest hd' hsh' hp' ha' (hinv hs') (hset hs') hst')
  refine ⟨h'.chan.symm.trans h.chan, fun i => ⟨?_, fun c => ⟨?_, ?_⟩⟩⟩
  · rw [h'.died_iff hd' hsh' ha' hp' hst', h.died_iff hd hsh ha hp hst]
  · rw [h'.sendq_iff hd' hsh' ha' hp' hst', h.sendq_iff hd hsh ha hp hst]
  · rw [h'.recvq_iff hd' hsh' ha' hp' hst', h.recvq_iff hd hsh ha hp hst]

/-- The task `1` sends on the channel, and the task `0` receives. -/
def deliveryOwnership : Network.Ownership deliveryProgram.cmd where
  writer := fun _ => 1
  reader := fun _ => 0
  pts i x := i = x ∨ 2 ≤ x
  within := by
    intro i x hx
    rcases x with _ | _ | x
    · have hi : i = 0 := by omega
      exact ⟨hi.symm, fun _ => .inr (Nat.le_refl 2)⟩
    · have hi : i = 1 := by omega
      exact ⟨hi.symm, .inr (Nat.le_refl 2)⟩
    · trivial

/-- Both tasks of `deliveryProgram` have finished. -/
theorem delivery_finished {n : Nat} {as : List Act} {s : State Nat Nat}
    (hs : (runtime deliveryProgram).run as
      (State.initial [0] 0 [.go 0, .go 1, .startRuntime n]) = some s)
    (h : (s.sh.aborted, s.main.pc.pushes, s.main.rest.length, s.sh.finishedAll)
      = (none, none, 0, true)) :
    ((runtime deliveryProgram).startingAt
      (.initial [0] 0 [.go 0, .go 1, .startRuntime n])).Reachable s ∧
      s.sh.aborted = none ∧ s.Stalled := by
  simp only [Prod.mk.injEq] at h
  obtain ⟨ha, hmain, hrest, hall⟩ := h
  have hr := System.startingAt_run hs
  have hback := System.startingAt_reach
    (show (runtime deliveryProgram).init _ from ⟨[0], 0, [.go 0, .go 1, .startRuntime n], rfl⟩) hr
  exact ⟨hr, ha, stalled_of_died hback hmain (List.length_eq_zero_iff.mp hrest)
    (died_of_finishedAll hall)⟩

/-- A single worker, on which the receiver parks, and two workers, of which one parks the sender:
    the same channel in the end. -/
theorem runtime_determinate_delivery :
    ∃ s s', (runtime deliveryProgram).run
        (List.replicate 7 (.main {}) ++ List.replicate 15 (.worker 0 {}))
        (State.initial [0] 0 [.go 0, .go 1, .startRuntime 1]) = some s ∧
      (runtime deliveryProgram).run (List.replicate 8 (.main {}) ++ List.replicate 2 (.worker 0 {})
        ++ List.replicate 6 (.worker 1 {}) ++ List.replicate 8 (.worker 0 {}))
        (State.initial [0] 0 [.go 0, .go 1, .startRuntime 2]) = some s' ∧
      s'.sh.view = s.sh.view := by
  have h : ((runtime deliveryProgram).run
      (List.replicate 7 (Act.main {}) ++ List.replicate 15 (Act.worker 0 {}))
      (State.initial [0] 0 [.go 0, .go 1, .startRuntime 1])).map (fun s => (s.sh.aborted,
        s.main.pc.pushes, s.main.rest.length, s.sh.finishedAll)) = some (none, none, 0, true) := by
    rfl
  have h' : ((runtime deliveryProgram).run (List.replicate 8 (Act.main {}) ++
      List.replicate 2 (Act.worker 0 {}) ++ List.replicate 6 (Act.worker 1 {}) ++
      List.replicate 8 (Act.worker 0 {}))
      (State.initial [0] 0 [.go 0, .go 1, .startRuntime 2])).map (fun s => (s.sh.aborted,
        s.main.pc.pushes, s.main.rest.length, s.sh.finishedAll)) = some (none, none, 0, true) := by
    rfl
  obtain ⟨s, hs, hst⟩ := Option.map_eq_some_iff.mp h
  obtain ⟨s', hs', hst'⟩ := Option.map_eq_some_iff.mp h'
  obtain ⟨hr, ha, hstall⟩ := delivery_finished hs hst
  obtain ⟨hr', -, hstall'⟩ := delivery_finished hs' hst'
  have hcalls : ([.go 0, .go 1, .startRuntime 2] : List (MainOp Nat)).filterMap MainOp.go?
      = ([.go 0, .go 1, .startRuntime 1] : List (MainOp Nat)).filterMap MainOp.go? := rfl
  have hO : ∀ i f, (([.go 0, .go 1, .startRuntime 1] : List (MainOp Nat)).filterMap
      MainOp.go?)[i]? = some f → deliveryOwnership.pts i f := by
    intro i f hf
    have hf : ([0, 1] : List Nat)[i]? = some f := hf
    rcases i with _ | _ | i <;> cases hf <;> exact .inl rfl
  exact ⟨s, s', hs, hs', ((runtime_determinate deliveryProgram_basic deliveryProgram_bare
    deliveryOwnership hO hcalls hr ha hstall hr').2 hstall').1⟩

end MyGoroutine
