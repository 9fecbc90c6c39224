import MyGoroutine.Sched.Live

namespace MyGoroutine

/-!
# Launching tasks

A main thread that makes its `go` calls before it starts the runtime: the tasks get the ids
`0, 1, ...` in the order of the calls, and all of them are created before the first worker
exists.

* `launch` — the calls of such a main thread;
* `State.Launched` — how far it has come;
* `reach_launched` — this describes every state reached.
-/

variable {σ V : Type}

/-- The calls `go(f)` for each of `gos`, and then `start_runtime(n)` for each of `ns`. -/
def launch (gos : List σ) (ns : List Nat) : List (MainOp σ) :=
  gos.map .go ++ ns.map .startRuntime

/-- How far a main thread with the calls `launch gos ns` has come. -/
inductive State.Launched (gos : List σ) (ns : List Nat) (chans : List (Chan V)) (s : State σ V) :
    Prop where
  /-- `k` tasks are created. -/
  | pushing {k} (hw : s.workers = []) (hlog : ∀ e ∈ s.sh.log, ∃ i, e = .created i)
      (hdone : ∀ i < k, .created i ∈ s.sh.log) (hchans : s.sh.chans = chans)
      (hm : s.main = ⟨.idle, launch (gos.drop k) ns⟩) (hn : s.sh.nextTaskId = k)
  /-- The task `k` is about to be queued. -/
  | goPush {k f} (hw : s.workers = []) (hlog : ∀ e ∈ s.sh.log, ∃ i, e = .created i)
      (hdone : ∀ i < k, .created i ∈ s.sh.log) (hchans : s.sh.chans = chans)
      (hf : gos[k]? = some f) (hm : s.main = ⟨.goPush k f, launch (gos.drop (k + 1)) ns⟩)
      (hn : s.sh.nextTaskId = k + 1)
  /-- All tasks are created. -/
  | started (hdone : ∀ i < gos.length, .created i ∈ s.sh.log) (hm : s.main.pc.pushes = none)
      (hrest : ∀ f, .go f ∉ s.main.rest)

section Launch

variable {P : Program σ V} {gos : List σ} {ns : List Nat} {chans : List (Chan V)}
  {s s' : State σ V}

/-- Without workers there is nobody to wake. -/
theorem Notified.eq_nil {n : Notify} {ws : List (Pc σ V)} (h : Notified [] n ws) : ws = [] := by
  cases h with
  | one h => simp at h
  | _ => rfl

/-- The next call of the main thread queues the next closure. -/
theorem launch_drop {k : Nat} {f : σ} {rest : List (MainOp σ)}
    (h : launch (gos.drop k) ns = .go f :: rest) :
    gos[k]? = some f ∧ rest = launch (gos.drop (k + 1)) ns := by
  cases hd : gos.drop k with
  | nil =>
    rw [hd] at h
    cases ns <;> simp [launch] at h
  | cons g gs =>
    have hk : gos[k]? = some g := by
      rw [← List.head?_drop, hd]
      rfl
    have htail : gos.drop (k + 1) = gs := by
      rw [← List.tail_drop, hd]
      rfl
    rw [hd] at h
    simp only [launch, List.map_cons, List.cons_append, List.cons.injEq, MainOp.go.injEq] at h
    rw [htail]
    exact ⟨h.1 ▸ hk, h.2.symm⟩

/-- The main thread keeps to its plan. -/
theorem State.Launched.main (h : s.Launched gos ns chans) (hs : MainStep s s') :
    s'.Launched gos ns chans := by
  cases h with
  | @pushing k hw hlog hdone hchans hm hn =>
    cases hs with
    -- the next `go` of the plan gets the next id
    | @go f rest hm' =>
      rw [hm'] at hm
      obtain ⟨hf, hrest⟩ := launch_drop (congrArg Main.rest hm).symm
      refine .goPush hw hlog hdone hchans hf ?_ ?_
      · show (⟨.goPush s.sh.nextTaskId f, rest⟩ : Main σ) = _
        rw [hn, hrest]
      · show s.sh.nextTaskId + 1 = _
        rw [hn]
    -- `start_runtime` comes when the plan has no `go` left
    | @start n rest hm' =>
      have hrest := congrArg Main.rest (hm'.symm.trans hm)
      have hnil : gos.drop k = [] := by
        cases hd : gos.drop k with
        | nil => rfl
        | cons g gs => rw [hd] at hrest; cases hrest
      rw [hnil] at hrest
      refine .started (fun i hi => hdone i ?_) rfl fun f hf => ?_
      · have := List.drop_eq_nil_iff.mp hnil
        omega
      · have hmem : MainOp.go f ∈ launch ([] : List σ) ns := by
          rw [← show MainOp.startRuntime n :: rest = launch [] ns from hrest]
          exact List.mem_cons_of_mem _ hf
        simp [launch] at hmem
    | goPush hm' | spawn hm' | spawned hm' | joined hm' | join hm' => rw [hm'] at hm; cases hm
  | @goPush k f hw hlog hdone hchans hf hm hn =>
    cases hs with
    | @goPush id g rest ws hm' hfree hnot =>
      rw [hm'] at hm
      cases hm
      -- no worker exists yet, so nobody is woken
      rw [hw] at hnot
      refine .pushing (k := k + 1) hnot.eq_nil ?_ ?_ hchans rfl hn
      · intro e he
        rcases List.mem_append.mp he with he | he
        · exact hlog e he
        · exact ⟨k, List.mem_singleton.mp he⟩
      · intro i hi
        rcases Nat.lt_succ_iff_lt_or_eq.mp hi with hi | rfl
        · exact List.mem_append_left _ (hdone i hi)
        · exact List.mem_append_right _ (List.mem_singleton_self _)
    | go hm' | start hm' | spawn hm' | spawned hm' | joined hm' | join hm' =>
      rw [hm'] at hm
      cases hm
  | started hdone hm hrest =>
    cases hs with
    | go hm' => rw [hm'] at hrest; exact absurd List.mem_cons_self (hrest _)
    | start hm' =>
      rw [hm'] at hrest
      exact .started hdone rfl fun f hf => hrest f (List.mem_cons_of_mem _ hf)
    | goPush hm' => rw [hm'] at hm; cases hm
    | spawn hm' | spawned hm' | joined hm' | join hm' =>
      rw [hm'] at hrest
      exact .started hdone rfl hrest

/-- **How far the main thread has come**, in every state reached. -/
theorem reach_launched {caps : List Nat} {groups : Nat} {ok : Act → State σ V → Prop}
    (hr : ((runtime P).startingAt (.initial caps groups (launch gos ns))).Reach ok s) :
    s.Launched gos ns (caps.map (Chan.withCapacity V)) := by
  refine hr.invariant ?_ ?_
  · rintro s rfl
    exact .pushing (k := 0) rfl (by simp [State.initial]) (by simp) rfl rfl rfl
  · intro s s' a _ h _ hn
    obtain ⟨-, hn⟩ := next_inv hn
    cases hn with
    | main hs => exact h.main hs
    | worker hw hs =>
      cases h with
      | pushing hnil | goPush hnil => rw [hnil] at hw; simp at hw
      | started hdone hm hrest =>
        obtain ⟨es, hl⟩ := hs.sched.log_append
        refine .started (fun i hi => ?_) hm hrest
        show Event.created i ∈ _
        rw [hl]
        exact List.mem_append_left _ (hdone i hi)
    | spurious hw =>
      cases h with
      | pushing hnil | goPush hnil => rw [hnil] at hw; simp at hw
      | started hdone hm hrest => exact .started hdone hm hrest
    | tick | setReadable =>
      cases h with
      | pushing hw hlog hdone hchans hm hn => exact .pushing hw hlog hdone hchans hm hn
      | goPush hw hlog hdone hchans hf hm hn => exact .goPush hw hlog hdone hchans hf hm hn
      | started hdone hm hrest => exact .started hdone hm hrest

end Launch

end MyGoroutine
