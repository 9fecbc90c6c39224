import MyGoroutine.Yield.Joined

namespace MyGoroutine.Yield

/-!
# `start_runtime` of `multi.rs` and `spawn.rs`: are all tasks done when it returns?

* `State.AllDone` — no worker holds a task, and all tasks of the calls made so far are done;
* `multi_completes` — in `multi.rs` this is so whenever `start_runtime` returns, and every
  interleaving is finite and ends with the main thread's last call done;
* `spawn_completes` — in `spawn.rs` it is so in the runs in which no joined worker leaves early, and
  every step by which one leaves early can be continued to a return too early;
* `spawn_returns_early` — a run in which `start_runtime` returns while a task still runs.
-/

variable {α : Type}

/-- All tasks of the calls made so far are done. -/
structure State.AllDone (calls : List (MainOp (Script α))) (s : State α) : Prop where
  workers : ∀ x ∈ s.workers, x.pc.holds = false
  tasks : ∃ made, calls = made ++ s.main.rest ∧ s.sh.AllDone (goes made)

section Threads

variable {v : Variant} {calls : List (MainOp (Script α))} {s s' : State α} {a : Act} {w i : Nat}
  {x y : Worker α} {e : Effect α} {sh : Shared α} {es : List (Event α)} {pc : Pc α}
  {ok : Act → State α → Prop}

/-- A worker that holds no task holds no strand. -/
theorem strands_of_holds (h : pc.holds = false) : pc.strands = 0 := by
  cases pc with
  | run t c => cases h
  | switched t =>
    have ht : t.state = .dead := by simpa [Pc.holds] using h
    rw [Pc.strands, if_pos ht]
  | _ => rfl

/-- Where no task is left, all are done. -/
theorem allDone_of_free (hr : (threads v calls).Reach ok s) (hmain : mainStrands s.main.pc = 0)
    (hq : s.sh.tasks = []) (hfree : ∀ x ∈ s.workers, x.pc.holds = false) : s.AllDone calls := by
  have hheld : (s.workers.map fun x => x.pc.strands).sum = 0 :=
    List.sum_eq_zero fun m hm => by
      obtain ⟨x, hx, rfl⟩ := List.mem_map.mp hm
      exact strands_of_holds (hfree x hx)
  have hempty : s.pool.strands = 0 := by
    simp [State.pool, Shared.pool, State.held, hheld, hmain, Shared.strands, hq]
  obtain ⟨made, hcalls, hsub⟩ := reach_submitted hr
  exact ⟨hfree, made, hcalls, hsub ▸ (reach_pool hr).2.allDone hempty⟩

/-- **When `start_runtime` returns, all tasks are done**, in every run in which no joined worker
    leaves early. -/
theorem reach_allDone (hn : ∀ n, .startRuntime n ∈ calls → 0 < n)
    (hr : (threads v calls).Reach StaysForHeld s) (hret : s.main.pc = .join []) :
    s.AllDone calls := by
  have hcov := reach_covered hn hr
  rw [State.Covered, hret] at hcov
  rcases hcov with ⟨x, hx, hlive⟩ | ⟨hq, hfree⟩
  · -- a live worker would still be to be joined
    obtain ⟨i, hi⟩ := List.mem_iff_getElem?.mp hx
    have := (reach_handles hr).live i x hi hlive
    rw [hret] at this
    cases this
  · exact allDone_of_free hr (by rw [hret]; rfl) hq hfree

/-! ### `multi.rs`

All workers are joined, so when one of them leaves, what is left is in the hands of others that are
joined as well.
-/

/-- The task is not about to spawn a worker. -/
def Pc.SpawnsNone : Pc α → Prop
  | .run _ (.spawnWorker _ _) => False
  | .run _ (.threadSpawn _ _ _) => False
  | _ => True

/-- Only `enter_blocking` of `spawn.rs` spawns workers. -/
theorem loopStep_spawnsNone (hs : loopStep .multi es sh pc = some e) (hpc : pc.SpawnsNone) :
    e.pc.SpawnsNone ∧ e.spawn = none := by
  cases pc with
  | top =>
    obtain rfl := Option.some.inj hs
    unfold popStep
    split <;> exact ⟨trivial, rfl⟩
  | run t c =>
    obtain rfl := Option.some.inj hs
    cases c with
    | user k => cases k <;> exact ⟨trivial, rfl⟩
    | spawnWorker a k => cases hpc
    | threadSpawn id a k => cases hpc
    | _ => exact ⟨trivial, rfl⟩
  | switched t =>
    obtain rfl := Option.some.inj hs
    unfold switchedStep
    split <;> exact ⟨trivial, rfl⟩
  | exited => cases hs

/-- In `multi.rs` every worker is joined. -/
theorem multi_initial (hr : (threads .multi calls).Reach ok s) :
    ∀ x ∈ s.workers, x.initial = true ∧ x.pc.SpawnsNone := by
  refine hr.invariant (I := fun s => ∀ x ∈ s.workers, x.initial = true ∧ x.pc.SpawnsNone) ?_ ?_
  · rintro _ rfl x hx
    cases hx
  · intro s s' a _ hi _ hn
    cases next_inv hn with
    | @worker w x e hw hs =>
      obtain ⟨hinit, hpc⟩ := hi x (List.mem_of_getElem? hw)
      obtain ⟨hpc', hspawn⟩ := loopStep_spawnsNone hs hpc
      intro y hy
      rw [State.apply, hspawn] at hy
      rcases List.mem_or_eq_of_mem_set (by simpa using hy) with hy | rfl
      · exact hi y hy
      · exact ⟨hinit, hpc'⟩
    | main hs =>
      cases mainStep_inv hs with
      | @spawn i n hd rest hm hlt =>
        intro y hy
        rcases List.mem_append.mp hy with hy | hy
        · exact hi y hy
        · rw [List.mem_singleton.mp hy]
          exact ⟨rfl, trivial⟩
      | _ => exact hi

/-- **In `multi.rs` no worker leaves early**: when all others have left, nobody else can hold a
    task. -/
theorem multi_stays (hr : (threads .multi calls).Reachable s) (a : Act) : StaysForHeld a s := by
  cases a with
  | main => rfl
  | worker w =>
    rw [StaysForHeld, Bool.eq_false_iff]
    intro hl
    simp only [leavesEarly?, Bool.and_eq_true, List.all_eq_true, List.any_eq_true,
      Option.any_eq_true] at hl
    obtain ⟨⟨⟨⟨⟨x, hw, -, htop⟩, -⟩, -⟩, hothers⟩, y, hy, hholds⟩ := hl
    obtain ⟨i, hi⟩ := List.mem_iff_getElem?.mp hy
    by_cases hiw : i = w
    · subst i
      obtain rfl : x = y := Option.some.inj (hw.symm.trans hi)
      cases hpc : x.pc <;> simp [hpc, Pc.isTop, Pc.holds] at htop hholds
    · have hlive := hothers y (List.mem_eraseIdx_iff_getElem?.mpr ⟨i, hiw, hi⟩)
      rw [Worker.live, (multi_initial hr y hy).1] at hlive
      cases hpc : y.pc <;> simp [hpc, Pc.isExited, Pc.holds] at hlive hholds

/-- **`start_runtime` of `multi.rs` runs until all tasks are done.**  Every interleaving is finite, and
    when no thread can go on the main thread has returned from its last call; whenever a call of
    `start_runtime` has joined its workers, all of them have left their loop and all tasks are
    done. -/
theorem multi_completes (hn : ∀ n, .startRuntime n ∈ calls → 0 < n) (as : List Act) (s : State α)
    (hrun : (threads .multi calls).run as (.initial calls) = some s) :
    as.length ≤ (calls.map callSize).sum ∧
      ((∀ a, next .multi a s = none) → s.main = ⟨.idle, []⟩) ∧
      (s.main.pc = .join [] → (∀ x ∈ s.workers, x.pc = .exited) ∧ s.AllDone calls) := by
  have hr : (threads .multi calls).Reachable s := System.run_reachable rfl hrun
  refine ⟨run_length_le_size hrun, idle_of_stuck hr, fun hret => ⟨fun x hx => ?_, ?_⟩⟩
  · by_contra hne
    obtain ⟨i, hi⟩ := List.mem_iff_getElem?.mp hx
    have := (reach_handles hr).live i x hi (Worker.live_of_initial (multi_initial hr x hx).1 hne)
    rw [hret] at this
    cases this
  · exact reach_allDone hn (hr.always fun a s hr => multi_stays hr a) hret

end Threads

/-- A task that spawns a child and yields, which does one step, with two workers; worker 1 finds the
    queue empty while worker 0 runs the parent, and leaves at once. -/
def parentCalls : List (MainOp (Script Nat)) :=
  [.go (.go (.act 1 .done) (.gosched .done)), .startRuntime 2]

/-- Two workers run a task that spawns a child, and both tasks are done when `start_runtime`
    returns. -/
theorem multi_completes_parent :
    ∃ s, (threads .multi parentCalls).run
        (List.replicate 6 Act.main ++ [Act.worker 0, Act.worker 1] ++
          List.replicate 12 (Act.worker 0) ++ [Act.main, Act.main]) (.initial parentCalls) = some s ∧
      s.main.pc = .join [] ∧ (∀ x ∈ s.workers, x.pc = .exited) ∧ s.AllDone parentCalls := by
  have h : ((threads .multi parentCalls).run
      (List.replicate 6 Act.main ++ [Act.worker 0, Act.worker 1] ++
        List.replicate 12 (Act.worker 0) ++ [Act.main, Act.main]) (.initial parentCalls)).map
          (fun s => s.main.pc)
      = some (.join []) := by rfl
  obtain ⟨s, hs, hpc⟩ := Option.map_eq_some_iff.mp h
  have hn : ∀ n, .startRuntime n ∈ parentCalls → 0 < n := by
    intro n hmem
    simp only [parentCalls, List.mem_cons, reduceCtorEq, MainOp.startRuntime.injEq, List.not_mem_nil,
      false_or, or_false] at hmem
    omega
  exact ⟨s, hs, hpc, (multi_completes hn _ s hs).2.2 hpc⟩

/-! ### `spawn.rs`

A detached worker may hold a task when the last joined worker leaves. The condition excludes this
step, and every such step leads on to an early return.
-/

section Spawn

variable {calls : List (MainOp (Script α))} {s : State α} {w : Nat}

/-- The main thread joins workers that have left. -/
theorem join_run {v : Variant} (sh : Shared α) (ws : List (Worker α)) (rest : List (MainOp (Script α)))
    {hd : List Nat} (hex : ∀ w ∈ hd, ∃ x, ws[w]? = some x ∧ x.pc = .exited) :
    (threads v calls).run (List.replicate hd.length .main) ⟨sh, ws, ⟨.join hd, rest⟩⟩
      = some ⟨sh, ws, ⟨.join [], rest⟩⟩ := by
  induction hd with
  | nil => rfl
  | cons w hd ih =>
    obtain ⟨⟨id, initial, pc⟩, hw, rfl⟩ := hex w List.mem_cons_self
    have hstep : next v .main ⟨sh, ws, ⟨.join (w :: hd), rest⟩⟩
        = some ⟨sh, ws, ⟨.join hd, rest⟩⟩ := by
      simp only [next, mainStep, hw]
    rw [List.length_cons, List.replicate_succ, System.run_cons, threads_next, hstep,
      Option.bind_some]
    exact ih fun w hw => hex w (List.mem_cons_of_mem _ hw)

/-- When the initial workers have all been spawned and have left, `start_runtime` can return at once,
    whatever the other workers do. -/
theorem returns_of_left {v : Variant} (hh : s.Handles) (hall : allSpawned s.main.pc = true)
    (hleft : ∀ x ∈ s.workers, x.live = false) :
    ∃ as s', (threads v calls).run as s = some s' ∧ s'.workers = s.workers ∧
      s'.main.pc = .join [] := by
  have hex : ∀ w ∈ handles s.main.pc, ∃ x, s.workers[w]? = some x ∧ x.pc = .exited := by
    intro w hw
    obtain ⟨x, hx, hinit⟩ := hh.initial w hw
    refine ⟨x, hx, ?_⟩
    by_contra hne
    have := Worker.live_of_initial hinit hne
    rw [hleft x (List.mem_of_getElem? hx)] at this
    cases this
  obtain ⟨sh, ws, ⟨pc, rest⟩⟩ := s
  cases pc with
  | idle => cases hall
  | goPush id f => cases hall
  | spawn i n hd =>
    have hle : ¬ i < n := Nat.not_lt.mpr (of_decide_eq_true hall)
    have hstep : next v .main ⟨sh, ws, ⟨.spawn i n hd, rest⟩⟩ = some ⟨sh, ws, ⟨.join hd, rest⟩⟩ := by
      simp only [next, mainStep, if_neg hle]
    refine ⟨.main :: List.replicate hd.length .main, ⟨sh, ws, ⟨.join [], rest⟩⟩, ?_, rfl, rfl⟩
    rw [System.run_cons, threads_next, hstep, Option.bind_some]
    exact join_run sh ws rest hex
  | join hd => exact ⟨_, _, join_run sh ws rest hex, rfl, rfl⟩

/-- A worker that leaves early leaves a detached worker behind that holds a task, with nobody left to
    wait for. -/
theorem leavesEarly_inv {v : Variant} (hl : leavesEarly? (.worker w) s = true) :
    ∃ s', next v (.worker w) s = some s' ∧ s'.main = s.main ∧ allSpawned s.main.pc = true ∧
      (∀ x ∈ s'.workers, x.live = false) ∧
      ∃ x ∈ s'.workers, x.initial = false ∧ x.pc.holds = true := by
  simp only [leavesEarly?, Bool.and_eq_true, List.all_eq_true, List.any_eq_true,
    Option.any_eq_true] at hl
  obtain ⟨⟨⟨⟨⟨x, hw, -, htop⟩, hq⟩, hall⟩, hothers⟩, y, hy, hholds⟩ := hl
  have hpc : x.pc = .top := by
    cases hpc : x.pc with
    | top => rfl
    | _ => rw [hpc] at htop; cases htop
  have htasks : s.sh.tasks = [] := List.isEmpty_iff.mp hq
  -- the step itself
  have hs : loopStep v [.shutDown x.workerId] s.sh x.pc
      = some ⟨s.sh.record [.shutDown x.workerId], .exited, none⟩ := by
    rw [hpc, loopStep, popStep, htasks]
  have hnext : next v (.worker w) s
      = some (s.apply w x ⟨s.sh.record [.shutDown x.workerId], .exited, none⟩) := by
    rw [next, hw, Option.bind_some, hs]
    rfl
  refine ⟨_, hnext, rfl, hall, fun z hz => ?_, ?_⟩
  · obtain ⟨i, hi⟩ := List.mem_iff_getElem?.mp hz
    rcases getElem?_apply hi with ⟨-, rfl⟩ | ⟨hne, hz⟩ | ⟨hinit, -⟩
    · exact Bool.and_false _
    · have := hothers z (List.mem_eraseIdx_iff_getElem?.mpr ⟨i, hne, hz⟩)
      simpa using this
    · rw [Worker.live, hinit]
      rfl
  · -- the one that holds a task is not the one that leaves, and no initial worker
    obtain ⟨i, hi⟩ := List.mem_iff_getElem?.mp hy
    have hne : i ≠ w := by
      rintro rfl
      obtain rfl : x = y := Option.some.inj (hw.symm.trans hi)
      rw [hpc] at hholds
      cases hholds
    have hi' := getElem?_apply_of w x ⟨s.sh.record [.shutDown x.workerId], .exited, none⟩ hi
    rw [if_neg hne] at hi'
    refine ⟨y, List.mem_of_getElem? hi', ?_, hholds⟩
    have hlive := hothers y (List.mem_eraseIdx_iff_getElem?.mpr ⟨i, hne, hi⟩)
    cases hinit : y.initial with
    | false => rfl
    | true =>
      rw [Worker.live, hinit] at hlive
      cases hpc : y.pc <;> simp [hpc, Pc.isExited, Pc.holds] at hlive hholds

/-- **`start_runtime` of `spawn.rs` runs until all tasks are done**, in the runs in which the last of
    the joined workers never leaves while another thread holds a task; each step that does so can be
    continued to a return of `start_runtime` while a detached worker still holds a task. -/
theorem spawn_completes (hn : ∀ n, .startRuntime n ∈ calls → 0 < n) :
    (∀ s, (threads .spawn calls).Reach StaysForHeld s → s.main.pc = .join [] → s.AllDone calls) ∧
      ∀ s a, (threads .spawn calls).Reachable s → ¬ StaysForHeld a s →
        ∃ as s', (threads .spawn calls).run (a :: as) s = some s' ∧ s'.main.pc = .join [] ∧
          ∃ x ∈ s'.workers, x.initial = false ∧ x.pc.holds = true := by
  refine ⟨fun s hr hret => reach_allDone hn hr hret, fun s a hr hok => ?_⟩
  cases a with
  | main => exact absurd rfl hok
  | worker w =>
    obtain ⟨t, ht, hmain, hall, hleft, hholds⟩ := leavesEarly_inv (v := .spawn)
      (Bool.not_eq_false _ ▸ hok)
    have hht : t.Handles := reach_handles (System.Reachable.step hr (threads_next ▸ ht))
    have hreturn : ∃ as s', (threads .spawn calls).run as t = some s' ∧ s'.workers = t.workers ∧
        s'.main.pc = .join [] := returns_of_left hht (hmain ▸ hall) hleft
    obtain ⟨as, s', hrun, hws, hret⟩ := hreturn
    refine ⟨as, s', ?_, hret, hws ▸ hholds⟩
    rw [System.run_cons, threads_next, ht, Option.bind_some]
    exact hrun

end Spawn

/-- A task that blocks in an io wrapper, and one that does one step. -/
def ioCalls (n : Nat) : List (MainOp (Script Nat)) :=
  [.go (.io 1 .done), .go (.act 2 .done), .startRuntime n]

/-- **A return too early.**  The first task enters the blocking operation, and the detached worker
    takes the second one.  The first task ends, the initial worker finds the queue empty and leaves,
    and `start_runtime` returns; the second task has been resumed, and has not finished. -/
theorem spawn_returns_early :
    ∃ s, (threads .spawn (ioCalls 1)).Reachable s ∧ s.main.pc = .join [] ∧
      .created none 1 (.act 2 .done) ∈ s.sh.log ∧ seen 1 s.sh.log = [.resume] ∧
      ¬ s.AllDone (ioCalls 1) := by
  have h : ((threads .spawn (ioCalls 1)).run
      (List.replicate 7 Act.main ++ List.replicate 4 (Act.worker 0) ++ Act.worker 1 ::
        List.replicate 4 (Act.worker 0) ++ [Act.main]) (.initial (ioCalls 1))).map
          (fun s => (s.main.pc, s.sh.log[2]?, seen 1 s.sh.log))
      = some (.join [], some (.created none 1 (.act 2 .done)), [.resume]) := by rfl
  obtain ⟨s, hs, hst⟩ := Option.map_eq_some_iff.mp h
  obtain ⟨hm, hst⟩ := Prod.mk.inj hst
  obtain ⟨hc, hseen⟩ := Prod.mk.inj hst
  have hcreated := List.mem_of_getElem? hc
  refine ⟨s, System.run_reachable (M := threads .spawn (ioCalls 1)) rfl hs, hm, hcreated, hseen, ?_⟩
  intro hall
  obtain ⟨made, -, hdone⟩ := hall.tasks
  have hfin := hdone.finished none 1 _ hcreated
  rw [hseen] at hfin
  cases hfin

/-- With two initial workers the same tasks are done in time when the second initial worker takes
    the second task. -/
theorem spawn_completes_two :
    ∃ s, ((threads .spawn (ioCalls 2)).guard fun a s => !leavesEarly? a s).run
        (List.replicate 8 Act.main ++ [Act.worker 0, Act.worker 1] ++ List.replicate 4 (Act.worker 1) ++
          List.replicate 5 (Act.worker 0) ++ [Act.main, Act.main]) (.initial (ioCalls 2)) = some s ∧
      s.main.pc = .join [] ∧ s.AllDone (ioCalls 2) := by
  have h : (((threads .spawn (ioCalls 2)).guard fun a s => !leavesEarly? a s).run
      (List.replicate 8 Act.main ++ [Act.worker 0, Act.worker 1] ++ List.replicate 4 (Act.worker 1) ++
        List.replicate 5 (Act.worker 0) ++ [Act.main, Act.main]) (.initial (ioCalls 2))).map
        (fun s => s.main.pc) = some (.join []) := by rfl
  obtain ⟨s, hs, hpc⟩ := Option.map_eq_some_iff.mp h
  have hr : (threads .spawn (ioCalls 2)).Reach StaysForHeld s :=
    System.run_guard_reach (fun a s h => by simpa [StaysForHeld] using h) rfl hs
  have hn : ∀ n, .startRuntime n ∈ ioCalls 2 → 0 < n := by
    intro n hmem
    simp only [ioCalls, List.mem_cons, reduceCtorEq, MainOp.startRuntime.injEq, List.not_mem_nil,
      false_or, or_false] at hmem
    omega
  exact ⟨s, hs, hpc, (spawn_completes hn).1 s hr hpc⟩

end MyGoroutine.Yield
