import MyGoroutine.Yield.Finite

namespace MyGoroutine.Yield

/-!
# Which workers `start_runtime` waits for

A worker leaves its loop as soon as it finds the queue empty, although tasks that run elsewhere may
still be queued again.  Nothing is left behind as long as the last of the joined workers does not
leave while some other thread holds a task.

* `Worker.live`, `State.Handles`, `reach_handles` — the initial workers that are still in their
  loop are among those that `start_runtime` still joins;
* `leavesEarly?` — the last live worker leaves while a task is held by somebody else;
* `State.Attended`, `reach_covered` — otherwise, once all initial workers are spawned, one of them is
  live or no task is left;
* `idle_of_stuck` — a state without a next step is one in which the main thread has returned from
  its last call.
-/

variable {α : Type}

/-- The thread holds a task that is not dead. -/
def Pc.holds : Pc α → Bool
  | .run _ _ => true
  | .switched t => decide (t.state ≠ .dead)
  | _ => false

/-- The thread is at the top of its loop. -/
def Pc.isTop : Pc α → Bool
  | .top => true
  | _ => false

/-- The thread has left its loop. -/
def Pc.isExited : Pc α → Bool
  | .exited => true
  | _ => false

/-- An initial worker that is still in its loop. -/
def Worker.live (x : Worker α) : Bool := x.initial && !x.pc.isExited

/-- The handles that `start_runtime` has collected or still has to join. -/
def handles : MainPc (Script α) → List Nat
  | .spawn _ _ hs => hs
  | .join hs => hs
  | _ => []

/-- `start_runtime` has spawned its workers, and has not returned. -/
def allSpawned : MainPc (Script α) → Bool
  | .spawn i n _ => decide (n ≤ i)
  | .join _ => true
  | _ => false

/-- Of the initial workers only one is still in its loop, and it leaves, because the queue is empty;
    but some thread holds a task. -/
def leavesEarly? (a : Act) (s : State α) : Bool :=
  match a with
  | .main => false
  | .worker w =>
    s.workers[w]?.any (fun x => x.initial && x.pc.isTop) && s.sh.tasks.isEmpty &&
      allSpawned s.main.pc && (s.workers.eraseIdx w).all (fun x => !x.live) &&
      s.workers.any fun x => x.pc.holds

/-- No joined worker leaves early. -/
def StaysForHeld (a : Act) (s : State α) : Prop := leavesEarly? a s = false

/-- The handles are those of initial workers, and every live one is among them. -/
structure State.Handles (s : State α) : Prop where
  live : ∀ w x, s.workers[w]? = some x → x.live = true → w ∈ handles s.main.pc
  initial : ∀ w ∈ handles s.main.pc, ∃ x, s.workers[w]? = some x ∧ x.initial = true

/-- An initial worker is in its loop, or no task is left outside the main thread. -/
def State.Attended (s : State α) : Prop :=
  (∃ x ∈ s.workers, x.live = true) ∨ (s.sh.tasks = [] ∧ ∀ x ∈ s.workers, x.pc.holds = false)

section Threads

variable {v : Variant} {calls : List (MainOp (Script α))} {s s' : State α} {a : Act} {w i : Nat}
  {x y : Worker α} {e : Effect α} {sh : Shared α} {es : List (Event α)} {pc : Pc α}
  {ok : Act → State α → Prop}

/-- A worker after a step of worker `w`: this one, another one, or one that has just been
    spawned. -/
theorem getElem?_apply (h : (s.apply w x e).workers[i]? = some y) :
    (i = w ∧ y = { x with pc := e.pc }) ∨ (i ≠ w ∧ s.workers[i]? = some y) ∨
      (y.initial = false ∧ y.pc = .top) := by
  by_cases hi : i < s.workers.length
  · have hset : (s.workers.set w { x with pc := e.pc })[i]? = some y := by
      rwa [State.apply, List.getElem?_append_left (by simpa using hi)] at h
    by_cases hiw : i = w
    · subst i
      rw [List.getElem?_set_self hi] at hset
      exact .inl ⟨rfl, (Option.some.inj hset).symm⟩
    · rw [List.getElem?_set_ne (Ne.symm hiw)] at hset
      exact .inr (.inl ⟨hiw, hset⟩)
  · rw [State.apply, List.getElem?_append_right (by simpa using hi)] at h
    obtain ⟨id, -, rfl⟩ := Option.map_eq_some_iff.mp
      (Option.mem_toList.mp (List.mem_of_getElem? h))
    exact .inr (.inr ⟨rfl, rfl⟩)

/-- Worker `i` after a step of worker `w`. -/
theorem getElem?_apply_of (w : Nat) (x : Worker α) (e : Effect α) (hi : s.workers[i]? = some y) :
    (s.apply w x e).workers[i]? = some (if i = w then { x with pc := e.pc } else y) := by
  have hlt : i < s.workers.length := (List.getElem?_eq_some_iff.mp hi).1
  rw [State.apply, List.getElem?_append_left (by simpa using hlt)]
  by_cases hiw : i = w
  · subst i
    rw [List.getElem?_set_self hlt, if_pos rfl]
  · rw [List.getElem?_set_ne (Ne.symm hiw), if_neg hiw]
    exact hi

/-- Only a worker in its loop takes a step. -/
theorem not_exited_of_loopStep (hs : loopStep v es sh pc = some e) : pc.isExited = false := by
  cases pc with
  | exited => cases hs
  | _ => rfl

/-- A worker that is live after a step was live before it. -/
theorem live_of_loopStep (hs : loopStep v es sh x.pc = some e)
    (h : ({ x with pc := e.pc } : Worker α).live = true) : x.live = true := by
  have hx := not_exited_of_loopStep hs
  have hinit : x.initial = true := (Bool.and_eq_true_iff.mp h).1
  rw [Worker.live, hinit, hx]
  rfl

/-- An initial worker is live until it has left. -/
theorem Worker.live_of_initial (hi : x.initial = true) (hx : x.pc ≠ .exited) : x.live = true := by
  rw [Worker.live, hi]
  cases hpc : x.pc with
  | exited => exact absurd hpc hx
  | _ => rfl

/-- **A live initial worker is still to be joined.** -/
theorem reach_handles (hr : (threads v calls).Reach ok s) : s.Handles := by
  refine hr.invariant (I := State.Handles) ?_ ?_
  · rintro _ rfl
    exact ⟨by simp [State.initial], by simp [State.initial, handles]⟩
  · intro s s' a _ hi _ hn
    cases next_inv hn with
    | @worker w x e hw hs =>
      -- the workers after the step are this one, the others, and one that is detached
      refine ⟨fun i y hy hlive => ?_, fun i hih => ?_⟩
      · rcases getElem?_apply hy with ⟨rfl, rfl⟩ | ⟨-, hy⟩ | ⟨hinit, -⟩
        · exact hi.live i x hw (live_of_loopStep hs hlive)
        · exact hi.live i y hy hlive
        · rw [Worker.live, hinit] at hlive
          cases hlive
      · obtain ⟨y, hy, hinit⟩ := hi.initial i hih
        refine ⟨_, getElem?_apply_of w x e hy, ?_⟩
        split
        · next heq =>
          obtain rfl : y = x := by
            rw [heq, hw] at hy
            exact (Option.some.inj hy).symm
          exact hinit
        · exact hinit
    | main hs =>
      have hhandles : ∀ {m : Main (Script α)}, s.main = m → handles s.main.pc = handles m.pc :=
        fun h => by rw [h]
      cases mainStep_inv hs with
      -- the new worker's handle is put behind the others
      | @spawn i n hd rest hm hlt =>
        have hh := hhandles hm
        refine ⟨fun j y hy hlive => ?_, fun j hj => ?_⟩
        · show j ∈ hd ++ [s.workers.length]
          by_cases hjl : j < s.workers.length
          · rw [List.getElem?_append_left hjl] at hy
            have hj := hi.live j y hy hlive
            rw [hh] at hj
            exact List.mem_append_left _ hj
          · have hlen := (List.getElem?_eq_some_iff.mp hy).1
            rw [List.length_append, List.length_singleton] at hlen
            obtain rfl : j = s.workers.length := by omega
            exact List.mem_append_right _ (List.mem_singleton.mpr rfl)
        · rcases List.mem_append.mp (show j ∈ hd ++ [s.workers.length] from hj) with hj | hj
          · obtain ⟨y, hy, hinit⟩ := hi.initial j (hh.symm ▸ hj)
            exact ⟨y, by rw [List.getElem?_append_left (List.getElem?_eq_some_iff.mp hy).1]; exact hy,
              hinit⟩
          · rw [List.mem_singleton.mp hj]
            exact ⟨⟨i, true, .top⟩, by simp, rfl⟩
      | @join w x hd rest hm hw hx =>
        have hh := hhandles hm
        refine ⟨fun j y hy hlive => ?_, fun j hj => hi.initial j (hh.symm ▸ List.mem_cons_of_mem w hj)⟩
        rcases List.mem_cons.mp (hh ▸ hi.live j y hy hlive) with rfl | hj
        · -- the worker that is joined has left
          obtain rfl : x = y := by
            rw [show s.workers[j]? = some x from hw] at hy
            exact Option.some.inj hy
          rw [Worker.live, hx] at hlive
          simp [Pc.isExited] at hlive
        · exact hj
      | @joined rest hm =>
        have hh := hhandles hm
        exact ⟨fun j y hy hlive => hh ▸ hi.live j y hy hlive, fun j hj => by cases hj⟩
      | _ hm =>
        have hh := hhandles hm
        exact ⟨fun j y hy hlive => hh ▸ hi.live j y hy hlive,
          fun j hj => hi.initial j (hh.symm ▸ hj)⟩

/-! ### Somebody attends to what is left

A worker leaves its loop in front of an empty queue. What is left then is on other threads; in
`multi.rs` these are joined as well, in `spawn.rs` they may be detached.
-/

/-- A thread that holds no task, in front of an empty queue, leaves. -/
theorem loopStep_idle (hs : loopStep v es sh pc = some e) (hq : sh.tasks = [])
    (hpc : pc.holds = false) : e.sh.tasks = [] ∧ e.pc.holds = false ∧ e.spawn = none := by
  cases pc with
  | top =>
    obtain rfl := Option.some.inj hs
    rw [popStep, hq]
    exact ⟨hq, rfl, rfl⟩
  | run t c => cases hpc
  | switched t =>
    obtain rfl := Option.some.inj hs
    have ht : t.state = .dead := by simpa [Pc.holds] using hpc
    rw [switchedStep, if_neg (not_not.mpr ht)]
    exact ⟨hq, rfl, rfl⟩
  | exited => cases hs

/-- A worker leaves in front of an empty queue only. -/
theorem loopStep_exits (hs : loopStep v es sh pc = some e) (he : e.pc.isExited = true) :
    pc.isTop = true ∧ sh.tasks = [] ∧ e.sh.tasks = [] := by
  cases pc with
  | top =>
    obtain rfl := Option.some.inj hs
    unfold popStep at he ⊢
    split at he
    · next hq => exact ⟨rfl, hq, hq⟩
    · cases he
  | run t c =>
    obtain rfl := Option.some.inj hs
    exfalso
    cases c with
    | user k =>
      cases k with
      | io a k => cases v <;> cases he
      | _ => cases he
    | _ => cases he
  | switched t =>
    obtain rfl := Option.some.inj hs
    unfold switchedStep at he
    split at he <;> cases he
  | exited => cases hs

/-- A worker's step keeps the workers and tasks attended, unless it leaves early. -/
theorem State.Attended.worker (hi : s.Attended) (hok : StaysForHeld (.worker w) s)
    (hall : allSpawned s.main.pc = true) (hw : s.workers[w]? = some x)
    (hs : loopStep v es s.sh x.pc = some e) : (s.apply w x e).Attended := by
  by_cases hex : ∃ z ∈ (s.apply w x e).workers, z.live = true
  · exact .inl hex
  · have hself := getElem?_apply_of w x e hw
    rw [if_pos rfl] at hself
    -- whoever else was live still is
    have hothers : ∀ i y, s.workers[i]? = some y → i ≠ w → y.live = false := by
      intro i y hy hne
      have hy' := getElem?_apply_of w x e hy
      rw [if_neg hne] at hy'
      by_contra hlive
      exact hex ⟨y, List.mem_of_getElem? hy', by simpa using hlive⟩
    have hfree : s.sh.tasks = [] ∧ ∀ y ∈ s.workers, y.pc.holds = false := by
      rcases hi with ⟨y, hy, hlive⟩ | hfree
      · -- the worker that steps was the only live one, and leaves
        obtain ⟨j, hj⟩ := List.mem_iff_getElem?.mp hy
        have hjw : j = w := by
          by_contra hne
          rw [hothers j y hj hne] at hlive
          cases hlive
        subst j
        obtain rfl : y = x := Option.some.inj (hj.symm.trans hw)
        have hinit : y.initial = true := (Bool.and_eq_true_iff.mp hlive).1
        have he : e.pc.isExited = true := by
          by_contra hne
          exact hex ⟨_, List.mem_of_getElem? hself, by simp [Worker.live, hinit, hne]⟩
        obtain ⟨htop, hq, -⟩ := loopStep_exits hs he
        have hdead : ∀ z ∈ s.workers.eraseIdx w, z.live = false := by
          intro z hz
          obtain ⟨i, hne, hz⟩ := List.mem_eraseIdx_iff_getElem?.mp hz
          exact hothers i z hz hne
        have hheld : (∀ z ∈ s.workers.eraseIdx w, z.live = false) →
            ∀ z ∈ s.workers, z.pc.holds = false := by
          simpa [StaysForHeld, leavesEarly?, hw, hinit, htop, hq, hall] using hok
        exact ⟨hq, hheld hdead⟩
      · exact hfree
    -- then there is nothing that the step could leave behind
    obtain ⟨hq, hpc, hspawn⟩ := loopStep_idle hs hfree.1 (hfree.2 x (List.mem_of_getElem? hw))
    refine .inr ⟨hq, fun y hy => ?_⟩
    obtain ⟨i, hi⟩ := List.mem_iff_getElem?.mp hy
    rcases getElem?_apply hi with ⟨-, rfl⟩ | ⟨-, hy⟩ | ⟨-, htop⟩
    · exact hpc
    · exact hfree.2 y (List.mem_of_getElem? hy)
    · rw [htop]
      rfl

/-- As long as a call of `start_runtime` goes on, the tasks are attended, or a worker is still to be
    spawned. -/
def State.Covered (s : State α) : Prop :=
  match s.main.pc with
  | .spawn i n _ => 0 < n ∧ (i < n ∨ s.Attended)
  | .join _ => s.Attended
  | _ => True

/-- **Somebody attends to what is left**, in every run in which no joined worker leaves early. -/
theorem reach_covered (hn : ∀ n, .startRuntime n ∈ calls → 0 < n)
    (hr : (threads v calls).Reach StaysForHeld s) : s.Covered := by
  refine hr.invariant (I := State.Covered) ?_ ?_
  · rintro _ rfl
    trivial
  · intro s s' a hr hi hok hnext
    cases next_inv hnext with
    | @worker w x e hw hs =>
      have hmain : (s.apply w x e).main = s.main := rfl
      unfold State.Covered at hi ⊢
      rw [hmain]
      split
      · next i n hd hm =>
        rw [hm] at hi
        refine ⟨hi.1, ?_⟩
        -- while workers are still spawned, nothing has to be attended yet
        by_cases hlt : i < n
        · exact .inl hlt
        · refine .inr ((hi.2.resolve_left hlt).worker hok ?_ hw hs)
          simp only [hm, allSpawned, decide_eq_true_eq]
          omega
      · next hd hm =>
        rw [hm] at hi
        exact hi.worker hok (by rw [hm]; rfl) hw hs
      · trivial
    | main hs =>
      cases mainStep_inv hs with
      | @start n rest hm =>
        obtain ⟨made, hcalls, -⟩ := reach_submitted hr
        have hpos : 0 < n := hn n (by rw [hcalls, hm]; simp)
        exact ⟨hpos, .inl hpos⟩
      | @spawn i n hd rest hm hlt =>
        -- the worker that is spawned is awake, and attends to the tasks
        refine ⟨by omega, .inr (.inl ⟨⟨i, true, .top⟩, by simp, rfl⟩)⟩
      | @spawned i n hd rest hm hlt =>
        rw [State.Covered, hm] at hi
        exact hi.2.resolve_left hlt
      | @join w x hd rest hm hw hx =>
        rw [State.Covered, hm] at hi
        exact hi
      | _ hm => trivial

/-- **No thread waits for ever**: when nobody can take a step, the main thread has returned from all
    its calls. -/
theorem idle_of_stuck (hr : (threads v calls).Reach ok s) (hstuck : ∀ a, next v a s = none) :
    s.main = ⟨.idle, []⟩ := by
  have hh := reach_handles hr
  -- all workers have left
  have hex : ∀ (w : Nat) (x : Worker α), s.workers[w]? = some x → x.pc = .exited := by
    intro w x hw
    have := hstuck (.worker w)
    rw [next, hw, Option.bind_some, Option.map_eq_none_iff] at this
    cases hpc : x.pc with
    | exited => rfl
    | _ => rw [hpc] at this; cases this
  have hmain := hstuck .main
  obtain ⟨sh, workers, ⟨pc, rest⟩⟩ := s
  cases pc with
  | idle =>
    cases rest with
    | nil => rfl
    | cons op rest => cases op <;> cases hmain
  | goPush id f => cases hmain
  | spawn i n hd =>
    simp only [next, mainStep] at hmain
    split at hmain <;> cases hmain
  | join hd =>
    cases hd with
    | nil => cases hmain
    | cons w hd =>
      obtain ⟨x, hx, -⟩ := hh.initial w List.mem_cons_self
      obtain ⟨id, initial, pc⟩ := x
      obtain rfl : pc = .exited := hex w _ hx
      simp only [next, mainStep] at hmain
      rw [show workers[w]? = _ from hx] at hmain
      cases hmain

end Threads

end MyGoroutine.Yield
