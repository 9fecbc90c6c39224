import MyGoroutine.Sched.Run
import MyGoroutine.Timers.Step
import MyGoroutine.Wake.Basic
import MyGoroutine.Wake.Release

namespace MyGoroutine

open History (Each)

/-!
# Sleep

`sleep` computes its wake time, and panics if that is no `Instant`.  Otherwise it leaves an entry in
the heap and parks.  Only `check_timers` takes the entry out, and it has read the clock before: so a
task that is back has slept long enough.

* `Pc.now?` — the clock reading of a worker inside `check_timers`;
* `State.Punctual`, `reach_punctual` — clock readings, and those in the history, are past;
* `Code.sleepsTo`, `State.Sleeps` — a task inside its `sleep`, with its entry in the heap;
* `State.Sleeps.step` — it stays there until its wake time;
* `sleep_not_early`.
-/

variable {σ V : Type}

/-- The clock reading with which a worker runs `check_timers`. -/
def Pc.now? : Pc σ V → Option Instant
  | .timersLock _ now => some now
  | .timersReady _ now _ => some now
  | _ => none

/-- The clock has been read before. -/
structure State.Punctual (s : State σ V) : Prop where
  reads : ∀ pc ∈ s.workers, ∀ now, pc.now? = some now → now ≤ s.sh.clock
  pops : ∀ i w now, .timerPop i w now ∈ s.sh.log → now ≤ s.sh.clock

section Clock

variable {P : Program σ V} {ch : Choice} {free : Bool} {sh : Shared σ V} {t : Task σ V}
  {pc : Pc σ V} {e : Effect σ V} {a : Act} {s s' : State σ V}

/-- No thread moves the clock. -/
theorem framed_clock : Framed (Shared.clock : Shared σ V → Instant) :=
  ⟨beside_clock, fun _ _ => rfl, fun _ _ => rfl⟩

/-- No thread moves the clock. -/
theorem TaskStep.clock (hs : TaskStep P ch free sh t e) : e.sh.clock = sh.clock := by
  cases hs with
  | chanPoisoned | chanClosed | recvUnwrap | groupPanic | sleepOverflow | netFail =>
    rw [raise_sh]
    rfl
  | close | add => rw [finish_sh]; rfl
  | goready | wakeMore | wakeLast => exact beside_clock.goready _ _ _
  | _ => rfl

/-- A step of a worker takes no time. -/
theorem WorkerStep.clock (hs : WorkerStep P ch free sh pc e) : e.sh.clock = sh.clock := by
  by_cases hpc : ∃ t, pc = .run t
  · obtain ⟨t, rfl⟩ := hpc
    cases hs with
    | run hs => exact hs.clock
  · exact hs.framed framed_clock fun t ht => hpc ⟨t, ht⟩

/-- The clock does not go back. -/
theorem next_clock (hn : (runtime P).next a s = some s') : s.sh.clock ≤ s'.sh.clock := by
  cases (next_inv hn).2 with
  | worker _ hs => exact hs.clock.ge
  | main hs => cases hs <;> exact Nat.le_refl _
  | spurious | setReadable => exact Nat.le_refl _
  | tick => exact Nat.le_add_right _ _

/-- A worker with a task has read no clock. -/
theorem now?_of_task? {u : Task σ V} (h : pc.task? = some u) : pc.now? = none := by
  cases pc <;> first | rfl | cases h

/-- A worker at `pop_front` has read no clock. -/
theorem tryPop_now? {otherwise : Pc σ V} (h : otherwise.now? = none) :
    (tryPop sh otherwise).pc.now? = none := by
  unfold tryPop
  split
  · exact h
  · rfl

/-- A worker inside `check_timers` keeps its clock reading, and a new one is of now. -/
theorem WorkerStep.reads (hs : WorkerStep P ch free sh pc e) {now : Instant}
    (h : e.pc.now? = some now) : pc.now? = some now ∨ now = sh.clock := by
  have hnone : ∀ {pc' : Pc σ V}, pc'.now? = none → pc'.now? = some now → False :=
    fun h h' => by rw [h] at h'; cases h'
  cases hs with
  | timersNow => cases h; exact .inr rfl
  | timersReady | timersPop => exact .inl h
  | run hs =>
    obtain ⟨u, hu⟩ := hs.task?
    exact (hnone (now?_of_task? hu) h).elim
  | @timersEmpty ph _ _ => rcases ph with (_ | _) | _ <;> cases h
  | @timersWait ph _ _ => rcases ph with (_ | _) | _ <;> cases h
  | top | termNetYes | termStay => exact (hnone (tryPop_now? rfl) h).elim
  | notified =>
    simp only [wakeStep] at h
    split at h
    · cases h
    · exact (hnone (tryPop_now? rfl) h).elim
  | goIdle =>
    simp only [idleStep] at h
    split at h <;> cases h
  | _ => cases h

/-- A pop is logged with the worker's clock reading. -/
theorem WorkerStep.pops (hs : WorkerStep P ch free sh pc e) {i : TaskId} {w now : Instant}
    (h : .timerPop i w now ∈ e.sh.log) : .timerPop i w now ∈ sh.log ∨ pc.now? = some now := by
  obtain ⟨es, hl, hs⟩ := hs.timers
  rw [hl] at h
  refine (List.mem_append.mp h).imp_right fun h => ?_
  have hop : .pop ⟨w, i⟩ ∈ heapOps es := List.mem_filterMap.mpr ⟨_, h, rfl⟩
  cases hs with
  | quiet _ hes => rw [hes.1] at hop; cases hop
  | fire _ _ hops => rw [hops] at hop; cases hop
  | push => cases List.mem_singleton.mp h
  | pop hpc => cases List.mem_singleton.mp h; rw [hpc]; rfl

/-- **Clock readings are past**, in every state reached. -/
theorem reach_punctual {ok : Act → State σ V → Prop} (hr : (runtime P).Reach ok s) :
    s.Punctual := by
  refine hr.invariant ?_ ?_
  · rintro s ⟨caps, groups, calls, rfl⟩
    exact ⟨(by intro pc hpc; cases hpc), (by intro i w now h; cases h)⟩
  · intro s s' a _ h _ hn
    have hclock := next_clock hn
    have hkept : Kept (fun pc : Pc σ V => ∀ now, pc.now? = some now → now ≤ s'.sh.clock) :=
      ⟨(by intro _ _ h; cases h), (by intro _ _ h; cases h)⟩
    rcases (next_inv hn).2.cases with ⟨w, ch, pc, e, -, hw, hs, hmove⟩ | ⟨ho, hmove⟩
    · have hpc := h.reads pc (List.mem_of_getElem? hw)
      refine ⟨hmove.forall_mem _ hkept (fun j pc' _ hj now hnow => ?_) fun now hnow => ?_,
        fun i w now hmem => ?_⟩
      · exact (h.reads _ (List.mem_of_getElem? hj) now hnow).trans hclock
      · rcases hs.reads hnow with hnow | rfl
        · exact (hpc now hnow).trans hclock
        · exact hclock
      · rw [hmove.sh] at hmem
        rcases hs.pops hmem with hmem | hnow
        · exact (h.pops i w now hmem).trans hclock
        · exact (hpc now hnow).trans hclock
    · refine ⟨hmove.forall_mem _ hkept fun pc hpc now hnow =>
        (h.reads pc hpc now hnow).trans hclock, fun i w now hmem => ?_⟩
      refine (h.pops i w now ?_).trans hclock
      cases ho with
      | go hsh => rw [hsh] at hmem; exact hmem
      | push hsh =>
        rw [hsh] at hmem
        simpa [Shared.pushNew, Shared.record, Shared.withQueue] using hmem
      | same hsh => rw [hsh.log] at hmem; exact hmem

end Clock

/-! ### Inside `sleep`

From its call on a task has its entry still to push, or the entry is in the heap, or it was taken
out; and it was taken out only by a worker whose reading of the clock was late enough. The readings
themselves are past, so the clock has got there.
-/

/-- The code is inside a `sleep` after which it goes on at `k`. -/
def Code.sleepsTo (k : σ) : Code σ V → Prop
  | .sleepPush _ k' => k' = k
  | .park (.sleep k') => k' = k
  | .parked (.sleep k') => k' = k
  | _ => False

/-- The code is inside a `sleep` that ends at `wake`, and its entry is not taken out. -/
def Code.awaits (wake : Instant) (k : σ) (st : Status V) : Code σ V → Prop
  | .sleepPush w k' => w = wake ∧ k' = k
  | .park (.sleep k') => k' = k ∧ st = .queued (.timer wake)
  | .parked (.sleep k') => k' = k ∧ st = .queued (.timer wake)
  | _ => False

/-- The task `i` is inside a `sleep` that ends at `wake`. -/
structure State.Sleeps (s : State σ V) (i : TaskId) (wake : Instant) (k : σ) : Prop where
  created : .created i ∈ s.sh.log
  alive : .died i ∉ s.sh.log
  code : ∀ u, s.Live u → u.id = i → u.code.awaits wake k (s.sh.status i)

section Sleeping

variable {P : Program σ V} {ch : Choice} {free : Bool} {sh : Shared σ V} {t : Task σ V}
  {e : Effect σ V} {a : Act} {s s' : State σ V} {i : TaskId} {wake : Instant} {k : σ}

/-- A task that awaits its wake time is inside `sleep`. -/
theorem Code.awaits.sleepsTo {c : Code σ V} {st : Status V} (h : c.awaits wake k st) :
    c.sleepsTo k := by
  cases c with
  | sleepPush => exact h.2
  | park p | parked p => cases p <;> first | exact h.1 | exact h
  | _ => exact h

/-- **A step of a task inside its `sleep`**: it pushes its entry, or parks. -/
theorem TaskStep.awaits (hs : TaskStep P ch free sh t e)
    (h : t.code.awaits wake k (sh.status t.id))
    (hq : t.code.settles = true → (sh.status t.id).queue? = none) :
    (∀ u, e.pc.task? = some u → u.id = t.id ∧ u.code.awaits wake k (e.sh.status t.id)) ∧
      (.died t.id ∈ e.sh.log → .died t.id ∈ sh.log) := by
  cases hs with
  | @sleepPush w k' hc =>
    rw [hc] at h
    obtain ⟨rfl, rfl⟩ := h
    refine ⟨fun u hu => ?_, fun hd => by simpa [Shared.record] using hd⟩
    cases hu
    refine ⟨rfl, rfl, ?_⟩
    exact (status_append_one (e := .timerPush t.id w) rfl t.id).trans (if_pos rfl)
  | @park p hc =>
    rw [hc] at h
    refine ⟨fun u hu => ?_, id⟩
    cases hu
    cases p <;> exact ⟨rfl, h⟩
  | resumeSleep hc =>
    -- the entry of a task that runs was taken out
    rw [hc] at h hq
    have := hq rfl
    rw [h.2] at this
    cases this
  | chanPoisoned hs | chanClosed hs =>
    cases hs with
    | send hc | sendResume hc | recv hc | recvResume hc | close hc => rw [hc] at h; exact h.elim
  | entry hc | go hc | gosched hc | currentTaskId hc | sleep hc | sleepOverflow hc
  | recvUnwrap hc | groupPanic hc
  | netFail hc | netAdd hc | ioSpawn _ hc | ioBlock _ hc | gopark hc | goready _ hc | done hc
  | goPush _ hc | wakeNil hc | wakeMore _ hc | wakeLast _ hc | close hc | add hc | waitZero hc
  | waitJoin hc | sendDelivered hc | sendBuffered hc | sendEnqueued hc | recvClosed hc | recvTake hc
  | recvRefill hc | recvBuf hc | recvEnqueued hc | registerRead hc | unregister hc
  | spawnWorker _ hc | threadSpawn hc | blocking hc | resumeSend hc | resumeRecv hc | resumeWait hc
  | resumeNet hc | resumeGopark hc =>
    rw [hc] at h
    exact h.elim

/-- A task whose status evolves still awaits its wake time, or the time has come. -/
theorem Code.awaits.evolves {c : Code σ V} {st st' : Status V} (h : c.awaits wake k st)
    (he : Evolves st st') : c.awaits wake k st' ∨ ∃ why, st' = .released (.timer wake) why := by
  rcases he with rfl | ⟨src, why, rfl, rfl⟩
  · exact .inl h
  · cases c with
    | sleepPush => exact .inl h
    | park p | parked p =>
      cases p with
      | sleep => cases h.2; exact .inr ⟨why, rfl⟩
      | _ => exact h.elim
    | _ => exact h.elim

/-- **A task stays inside its `sleep`** until its wake time has come. -/
theorem State.Sleeps.step (h : s.Sleeps i wake k) (hP : P.Structured)
    (hr : (runtime P).Reach FreshPolls s) (hok : FreshPolls a s)
    (hn : (runtime P).next a s = some s') : s'.Sleeps i wake k ∨ wake ≤ s'.sh.clock := by
  refine or_iff_not_imp_right.mpr fun hearly => ?_
  have hr' := hr.step hok hn
  have hlaw := reach_lawful hP (fun _ _ h => h) hr'
  have hdue : ∀ why, s'.sh.status i ≠ .released (.timer wake) why := by
    intro why hst
    obtain ⟨ev, hout⟩ := released_by hlaw hst
    obtain ⟨now, rfl, hle⟩ := hout.timer hlaw
    exact hearly (hle.trans ((reach_punctual hr').pops _ _ _ hout.mem))
  have hkeep : ∀ c : Code σ V, Evolves (s.sh.status i) (s'.sh.status i) →
      c.awaits wake k (s.sh.status i) → c.awaits wake k (s'.sh.status i) := fun c he hc =>
    (hc.evolves he).resolve_right fun ⟨why, hst⟩ => hdue why hst
  have hsh := reach_shaped hr
  have hp := reach_placed hr
  obtain ⟨ha, hnext⟩ := next_inv hn
  obtain ⟨es, hlog⟩ := next_log hn
  have hcreated : .created i ∈ s'.sh.log := hlog ▸ List.mem_append_left _ h.created
  rcases hnext.cases with ⟨w, ch, pc, e, rfl, hw, hs, hmove⟩ | ⟨ho, hmove⟩
  · have hd := reach_disciplined hP (fun _ _ h => h) hr
    have hwake := (hd.wakes hsh hp hw hP hs (fun c m hm => reach_chanInv hr hm)
      (hok w ch pc rfl hw) ha).1
    rw [← hmove.sh] at hwake
    -- the task itself, when the worker runs it
    have hself : ∀ t, pc = .run t → t.id = i →
        (∀ u, e.pc.task? = some u → u.id = t.id ∧ u.code.awaits wake k (e.sh.status t.id)) ∧
          (.died t.id ∈ e.sh.log → .died t.id ∈ s.sh.log) := by
      rintro t rfl rfl
      have hmem := List.mem_of_getElem? hw
      cases hs with
      | run hs =>
        exact hs.awaits (h.code t (.inr ⟨_, hmem, rfl, (hsh.workers _ hmem).run⟩) rfl)
          fun hc => hd.queue?_of_settles hsh hp hw rfl hc
    refine ⟨hcreated, fun hdied => ?_, fun u hu => ?_⟩
    · rw [hmove.sh] at hdied
      rcases hs.sched.died hdied with hdied' | ⟨t, ht, rfl⟩
      · exact h.alive hdied'
      · exact h.alive ((hself t ht rfl).2 hdied)
    · refine hu.worker (I := fun j c => j = i → c.awaits wake k (s.sh.status i))
        (J := fun j c => j = i → c.awaits wake k (s'.sh.status i)) hsh hp hw hs hmove h.code
        ?_ ?_ ?_
      · rintro v ⟨t, ht⟩ hv - rfl
        have hid : v.id = t.id := by
          subst ht
          exact hs.sched.run_id hv
        rw [hmove.sh, hid]
        exact ((hself t ht hid.symm).1 v hv).2
      · rintro j c hne hc rfl
        exact hkeep c (hwake.evolves hne) (hc rfl)
      · rintro j f hborn - - rfl
        exact absurd h.created hborn
  · have hst : s'.sh.status i = s.sh.status i := by
      cases ho with
      | go hsh => exact status_of_log (by rw [hsh]) i
      | @push id _ hsh =>
        exact status_of_neutral [.created id] (by rw [hsh]; rfl)
          (by simp [Event.neutral, Event.update]) i
      | same hsh => exact status_of_log hsh.log i
    refine ⟨hcreated, fun hdied => ?_, fun u hu => ?_⟩
    · refine h.alive ?_
      cases ho with
      | go hsh => rw [hsh] at hdied; exact hdied
      | push hsh =>
        rw [hsh] at hdied
        simpa [Shared.pushNew, Shared.record, Shared.withQueue] using hdied
      | same hsh => rw [hsh.log] at hdied; exact hdied
    · rw [hst]
      refine hu.outer (I := fun j c => j = i → c.awaits wake k (s.sh.status i))
        (J := fun j c => j = i → c.awaits wake k (s.sh.status i)) ho hmove h.code
        (fun _ _ hc => hc) ?_
      rintro j f hm rfl
      exact absurd h.created (not_created_of_main hp hm)

/-- A task that calls `sleep` is inside it. -/
theorem sleeps_of_call {w : Nat} {ch : Choice} {x : σ} {d : Nat} {h : Handler σ} (hsh : s.Shaped)
    (hp : s.Placed) (hw : s.workers[w]? = some (.run t)) (hc : t.code = .user x)
    (hx : P.code x = .sleep d k h) (hd : s.sh.clock + d ≤ Instant.last)
    (hn : (runtime P).next (.worker w ch) s = some s') :
    s'.Sleeps t.id (s.sh.clock + d) k := by
  have hrun := (hsh.workers _ (List.mem_of_getElem? hw)).run
  have hcreated := created_of_worker hp hw rfl hrun
  have hs' : s' = { s with
      workers := s.workers.set w (.run (t.goto (.sleepPush (s.sh.clock + d) k))) } := by
    simp only [runtime, next, hw, workerStep, taskStep, hc, opStep, hx, if_pos hd, Task.continue,
      State.apply, applyNotify, Option.bind_some, Option.map_some] at hn
    split at hn
    · cases hn
    · simpa using hn.symm
  subst hs'
  refine ⟨hcreated, (not_died_of_live hsh hp (.inr ⟨_, List.mem_of_getElem? hw, rfl, hrun⟩)).2,
    fun u hu hid => ?_⟩
  rcases hu with hu | ⟨pc, hpc, hu, hd⟩
  · exact absurd hid.symm (id_ne_of_has hsh hp hw rfl hrun hu)
  · obtain ⟨j, hj⟩ := List.mem_iff_getElem?.mp hpc
    by_cases hjw : j = w
    · subst hjw
      rw [List.getElem?_set_self (List.getElem?_eq_some_iff.mp hw).1] at hj
      cases hj
      cases hu
      exact ⟨rfl, rfl⟩
    · rw [List.getElem?_set_ne (Ne.symm hjw)] at hj
      exact absurd hid.symm (id_ne_of_workers hp hw hj hjw rfl hrun hu hd)

/-- A task that calls `sleep` up to a time that is no `Instant` panics. -/
theorem panics_of_call {w : Nat} {ch : Choice} {x : σ} {d : Nat} {h : Handler σ}
    (hw : s.workers[w]? = some (.run t)) (hc : t.code = .user x) (hx : P.code x = .sleep d k h)
    (hd : Instant.last < s.sh.clock + d) (hn : (runtime P).next (.worker w ch) s = some s') :
    s'.sh.log = s.sh.log ++ [.panicked t.id .instantOverflow] := by
  simp only [runtime, next, hw, workerStep, taskStep, hc, opStep, hx, if_neg (Nat.not_le.mpr hd),
    State.apply, Option.bind_some] at hn
  split at hn
  · cases hn
  · obtain ⟨ws, -, rfl⟩ := Option.map_eq_some_iff.mp hn
    exact raise_log _ _

/-- **`sleep` never returns early.**  For programs that park and wake through the runtime's own
    primitives, any number of workers and every interleaving of polls that report fresh
    registrations: from the call of `sleep` with the duration `d` on, and as long as the clock has
    gone on by less than `d`, the task is still inside the call, whoever calls `check_timers` and
    whatever other entries of the heap are due; unless the call has panicked at once, since the
    time at which it should return is no `Instant`. -/
theorem sleep_not_early (hP : P.Structured) {s₀ s₁ s₂ : State σ V} {w : Nat} {ch : Choice} {x : σ}
    {d : Nat} {h : Handler σ} (hr : (runtime P).Reach FreshPolls s₀)
    (hw : s₀.workers[w]? = some (.run t)) (hc : t.code = .user x) (hx : P.code x = .sleep d k h)
    (hn : (runtime P).next (.worker w ch) s₀ = some s₁)
    (hrun : ((runtime P).startingAt s₁).Reach FreshPolls s₂)
    (hearly : s₂.sh.clock < s₀.sh.clock + d) :
    (∃ u, s₂.Live u ∧ u.id = t.id ∧ u.code.sleepsTo k) ∨
      (Instant.last < s₀.sh.clock + d ∧
        s₁.sh.log = s₀.sh.log ++ [.panicked t.id .instantOverflow]) := by
  by_cases hlast : Instant.last < s₀.sh.clock + d
  · exact .inr ⟨hlast, panics_of_call hw hc hx hlast hn⟩
  have hcall : FreshPolls (.worker w ch) s₀ := by
    intro w' ch' pc hact hw' events hpc
    cases hact
    rw [hw] at hw'
    cases hw'
    cases hpc
  have hstay : (runtime P).Reach FreshPolls s₂ ∧
      (s₂.Sleeps t.id (s₀.sh.clock + d) k ∨ s₀.sh.clock + d ≤ s₂.sh.clock) := by
    clear hearly
    induction hrun with
    | init h =>
      cases h
      exact ⟨hr.step hcall hn,
        .inl (sleeps_of_call (reach_shaped hr) (reach_placed hr) hw hc hx (Nat.not_lt.mp hlast) hn)⟩
    | step _ hok hn ih =>
      obtain ⟨hr, h | h⟩ := ih
      · exact ⟨hr.step hok hn, h.step hP hr hok hn⟩
      · exact ⟨hr.step hok hn, .inr (h.trans (next_clock hn))⟩
  obtain ⟨hr₂, h⟩ := hstay
  have h := h.resolve_right (Nat.not_le.mpr hearly)
  obtain ⟨u, hu, hid⟩ := live_of_created (reach_shaped hr₂) (reach_placed hr₂) h.created h.alive
  exact .inl ⟨u, hu, hid, (h.code u hu hid).sleepsTo⟩

end Sleeping

/-- The task of `napProgram` sleeps for 5, and a worker looks at the heap after 4. -/
theorem sleep_not_early_nap :
    ∃ s₀ s₁ s₂, (runtime napProgram).run
        (List.replicate 5 (.main {}) ++ List.replicate 3 (.worker 0 {}))
        (State.initial [] 0 [.go true, .startRuntime 1]) = some s₀ ∧
      (runtime napProgram).next (.worker 0 {}) s₀ = some s₁ ∧
      (runtime napProgram).run (List.replicate 3 (.worker 0 {}) ++ [.tick 4] ++
        List.replicate 7 (.worker 0 { peek := ⟨5, 0⟩ })) s₁ = some s₂ ∧
      ∃ u, s₂.Live u ∧ u.id = 0 ∧ u.code.sleepsTo false := by
  have h : ((runtime napProgram).run
      (List.replicate 5 (Act.main {}) ++ List.replicate 3 (Act.worker 0 {}))
      (State.initial [] 0 [.go true, .startRuntime 1])).bind (fun s₀ =>
        ((runtime napProgram).next (.worker 0 {}) s₀).bind fun s₁ =>
          ((runtime napProgram).run (List.replicate 3 (.worker 0 {}) ++ [.tick 4] ++
            List.replicate 7 (.worker 0 { peek := ⟨5, 0⟩ })) s₁).map fun s₂ =>
              (s₀.workers[0]?, s₀.sh.clock, s₂.sh.clock))
      = some (some (.run ⟨0, .user true, .running⟩), 0, 4) := by rfl
  obtain ⟨s₀, hs₀, h⟩ := Option.bind_eq_some_iff.mp h
  obtain ⟨s₁, hs₁, h⟩ := Option.bind_eq_some_iff.mp h
  obtain ⟨s₂, hs₂, h⟩ := Option.map_eq_some_iff.mp h
  simp only [Prod.mk.injEq] at h
  obtain ⟨hw, h0, h2⟩ := h
  have hP : napProgram.Basic := by
    intro x
    cases x <;> rfl
  have hr := System.run_reachable (M := runtime napProgram) ⟨[], 0, _, rfl⟩ hs₀
  have hrun := startingAt_freshPolls hP (hr.step hs₁) (System.startingAt_run hs₂)
  refine ⟨s₀, s₁, s₂, hs₀, hs₁, hs₂, ?_⟩
  rcases sleep_not_early hP.structured (reach_freshPolls hP hr) hw rfl rfl hs₁ hrun
    (by rw [h0, h2]; decide) with hin | ⟨hlast, -⟩
  · exact hin
  · rw [h0] at hlast
    exact absurd hlast (by decide)

end MyGoroutine
