import MyGoroutine.Chan.Move
import MyGoroutine.Sched.Run

namespace MyGoroutine

/-!
# Moves of a wait group

What a step of a task does to one wait group: most leave it alone, and the others are one of the
moves below.

* `GroupMove` — the moves, with the events they add to the history;
* `TaskStep.group`, `next_group` — each step leaves a wait group alone, or moves it;
* `WaitGroupInner.Settled`, `reach_settled` — at zero nobody waits, in every state reached.
-/

variable {σ V : Type}

/-- The wait group that a section was about. -/
def Event.group? : Event V → Option GroupId
  | .added g _ _ _ => some g
  | .joined g _ => some g
  | _ => none

/-- The moves of the wait group `g` by the task `i`. -/
inductive GroupMove (overflowChecks : Bool) (g : GroupId) (i : TaskId) (m : WaitGroupInner) :
    WaitGroupInner → List (Event V) → Prop where
  /-- An `add` changes the counter and collects the waiters, or none of them. -/
  | add {d woken m' es} (ha : m.add overflowChecks d = (m', .ok woken))
      (hes : ∀ e ∈ es, e = .returned i (.add g)) :
      GroupMove overflowChecks g i m m' (.added g i d woken :: es)
  /-- A `wait` joins the waiters. -/
  | join (h0 : m.counter ≠ 0) :
      GroupMove overflowChecks g i m { m with waiters := m.waiters ++ [i] } [.joined g i]
  /-- A `wait` at zero returns at once. -/
  | zero (h0 : m.counter = 0) : GroupMove overflowChecks g i m m [.returned i (.wait g)]
  /-- A section panics: the waiters stay. -/
  | panic {m' p} (hw : m'.waiters = m.waiters) (hn : m'.counter = m.counter ∨ m'.counter < 0) :
      GroupMove overflowChecks g i m m' [.panicked i p]

/-- At zero nobody waits. -/
def WaitGroupInner.Settled (m : WaitGroupInner) : Prop := m.counter = 0 → m.waiters = []

/-- What a successful `add` leaves: at zero it has collected all waiters, else none. -/
theorem WaitGroupInner.add_ok {m m' : WaitGroupInner} {overflowChecks : Bool} {d : Int32}
    {woken : List TaskId} (h : m.add overflowChecks d = (m', .ok woken)) :
    (m'.counter = 0 → woken = m.waiters ∧ m'.waiters = []) ∧
      (m'.counter ≠ 0 → woken = [] ∧ m'.waiters = m.waiters) := by
  simp only [WaitGroupInner.add] at h
  split at h
  · cases h
  · split at h
    · cases h
    · split at h
      · rename_i hz
        simp only [Bool.and_eq_true, beq_iff_eq] at hz
        cases h
        exact ⟨fun _ => ⟨rfl, rfl⟩, fun hne => absurd hz.1 hne⟩
      · rename_i hz
        cases h
        refine ⟨fun h0 => ?_, fun _ => ⟨rfl, rfl⟩⟩
        have hnil : m.waiters = [] := by
          simp only [Bool.and_eq_true, beq_iff_eq, not_and, Bool.not_eq_true', Bool.not_eq_false,
            List.isEmpty_iff] at hz
          exact hz h0
        exact ⟨hnil.symm, hnil⟩

/-- **Each move keeps the law of the wait group.** -/
theorem WaitGroupInner.Settled.move {m m' : WaitGroupInner} {overflowChecks : Bool} {g : GroupId}
    {i : TaskId} {es : List (Event V)} (h : m.Settled) (hm : GroupMove overflowChecks g i m m' es) :
    m'.Settled := by
  intro h0
  cases hm with
  | add ha => exact ((WaitGroupInner.add_ok ha).1 h0).2
  | join hne => exact absurd h0 hne
  | zero => exact h h0
  | panic hw hn =>
    rcases hn with hn | hn
    · rw [hw]
      exact h (hn ▸ h0)
    · rw [h0] at hn
      exact absurd hn (by decide)

/-- The section of an `add`, as its event has it. -/
theorem GroupMove.of_added {m m' : WaitGroupInner} {overflowChecks : Bool} {g : GroupId}
    {i u : TaskId} {d : Int32} {woken : List TaskId} {es : List (Event V)}
    (hm : GroupMove overflowChecks g i m m' es) (h : .added g u d woken ∈ es) :
    m.add overflowChecks d = (m', .ok woken) ∧
      ∃ es', es = .added g u d woken :: es' ∧ ∀ e ∈ es', e = .returned u (.add g) := by
  cases hm with
  | add ha hes =>
    rcases List.mem_cons.mp h with h | h
    · cases h
      exact ⟨ha, _, rfl, hes⟩
    · cases hes _ h
  | join | zero | panic => cases List.mem_singleton.mp h

/-- Only an `add` brings the counter to zero. -/
theorem GroupMove.of_zero {m m' : WaitGroupInner} {overflowChecks : Bool} {g : GroupId}
    {i : TaskId} {es : List (Event V)} (hm : GroupMove overflowChecks g i m m' es)
    (h0 : m.counter ≠ 0) (h1 : m'.counter = 0) :
    ∃ d es', es = .added g i d m.waiters :: es' := by
  cases hm with
  | @add d woken _ es ha =>
    obtain ⟨rfl, -⟩ := (WaitGroupInner.add_ok ha).1 h1
    exact ⟨d, es, rfl⟩
  | join => exact absurd h1 h0
  | zero => exact absurd h1 h0
  | panic hw hn =>
    rcases hn with hn | hn
    · exact absurd (hn ▸ h1) h0
    · rw [h1] at hn
      exact absurd hn (by decide)

/-- What a step does to the wait group `g`: its contents stay and no section of `g` is logged, or
    the task `i` moves it. -/
inductive GroupEffect (overflowChecks : Bool) (g : GroupId) (i : TaskId) (sh sh' : Shared σ V)
    (m m' : WaitGroup) : Prop where
  | same (hv : m'.val = m.val)
      (hl : ∃ es, sh'.log = sh.log ++ es ∧ ∀ e ∈ es, e.group? ≠ some g)
  | move {es} (hm : GroupMove overflowChecks g i m.val m'.val es) (hl : sh'.log = sh.log ++ es)

section Effects

variable {overflowChecks : Bool} {g : GroupId} {i : TaskId} {sh sh' : Shared σ V} {m : WaitGroup}

/-- A step that does not touch the wait groups. -/
theorem GroupEffect.of_groups_eq (es : List (Event V)) (hm : sh.groups[g]? = some m)
    (hg : sh'.groups = sh.groups) (hl : sh'.log = sh.log ++ es) (hes : ∀ e ∈ es, e.group? = none) :
    ∃ m', sh'.groups[g]? = some m' ∧ GroupEffect overflowChecks g i sh sh' m m' :=
  ⟨m, by rw [hg]; exact hm, .same rfl ⟨es, hl, fun e he h => by rw [hes e he] at h; cases h⟩⟩

/-- A step that replaces the wait group `g'`. -/
theorem GroupEffect.of_set {g' : GroupId} {m₀ m₁ : WaitGroup} (es : List (Event V))
    (hm : sh.groups[g]? = some m) (hm₀ : sh.groups[g']? = some m₀)
    (hg : sh'.groups = sh.groups.set g' m₁) (hl : sh'.log = sh.log ++ es)
    (hes : ∀ e ∈ es, ∀ g, e.group? = some g → g = g')
    (hmove : GroupMove overflowChecks g' i m₀.val m₁.val es) :
    ∃ m', sh'.groups[g]? = some m' ∧ GroupEffect overflowChecks g i sh sh' m m' := by
  by_cases h : g' = g
  · subst h
    rw [hm] at hm₀
    cases hm₀
    exact ⟨m₁, by rw [hg, List.getElem?_set_self', hm]; rfl, .move hmove hl⟩
  · exact ⟨m, by rw [hg, List.getElem?_set_ne h, hm],
      .same rfl ⟨es, hl, fun e he heg => h (hes e he g heg).symm⟩⟩

end Effects

section Steps

variable {P : Program σ V} {ch : Choice} {free : Bool} {sh : Shared σ V} {t : Task σ V}
  {pc : Pc σ V} {e : Effect σ V} {g : GroupId} {m : WaitGroup}

/-- What a worker logs is about no wait group. -/
theorem group?_of_ofWorker {e : Event V} (h : e.ofWorker = true) : e.group? = none := by
  cases e <;> first | rfl | cases h

/-- `goready` leaves the wait groups alone. -/
theorem goready_groups (sh : Shared σ V) (waker : Waker) (id : TaskId) :
    (sh.goready waker id).1.groups = sh.groups :=
  framed_groups.goready sh waker id

/-- **Each step of a task leaves a wait group alone, or moves it.** -/
theorem TaskStep.group (hs : TaskStep P ch free sh t e) (hm : sh.groups[g]? = some m) :
    ∃ m', e.sh.groups[g]? = some m' ∧ GroupEffect P.overflowChecks g t.id sh e.sh m m' := by
  cases hs with
  | groupPanic hc hx hm₀ hw hn =>
    refine GroupEffect.of_set [_] hm hm₀ ?_ (raise_log _ _) (by simp [Event.group?]) (.panic hw hn)
    rw [raise_sh]
    rfl
  | add hc hx hm₀ hp ha hw =>
    rw [finish_sh, Shared.record_record]
    refine GroupEffect.of_set _ hm hm₀ rfl rfl ?_ (.add ha ?_)
    · split <;> simp [Event.group?]
    · split <;> simp
  | waitZero hc hx hm₀ hp h0 =>
    exact GroupEffect.of_set _ hm hm₀ (Slots.set_of_getElem? hm₀).symm rfl (by simp [Event.group?])
      (.zero h0)
  | waitJoin hc hx hm₀ hp h0 =>
    exact GroupEffect.of_set _ hm hm₀ rfl rfl (by simp [Event.group?]) (.join h0)
  -- the panics that leave the groups alone
  | chanPoisoned | chanClosed | recvUnwrap | sleepOverflow | netFail =>
    refine GroupEffect.of_groups_eq [_] hm ?_ (raise_log _ _) (by simp [Event.group?])
    rw [raise_sh]
    rfl
  | close =>
    rw [finish_sh, Shared.record_record]
    refine GroupEffect.of_groups_eq _ hm rfl rfl ?_
    split <;> simp [Event.group?]
  | goready | wakeMore =>
    obtain ⟨es, hl, hes⟩ := goready_ofWorker sh _ _
    exact GroupEffect.of_groups_eq es hm (goready_groups _ _ _) hl fun e he =>
      group?_of_ofWorker (hes e he)
  | wakeLast =>
    obtain ⟨es, hl, hes⟩ := goready_ofWorker sh (.task t.id) _
    refine GroupEffect.of_groups_eq (es ++ [_]) hm (goready_groups _ _ _)
      ((congrArg (· ++ [_]) hl).trans (List.append_assoc _ _ _)) ?_
    intro ev hev
    rcases List.mem_append.mp hev with hev | hev
    · exact group?_of_ofWorker (hes ev hev)
    · rw [List.mem_singleton.mp hev]
      rfl
  -- nothing is logged, or nothing about a group
  | go | gosched | currentTaskId | sleep | netAdd | ioSpawn | ioBlock | gopark | wakeNil
  | spawnWorker | threadSpawn | blocking | park | resumeNet | resumeGopark =>
    exact GroupEffect.of_groups_eq [] hm rfl (List.append_nil _).symm (by simp)
  | entry | done | goPush | sleepPush | registerRead | unregister | resumeSleep | resumeSend
  | resumeWait | sendDelivered | sendBuffered | sendEnqueued | recvClosed | recvTake | recvRefill
  | recvBuf | recvEnqueued | resumeRecv =>
    exact GroupEffect.of_groups_eq _ hm rfl rfl (by simp [Event.group?])

/-- Outside tasks no step of a worker touches a wait group. -/
theorem WorkerStep.groups (hs : WorkerStep P ch free sh pc e) (hpc : ∀ t, pc ≠ .run t) :
    e.sh.groups = sh.groups :=
  hs.framed framed_groups hpc

/-- A step of a task creates no wait group and removes none. -/
theorem TaskStep.length_groups (hs : TaskStep P ch free sh t e) :
    e.sh.groups.length = sh.groups.length := by
  cases hs with
  | groupPanic =>
    rw [raise_sh]
    exact List.length_set
  | add =>
    rw [finish_sh]
    exact List.length_set
  | waitJoin => exact List.length_set
  | chanPoisoned | chanClosed | recvUnwrap | sleepOverflow | netFail =>
    rw [raise_sh]
    rfl
  | close =>
    rw [finish_sh]
    rfl
  | goready | wakeMore | wakeLast => exact congrArg List.length (goready_groups _ _ _)
  | _ => rfl

/-- **Each step leaves a wait group alone, or is a move of a task.** -/
theorem next_group {a : Act} {s s' : State σ V} (hn : (runtime P).next a s = some s')
    (hm : s.sh.groups[g]? = some m) :
    ∃ m' i, s'.sh.groups[g]? = some m' ∧ GroupEffect P.overflowChecks g i s.sh s'.sh m m' := by
  rcases (next_inv hn).2.cases with ⟨w, ch, pc, e, -, hw, hs, hmove⟩ | ⟨ho, -⟩
  · rw [hmove.sh]
    rcases hs.task_or with ⟨t, rfl, htask⟩ | hpc
    · obtain ⟨m', hm', heff⟩ := htask.group hm
      exact ⟨m', t.id, hm', heff⟩
    · obtain ⟨es, hl, hes⟩ := (hs.sameChans hpc).log
      obtain ⟨m', hm', heff⟩ : ∃ m', e.sh.groups[g]? = some m' ∧
          GroupEffect P.overflowChecks g 0 s.sh e.sh m m' :=
        GroupEffect.of_groups_eq es hm (hs.groups hpc) hl fun e he => group?_of_ofWorker (hes e he)
      exact ⟨m', 0, hm', heff⟩
  · have hsame : s'.sh.groups = s.sh.groups ∧ ∃ es, s'.sh.log = s.sh.log ++ es ∧
        ∀ e ∈ es, e.group? = none := by
      cases ho with
      | go hsh => exact ⟨by rw [hsh], [], by rw [hsh, List.append_nil], by simp⟩
      | push hsh => exact ⟨by rw [hsh]; rfl, [_], by rw [hsh]; rfl, by simp [Event.group?]⟩
      | same hsh => exact ⟨hsh.groups, [], by rw [hsh.log, List.append_nil], by simp⟩
    obtain ⟨hg, es, hl, hes⟩ := hsame
    obtain ⟨m', hm', heff⟩ : ∃ m', s'.sh.groups[g]? = some m' ∧
        GroupEffect P.overflowChecks g 0 s.sh s'.sh m m' :=
      GroupEffect.of_groups_eq es hm hg hl hes
    exact ⟨m', 0, hm', heff⟩

/-- No step creates a wait group or removes one. -/
theorem next_length_groups {a : Act} {s s' : State σ V} (hn : (runtime P).next a s = some s') :
    s'.sh.groups.length = s.sh.groups.length := by
  rcases (next_inv hn).2.cases with ⟨w, ch, pc, e, -, -, hs, hmove⟩ | ⟨ho, -⟩
  · rw [hmove.sh]
    rcases hs.task_or with ⟨t, rfl, htask⟩ | hpc
    · exact htask.length_groups
    · rw [hs.groups hpc]
  · cases ho with
    | go hsh => rw [hsh]
    | push hsh => rw [hsh]; rfl
    | same hsh => rw [hsh.groups]

end Steps

/-- **At zero nobody waits**, in every state reached. -/
theorem reach_settled {P : Program σ V} {ok : Act → State σ V → Prop} {s : State σ V}
    (hr : (runtime P).Reach ok s) {g : GroupId} {m : WaitGroup} (hm : s.sh.groups[g]? = some m) :
    m.val.Settled := by
  have h : ∀ m, s.sh.groups[g]? = some m → m.val.Settled := by
    refine hr.invariant (I := fun s => ∀ m, s.sh.groups[g]? = some m → m.val.Settled) ?_ ?_
    · rintro s ⟨caps, groups, calls, rfl⟩ m hm
      simp only [State.initial, List.getElem?_replicate] at hm
      split at hm
      · cases hm
        exact fun _ => rfl
      · cases hm
    · intro s s' a _ h _ hn m' hm'
      have hlt : g < s.sh.groups.length := by
        rw [← next_length_groups hn]
        exact (List.getElem?_eq_some_iff.mp hm').1
      obtain ⟨m₁, i, hm₁, heff⟩ := next_group hn (List.getElem?_eq_getElem hlt)
      have hold := h _ (List.getElem?_eq_getElem hlt)
      rw [hm'] at hm₁
      cases hm₁
      cases heff with
      | same hv => rw [hv]; exact hold
      | move hm => exact hold.move hm
  exact h m hm

end MyGoroutine
