import MyGoroutine.Group.Basic
import MyGoroutine.Lib.Debts
import MyGoroutine.Refine.Misuse

namespace MyGoroutine

/-!
# Wait groups used as they are meant

A program in which every `add` is a debt that somebody owes and pays with `done`, and in which
nobody waits who owes something, has no trouble with its wait groups: no counter becomes
negative, a counter is zero only when nobody owes anything, and no task is left waiting when all
others have come to rest.

* `Code.GoesOn`, `Code.Stands.place` — the places of the program that a task still comes to;
* `Misuse.not_counter`, `State.Mirrors.paid`, `State.Mirrors.not_waiting` — what the debts rule out;
* `forkJoinProgram` — the example of the documentation;
* `wait_group_paid`, `reach_paid` — what this means for the runs.
-/

open Network (Cmd Config Debts Stock Quota)

variable {σ V : Type}

/-- The places at which the call may go on in which a task with the status `st` is parked.  A `recv`
    goes on with the value that was delivered, if one was. -/
def Park.GoesOn (st : Status V) : Park σ V → σ → Prop
  | .recv c k _, x => ∃ o, x = k o ∧ ∀ v, st = .released (.recvq c) (.delivered v) → o = some v
  | .sleep k, x | .send _ k _, x | .wait _ k, x | .netPollRead _ k, x | .gopark k, x => x = k

/-- The places at which a code may go on, or the closure that it is about to queue. -/
def Code.GoesOn (st : Status V) : Code σ V → σ → Prop
  | .entry f, x | .user f, x => x = f
  | .goPush _ f k, x => x = f ∨ x = k
  | .sleepPush _ k, x | .wake _ _ k, x | .registerRead _ k, x | .unregister _ k, x
  | .spawnWorker k, x | .threadSpawn _ k, x | .blocking k, x => x = k
  | .park p, x | .parked p, x => p.GoesOn st x

section Paid

variable {P : Program σ V} {caps : List Nat} {groups : Nat} {calls : List (MainOp σ)}
  {s : State σ V} {a : Config σ ChanId V} {pos : Nat → Option σ}

/-- New wait groups count nothing. -/
theorem newCounters_eq {g : GroupId} {n : Int} (h : newCounters groups g = some n) : n = 0 := by
  unfold newCounters at h
  split at h <;> cases h
  rfl

/-- **No wait group panics.** -/
theorem Misuse.not_counter (D : Debts P.cmd) (Q : Quota P.cmd)
    (hcalls : ∀ f ∈ calls.filterMap MainOp.go?, D.owes f = 0)
    (hfit : ∀ g, ((calls.filterMap MainOp.go?).map (Q.holds · g)).sum < 2 ^ 31)
    (ha : (P.network caps groups calls).Reachable a) {i : TaskId} {p : Panic}
    (h : Misuse P a i p) : p ≠ .negativeCounter ∧ p ≠ .addOverflow := by
  cases h with
  | @closed x => cases x <;> simp [closedPanic]
  | @counter g d k n hp hn hout =>
    obtain ⟨pos, hacc, -⟩ := Network.reach_accounts D newCounters_eq hcalls ha
    have hcov := hacc.covered hp hn
    -- the network takes the step, and the counter is still within what could be added
    have hs : (P.network caps groups calls).next (.act i) a = _ := Network.step_add hp hn hcov
    obtain ⟨pos', -, hwithin⟩ := Network.reach_accounts D newCounters_eq hcalls (ha.step hs)
    have hle : n + d ≤ ((calls.filterMap MainOp.go?).map (Q.holds · g)).sum :=
      (hwithin Q).le_total (Function.update_self g (some (n + d)) a.counter)
    have := hfit g
    omega

/-- The place at which a code goes on, or the closure that it is about to queue, is where some
    process stands, or one step ahead of it. -/
theorem Code.Stands.place {c : Code σ V} {i : TaskId} (h : c.Stands P s.sh a.proc i) {x : σ}
    (hx : c.GoesOn (s.sh.status i) x) (hpl : a.Places P.cmd pos) :
    ∃ j y, pos j = some y ∧ (P.cmd j y = P.cmd j x ∨ (P.cmd j y).Goes (some x)) := by
  have hcmd : ∀ {j z}, a.proc j = .live (P.cmd j z) →
      ∃ j y, pos j = some y ∧ (P.cmd j y = P.cmd j z ∨ (P.cmd j y).Goes (some z)) :=
    fun {j z} hz => by
      obtain ⟨y, hy, heq⟩ := hpl.exists_pos hz
      exact ⟨j, y, hy, .inl heq.symm⟩
  have hgoes : ∀ {j z q}, a.proc j = .live z → z.Goes (some q) →
      ∃ j y, pos j = some y ∧ (P.cmd j y = P.cmd j q ∨ (P.cmd j y).Goes (some q)) :=
    fun {j z q} hz hq => by
      obtain ⟨y, hy, rfl⟩ := hpl.exists_pos hz
      exact ⟨j, y, hy, .inr hq⟩
  cases h with
  | entry h | user h | wake h =>
    cases hx
    exact hcmd h
  | goPush h hf =>
    rcases hx with rfl | rfl
    · exact hcmd hf
    · exact hcmd h
  | sleepPush h | registerRead h | unregister h | spawnWorker h | threadSpawn h | blocking h =>
    cases hx
    exact hgoes h .step
  | park h | parked h =>
    generalize hp : a.proc i = q at h
    cases h with
    | sleep | reading =>
      cases hx
      exact hgoes hp .step
    | accepted | counted =>
      cases hx
      exact hcmd hp
    | sending | refused =>
      cases hx
      exact hgoes hp .send
    | joined =>
      cases hx
      exact hgoes hp .wait
    | receiving | dismissed =>
      obtain ⟨o, rfl, -⟩ := hx
      exact hgoes hp (.recv o)
    | given hst =>
      obtain ⟨o, rfl, ho⟩ := hx
      obtain rfl := ho _ hst
      exact hcmd hp

/-- At zero no task owes anything. -/
theorem State.Mirrors.paid (h : s.Mirrors P a) {D : Debts P.cmd} (hacc : a.Accounts D pos)
    {g : GroupId} {m : WaitGroup} (hm : s.sh.groups[g]? = some m) (h0 : m.val.counter = 0)
    {t : Task σ V} (ht : s.Live t) {x : σ} (hx : t.code.GoesOn (s.sh.status t.id) x) :
    D.owes x g = 0 := by
  have hn : a.counter g = some 0 := by
    rw [h.counter, tally_eq hm, h0]
    rfl
  obtain ⟨j, y, hy, hsame | hgoes⟩ := (h.tasks t ht).place hx hacc.toPlaces
  · -- two places with one command owe the same
    have hfollows := D.follows j y
    rw [hsame] at hfollows
    rw [Cmd.Follows.unique (D.follows j x) hfollows]
    exact hacc.paid hn hy
  · exact (hgoes.follows (D.follows j y) g).trans (hacc.paid hn hy)

/-- Nobody is left waiting. -/
theorem State.Mirrors.not_waiting (h : s.Mirrors P a) {D : Debts P.cmd} (hacc : a.Accounts D pos)
    (hD : D.Prompt) (hd : s.Disciplined) (hsh : s.Shaped) (hp : s.Placed)
    (ha : s.sh.aborted = none)
    (hset : ∀ (g : GroupId) (m : WaitGroup), s.sh.groups[g]? = some m → m.val.Settled)
    (hst : s.Stalled) (i : TaskId) (g : GroupId) : s.sh.status i ≠ .queued (.waiters g) := by
  intro hq
  obtain ⟨m, hm, hmem⟩ := hd.sources.mem_waiters hq
  have hne : m.val.counter.toInt ≠ 0 := fun h0 => by
    rw [hset g m hm (Int32.toInt_inj.mp h0)] at hmem
    cases hmem
  -- somebody owes something, and so waits for nobody
  obtain ⟨j, x, hx, hpos⟩ := hacc.debtor (by rw [h.counter, tally_eq hm]) hne
  have hprompt := hD j x g hpos
  have hat := h.queuedAt hd hsh hp ha hst (hacc.live hx)
  generalize P.cmd j x = y at hat hprompt
  cases hat <;> exact hprompt

end Paid

/-! ### The example of the documentation

The debts of the loop are read off the points of its closures: before the `go` the loop owes the
`done` of the task that it is about to create, and then the task does.
-/

/-- The places of the task with the loop, of those that it starts, and of the one that waits. -/
inductive ForkJoin where
  /-- The loop at child `i`, before `wg.add(1)`; past the last child, before `go` of the task that
      waits. -/
  | add (i : Nat)
  /-- Before `go` of child `i`. -/
  | spawn (i : Nat)
  /-- Child `i` before its `sleep`, -/
  | work (i : Nat)
  /-- and before its `wg.done()`. -/
  | pay
  /-- The task that waits, before `wg.wait()`. -/
  | join
  /-- A closure about to return. -/
  | finish

/-- The example of `WaitGroup`, with its loop in a task: for each of `n` tasks it adds one and
    starts the task, which sleeps and calls `done`; another task waits for all of them. -/
def forkJoinProgram (n : Nat) (duration : Nat → Nat) (overflowChecks : Bool) :
    Program ForkJoin Unit where
  code
    | .add i => if i < n then .add 0 1 (.spawn i) none else .go .join .finish
    | .spawn i => .go (.work i) (.add (i + 1))
    | .work i => .sleep (duration i) .pay none
    | .pay => .add 0 (-1) .finish none
    | .join => .wait 0 .finish none
    | .finish => .done
  variant := .timer
  overflowChecks
  own x := by
    cases x with
    | add i =>
      dsimp only
      split <;> rfl
    | spawn | work | pay | join | finish => rfl

namespace ForkJoin

variable (n : Nat) (duration : Nat → Nat) (overflowChecks : Bool)

/-- One for each task that has been counted and has not called `done`. -/
def debt : ForkJoin → Int
  | add _ => 0
  | spawn _ => 1
  | work _ => 1
  | pay => 1
  | join => 0
  | finish => 0

/-- One for each task that is still to be counted. -/
def quota (n : Nat) : ForkJoin → Int
  | add i => (n - i : Nat)
  | spawn i => (n - (i + 1) : Nat)
  | work _ => 0
  | pay => 0
  | join => 0
  | finish => 0

/-- No point of the example owes a negative number of calls. -/
theorem debt_nonneg (x : ForkJoin) : 0 ≤ x.debt := by
  cases x with
  | spawn | work | pay => exact Int.one_nonneg
  | add | join | finish => exact le_rfl

/-- Each task owes its `done`. -/
def debts : Debts (forkJoinProgram n duration overflowChecks).cmd where
  owes x := Pi.single 0 x.debt
  nonneg x := Pi.single_nonneg.mpr x.debt_nonneg
  follows i x := by
    cases x with
    | add j =>
      show Cmd.Follows _ _ (Op.cmd i (if j < n then _ else _))
      split
      · show (Pi.single 0 1 : GroupId → Int) = Pi.single 0 0 + Pi.single 0 1
        rw [← Pi.single_add, zero_add]
      · show (Pi.single 0 0 + Pi.single 0 0 : GroupId → Int) = Pi.single 0 0
        rw [← Pi.single_add, zero_add]
    | spawn j =>
      show (Pi.single 0 0 + Pi.single 0 1 : GroupId → Int) = Pi.single 0 1
      rw [← Pi.single_add, zero_add]
    | work j => rfl
    | pay =>
      show (Pi.single 0 0 : GroupId → Int) = Pi.single 0 1 + Pi.single 0 (-1)
      rw [← Pi.single_add]
      rfl
    | join => rfl
    | finish => exact Pi.single_zero 0

/-- Amounts for the places that no step increases, as a stock for the wait group. -/
def stock {c : Int → Int} (f : ForkJoin → Int) (h0 : ∀ x, 0 ≤ f x)
    (hadd : ∀ i < n, f (spawn i) + c 1 ≤ f (add i))
    (hlast : ∀ i, n ≤ i → f finish + f join ≤ f (add i))
    (hspawn : ∀ i, f (add (i + 1)) + f (work i) ≤ f (spawn i)) (hwork : ∀ i, f pay ≤ f (work i))
    (hpay : f finish + c (-1) ≤ f pay) (hjoin : f finish ≤ f join) :
    Stock (forkJoinProgram n duration overflowChecks).cmd c where
  holds x := Pi.single 0 (f x)
  nonneg x := Pi.single_nonneg.mpr (h0 x)
  spends i x := by
    cases x with
    | add j =>
      show Cmd.Spends _ _ _ (Op.cmd i (if j < n then _ else _))
      split
      · next hj =>
        show (Pi.single 0 (f (spawn j)) + Pi.single 0 (c 1) : GroupId → Int) ≤ _
        rw [← Pi.single_add]
        exact Pi.single_le_single.mpr (hadd j hj)
      · next hj =>
        show (Pi.single 0 (f finish) + Pi.single 0 (f join) : GroupId → Int) ≤ _
        rw [← Pi.single_add]
        exact Pi.single_le_single.mpr (hlast j (Nat.le_of_not_lt hj))
    | spawn j =>
      show (Pi.single 0 (f (add (j + 1))) + Pi.single 0 (f (work j)) : GroupId → Int) ≤ _
      rw [← Pi.single_add]
      exact Pi.single_le_single.mpr (hspawn j)
    | work j => exact Pi.single_le_single.mpr (hwork j)
    | pay =>
      show (Pi.single 0 (f finish) + Pi.single 0 (c (-1)) : GroupId → Int) ≤ _
      rw [← Pi.single_add]
      exact Pi.single_le_single.mpr hpay
    | join => exact Pi.single_le_single.mpr hjoin
    | finish => trivial

/-- No point of the example may make a negative number of calls. -/
theorem quota_nonneg (x : ForkJoin) : 0 ≤ x.quota n := by
  cases x with
  | add | spawn => exact Int.natCast_nonneg _
  | work | pay | join | finish => exact le_rfl

/-- At most `n` tasks are counted. -/
def quotas : Quota (forkJoinProgram n duration overflowChecks).cmd :=
  stock n duration overflowChecks (quota n) (quota_nonneg n)
    (fun i hi => by simp only [quota]; omega) (fun _ _ => Int.natCast_nonneg _)
    (fun _ => le_rfl) (fun _ => le_rfl) le_rfl le_rfl

variable {n duration overflowChecks}

/-- Whoever has been counted does not wait. -/
theorem debts_prompt : (debts n duration overflowChecks).Prompt := by
  intro i x g hpos
  cases x with
  | add j =>
    show Cmd.Prompt (Op.cmd i (if j < n then _ else _))
    split <;> trivial
  | join =>
    have hpos : 0 < (Pi.single 0 0 : GroupId → Int) g := hpos
    rw [Pi.single_zero] at hpos
    exact absurd hpos (lt_irrefl 0)
  | spawn | work | pay | finish => trivial

/-- The example uses `go`, `sleep` and one wait group. -/
theorem program_grouped : (forkJoinProgram n duration overflowChecks).Grouped := by
  intro x
  cases x with
  | add j =>
    show (if j < n then _ else _ : Op ForkJoin Unit).grouped = true
    split <;> rfl
  | _ => rfl

/-- The example catches no panic. -/
theorem program_bare : (forkJoinProgram n duration overflowChecks).Bare := by
  intro x
  cases x with
  | add j =>
    show (if j < n then _ else _ : Op ForkJoin Unit).bare = true
    split <;> rfl
  | _ => rfl

variable {workers : Nat}

/-- The task of the main thread, which counts up to `n`, owes nothing. -/
theorem debts_start :
    ∀ f ∈ ([.go (.add 0), .startRuntime workers] : List (MainOp ForkJoin)).filterMap MainOp.go?,
      (debts n duration overflowChecks).owes f = 0 := by
  intro f hf
  obtain rfl := List.mem_singleton.mp hf
  exact Pi.single_zero 0

/-- Fewer than `2 ^ 31` tasks are counted by an `i32`. -/
theorem quotas_fit (hn : n < 2 ^ 31) (g : GroupId) :
    ((([.go (.add 0), .startRuntime workers] : List (MainOp ForkJoin)).filterMap MainOp.go?).map
      ((quotas n duration overflowChecks).holds · g)).sum < 2 ^ 31 := by
  show (Pi.single 0 ((n - 0 : Nat) : Int) : GroupId → Int) g + 0 < 2 ^ 31
  by_cases hg : g = 0
  · subst hg
    rw [Pi.single_eq_same]
    omega
  · rw [Pi.single_eq_of_ne hg]
    decide

end ForkJoin

/-! ### The runs

The network has the debts, and the runtime follows the network. What is left of the runtime's own
ways to panic has nothing to do with wait groups.
-/

section Runs

variable {P : Program σ V} {caps : List Nat} {groups : Nat} {calls : List (MainOp σ)}
  {s : State σ V}

/-- **Wait groups that are paid.**  For a program whose `add` calls are debts that are paid, less
    than `2 ^ 31` of them to one group, and in which nobody waits who owes something, and in every
    run with fresh polls: no wait group panics; whenever the counter of a group is zero, no task
    owes it anything; and when all tasks wait for one another, none of them waits for a group. -/
theorem wait_group_paid (hP : P.Structured) (hB : P.Bare) (D : Debts P.cmd) (Q : Quota P.cmd)
    (hD : D.Prompt) (hcalls : ∀ f ∈ calls.filterMap MainOp.go?, D.owes f = 0)
    (hfit : ∀ g, ((calls.filterMap MainOp.go?).map (Q.holds · g)).sum < 2 ^ 31)
    (hr : ((runtime P).startingAt (.initial caps groups calls)).Reach FreshPolls s) :
    s.sh.aborted ≠ some .negativeCounter ∧ s.sh.aborted ≠ some .addOverflow ∧
      (s.sh.aborted = none →
        (∀ (g : GroupId) (m : WaitGroup), s.sh.groups[g]? = some m → m.val.counter = 0 →
          ∀ t, s.Live t → ∀ x, t.code.GoesOn (s.sh.status t.id) x → D.owes x g = 0) ∧
        (s.Stalled → ∀ i g, s.sh.status i ≠ .queued (.waiters g))) := by
  have hpanic : ∀ p, s.sh.aborted = some p → p ≠ .negativeCounter ∧ p ≠ .addOverflow := by
    intro p hp
    obtain ⟨s₀, a, t, -, ha, h, -, habort, hst, hq, -⟩ := exists_abort hP hB (fun _ _ h => h) hr hp
    rcases habort.cause h hst hq with hmis | ⟨rfl, -⟩ | ⟨rfl, -⟩ | ⟨rfl, -⟩
    · exact hmis.not_counter D Q hcalls hfit ha
    · exact ⟨nofun, nofun⟩
    · exact ⟨nofun, nofun⟩
    · exact ⟨nofun, nofun⟩
  refine ⟨fun h => (hpanic _ h).1 rfl, fun h => (hpanic _ h).2 rfl, fun ha => ?_⟩
  obtain ⟨a, hareach, h⟩ := reach_mirrors hP hB hr ha
  obtain ⟨pos, hacc, -⟩ := Network.reach_accounts D newCounters_eq hcalls hareach
  have hr' : (runtime P).Reach FreshPolls s :=
    System.startingAt_reach (show (runtime P).init _ from ⟨caps, groups, calls, rfl⟩) hr
  exact ⟨fun g m hm h0 t ht x hc => h.paid hacc hm h0 ht hc,
    fun hst => h.not_waiting hacc hD (reach_disciplined hP (fun _ _ h => h) hr') (reach_shaped hr')
      (reach_placed hr') ha (fun g m hm => reach_settled hr' hm) hst⟩

/-- Both the task and the one that waits for it are still there when the counter is zero. -/
theorem wait_group_paid_last :
    ∃ s m, (runtime (forkJoinProgram 1 (fun _ => 5) true)).run
        (List.replicate 5 (.main {}) ++ List.replicate 25 (.worker 0 {}) ++ [.tick 5] ++
          List.replicate 9 (.worker 0 { peek := ⟨5, 1⟩ }))
        (State.initial [] 1 [.go (.add 0), .startRuntime 1]) = some s ∧
      s.sh.groups[0]? = some m ∧ m.val.counter = 0 ∧
      ∀ t, s.Live t → ∀ x, t.code.GoesOn (s.sh.status t.id) x →
        (ForkJoin.debts 1 (fun _ => 5) true).owes x 0 = 0 := by
  have h : ((runtime (forkJoinProgram 1 (fun _ => 5) true)).run
      (List.replicate 5 (Act.main {}) ++ List.replicate 25 (Act.worker 0 {}) ++ [.tick 5] ++
        List.replicate 9 (Act.worker 0 { peek := ⟨5, 1⟩ }))
      (State.initial [] 1 [.go (.add 0), .startRuntime 1])).bind (fun s =>
        s.sh.groups[0]?.map fun m => (s.sh.aborted, m.val.counter)) = some (none, 0) := by rfl
  obtain ⟨s, hs, h⟩ := Option.bind_eq_some_iff.mp h
  obtain ⟨m, hm, h⟩ := Option.map_eq_some_iff.mp h
  obtain ⟨ha, h0⟩ := Prod.mk.inj h
  have hr := startingAt_freshPolls_grouped ForkJoin.program_grouped
    ⟨[], 1, _, rfl⟩ (System.startingAt_run hs)
  exact ⟨s, m, hs, hm, h0, ((wait_group_paid ForkJoin.program_grouped.structured
    ForkJoin.program_bare (ForkJoin.debts _ _ _) (ForkJoin.quotas _ _ _) ForkJoin.debts_prompt
    ForkJoin.debts_start (ForkJoin.quotas_fit (by decide)) hr).2.2 ha).1 0 m hm h0⟩

/-- **Programs that use wait groups only, and pay them**: the process does not abort, as long as the
    clock leaves room for their sleeps, and when all tasks wait for one another, they have all
    finished. -/
theorem reach_paid (hP : P.Grouped) (hB : P.Bare) (D : Debts P.cmd) (Q : Quota P.cmd)
    (hD : D.Prompt) (hcalls : ∀ f ∈ calls.filterMap MainOp.go?, D.owes f = 0)
    (hfit : ∀ g, ((calls.filterMap MainOp.go?).map (Q.holds · g)).sum < 2 ^ 31)
    (hr : ((runtime P).startingAt (.initial caps groups calls)).Reachable s) :
    ((∀ x d k h, P.code x = .sleep d k h → s.sh.clock + d ≤ Instant.last) →
      s.sh.aborted = none) ∧ (s.Stalled → ∀ i < s.sh.nextTaskId, .died i ∈ s.sh.log) := by
  have hinit : (runtime P).init (.initial caps groups calls) := ⟨caps, groups, calls, rfl⟩
  have hr' := System.startingAt_reach hinit hr
  have hfresh := startingAt_freshPolls_grouped hP hinit hr
  refine ⟨fun hroom => ?_, fun hst i hi => ?_⟩
  · by_contra hne
    obtain ⟨p, hp⟩ := Option.ne_none_iff_exists'.mp hne
    obtain ⟨s₀, a, t, -, hareach, h, hrun, habort, hst, -, -, hclock⟩ :=
      exists_abort hP.structured hB (fun _ _ h => h) hfresh hp
    have hop : ∀ {x op}, P.code x = op → op.grouped = true := fun {x op} hx => hx ▸ hP x
    cases habort with
    | closed hs => exact hs.not_grouped hP (reach_grouped hP hr' t (.inr ⟨_, hrun, rfl⟩))
    | refused hc hx => cases hop hx
    | endless hc hx hlast => exact Nat.not_le.mpr hlast (hclock ▸ hroom _ _ _ _ hx)
    | @counter x g d k hd m n hc hx hg hn hout =>
      subst hn
      have hmis : Misuse P a t.id (countPanic P.overflowChecks (m.val.counter.toInt + d.toInt)) :=
        .counter (hst.of_user hc hx) (by rw [h.counter, tally_eq hg]) hout
      obtain ⟨hneg, hover⟩ := hmis.not_counter D Q hcalls hfit hareach
      unfold countPanic at hneg hover
      split at hneg
      · next hcond => exact hover (if_pos hcond)
      · exact hneg rfl
  have ha := hst.not_aborted hP.structured hB (fun _ _ h => h) hfresh
  by_contra hdied
  obtain ⟨a, hareach, h⟩ := reach_mirrors hP.structured hB hfresh ha
  obtain ⟨pos, hacc, -⟩ := Network.reach_accounts D newCounters_eq hcalls hareach
  have hd := reach_disciplined_grouped hP hr'
  have hsh := reach_shaped hr'
  have hp := reach_placed hr'
  obtain ⟨t, ht, rfl⟩ := live_of_created hsh hp (hst.created hd hsh hp ha hi) hdied
  obtain ⟨src, hq, hsrc⟩ := hst.tasks t ht
  obtain ⟨p, hc, hwait⟩ := Code.park_of_source? (hd.agree ha t ht) (by rw [hq]; rfl) (by
    cases src <;> first | rfl | cases hsrc)
  have hholds : s.Holds t := by
    rcases ht with ht | ⟨pc, hpc, htask, -⟩
    · exact .inl ht
    · exact .inr ⟨pc, hpc, htask⟩
  have hgrouped : p.grouped = true := by
    have hcode := reach_grouped hP hr' t hholds
    rcases hc with hc | hc <;> rwa [hc] at hcode
  cases p with
  | sleep k =>
    cases src <;> first | (cases hwait; done) | cases hsrc
  | wait g k =>
    -- nobody is left waiting for the group
    cases src <;> cases hwait
    exact h.not_waiting hacc hD hd hsh hp ha (fun g m hm => reach_settled hr' hm) hst t.id g hq
  | _ => cases hgrouped

end Runs

end MyGoroutine
