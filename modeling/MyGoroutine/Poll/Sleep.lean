import MyGoroutine.Poll.Step

namespace MyGoroutine.Poll

/-!
# The way to sleep

Between its test for termination and its sleep in `condvar.wait`, a worker of this runtime makes one
attempt to poll.  Here the steps of a worker are told apart by what they leave it to do before it
sleeps or leaves.

* `Pc.willTest`, `Pc.willLook` — a test for termination, a look at the fds;
* `SleepStep`, `sleep_inv` — the steps that take a worker closer to its sleep, and all others;
* `Pc.holdsPolling`, `reach_polling` — `POLLING` is set while one worker holds it.
-/

variable {σ : Type}

/-- Before it sleeps or leaves, the worker tests for termination once more, unless it finds that it
    has to poll. -/
def Pc.willTest : Pc σ → Bool
  | .tryPoll => false
  | .pollNet => false
  | .giveUp => false
  | .goIdle => false
  | .blocked => false
  | .exited => false
  | _ => true

/-- Before it sleeps or leaves, the worker calls `has_waiters` once more, unless another one
    holds `POLLING`. -/
def Pc.willLook : Pc σ → Bool
  | .giveUp => false
  | .goIdle => false
  | .blocked => false
  | .exited => false
  | _ => true

/-- Who will test will also look: the test comes first. -/
theorem Pc.willLook_of_willTest {pc : Pc σ} (h : pc.willTest = true) : pc.willLook = true := by
  cases pc <;> first | rfl | cases h

/-- `should_terminate` holds without tasks and net waiters, when all others are counted idle. -/
theorem shouldTerminate_inv {q : Queue σ} {b : Bool} (h : q.shouldTerminate b = true) :
    q.noTasks = true ∧ b = false ∧ q.idleWorkers = q.allWorkers - 1 := by
  simpa [Queue.shouldTerminate, and_assoc] using h

/-- A step of a worker, as far as it is one towards sleep. -/
inductive SleepStep (sh : Shared σ) : Pc σ → Effect σ → Prop where
  /-- After the step the worker will still test. -/
  | awake {pc e} (h : e.pc.willTest = true) : SleepStep sh pc e
  /-- Nothing to run, but a task waits: the test is decided without `has_waiters`. -/
  | waiting (h : sh.queue.noTasks = false) : SleepStep sh .top { sh, pc := .tryPoll }
  /-- The test fails. -/
  | stay (h : sh.queue.shouldTerminate sh.net.hasWaiters = false) :
      SleepStep sh .checkNet { sh, pc := .tryPoll }
  /-- One of the two tests succeeds. -/
  | exit {pc} (hpc : pc = .checkNet ∨ pc = .termNet)
      (h : sh.queue.shouldTerminate sh.net.hasWaiters = true) : SleepStep sh pc (exitLoop sh)
  /-- Another worker holds `POLLING`. -/
  | casFail (h : sh.polling = true) : SleepStep sh .tryPoll { sh, pc := .goIdle }
  /-- The worker takes `POLLING`. -/
  | casWin (h : sh.polling = false) :
      SleepStep sh .tryPoll { sh := { sh with polling := true }, pc := .pollNet }
  /-- There is nothing to poll for. -/
  | noWaiters (h : sh.net.hasWaiters = false) : SleepStep sh .pollNet { sh, pc := .giveUp }
  /-- `POLLING` is cleared before the worker goes idle. -/
  | giveUp : SleepStep sh .giveUp { sh := { sh with polling := false }, pc := .goIdle }
  /-- The worker counts itself idle and waits, without another test. -/
  | sleep : SleepStep sh .goIdle (idleStep sh)

/-- The worker holds `POLLING`. -/
def Pc.holdsPolling : Pc σ → Nat
  | .pollNet => 1
  | .giveUp => 1
  | .poll => 1
  | .lookup _ => 1
  | .release _ => 1
  | _ => 0

section Inversion

variable {P : Program σ} {ch : Choice} {free : Bool} {sh : Shared σ} {t : Task σ} {pc : Pc σ}
  {e : Effect σ}

/-- A task that runs leaves its worker running, or switched out of the task, and `POLLING` alone. -/
private theorem taskStep_awake (hs : taskStep P ch free t sh = some e) :
    (∃ u, e.pc = .run u ∨ e.pc = .switched u) ∧ e.sh.polling = sh.polling := by
  have hraise : ∀ p h, (∃ u, (t.raise sh p h).pc = .run u ∨ (t.raise sh p h).pc = .switched u) ∧
      (t.raise sh p h).sh.polling = sh.polling := by
    intro p h
    cases h <;> exact ⟨⟨_, .inl rfl⟩, rfl⟩
  have hready : ∀ id, (sh.goready id).1.polling = sh.polling := by
    intro id
    unfold Shared.goready
    split <;> rfl
  unfold taskStep at hs
  split at hs
  case h_2 x hc =>
    cases hx : P.code x <;> rw [hx] at hs <;> simp only [opStep] at hs
    case goready =>
      split at hs <;> cases hs
      exact ⟨⟨_, .inl rfl⟩, hready _⟩
    case netPollRead =>
      split at hs
      · cases hs; exact hraise _ _
      · split at hs <;> cases hs
        · exact hraise _ _
        · exact ⟨⟨_, .inl rfl⟩, rfl⟩
    case io =>
      split at hs <;> cases hs
      exact ⟨⟨_, .inl rfl⟩, rfl⟩
    case gosched | done => cases hs; exact ⟨⟨_, .inr rfl⟩, rfl⟩
    all_goals
      cases hs
      exact ⟨⟨_, .inl rfl⟩, rfl⟩
  case h_3 | h_6 =>
    split at hs <;> cases hs
    exact ⟨⟨_, .inl rfl⟩, rfl⟩
  case h_9 => cases hs; exact ⟨⟨_, .inr rfl⟩, rfl⟩
  all_goals
    cases hs
    exact ⟨⟨_, .inl rfl⟩, rfl⟩

/-- A worker at `pop_front` gets a task, or goes to where it would test. -/
theorem willTest_tryPop (sh : Shared σ) {otherwise : Pc σ} (h : otherwise.willTest = true) :
    (tryPop sh otherwise).pc.willTest = true := by
  unfold tryPop
  split
  · exact h
  · rfl

/-- **The steps of a worker**, as steps towards sleep. -/
theorem sleep_inv (hs : workerStep P ch free sh pc = some e) : SleepStep sh pc e := by
  cases pc with
  | top =>
    simp only [workerStep] at hs
    split at hs <;> cases hs
    unfold topStep
    split
    · exact .awake rfl
    · rename_i hno
      unfold tryPop
      split
      · exact .waiting (by simpa using hno)
      · exact .awake rfl
  -- the outcome of the test decides which way the worker is on
  | checkNet =>
    simp only [workerStep] at hs
    split at hs <;> cases hs
    · exact .exit (.inl rfl) ‹_›
    · rename_i hno
      exact .stay (Bool.eq_false_iff.mpr hno)
  | termNet =>
    simp only [workerStep] at hs
    split at hs <;> cases hs
    · exact .exit (.inr rfl) ‹_›
    · exact .awake (willTest_tryPop sh rfl)
  -- the two outcomes of the `compare_exchange`
  | tryPoll =>
    simp only [workerStep] at hs
    split at hs <;> cases hs
    · exact .casFail ‹_›
    · rename_i hfree
      exact .casWin (Bool.eq_false_iff.mpr hfree)
  | pollNet =>
    simp only [workerStep] at hs
    split at hs <;> cases hs
    · exact .awake rfl
    · rename_i hno
      exact .noWaiters (Bool.eq_false_iff.mpr hno)
  | giveUp => cases hs; exact .giveUp
  | goIdle =>
    simp only [workerStep] at hs
    split at hs <;> cases hs
    exact .sleep
  | start | poll =>
    simp only [workerStep] at hs
    split at hs <;> cases hs
    exact .awake rfl
  | lookup | release =>
    cases hs
    exact .awake rfl
  | wakeReady ready =>
    cases ready with
    | nil => cases hs; exact .awake rfl
    | cons id ready =>
      simp only [workerStep] at hs
      split at hs <;> cases hs
      exact .awake rfl
  -- a worker that comes back from `condvar.wait` tests again
  | notified =>
    simp only [workerStep] at hs
    split at hs <;> cases hs
    simp only [wakeStep]
    split
    · exact .awake rfl
    · exact .awake (willTest_tryPop _ rfl)
  | run t =>
    obtain ⟨u, hu | hu⟩ := (taskStep_awake hs).1
    · exact .awake (by rw [hu]; rfl)
    · exact .awake (by rw [hu]; rfl)
  | switched t =>
    simp only [workerStep, switchedStep] at hs
    split at hs
    · cases hs; exact .awake rfl
    · split at hs <;> cases hs
      exact .awake rfl
    · split at hs <;> cases hs
      exact .awake rfl
  | blocked | exited => cases hs

/-- `runnable.pop_front()` is no business of `POLLING`. -/
theorem tryPop_polling (sh : Shared σ) {otherwise : Pc σ} (h : otherwise.holdsPolling = 0) :
    (tryPop sh otherwise).sh.polling = sh.polling ∧ (tryPop sh otherwise).pc.holdsPolling = 0 := by
  unfold tryPop
  split
  · exact ⟨rfl, h⟩
  · exact ⟨rfl, rfl⟩

/-- `POLLING` is taken and released by the worker that holds it. -/
theorem workerStep_polling (hs : workerStep P ch free sh pc = some e)
    (hle : pc.holdsPolling ≤ sh.polling.toNat) :
    e.sh.polling.toNat + pc.holdsPolling = sh.polling.toNat + e.pc.holdsPolling := by
  -- the holder is the one that `POLLING` is set for
  have hheld : pc.holdsPolling = 1 → sh.polling.toNat = 1 := by
    intro h1
    have := Bool.toNat_le sh.polling
    omega
  cases pc with
  | tryPoll =>
    simp only [workerStep] at hs
    split at hs <;> cases hs
    · rfl
    · rename_i hfree
      rw [Bool.eq_false_iff.mpr hfree]
      rfl
  | giveUp | release => cases hs; rw [hheld rfl]; rfl
  | lookup => cases hs; rfl
  | pollNet | poll | start | goIdle =>
    simp only [workerStep] at hs
    split at hs <;> cases hs <;> rfl
  | top =>
    simp only [workerStep] at hs
    split at hs <;> cases hs
    unfold topStep
    split
    · rfl
    · rw [(tryPop_polling sh rfl).1, (tryPop_polling sh rfl).2]
      rfl
  | checkNet =>
    simp only [workerStep] at hs
    split at hs <;> cases hs <;> rfl
  | termNet =>
    simp only [workerStep] at hs
    split at hs <;> cases hs
    · rfl
    · rw [(tryPop_polling sh rfl).1, (tryPop_polling sh rfl).2]
      rfl
  | wakeReady ready =>
    cases ready with
    | nil => cases hs; rfl
    | cons id ready =>
      simp only [workerStep] at hs
      split at hs <;> cases hs
      unfold Shared.goready
      split <;> rfl
  | notified =>
    simp only [workerStep] at hs
    split at hs <;> cases hs
    simp only [wakeStep]
    split
    · rfl
    · rw [(tryPop_polling _ rfl).1, (tryPop_polling _ rfl).2]
      rfl
  | run t =>
    obtain ⟨⟨u, hu⟩, hp⟩ := taskStep_awake hs
    have h0 : e.pc.holdsPolling = 0 := by
      rcases hu with hu | hu <;> rw [hu] <;> rfl
    rw [hp, h0]
    rfl
  | switched t =>
    simp only [workerStep, switchedStep] at hs
    split at hs
    · cases hs; rfl
    · split at hs <;> cases hs
      rfl
    · split at hs <;> cases hs
      rfl
  | blocked | exited => cases hs

end Inversion

/-- **`POLLING` is set while a worker holds it**, and one worker at most does. -/
theorem reach_polling {P : Program σ} {ok : Act → State σ → Prop} {s : State σ}
    (hr : (runtime P).Reach ok s) : s.total Pc.holdsPolling = s.sh.polling.toNat := by
  refine hr.invariant (I := fun s => s.total Pc.holdsPolling = s.sh.polling.toNat) ?_ ?_
  · rintro s ⟨calls, rfl⟩
    rfl
  · intro s s' a _ h _ hn
    unfold State.total at h ⊢
    cases next_inv hn with
    | @worker w ch pc e ws hw hs hnot =>
      have hle : pc.holdsPolling ≤ s.sh.polling.toNat := by
        rw [← h]
        exact Slots.le_sum_map Pc.holdsPolling hw
      have h1 := workerStep_polling hs hle
      have h2 : ((ws ++ (e.spawn.map fun id => Pc.start id).toList).map Pc.holdsPolling).sum
          + pc.holdsPolling = (s.workers.map Pc.holdsPolling).sum + e.pc.holdsPolling :=
        total_worker (f := Pc.holdsPolling) rfl (fun _ => rfl) hw hnot
      show ((ws ++ (e.spawn.map fun id => Pc.start id).toList).map Pc.holdsPolling).sum
        = e.sh.polling.toNat
      omega
    | push _ hnot => exact (hnot.sum rfl).trans h
    | spawn => simpa [Pc.holdsPolling] using h
    | main | setReadable => exact h
    | spurious hw =>
      have := Slots.sum_map_set Pc.holdsPolling .notified hw
      simp only [Pc.holdsPolling] at this
      show ((s.workers.set _ .notified).map Pc.holdsPolling).sum = s.sh.polling.toNat
      omega

end MyGoroutine.Poll
