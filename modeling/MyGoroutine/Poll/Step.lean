import MyGoroutine.Lib.Slots
import MyGoroutine.Poll.Model

namespace MyGoroutine.Poll

/-!
# Steps of the poll runtime

The laws of this runtime look at its two counters, at the queue as a whole, and at the history of
single tasks.

* `Pc.waits`, `Pc.registered` — the workers that the counters are about;
* `LoopStep`, `loop_inv` — the steps of a worker, as the counters see them;
* `Notified`, `Next`, `next_inv` — the steps of the whole program;
* `State.Counted`, `reach_counted` — in this runtime both counters are exact.
-/

variable {σ : Type}

/-- The worker is in `condvar.wait`: blocked, or notified and not back yet. -/
def Pc.waits : Pc σ → Nat
  | .blocked => 1
  | .notified => 1
  | _ => 0

/-- The worker has registered and has not left the loop. -/
def Pc.registered : Pc σ → Nat
  | .start _ => 0
  | .exited => 0
  | _ => 1

/-! ### One worker

Seen from the two counters, the steps of a worker are few: it registers, goes to sleep, comes back,
leaves, or does something else.
-/

/-- A step of a worker at `pc`, as the counters see it. -/
inductive LoopStep (sh : Shared σ) (pc : Pc σ) (e : Effect σ) : Prop where
  | register {id} (hpc : pc = .start id) (hpc' : e.pc = .top)
      (hi : e.sh.queue.idleWorkers = sh.queue.idleWorkers)
      (ha : e.sh.queue.allWorkers = sh.queue.allWorkers + 1)
  | move (hw : pc.waits = 0 ∧ e.pc.waits = 0) (hreg : pc.registered = 1 ∧ e.pc.registered = 1)
      (hi : e.sh.queue.idleWorkers = sh.queue.idleWorkers)
      (ha : e.sh.queue.allWorkers = sh.queue.allWorkers)
  /-- The idle path. -/
  | sleep (hpc : pc = .goIdle) (he : e = idleStep sh)
  | wake (hpc : pc = .notified) (hw : e.pc.waits = 0) (hreg : e.pc.registered = 1)
      (hi : e.sh.queue.idleWorkers = sh.queue.idleWorkers - 1)
      (ha : e.sh.queue.allWorkers = sh.queue.allWorkers)
  /-- One of the two exits. -/
  | exit (hw : pc.waits = 0) (hreg : pc.registered = 1) (he : e = exitLoop sh)

section Inversion

variable {P : Program σ} {ch : Choice} {free : Bool} {sh : Shared σ} {t : Task σ} {pc : Pc σ}
  {e : Effect σ}


/-- `goready` leaves the two counters alone. -/
theorem goready_counters (id : TaskId) (sh : Shared σ) :
    (sh.goready id).1.queue.idleWorkers = sh.queue.idleWorkers ∧
      (sh.goready id).1.queue.allWorkers = sh.queue.allWorkers := by
  unfold Shared.goready
  split <;> exact ⟨rfl, rfl⟩

/-- `pop_front` leaves the two counters alone. -/
theorem tryPop_counters (sh : Shared σ) (otherwise : Pc σ) :
    (tryPop sh otherwise).sh.queue.idleWorkers = sh.queue.idleWorkers ∧
      (tryPop sh otherwise).sh.queue.allWorkers = sh.queue.allWorkers := by
  unfold tryPop
  split <;> exact ⟨rfl, rfl⟩

/-- A worker at `pop_front` is registered and awake afterwards. -/
theorem tryPop_pc (sh : Shared σ) {otherwise : Pc σ} (hw : otherwise.waits = 0)
    (hreg : otherwise.registered = 1) : (tryPop sh otherwise).pc.waits = 0 ∧
      (tryPop sh otherwise).pc.registered = 1 := by
  unfold tryPop
  split
  · exact ⟨hw, hreg⟩
  · exact ⟨rfl, rfl⟩

/-- A step of a task. -/
private theorem taskStep_loop (hs : taskStep P ch free t sh = some e) : LoopStep sh (.run t) e := by
  have hraise : ∀ p h, LoopStep sh (.run t) (t.raise sh p h) := by
    intro p h
    cases h <;> exact .move ⟨rfl, rfl⟩ ⟨rfl, rfl⟩ rfl rfl
  have hready : ∀ id k, LoopStep sh (.run t)
      { t.continue (sh.goready id).1 (.user k) with notify := (sh.goready id).2 } :=
    fun id k => .move ⟨rfl, rfl⟩ ⟨rfl, rfl⟩ (goready_counters id sh).1 (goready_counters id sh).2
  unfold taskStep at hs
  split at hs
  case h_2 x hc =>
    cases hx : P.code x <;> rw [hx] at hs <;> simp only [opStep] at hs
    case goready =>
      split at hs <;> cases hs
      exact hready _ _
    case netPollRead =>
      split at hs
      · cases hs; exact hraise _ _
      · split at hs <;> cases hs
        · exact hraise _ _
        · exact .move ⟨rfl, rfl⟩ ⟨rfl, rfl⟩ rfl rfl
    case io =>
      split at hs <;> cases hs
      exact .move ⟨rfl, rfl⟩ ⟨rfl, rfl⟩ rfl rfl
    all_goals
      cases hs
      exact .move ⟨rfl, rfl⟩ ⟨rfl, rfl⟩ rfl rfl
  case h_3 | h_6 =>
    split at hs <;> cases hs
    exact .move ⟨rfl, rfl⟩ ⟨rfl, rfl⟩ rfl rfl
  all_goals
    cases hs
    exact .move ⟨rfl, rfl⟩ ⟨rfl, rfl⟩ rfl rfl

/-- **The steps of a worker**, as the counters see them. -/
theorem loop_inv (hs : workerStep P ch free sh pc = some e) : LoopStep sh pc e := by
  -- what `pop_front` does, from the points that get to it with both counters as they were
  have hpop : ∀ (pc' : Pc σ) (sh' : Shared σ), pc'.waits = 0 → pc'.registered = 1 →
      ∀ o : Pc σ, o.waits = 0 → o.registered = 1 →
      sh'.queue = sh.queue → LoopStep sh pc' (tryPop sh' o) := by
    intro pc' sh' hw hreg o ho hro hq
    obtain ⟨h1, h2⟩ := tryPop_counters sh' o
    obtain ⟨h3, h4⟩ := tryPop_pc sh' ho hro
    exact .move ⟨hw, h3⟩ ⟨hreg, h4⟩ (by rw [h1, hq]) (by rw [h2, hq])
  cases pc with
  | start =>
    simp only [workerStep] at hs
    split at hs <;> cases hs
    exact .register rfl rfl rfl rfl
  | top =>
    simp only [workerStep] at hs
    split at hs <;> cases hs
    unfold topStep
    split
    · exact .move ⟨rfl, rfl⟩ ⟨rfl, rfl⟩ rfl rfl
    · exact hpop _ _ rfl rfl _ rfl rfl rfl
  | checkNet =>
    simp only [workerStep] at hs
    split at hs <;> cases hs
    · exact .exit rfl rfl rfl
    · exact .move ⟨rfl, rfl⟩ ⟨rfl, rfl⟩ rfl rfl
  | termNet =>
    simp only [workerStep] at hs
    split at hs <;> cases hs
    · exact .exit rfl rfl rfl
    · exact hpop _ _ rfl rfl _ rfl rfl rfl
  | tryPoll | pollNet | poll =>
    simp only [workerStep] at hs
    split at hs <;> cases hs <;> exact .move ⟨rfl, rfl⟩ ⟨rfl, rfl⟩ rfl rfl
  | giveUp | lookup | release =>
    cases hs
    exact .move ⟨rfl, rfl⟩ ⟨rfl, rfl⟩ rfl rfl
  | wakeReady ready =>
    cases ready with
    | nil => cases hs; exact .move ⟨rfl, rfl⟩ ⟨rfl, rfl⟩ rfl rfl
    | cons id ready =>
      simp only [workerStep] at hs
      split at hs <;> cases hs
      exact .move ⟨rfl, rfl⟩ ⟨rfl, rfl⟩ (goready_counters id sh).1 (goready_counters id sh).2
  | goIdle =>
    simp only [workerStep] at hs
    split at hs <;> cases hs
    exact .sleep rfl rfl
  -- `idle_workers -= 1`, and then the test or `pop_front`
  | notified =>
    simp only [workerStep] at hs
    split at hs <;> cases hs
    simp only [wakeStep]
    split
    · exact .wake rfl rfl rfl rfl rfl
    · obtain ⟨h1, h2⟩ := tryPop_counters (sh.withQueue
        { sh.queue with idleWorkers := sh.queue.idleWorkers - 1 }) (.top : Pc σ)
      obtain ⟨h3, h4⟩ := tryPop_pc (sh.withQueue
        { sh.queue with idleWorkers := sh.queue.idleWorkers - 1 })
        (show (Pc.top : Pc σ).waits = 0 from rfl) rfl
      exact .wake rfl h3 h4 h1 h2
  | run t => exact taskStep_loop hs
  | switched t =>
    simp only [workerStep, switchedStep] at hs
    split at hs
    · cases hs; exact .move ⟨rfl, rfl⟩ ⟨rfl, rfl⟩ rfl rfl
    · split at hs <;> cases hs
      exact .move ⟨rfl, rfl⟩ ⟨rfl, rfl⟩ rfl rfl
    · split at hs <;> cases hs
      exact .move ⟨rfl, rfl⟩ ⟨rfl, rfl⟩ rfl rfl
  | blocked | exited => cases hs

end Inversion

/-! ### The whole program

A step of a worker also wakes others and spawns new ones. As the condition variable moves workers
between two points that count the same, it disturbs no sum over the workers.
-/

/-- The threads after a section that notifies: none has moved, except that some have left
    `condvar.wait`. -/
inductive Notified (ws : List (Pc σ)) : Notify → List (Pc σ) → Prop where
  /-- Nobody is notified. -/
  | none : Notified ws .none ws
  /-- `notify_one` wakes one of the blocked threads. -/
  | one {i} (h : ws[i]? = some .blocked) : Notified ws .one (ws.set i .notified)
  /-- `notify_one` finds no blocked thread and is lost. -/
  | idle (h : ∀ pc ∈ ws, pc ≠ .blocked) : Notified ws .one ws
  /-- `notify_all`. -/
  | all : Notified ws .all (ws.map Pc.wakeUp)

/-- What the condition variable can do. -/
theorem applyNotify_inv {pick : Nat} {ws ws' : List (Pc σ)} {n : Notify}
    (h : applyNotify pick ws n = some ws') : Notified ws n ws' := by
  cases n with
  | none => cases h; exact .none
  | one =>
    simp only [applyNotify] at h
    split at h
    · split at h <;> cases h
      exact .one ‹_›
    · rename_i hb
      cases h
      refine .idle fun pc hpc hbl => hb ?_
      exact List.any_eq_true.mpr ⟨pc, hpc, by rw [hbl]; rfl⟩
  | all => cases h; exact .all

section Notify

variable {ws ws' : List (Pc σ)} {n : Notify}

/-- A notification moves neither counter. -/
theorem Notified.sum {f : Pc σ → Nat} (hf : f .notified = f .blocked) (h : Notified ws n ws') :
    (ws'.map f).sum = (ws.map f).sum := by
  cases h with
  | none | idle => rfl
  | one h =>
    have := Slots.sum_map_set f .notified h
    omega
  | all =>
    rw [List.map_map]
    refine congrArg List.sum (List.map_congr_left fun pc _ => ?_)
    cases pc <;> first | exact hf | rfl

/-- A notification leaves a worker alone that is not blocked. -/
theorem Notified.mem (h : Notified ws n ws') {pc : Pc σ} (hpc : pc ∈ ws) (hb : pc ≠ .blocked) :
    pc ∈ ws' := by
  cases h with
  | none | idle => exact hpc
  | @one i hi =>
    obtain ⟨j, hj⟩ := List.mem_iff_getElem?.mp hpc
    have hij : i ≠ j := by
      rintro rfl
      rw [hi] at hj
      exact hb (Option.some.inj hj).symm
    exact List.mem_of_getElem? (by rw [List.getElem?_set_ne hij]; exact hj)
  | all =>
    refine List.mem_map.mpr ⟨pc, hpc, ?_⟩
    cases pc <;> first | rfl | exact absurd rfl hb

/-- What every worker is or becomes by a notification. -/
theorem Notified.forall_mem {Q : Pc σ → Prop} (hq : Q .notified) (h : Notified ws n ws')
    (hall : ∀ pc ∈ ws, Q pc) : ∀ pc ∈ ws', Q pc := by
  cases h with
  | none | idle => exact hall
  | one =>
    intro pc hpc
    rcases List.mem_or_eq_of_mem_set hpc with hpc | rfl
    · exact hall pc hpc
    · exact hq
  | all =>
    intro pc hpc
    obtain ⟨pc₀, hpc₀, rfl⟩ := List.mem_map.mp hpc
    have := hall pc₀ hpc₀
    cases pc₀ <;> first | exact this | exact hq

end Notify

/-- What the whole program can do in one step. -/
inductive Next (P : Program σ) (s : State σ) : Act → State σ → Prop where
  /-- A worker takes a step: its effect, then the notification, then the thread it spawned. -/
  | worker {w ch pc e ws} (hw : s.workers[w]? = some pc)
      (hs : workerStep P ch (queueFree s.workers) s.sh pc = some e)
      (hn : Notified (s.workers.set w e.pc) e.notify ws) :
      Next P s (.worker w ch)
        { s with sh := e.sh, workers := ws ++ (e.spawn.map fun id => Pc.start id).toList }
  /-- The main thread queues a task. -/
  | push {ch id f rest ws} (hm : s.main = ⟨.goPush id f, rest⟩)
      (hn : Notified s.workers (s.sh.pushNew id f).2 ws) :
      Next P s (.main ch) { sh := (s.sh.pushNew id f).1, workers := ws, main := ⟨.idle, rest⟩ }
  /-- The main thread spawns a worker. -/
  | spawn {ch i n handles rest} (hm : s.main = ⟨.spawn i n handles, rest⟩) :
      Next P s (.main ch) { s with
        workers := s.workers ++ [.start i]
        main := ⟨.spawn (i + 1) n (handles ++ [s.workers.length]), rest⟩ }
  /-- The main thread takes an id, starts a runtime or joins a worker. -/
  | main {ch n id main} :
      Next P s (.main ch) { s with
        sh := { s.sh with nextTaskId := id, queue := { s.sh.queue with nextWorkerId := n } }
        main := main }
  /-- A thread leaves `condvar.wait` without a notification. -/
  | spurious {w} (hw : s.workers[w]? = some .blocked) :
      Next P s (.spurious w) { s with workers := s.workers.set w .notified }
  /-- An fd becomes readable, or stops being so. -/
  | setReadable {fd b} :
      Next P s (.setReadable fd b)
        { s with sh := { s.sh with readable := fun x => if x = fd then b else s.sh.readable x } }

/-- **Inversion of a step of the program.** -/
theorem next_inv {P : Program σ} {a : Act} {s s' : State σ} (h : next P a s = some s') :
    Next P s a s' := by
  unfold next at h
  split at h
  · cases h
  · cases a with
    | worker w ch =>
      obtain ⟨pc, hw, h⟩ := Option.bind_eq_some_iff.mp h
      obtain ⟨e, he, h⟩ := Option.bind_eq_some_iff.mp h
      obtain ⟨ws, hws, rfl⟩ := Option.map_eq_some_iff.mp h
      exact .worker hw he (applyNotify_inv hws)
    | main ch =>
      obtain ⟨sh, workers, ⟨pc, rest⟩⟩ := s
      simp only [mainStep] at h
      split at h
      · cases h
      · cases h; exact .main
      · split at h <;> cases h
        exact .main
      · split at h
        · obtain ⟨ws, hws, rfl⟩ := Option.map_eq_some_iff.mp h
          exact .push rfl (applyNotify_inv hws)
        · cases h
      · split at h <;> cases h
        · exact .spawn rfl
        · exact .main
      · cases h; exact .main
      · split at h <;> cases h
        exact .main
    | spurious w =>
      simp only at h
      split at h <;> cases h
      exact .spurious ‹_›
    | setReadable fd b => cases h; exact .setReadable

/-! ### The counters

In this runtime both counters are exact in every state: the test for termination comes before
`idle_workers += 1`, so nobody leaves while counted as idle.
-/

/-- The measure `f` summed over the workers. -/
def State.total (f : Pc σ → Nat) (s : State σ) : Nat := (s.workers.map f).sum

/-- Both counters are exact. -/
structure State.Counted (s : State σ) : Prop where
  idle : s.sh.queue.idleWorkers = s.total Pc.waits
  all : s.sh.queue.allWorkers = s.total Pc.registered

section Counters

variable {P : Program σ} {s : State σ} {sh : Shared σ} {pc : Pc σ} {e : Effect σ}

/-- What a step does to `idle_workers`. -/
theorem LoopStep.waits (h : LoopStep sh pc e) (hle : pc.waits ≤ sh.queue.idleWorkers) :
    e.sh.queue.idleWorkers + pc.waits = sh.queue.idleWorkers + e.pc.waits := by
  cases h with
  | register hpc hpc' hi => rw [hi, hpc, hpc']; rfl
  | move hw _ hi => rw [hi, hw.1, hw.2]
  | sleep hpc he => rw [hpc, he]; rfl
  | wake hpc hw _ hi =>
    rw [hpc] at hle ⊢
    rw [hi, hw]
    have : (1 : Nat) ≤ sh.queue.idleWorkers := hle
    show sh.queue.idleWorkers - 1 + 1 = sh.queue.idleWorkers + 0
    omega
  | exit hw _ he => rw [hw, he]; rfl

/-- What a step does to `all_workers`. -/
theorem LoopStep.registered (h : LoopStep sh pc e) (hle : pc.registered ≤ sh.queue.allWorkers) :
    e.sh.queue.allWorkers + pc.registered = sh.queue.allWorkers + e.pc.registered := by
  cases h with
  | register hpc hpc' _ ha => rw [ha, hpc, hpc']; rfl
  | move _ hreg _ ha => rw [ha, hreg.1, hreg.2]
  | sleep hpc he => rw [hpc, he]; rfl
  | wake hpc _ hreg _ ha => rw [ha, hpc, hreg]; rfl
  | exit _ hreg he =>
    rw [hreg] at hle ⊢
    rw [he]
    show sh.queue.allWorkers - 1 + 1 = sh.queue.allWorkers + 0
    omega

/-- A step of worker `w` moves a total by the difference of its two points. -/
theorem total_worker {f : Pc σ → Nat} (hf : f .notified = f .blocked) (hst : ∀ id, f (.start id) = 0)
    {ws ws' : List (Pc σ)} {w : Nat} {n : Notify} {spawn : Option Nat} (hw : ws[w]? = some pc)
    (hn : Notified (ws.set w e.pc) n ws') :
    ((ws' ++ (spawn.map fun id => Pc.start id).toList).map f).sum + f pc
      = (ws.map f).sum + f e.pc := by
  have hs := Slots.sum_map_set f e.pc hw
  have hsp : (((spawn.map fun id => (Pc.start id : Pc σ)).toList).map f).sum = 0 := by
    cases spawn <;> simp [hst]
  rw [List.map_append, List.sum_append, hsp, hn.sum hf]
  omega

/-- **The counters in every state reached.** -/
theorem reach_counted {ok : Act → State σ → Prop} (hr : (runtime P).Reach ok s) : s.Counted := by
  refine hr.invariant ?_ ?_
  · rintro s ⟨calls, rfl⟩
    exact ⟨rfl, rfl⟩
  · intro s s' a _ h _ hn
    have hidle := h.idle
    have hall := h.all
    unfold State.total at hidle hall
    cases next_inv hn with
    | @worker w ch pc e ws hw hs hnot =>
      have hmove : ∀ f : Pc σ → Nat, f .notified = f .blocked → (∀ id, f (.start id) = 0) →
          ((ws ++ (e.spawn.map fun id => Pc.start id).toList).map f).sum + f pc
            = (s.workers.map f).sum + f e.pc := fun f hf hst => total_worker hf hst hw hnot
      have h1 := hmove Pc.waits rfl fun _ => rfl
      have h2 := hmove Pc.registered rfl fun _ => rfl
      have h3 := (loop_inv hs).waits (by rw [hidle]; exact Slots.le_sum_map Pc.waits hw)
      have h4 := (loop_inv hs).registered (by rw [hall]; exact Slots.le_sum_map Pc.registered hw)
      constructor <;> show _ = _ <;> unfold State.total <;> simp only <;> omega
    | push _ hnot =>
      exact ⟨hidle.trans (hnot.sum rfl).symm, hall.trans (hnot.sum rfl).symm⟩
    | spawn => exact ⟨by simpa [State.total, Pc.waits] using hidle,
        by simpa [State.total, Pc.registered] using hall⟩
    | main | setReadable => exact ⟨hidle, hall⟩
    | spurious hw =>
      have h1 := Slots.sum_map_set Pc.waits .notified hw
      have h2 := Slots.sum_map_set Pc.registered .notified hw
      simp only [Pc.waits, Pc.registered] at h1 h2
      constructor <;> show _ = _ <;> unfold State.total <;> simp only <;> omega

end Counters

end MyGoroutine.Poll
