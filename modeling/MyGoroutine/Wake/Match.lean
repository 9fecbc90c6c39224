import MyGoroutine.Sched.Conservation
import MyGoroutine.Sched.Permit
import MyGoroutine.Wake.Basic
import MyGoroutine.Wake.Release

namespace MyGoroutine

/-!
# Every wake-up matches its park

For a program that only sleeps and uses channels, the wake causes of a task can be counted in
the data structures themselves: the entries in the timer heap and in the queues of the
channels, the `goready` calls that a worker has collected, and the token.  There is one cause
while the task is in a park that has not been woken, and none otherwise.

* `State.wakeCauses` — the causes, counted;
* `State.Unstored`, `State.Parking` — a park that has not been woken yet;
* `Park.Woken` — what has taken out the entry of a task that goes on after a park;
* `wake_matches_park` — the law.
-/

open History

variable {σ V : Type}

/-- How many entries of the task `i` are in the timer heap. -/
def Shared.timerEntries (sh : Shared σ V) (i : TaskId) : Nat :=
  sh.timerHeap.countP fun e => e.taskId = i

/-- How many entries of the task `i` are in the queues of a channel. -/
def ChanInner.entries (m : ChanInner V) (i : TaskId) : Nat :=
  m.recvq.count i + (m.sendq.map (·.taskId)).count i

/-- The outstanding wake causes of the task `i`. -/
def State.wakeCauses (s : State σ V) (i : TaskId) : Nat :=
  s.sh.timerEntries i + (s.sh.chans.map fun m => m.val.entries i).sum + s.total (Pc.owed i)
    + s.sh.queue.token i

/-- The task `i` has left its entry, and the worker loop has not handled its park. -/
def State.Unstored (s : State σ V) (i : TaskId) : Prop :=
  ∃ pc ∈ s.workers, ∃ t, pc.task? = some t ∧ t.id = i ∧
    ((pc = .run t ∧ t.code.isPark = true) ∨ (pc = .switched t ∧ t.state = .waiting))

/-- The task `i` is in a park that has not been woken yet. -/
def State.Parking (s : State σ V) (i : TaskId) : Prop :=
  s.Unstored i ∨ ∃ t, s.sh.queue.waiting.lookup i = some t

/-- The entry that the park of the task `i` has waited for was taken out, for the right reason. -/
def Park.Woken (i : TaskId) (log : List (Event V)) : Park σ V → Prop
  | .sleep _ => ∃ w now why, TakenOut i (.timer w) why (.timerPop i w now) log ∧ w ≤ now
  | .send c _ _ =>
    (∃ t w d why, TakenOut i (.sendq c) why (.received c t (.fromSender w d)) log ∧ w.taskId = i) ∨
    ∃ t receivers senders why, TakenOut i (.sendq c) why (.closed c t receivers senders) log ∧
      i ∈ senders.map (·.taskId)
  | .recv c _ _ =>
    (∃ t data why, TakenOut i (.recvq c) why (.sent c t data (.delivered i)) log) ∨
    ∃ t receivers senders why, TakenOut i (.recvq c) why (.closed c t receivers senders) log ∧
      i ∈ receivers
  | _ => False

/-! ### Counting the entries

The discipline speaks of sources one by one, and of the statuses of the tasks. Here its sums are
turned into the numbers of entries that can be counted in the heap and in the queues of the
channels.
-/

/-- A source of a basic program. -/
def Source.basic : Source → Bool
  | .timer _ => true
  | .recvq _ => true
  | .sendq _ => true
  | _ => false

/-- A history of basic events leaves tasks in basic sources only. -/
theorem source?_basic {log : List (Event V)} (h : ∀ e ∈ log, e.basic = true) {i : TaskId}
    {src : Source} (hs : (statusOf i log).source? = some src) : src.basic = true := by
  induction log using List.reverseRecOn with
  | nil => cases hs
  | append_singleton log x ih =>
    have ih := ih fun e he => h e (List.mem_append_left _ he)
    have hx := h x (by simp)
    rw [statusOf_append, List.foldl_cons, List.foldl_nil] at hs
    cases x with
    | added | joined | registered | reported => cases hx
    | sent c t d o | received c t o =>
      cases o <;> simp only [Event.update] at hs <;>
        first
        | exact ih hs
        | (split at hs
           · cases hs; rfl
           · exact ih hs)
    | closed =>
      simp only [Event.update] at hs
      split at hs
      · cases hs; rfl
      · split at hs
        · cases hs; rfl
        · exact ih hs
    | timerPush | timerPop =>
      simp only [Event.update] at hs
      split at hs
      · cases hs; rfl
      · exact ih hs
    | returned | panicked =>
      simp only [Event.update] at hs
      split at hs
      · cases hs
      · exact ih hs
    | created | dispatched | entered | died | goready | wake => exact ih hs

section Count

variable {sh : Shared σ V} {i : TaskId} (h : sh.Sources)
include h

/-- The heap holds one entry of a task that is queued there, and none of any other. -/
theorem timerEntries_eq :
    sh.timerEntries i = match (sh.status i).queue? with
      | some (.timer _) => 1
      | _ => 0 := by
  -- an entry in the heap is the one its task is queued for
  have hmem : ∀ e ∈ sh.timerHeap, e.taskId = i → (sh.status i).queue? = some (.timer e.wakeTime) := by
    rintro e he rfl
    have hq := h.queued_of_entries rfl
      (show 0 < sh.entries (.timer e.wakeTime) e.taskId from List.count_pos_iff.mpr he)
    rw [hq]
    rfl
  split
  · rename_i w hw
    have hone : sh.timerHeap.count ⟨w, i⟩ = 1 := by
      simpa [hw, Shared.entries] using h.entries (.timer w) i rfl
    rw [← hone]
    refine List.countP_congr fun e he => ?_
    simp only [decide_eq_true_eq, beq_iff_eq]
    constructor
    · intro hi
      have := hmem e he hi
      rw [hw] at this
      cases this
      rw [← hi]
    · rintro rfl
      rfl
  · rename_i hno
    refine List.countP_eq_zero.mpr fun e he hi => ?_
    exact hno _ (hmem e he (by simpa using hi))

/-- The queues of the channels hold one entry of a task that is queued there. -/
theorem chanEntries_eq :
    (sh.chans.map fun m => m.val.entries i).sum = match (sh.status i).queue? with
      | some (.recvq _) => 1
      | some (.sendq _) => 1
      | _ => 0 := by
  -- what one channel adds to the sum
  have hval : ∀ (c : ChanId) (m : Chan V), sh.chans[c]? = some m → m.val.entries i
      = (if (sh.status i).queue? = some (.recvq c) then 1 else 0)
        + if (sh.status i).queue? = some (.sendq c) then 1 else 0 := by
    intro c m hm
    rw [← h.entries (.recvq c) i rfl, ← h.entries (.sendq c) i rfl, entries_recvq hm,
      entries_sendq hm]
    rfl
  -- the channel that a queued task waits on is there
  have hexists : ∀ src c, (sh.status i).queue? = some src → src = .recvq c ∨ src = .sendq c →
      ∃ m, sh.chans[c]? = some m := by
    intro src c hq hsrc
    have hone := h.entries src i (by rcases hsrc with rfl | rfl <;> rfl)
    rw [if_pos hq] at hone
    cases hm : sh.chans[c]? with
    | some m => exact ⟨m, rfl⟩
    | none => rcases hsrc with rfl | rfl <;> simp [Shared.entries, hm] at hone
  split
  · rename_i c hq
    obtain ⟨m, hm⟩ := hexists _ c hq (.inl rfl)
    rw [Slots.sum_map_of_unique hm, hval c m hm, hq]
    · simp
    · intro j m' hj hne
      rw [hval j m' hj, hq]
      simp [Ne.symm hne]
  · rename_i c hq
    obtain ⟨m, hm⟩ := hexists _ c hq (.inr rfl)
    rw [Slots.sum_map_of_unique hm, hval c m hm, hq]
    · simp
    · intro j m' hj hne
      rw [hval j m' hj, hq]
      simp [Ne.symm hne]
  · rename_i hr hs
    refine Slots.sum_map_eq_zero fun m hm => ?_
    obtain ⟨c, hc⟩ := List.mem_iff_getElem?.mp hm
    rw [hval c m hc, if_neg (hr c), if_neg (hs c)]

end Count

/-- The causes of a basic program are those of the discipline. -/
theorem wakeCauses_eq {s : State σ V} (h : s.sh.Sources) (hb : s.Basic) (i : TaskId) :
    s.wakeCauses i = s.causes i := by
  have hq : s.sh.timerEntries i + (s.sh.chans.map fun m => m.val.entries i).sum
      = s.sh.queued i := by
    rw [timerEntries_eq h, chanEntries_eq h, Shared.queued]
    cases hst : s.sh.status i with
    | idle | released => rfl
    | queued src =>
      have := source?_basic hb.events (show (statusOf i s.sh.log).source? = some src by
        rw [← Shared.status, hst]
        rfl)
      cases src <;> first | rfl | cases this
  rw [State.wakeCauses, hq, State.causes]

/-! ### Parks

Likewise its open parks: a task is in one when its code has left the entry and the worker loop has
not handled the park, or when the task is stored in `waiting`.
-/

/-- The open parks of a worker: its task is about to park, or has just been switched out. -/
theorem openPark_pos {pc : Pc σ V} {i : TaskId} :
    0 < pc.openPark i ↔ ∃ t, pc.task? = some t ∧ t.id = i ∧
      ((pc = .run t ∧ t.code.isPark = true) ∨ (pc = .switched t ∧ t.state = .waiting)) := by
  cases pc <;> simp [Pc.openPark, Pc.task?]
  all_goals split <;> simp_all

/-- A task is unstored when some worker counts an open park of it. -/
theorem unstored_iff {s : State σ V} {i : TaskId} :
    s.Unstored i ↔ 0 < s.total (Pc.openPark i) := by
  constructor
  · rintro ⟨pc, hpc, ht⟩
    obtain ⟨w, hw⟩ := List.mem_iff_getElem?.mp hpc
    exact lt_of_lt_of_le (openPark_pos.mpr ht) (Slots.le_sum_map _ hw)
  · intro hpos
    obtain ⟨w, pc, hw, hpc⟩ := Slots.exists_pos_of_sum_pos hpos
    exact ⟨pc, List.mem_of_getElem? hw, openPark_pos.mp hpc⟩

/-- A task that is parking has an open park. -/
theorem parking_iff {s : State σ V} {i : TaskId} : s.Parking i ↔ 0 < s.open i := by
  have hst : (∃ t, s.sh.queue.waiting.lookup i = some t) ↔ 0 < s.sh.queue.stored i := by
    rw [GlobalQueue.stored, ← Option.isSome_iff_exists]
    split <;> simp_all
  rw [State.Parking, unstored_iff, hst, State.open]
  omega

/-- The entry of a task that goes on after a park was taken out. -/
theorem woken_of_parked {log : List (Event V)} {i : TaskId} {p : Park σ V}
    (hlaw : Each Event.Lawful log) (hp : p.basic = true)
    (hag : (Code.parked p).agrees (statusOf i log)) (hq : (statusOf i log).queue? = none) :
    p.Woken i log := by
  obtain ⟨src, why, hw, hst⟩ := Code.released_of_parked hag hq
  obtain ⟨e, he⟩ := released_by hlaw hst
  cases p with
  | sleep k =>
    cases src <;> cases hw
    obtain ⟨now, rfl, hle⟩ := he.timer hlaw
    exact ⟨_, now, why, he, hle⟩
  | send c k h =>
    cases src <;> cases hw
    rcases he.releases.sendq with ⟨t, w, d, rfl, hi, -⟩ | ⟨t, rs, ss, rfl, hi, -⟩
    · exact .inl ⟨t, w, d, why, he, hi⟩
    · exact .inr ⟨t, rs, ss, why, he, hi⟩
  | recv c k h =>
    cases src <;> cases hw
    rcases he.releases.recvq with ⟨t, d, rfl, -⟩ | ⟨t, rs, ss, rfl, hi, -⟩
    · exact .inl ⟨t, d, why, he⟩
    · exact .inr ⟨t, rs, ss, why, he, hi⟩
  | wait | netPollRead | gopark => cases hp

/-- **Every wake-up matches its park.**  In every state reached by a program that uses `go`,
    `gosched`, `sleep` and channels, a task has at most one outstanding wake cause, and has one
    exactly when it is in a park that has not been woken yet; a task that goes on after a park
    does so because its timer was popped when it was due, because a sender delivered to it or a
    receiver took its waiter, or because `close` drained it; and a token in `pending_ready` is
    that of a task between its enqueueing and the worker loop's handling of the park. -/
theorem wake_matches_park {P : Program σ V} (hP : P.Basic) {s : State σ V}
    (hr : (runtime P).Reachable s) (i : TaskId) :
    s.wakeCauses i ≤ 1 ∧ (s.wakeCauses i = 1 ↔ s.Parking i) ∧
    (s.sh.aborted = none → ∀ (w : Nat) (t : Task σ V) p, s.workers[w]? = some (.run t) → t.id = i →
      t.code = .parked p → p.Woken i s.sh.log) ∧
    (i ∈ s.sh.queue.pendingReady → s.Unstored i) := by
  have hb := reach_basic hP hr
  have hd := reach_disciplined_basic hP hr
  have hsh := reach_shaped hr
  have hp := reach_placed hr
  have hopen : s.open i ≤ 1 := le_trans (open_le_places hsh) (hp.places_le_one i)
  have hbal : s.wakeCauses i = s.open i := (wakeCauses_eq hd.sources hb i).trans (hd.balance i)
  refine ⟨hbal ▸ hopen, ?_, ?_, fun hmem => ?_⟩
  · rw [parking_iff, hbal]
    omega
  · rintro ha w t p hw rfl hc
    have hlaw := reach_lawful hP.structured (fun _ _ h => h) (reach_freshPolls hP hr)
    have hmem := List.mem_of_getElem? hw
    have hbasic := hb.codes t (.inr ⟨_, hmem, rfl⟩)
    have hag := hd.agree ha t (.inr ⟨_, hmem, rfl, (hsh.workers _ hmem).run⟩)
    rw [hc] at hbasic hag
    exact woken_of_parked hlaw hbasic hag
      (hd.queue?_of_settles hsh hp hw rfl (by rw [hc]; rfl))
  · have htok : s.sh.queue.token i = 1 := if_pos hmem
    have hw := (reach_permits hr).waiting i (((reach_permits hr).token i).mp hmem)
    have hst : s.sh.queue.stored i = 0 := by simp [GlobalQueue.stored, hw]
    have := hd.balance i
    rw [unstored_iff]
    unfold State.causes State.open at this
    omega

/-- The task of `napProgram` goes on after its sleep: its timer was popped when it was due. -/
theorem wake_matches_park_nap :
    ∃ s, (runtime napProgram).run
        (List.replicate 5 (.main {}) ++ List.replicate 11 (.worker 0 {}) ++
          [.tick 5, .worker 0 {}, .worker 0 { peek := ⟨5, 0⟩ }] ++
          List.replicate 4 (.worker 0 {}))
        (State.initial [] 0 [.go true, .startRuntime 1]) = some s ∧
      s.sh.aborted = none ∧ s.workers = [.run ⟨0, .parked (.sleep false), .running⟩] ∧
      (Park.sleep false : Park Bool Unit).Woken 0 s.sh.log := by
  have h : ((runtime napProgram).run
      (List.replicate 5 (Act.main {}) ++ List.replicate 11 (Act.worker 0 {}) ++
        [.tick 5, Act.worker 0 {}, Act.worker 0 { peek := ⟨5, 0⟩ }] ++ List.replicate 4 (Act.worker 0 {}))
      (State.initial [] 0 [.go true, .startRuntime 1])).map (fun s => (s.sh.aborted, s.workers))
      = some (none, [.run ⟨0, .parked (.sleep false), .running⟩]) := by rfl
  obtain ⟨s, hs, hst⟩ := Option.map_eq_some_iff.mp h
  obtain ⟨ha, hw⟩ := Prod.mk.inj hst
  have hr := System.run_reachable (M := runtime napProgram) ⟨[], 0, _, rfl⟩ hs
  have hP : napProgram.Basic := by
    intro x
    cases x <;> rfl
  exact ⟨s, hs, ha, hw, (wake_matches_park hP hr 0).2.2.1 ha 0 _ _ (by rw [hw]; rfl) rfl rfl⟩

end MyGoroutine
