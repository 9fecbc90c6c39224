import MyGoroutine.Chan.Move

namespace MyGoroutine

/-!
# The wake cause of a task

A task that parks leaves an entry somewhere first: in the timer heap, in a queue of a channel,
among the waiters of a wait group, or in `waiting_fds`.  Somebody takes the entry out and owes
the task one `goready`.  The history tells where each task stands in this exchange.

* `Source`, `Status` — where the entry of a task is, or why it was taken out;
* `statusOf` — the status of a task, read off the history event by event;
* `Shared.entries` — the entries of a task in the data structures themselves;
* `Shared.Sources` — the data structures hold exactly the entries of the queued tasks;
* `Sources.enqueue`, `Sources.release` — the rules for adding and taking out entries.
-/

variable {σ V : Type}

/-- A place where a task leaves its entry before it parks. -/
inductive Source where
  /-- An entry of the timer heap. -/
  | timer (wakeTime : Instant)
  /-- The receivers of a channel. -/
  | recvq (c : ChanId)
  /-- The senders of a channel. -/
  | sendq (c : ChanId)
  /-- The waiters of a wait group. -/
  | waiters (g : GroupId)
  /-- An entry of `waiting_fds`. -/
  | fd (fd : RawFd)
deriving DecidableEq

/-- The entry is one of `waiting_fds`. -/
def Source.isFd : Source → Bool
  | .fd _ => true
  | _ => false

/-- Why an entry was taken out. -/
inductive Why (V : Type) where
  /-- `check_timers` popped it, at the clock reading `now`. -/
  | fired (now : Instant)
  | delivered (data : V)
  /-- A `recv` took the waiter from the `sendq`. -/
  | taken
  /-- `close` drained the queue. -/
  | drained
  /-- The counter reached zero. -/
  | counted
  | reported

/-- Where a task stands between leaving an entry and returning from the park. -/
inductive Status (V : Type) where
  | idle
  | queued (src : Source)
  | released (src : Source) (why : Why V)

/-- The source that still holds the entry. -/
def Status.queue? : Status V → Option Source
  | .queued src => some src
  | _ => none

/-- The source that holds or has held the entry. -/
def Status.source? : Status V → Option Source
  | .idle => none
  | .queued src => some src
  | .released src _ => some src

/-- What an event does to the status of the task `i`. -/
def Event.update (i : TaskId) (st : Status V) : Event V → Status V
  | .timerPush t w => if t = i then .queued (.timer w) else st
  | .timerPop t w now => if t = i then .released (.timer w) (.fired now) else st
  | .sent c t _ .enqueued => if t = i then .queued (.sendq c) else st
  | .sent c _ data (.delivered r) => if r = i then .released (.recvq c) (.delivered data) else st
  | .sent _ _ _ .buffered => st
  | .received c t .enqueued => if t = i then .queued (.recvq c) else st
  | .received c _ (.fromSender w _) => if w.taskId = i then .released (.sendq c) .taken else st
  | .received _ _ (.fromBuf _) => st
  | .received _ _ .closed => st
  | .closed c _ receivers senders =>
    if i ∈ receivers then .released (.recvq c) .drained
    else if i ∈ senders.map (·.taskId) then .released (.sendq c) .drained
    else st
  | .added g _ _ woken => if i ∈ woken then .released (.waiters g) .counted else st
  | .joined g t => if t = i then .queued (.waiters g) else st
  | .registered t fd => if t = i then .queued (.fd fd) else st
  | .reported t fd => if t = i then .released (.fd fd) .reported else st
  | .returned t _ => if t = i then .idle else st
  | .panicked t _ => if t = i then .idle else st
  | .created _ => st
  | .dispatched _ => st
  | .entered _ => st
  | .died _ => st
  | .goready _ _ => st
  | .wake _ => st

/-- The status of the task `i` after the history `log`. -/
def statusOf (i : TaskId) (log : List (Event V)) : Status V := log.foldl (Event.update i) .idle

/-- The status of the task `i` so far. -/
def Shared.status (sh : Shared σ V) (i : TaskId) : Status V := statusOf i sh.log

/-- The status is read off the history event by event. -/
theorem statusOf_append (i : TaskId) (log es : List (Event V)) :
    statusOf i (log ++ es) = es.foldl (Event.update i) (statusOf i log) :=
  List.foldl_append

/-- The event changes no status. -/
def Event.neutral (e : Event V) : Prop := ∀ i st, e.update i st = st

/-- Neutral events change no status. -/
theorem foldl_neutral {es : List (Event V)} (hes : ∀ e ∈ es, e.neutral) (i : TaskId)
    (st : Status V) : es.foldl (Event.update i) st = st := by
  induction es with
  | nil => rfl
  | cons e es ih =>
    rw [List.foldl_cons, hes e (by simp)]
    exact ih fun e' he => hes e' (by simp [he])

/-- A step that logs neutral events only changes no status. -/
theorem status_of_neutral {sh sh' : Shared σ V} (es : List (Event V))
    (hl : sh'.log = sh.log ++ es) (hes : ∀ e ∈ es, e.neutral) (i : TaskId) :
    sh'.status i = sh.status i := by
  rw [Shared.status, hl, statusOf_append, foldl_neutral hes, Shared.status]

/-- A step that logs one event changes the statuses as this event says. -/
theorem status_append_one {sh sh' : Shared σ V} {e : Event V} (hl : sh'.log = sh.log ++ [e])
    (i : TaskId) : sh'.status i = e.update i (sh.status i) := by
  rw [Shared.status, hl, statusOf_append]
  rfl

/-- The statuses depend on the history only. -/
theorem status_of_log {sh sh' : Shared σ V} (hl : sh'.log = sh.log) (i : TaskId) :
    sh'.status i = sh.status i := by
  rw [Shared.status, hl, Shared.status]

/-! ### The entries in the data structures

A parked task is found in one of a few lists: the heap, a `recvq`, a `sendq`, the `waiters` of a
group, or `waiting_fds`. The invariant counts its entries there and compares the count with the
status, which is read off the history alone.
-/

/-- How many entries of the task `i` a source holds.  The entries in `waiting_fds` are not
    taken out when they are reported, and are described by `Sources.fds` instead. -/
def Shared.entries (sh : Shared σ V) : Source → TaskId → Nat
  | .timer w, i => sh.timerHeap.count ⟨w, i⟩
  | .recvq c, i => ((sh.chans[c]?).map fun m => m.val.recvq.count i).getD 0
  | .sendq c, i => ((sh.chans[c]?).map fun m => (m.val.sendq.map (·.taskId)).count i).getD 0
  | .waiters g, i => ((sh.groups[g]?).map fun m => m.val.waiters.count i).getD 0
  | .fd _, _ => 0

/-- The data structures hold exactly the entries of the queued tasks. -/
structure Shared.Sources (sh : Shared σ V) : Prop where
  entries : ∀ src i, src.isFd = false →
    sh.entries src i = if (sh.status i).queue? = some src then 1 else 0
  fds : ∀ fd i, sh.net.waitingFds.lookup fd = some i → (sh.status i).source? = some (.fd fd)

section Entries

variable {sh sh' : Shared σ V} {c : ChanId} {g : GroupId} {m m' : Chan V} {w w' : WaitGroup}
  {src : Source} {i : TaskId}

/-- The entries in a `recvq`. -/
theorem entries_recvq (hm : sh.chans[c]? = some m) :
    sh.entries (.recvq c) i = m.val.recvq.count i := by
  simp [Shared.entries, hm]

/-- The entries in a `sendq`. -/
theorem entries_sendq (hm : sh.chans[c]? = some m) :
    sh.entries (.sendq c) i = (m.val.sendq.map (·.taskId)).count i := by
  simp [Shared.entries, hm]

/-- The entries in the `waiters` of a wait group. -/
theorem entries_waiters (hw : sh.groups[g]? = some w) :
    sh.entries (.waiters g) i = w.val.waiters.count i := by
  simp [Shared.entries, hw]

/-- Entries depend on the heap, the channels and the wait groups only. -/
theorem entries_congr (hh : sh'.timerHeap = sh.timerHeap) (hc : sh'.chans = sh.chans)
    (hg : sh'.groups = sh.groups) : sh'.entries src i = sh.entries src i := by
  cases src <;> simp only [Shared.entries, hh, hc, hg]

/-- From `sh` to `sh'` the channel `c` is replaced, among the places that hold entries. -/
structure Shared.SetsChan (sh sh' : Shared σ V) (c : ChanId) (m m' : Chan V) : Prop where
  old : sh.chans[c]? = some m
  timerHeap : sh'.timerHeap = sh.timerHeap
  chans : sh'.chans = sh.chans.set c m'
  groups : sh'.groups = sh.groups

/-- A section replaces its channel and nothing else. -/
theorem setsChan {es : List (Event V)} (hm : sh.chans[c]? = some m) :
    sh.SetsChan ((sh.setChan c m').record es) c m m' :=
  ⟨hm, rfl, rfl, rfl⟩

/-- From `sh` to `sh'` the wait group `g` is replaced, among the places that hold entries. -/
structure Shared.SetsGroup (sh sh' : Shared σ V) (g : GroupId) (w w' : WaitGroup) : Prop where
  old : sh.groups[g]? = some w
  timerHeap : sh'.timerHeap = sh.timerHeap
  chans : sh'.chans = sh.chans
  groups : sh'.groups = sh.groups.set g w'

/-- A section replaces its wait group and nothing else. -/
theorem setsGroup {es : List (Event V)} (hw : sh.groups[g]? = some w) :
    sh.SetsGroup ((sh.setGroup g w').record es) g w w' :=
  ⟨hw, rfl, rfl, rfl⟩

/-- Replacing a channel changes the entries in its own queues. -/
theorem entries_setChan (h : sh.SetsChan sh' c m m') :
    sh'.entries src i =
      if src = .recvq c then m'.val.recvq.count i
      else if src = .sendq c then (m'.val.sendq.map (·.taskId)).count i
      else sh.entries src i := by
  have hlt := (List.getElem?_eq_some_iff.mp h.old).1
  cases src with
  | recvq c' =>
    by_cases hc : c' = c
    · subst hc; simp [Shared.entries, h.chans, List.getElem?_set_self hlt]
    · simp [Shared.entries, h.chans, List.getElem?_set_ne (Ne.symm hc), hc]
  | sendq c' =>
    by_cases hc : c' = c
    · subst hc; simp [Shared.entries, h.chans, List.getElem?_set_self hlt]
    · simp [Shared.entries, h.chans, List.getElem?_set_ne (Ne.symm hc), hc]
  | timer => simp [Shared.entries, h.timerHeap]
  | waiters => simp [Shared.entries, h.groups]
  | fd => simp [Shared.entries]

/-- A section that leaves the queues of the channel alone changes no entry. -/
theorem entries_setChan_same (h : sh.SetsChan sh' c m m') (hr : m'.val.recvq = m.val.recvq)
    (hs : m'.val.sendq = m.val.sendq) : sh'.entries src i = sh.entries src i := by
  rw [entries_setChan h, hr, hs]
  split
  · subst src; exact (entries_recvq h.old).symm
  · split
    · subst src; exact (entries_sendq h.old).symm
    · rfl

/-- Replacing a wait group changes the entries among its waiters. -/
theorem entries_setGroup (h : sh.SetsGroup sh' g w w') :
    sh'.entries src i =
      if src = .waiters g then w'.val.waiters.count i else sh.entries src i := by
  have hlt := (List.getElem?_eq_some_iff.mp h.old).1
  cases src with
  | waiters g' =>
    by_cases hg : g' = g
    · subst hg; simp [Shared.entries, h.groups, List.getElem?_set_self hlt]
    · simp [Shared.entries, h.groups, List.getElem?_set_ne (Ne.symm hg), hg]
  | timer => simp [Shared.entries, h.timerHeap]
  | recvq => simp [Shared.entries, h.chans]
  | sendq => simp [Shared.entries, h.chans]
  | fd => simp [Shared.entries]

/-- A section that leaves the waiters alone changes no entry. -/
theorem entries_setGroup_same (h : sh.SetsGroup sh' g w w')
    (hw : w'.val.waiters = w.val.waiters) : sh'.entries src i = sh.entries src i := by
  rw [entries_setGroup h, hw]
  split
  · subst src; exact (entries_waiters h.old).symm
  · rfl

/-- A receiver is taken out of the `recvq`. -/
theorem entries_pop_recvq {r : TaskId} (h : sh.SetsChan sh' c m m')
    (hr : m.val.recvq = r :: m'.val.recvq) (hs : m'.val.sendq = m.val.sendq) (src : Source)
    (j : TaskId) :
    sh'.entries src j + (if src = .recvq c ∧ j = r then 1 else 0) = sh.entries src j := by
  rw [entries_setChan h, hs]
  by_cases h1 : src = .recvq c
  · subst h1
    simp [entries_recvq h.old, hr, Slots.count_cons_ite]
  · by_cases h2 : src = .sendq c
    · subst h2; simp [entries_sendq h.old]
    · simp [h1, h2]

/-- A sender is taken out of the `sendq`. -/
theorem entries_pop_sendq {w : SendWaiter V} (h : sh.SetsChan sh' c m m')
    (hr : m'.val.recvq = m.val.recvq) (hs : m.val.sendq = w :: m'.val.sendq) (src : Source)
    (j : TaskId) :
    sh'.entries src j + (if src = .sendq c ∧ j = w.taskId then 1 else 0) = sh.entries src j := by
  rw [entries_setChan h, hr]
  by_cases h1 : src = .sendq c
  · subst h1
    simp [entries_sendq h.old, hs, Slots.count_cons_ite]
  · by_cases h2 : src = .recvq c
    · subst h2; simp [entries_recvq h.old]
    · simp [h1, h2]

/-- A receiver enters the `recvq`. -/
theorem entries_push_recvq {i : TaskId} (h : sh.SetsChan sh' c m m')
    (hr : m'.val.recvq = m.val.recvq ++ [i]) (hs : m'.val.sendq = m.val.sendq) (src : Source)
    (j : TaskId) :
    sh'.entries src j = sh.entries src j + if src = .recvq c ∧ j = i then 1 else 0 := by
  rw [entries_setChan h, hs]
  by_cases h1 : src = .recvq c
  · subst h1
    simp [entries_recvq h.old, hr, Slots.count_singleton_ite]
  · by_cases h2 : src = .sendq c
    · subst h2; simp [entries_sendq h.old]
    · simp [h1, h2]

/-- A sender enters the `sendq`. -/
theorem entries_push_sendq {w : SendWaiter V} (h : sh.SetsChan sh' c m m')
    (hr : m'.val.recvq = m.val.recvq) (hs : m'.val.sendq = m.val.sendq ++ [w]) (src : Source)
    (j : TaskId) :
    sh'.entries src j = sh.entries src j + if src = .sendq c ∧ j = w.taskId then 1 else 0 := by
  rw [entries_setChan h, hr]
  by_cases h1 : src = .sendq c
  · subst h1
    simp [entries_sendq h.old, hs, Slots.count_singleton_ite]
  · by_cases h2 : src = .recvq c
    · subst h2; simp [entries_recvq h.old]
    · simp [h1, h2]

/-- A task enters the `waiters` of a wait group. -/
theorem entries_push_waiters {i : TaskId} (h : sh.SetsGroup sh' g w w')
    (hr : w'.val.waiters = w.val.waiters ++ [i]) (src : Source) (j : TaskId) :
    sh'.entries src j = sh.entries src j + if src = .waiters g ∧ j = i then 1 else 0 := by
  rw [entries_setGroup h, hr]
  by_cases h1 : src = .waiters g
  · subst h1
    simp [entries_waiters h.old, Slots.count_singleton_ite]
  · simp [h1]

/-- A task enters the timer heap. -/
theorem entries_push_timer {wt : Instant} (hh : sh'.timerHeap = ⟨wt, i⟩ :: sh.timerHeap)
    (hc : sh'.chans = sh.chans) (hg : sh'.groups = sh.groups) (src : Source) (j : TaskId) :
    sh'.entries src j = sh.entries src j + if src = .timer wt ∧ j = i then 1 else 0 := by
  cases src with
  | timer w => simp [Shared.entries, hh, Slots.count_cons_ite]
  | recvq | sendq => simp [Shared.entries, hc]
  | waiters => simp [Shared.entries, hg]
  | fd => simp [Shared.entries]

/-- An entry is taken out of the timer heap. -/
theorem entries_pop_timer {e : TimerEntry} (he : e ∈ sh.timerHeap)
    (hh : sh'.timerHeap = sh.timerHeap.erase e) (hc : sh'.chans = sh.chans)
    (hg : sh'.groups = sh.groups) (src : Source) (j : TaskId) :
    sh'.entries src j + (if src = .timer e.wakeTime ∧ j = e.taskId then 1 else 0)
      = sh.entries src j := by
  cases src with
  | timer w =>
    have hpos := List.count_pos_iff.mpr he
    by_cases hej : (⟨w, j⟩ : TimerEntry) = e
    · subst hej
      simp only [Shared.entries, hh, List.count_erase_self, and_self, if_true]
      omega
    · have : ¬ (Source.timer w = .timer e.wakeTime ∧ j = e.taskId) := by
        rintro ⟨hw, rfl⟩
        cases hw
        exact hej rfl
      simp only [Shared.entries, hh, List.count_erase_of_ne hej, this, if_false, Nat.add_zero]
  | recvq | sendq => simp [Shared.entries, hc]
  | waiters => simp [Shared.entries, hg]
  | fd => simp [Shared.entries]

end Entries

/-! ### Adding and taking out entries

Every step keeps the count in one of these ways: nothing changes, one entry is added, some are taken
out, or the task comes back.
-/

namespace Shared.Sources

variable {sh sh' : Shared σ V} (h : sh.Sources)
include h

/-- A task whose entry is held by a source is queued there. -/
theorem queued_of_entries {src : Source} {i : TaskId} (hs : src.isFd = false)
    (he : 0 < sh.entries src i) : sh.status i = .queued src := by
  have := h.entries src i hs
  cases hst : sh.status i with
  | queued src' =>
    simp only [hst, Status.queue?, Option.some.injEq] at this
    split at this
    · simp [*]
    · omega
  | idle | released => simp [hst, Status.queue?] at this; omega

/-- A task has one entry at most, in all sources but the fds. -/
theorem entries_le_one {src : Source} {i : TaskId} (hs : src.isFd = false) :
    sh.entries src i ≤ 1 := by
  rw [h.entries src i hs]
  split <;> omega

/-- Neither statuses nor entries change. -/
theorem same (hst : ∀ i, sh'.status i = sh.status i)
    (he : ∀ src i, sh'.entries src i = sh.entries src i)
    (hf : sh'.net.waitingFds = sh.net.waitingFds) : sh'.Sources where
  entries src i hs := by rw [he, hst, h.entries src i hs]
  fds fd i hl := by rw [hst]; rw [hf] at hl; exact h.fds fd i hl

/-- **Adding an entry** for an idle task. -/
theorem enqueue {src : Source} {i : TaskId} (hidle : sh.status i = .idle)
    (hst : sh'.status i = .queued src) (hst' : ∀ j, j ≠ i → sh'.status j = sh.status j)
    (he : ∀ src' j, sh'.entries src' j
      = sh.entries src' j + if src' = src ∧ j = i then 1 else 0)
    (hf : sh'.net.waitingFds = sh.net.waitingFds) : sh'.Sources where
  entries src' j hs' := by
    rw [he, h.entries src' j hs']
    by_cases hj : j = i
    · subst hj
      simp [hidle, hst, Status.queue?, eq_comm]
    · simp [hj, hst' j hj]
  fds fd j hl := by
    rw [hf] at hl
    have := h.fds fd j hl
    by_cases hj : j = i
    · subst hj
      rw [hidle] at this
      cases this
    · rw [hst' j hj]; exact this

/-- A task returns from its park, or panics: the entry was taken out before. -/
theorem settle {i : TaskId} (hq : (sh.status i).queue? = none) (hst : sh'.status i = .idle)
    (hst' : ∀ j, j ≠ i → sh'.status j = sh.status j)
    (he : ∀ src j, sh'.entries src j = sh.entries src j)
    (hf : ∀ fd j, sh'.net.waitingFds.lookup fd = some j →
      j ≠ i ∧ sh.net.waitingFds.lookup fd = some j) : sh'.Sources where
  entries src j hs := by
    rw [he, h.entries src j hs]
    by_cases hj : j = i
    · subst hj
      rw [hst, hq]
      rfl
    · rw [hst' j hj]
  fds fd j hl := by
    obtain ⟨hj, hl⟩ := hf fd j hl
    rw [hst' j hj]
    exact h.fds fd j hl

/-- **Taking out entries**: `r` tells which ones, and their tasks are released. -/
theorem release (r : Source → TaskId → Nat) (hr : ∀ src i, 0 < r src i → src.isFd = false)
    (he : ∀ src i, sh'.entries src i + r src i = sh.entries src i)
    (hst : ∀ src i, 0 < r src i → ∃ why, sh'.status i = .released src why)
    (hst' : ∀ i, (∀ src, r src i = 0) → sh'.status i = sh.status i)
    (hf : sh'.net.waitingFds = sh.net.waitingFds) : sh'.Sources where
  entries src i hs := by
    by_cases hi : ∃ src₀, 0 < r src₀ i
    · obtain ⟨src₀, h₀⟩ := hi
      obtain ⟨why, hw⟩ := hst src₀ i h₀
      have he₀ := he src₀ i
      -- a task has one entry at most, so the one taken out was its only one
      have hle := h.entries_le_one (i := i) (hr src₀ i h₀)
      have hq := h.queued_of_entries (i := i) (hr src₀ i h₀) (by omega)
      have hent := h.entries src i hs
      have hsrc := he src i
      rw [hq] at hent
      rw [hw]
      by_cases hsame : src = src₀
      · subst hsame
        simp only [Status.queue?, reduceCtorEq, if_false]
        omega
      · simp only [Status.queue?, Option.some.injEq, Ne.symm hsame, if_false] at hent
        simp only [Status.queue?, reduceCtorEq, if_false]
        omega
    · have h0 : ∀ src, r src i = 0 := fun src => Nat.eq_zero_of_not_pos fun hp => hi ⟨src, hp⟩
      rw [hst' i h0, ← h.entries src i hs, ← he src i, h0, Nat.add_zero]
  fds fd i hl := by
    rw [hf] at hl
    have hfd := h.fds fd i hl
    by_cases hi : ∃ src₀, 0 < r src₀ i
    · obtain ⟨src₀, h₀⟩ := hi
      have he₀ := he src₀ i
      -- the task was queued at `src₀`, which is no fd
      have hq := h.queued_of_entries (i := i) (hr src₀ i h₀) (by omega)
      rw [hq] at hfd
      obtain rfl : src₀ = .fd fd := by simpa [Status.source?] using hfd
      cases hr _ _ h₀
    · rw [hst' i fun src => Nat.eq_zero_of_not_pos fun hp => hi ⟨src, hp⟩]
      exact hfd

/-- Taking out one entry. -/
theorem release_one {src : Source} {id : TaskId} {why : Why V} (hsrc : src.isFd = false)
    (he : ∀ src' j, sh'.entries src' j + (if src' = src ∧ j = id then 1 else 0)
      = sh.entries src' j)
    (hst : sh'.status id = .released src why)
    (hst' : ∀ i, i ≠ id → sh'.status i = sh.status i)
    (hf : sh'.net.waitingFds = sh.net.waitingFds) : sh'.Sources := by
  have hpos : ∀ {src' i}, 0 < (if src' = src ∧ i = id then 1 else 0) → src' = src ∧ i = id := by
    intro src' i hp
    by_contra hi
    simp [hi] at hp
  refine h.release (fun src' j => if src' = src ∧ j = id then 1 else 0) ?_ he ?_ ?_ hf
  · intro src' i hp
    rw [(hpos hp).1]
    exact hsrc
  · intro src' i hp
    obtain ⟨rfl, rfl⟩ := hpos hp
    exact ⟨why, hst⟩
  · intro i h0
    refine hst' i ?_
    rintro rfl
    simpa using h0 src

end Shared.Sources

end MyGoroutine
