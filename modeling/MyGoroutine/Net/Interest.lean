import MyGoroutine.Net.Poll

namespace MyGoroutine

/-!
# The interest set and `waiting_fds`

`register_read` adds an fd to the kernel's interest set and then to the map, `unregister` removes
it from both in the same order, and no lock spans the two steps.  The interest set has one owner
for an fd, the task whose `EPOLL_CTL_ADD` succeeded last; the map agrees with it as long as nobody
records itself for an fd that another task is still unregistering.

* `Code.netPoint` — the points of `net_poll_read` at which a task has an fd registered;
* `NetStep`, `TaskStep.net` — what a step of a task does to the poller;
* `seeAdd` — an observer who notes the task whose `EPOLL_CTL_ADD` succeeded last;
* `Agree`, `reach_agree` — who owns an fd in the set, and who in the map;
* `interest_agrees` — between the updates the two agree;
* `interest_handover` — a record erased by the task that had the fd before.
-/

variable {σ V : Type}

/-- The points between the first step of `register_read` and the last one of `unregister`. -/
inductive NetPoint where
  /-- In the interest set only. -/
  | registering
  | reading
  /-- In `waiting_fds` only. -/
  | unregistering
deriving DecidableEq

/-- Where in `net_poll_read` the code is, and on which fd. -/
def Code.netPoint : Code σ V → Option (NetPoint × RawFd)
  | .registerRead fd _ => some (.registering, fd)
  | .park (.netPollRead fd _) => some (.reading, fd)
  | .parked (.netPollRead fd _) => some (.reading, fd)
  | .unregister fd _ => some (.unregistering, fd)
  | _ => none

/-- The code is at the point `x` for `fd`. -/
def Code.atNet (x : NetPoint) (fd : RawFd) (c : Code σ V) : Bool :=
  decide (c.netPoint = some (x, fd))

/-- A worker runs a task at the point `x` for `fd`. -/
def Pc.atNet (x : NetPoint) (fd : RawFd) : Pc σ V → Bool
  | .run t => t.code.atNet x fd
  | _ => false

/-- The step inserts an fd into `waiting_fds` that another task is unregistering: its
    `EPOLL_CTL_DEL` is done, its `remove` is not. -/
def overtakes? (a : Act) (s : State σ V) : Bool :=
  match a with
  | .worker w _ =>
    match s.workers[w]? with
    | some (.run t) =>
      match t.code with
      | .registerRead fd _ => s.workers.any (Pc.atNet .unregistering fd)
      | _ => false
    | _ => false
  | _ => false

/-- No task records itself for an fd that another one is unregistering. -/
def Orderly (a : Act) (s : State σ V) : Prop := overtakes? a s = false

/-- What the observer notes of a step of the task `i`: an `EPOLL_CTL_ADD` that succeeds takes the
    task to `registering`. -/
def noteAdd (i : TaskId) (last : RawFd → Option TaskId) :
    Option (NetPoint × RawFd) → Option (NetPoint × RawFd) → RawFd → Option TaskId
  | none, some (.registering, fd) => Function.update last fd (some i)
  | _, _ => last

/-- A step that stays at its point adds nothing. -/
theorem noteAdd_self (i : TaskId) (last : RawFd → Option TaskId)
    (x : Option (NetPoint × RawFd)) : noteAdd i last x x = last := by
  cases x <;> rfl

/-- The observer of the `EPOLL_CTL_ADD` calls: of each fd, the task whose call succeeded last. -/
def seeAdd (a : Act) (s s' : State σ V) (last : RawFd → Option TaskId) : RawFd → Option TaskId :=
  match a with
  | .worker w _ =>
    match s.workers[w]?.bind Pc.task?, s'.workers[w]?.bind Pc.task? with
    | some t, some u => noteAdd t.id last t.code.netPoint u.code.netPoint
    | _, _ => last
  | _ => last

/-! ### Steps

The code of `net_poll_read` touches the poller in four places, two in the kernel and two in the map.
A step is thus a move of one task from one of the points between them to the next, and all other
steps leave the poller alone.
-/

/-- What a step of the task `i` does to the poller, from one point to the other. -/
inductive NetStep (i : TaskId) (net : NetPoller) :
    Option (NetPoint × RawFd) → NetPoller → Option (NetPoint × RawFd) → Prop where
  /-- Nothing. -/
  | quiet {x} : NetStep i net x net x
  /-- `EPOLL_CTL_ADD`, of an fd that is not registered. -/
  | add {fd} (h : fd ∉ net.interest) :
      NetStep i net none { net with interest := net.interest ++ [fd] } (some (.registering, fd))
  /-- `waiting_fds` gets the fd. -/
  | insert {fd} : NetStep i net (some (.registering, fd)) (net.insert fd i) (some (.reading, fd))
  /-- `EPOLL_CTL_DEL`. -/
  | del {fd} : NetStep i net (some (.reading, fd)) (net.epollCtlDel fd) (some (.unregistering, fd))
  /-- `waiting_fds` loses the fd. -/
  | remove {fd} : NetStep i net (some (.unregistering, fd)) (net.remove fd) none

section Steps

variable {P : Program σ V} {ch : Choice} {free : Bool} {sh : Shared σ V} {t : Task σ V}
  {pc : Pc σ V} {e : Effect σ V}

/-- A panic outside `net_poll_read` stays outside. -/
theorem netPoint_raiseCode (p : Panic) (h : Handler σ) (hc : t.code.netPoint = none) :
    (t.raiseCode p h).netPoint = none := by
  cases h
  · exact hc
  · rfl

/-- The end of a call is outside `net_poll_read`. -/
theorem netPoint_finishCode (ids : List TaskId) (ret : Ret V) (k : σ) :
    (finishCode ids ret k : Code σ V).netPoint = none := by
  cases ids <;> rfl

/-- A section of a channel is outside `net_poll_read`. -/
theorem ChanCall.netPoint {c : ChanId} {h : Handler σ} {sec : ChanSection}
    (hs : ChanCall P t c h sec) : t.code.netPoint = none := by
  cases hs with
  | send hc | sendResume hc | recv hc | recvResume hc | close hc => rw [hc]; rfl

/-- After its step the task `i` is at the point `x`. -/
structure Effect.NetAt (e : Effect σ V) (i : TaskId) (x : Option (NetPoint × RawFd)) : Prop where
  holds : ∀ y fd j, e.pc.holds (Code.atNet y fd) j = if i = j ∧ x = some (y, fd) then 1 else 0
  task : ∃ u, e.pc.task? = some u ∧ u.code.netPoint = x

/-- After a step that goes on, the task is at the point of its new code. -/
theorem netAt_run {c : Code σ V} {x : Option (NetPoint × RawFd)} (hpc : e.pc = .run (t.goto c))
    (hx : c.netPoint = x) : e.NetAt t.id x := by
  refine ⟨fun y fd j => ?_, t.goto c, by rw [hpc]; rfl, hx⟩
  rw [hpc, ← hx]
  exact if_congr (and_congr_right' decide_eq_true_iff) rfl rfl

/-- **The step of a task, as the poller sees it.** -/
theorem TaskStep.net (hs : TaskStep P ch free sh t e) (hrun : t.state = .running) :
    ∃ x, e.NetAt t.id x ∧ NetStep t.id sh.net t.code.netPoint e.sh.net x := by
  cases hs with
  | chanPoisoned hs | chanClosed hs =>
    refine ⟨_, netAt_run (raise_pc _ _) (netPoint_raiseCode _ _ hs.netPoint), ?_⟩
    rw [raise_sh, hs.netPoint]
    exact .quiet
  | sleepOverflow hc | recvUnwrap hc | groupPanic hc | netFail hc =>
    have hx : t.code.netPoint = none := by rw [hc]; rfl
    refine ⟨_, netAt_run (raise_pc _ _) (netPoint_raiseCode _ _ hx), ?_⟩
    rw [raise_sh, hx]
    exact .quiet
  | close hc | add hc =>
    refine ⟨_, netAt_run (finish_pc _ _ _) (netPoint_finishCode _ _ _), ?_⟩
    rw [finish_sh, hc]
    exact .quiet
  | goready _ hc | wakeMore _ hc | wakeLast _ hc =>
    refine ⟨_, netAt_run rfl rfl, ?_⟩
    rw [hc]
    unfold Shared.goready
    split <;> exact .quiet
  -- the four sections of `net_poll_read` that move the task from one stage to the next
  | @netAdd _ _ _ _ net hc _ hn =>
    refine ⟨_, netAt_run rfl rfl, ?_⟩
    rw [hc]
    unfold NetPoller.epollCtlAdd at hn
    split at hn <;> cases hn
    exact .add ‹_›
  | registerRead hc => refine ⟨_, netAt_run rfl rfl, ?_⟩; rw [hc]; exact .insert
  | resumeNet hc => refine ⟨_, netAt_run rfl rfl, ?_⟩; rw [hc]; exact .del
  | unregister hc => refine ⟨_, netAt_run rfl rfl, ?_⟩; rw [hc]; exact .remove
  -- the steps after which the worker holds the task as `switched`
  | @gosched _ k hc =>
    refine ⟨none, ⟨fun y fd j => ?_, _, rfl, rfl⟩, by rw [hc]; exact .quiet⟩
    simp [Pc.holds, hrun, Task.counts, Code.atNet, Code.netPoint]
  | done hc =>
    refine ⟨none, ⟨fun y fd j => ?_, _, rfl, by rw [Task.withState_code, hc]; rfl⟩,
      by rw [hc]; exact .quiet⟩
    simp [Pc.holds]
  | @park p hc =>
    have hp : (Code.parked p : Code σ V).netPoint = (Code.park p : Code σ V).netPoint := by
      cases p <;> rfl
    refine ⟨(Code.park p : Code σ V).netPoint, ⟨fun y fd j => ?_, _, rfl, hp⟩,
      by rw [hc]; exact .quiet⟩
    simp [Pc.holds, Task.counts, Code.atNet, hp]
  -- all other steps touch no fd, and start and end outside `net_poll_read`
  | entry hc | go hc | currentTaskId hc | sleep hc | sendDelivered hc | sendBuffered hc
  | sendEnqueued hc | recvClosed hc | recvTake hc | recvRefill hc | recvBuf hc | recvEnqueued hc
  | waitZero hc | waitJoin hc | ioSpawn _ hc | ioBlock _ hc | gopark hc | goPush _ hc
  | sleepPush hc | wakeNil hc | spawnWorker _ hc | threadSpawn hc | blocking hc | resumeSleep hc
  | resumeSend hc | resumeRecv hc | resumeWait hc | resumeGopark hc =>
    refine ⟨_, netAt_run rfl rfl, ?_⟩
    rw [hc]
    exact .quiet

/-- A worker that runs no task leaves the poller alone. -/
theorem WorkerStep.net (hs : WorkerStep P ch free sh pc e) (hpc : ∀ t, pc ≠ .run t) :
    e.sh.net = sh.net :=
  hs.framed framed_net hpc

end Steps

/-! ### The two owners of an fd

Between `EPOLL_CTL_ADD` and `EPOLL_CTL_DEL` an fd belongs to one task in the kernel, and between
`insert` and `remove` to one in the map. As the four steps come in this order, an fd can pass to
another task in the kernel while it still belongs to the first one in the map; only when the second
task's `insert` overtakes that `remove` is a record lost.
-/

/-- Who is between which steps on `fd`, when the interest set and the map are `net` and the last
    successful `EPOLL_CTL_ADD` was the one of `last fd`. -/
structure Agree (net : NetPoller) (last : RawFd → Option TaskId) (fd : RawFd)
    (n : NetPoint → TaskId → Nat) : Prop where
  added : fd ∈ net.interest → (last fd).isSome = true
  /-- The owner in the interest set is the task that added the fd last. -/
  interest : ∀ i, n .registering i + n .reading i
    = if fd ∈ net.interest ∧ last fd = some i then 1 else 0
  /-- The owner in the map is the task that the map records. -/
  waiting : ∀ i, n .reading i + n .unregistering i
    = if net.waitingFds.lookup fd = some i then 1 else 0

section Agreement

variable {net net' : NetPoller} {last : RawFd → Option TaskId} {fd : RawFd}
  {n n' : NetPoint → TaskId → Nat} {i : TaskId} {x x' : Option (NetPoint × RawFd)}

/-- A step that does not concern the fd. -/
theorem Agree.congr {last' : RawFd → Option TaskId} (h : Agree net last fd n)
    (hi : fd ∈ net'.interest ↔ fd ∈ net.interest)
    (hw : net'.waitingFds.lookup fd = net.waitingFds.lookup fd) (hl : last' fd = last fd)
    (hn : ∀ y j, n' y j = n y j) : Agree net' last' fd n' where
  added hmem := by rw [hl]; exact h.added (hi.mp hmem)
  interest j := by simp only [hn, hl, hi]; exact h.interest j
  waiting j := by simp only [hn, hw]; exact h.waiting j

/-- A count that is one for at most one task, and not zero for `i`. -/
private theorem count_of_owner {f : TaskId → Nat} {owns : TaskId → Prop} [DecidablePred owns]
    (hf : ∀ j, f j = if owns j then 1 else 0) (hu : ∀ j, owns i → owns j → i = j)
    (hpos : 0 < f i) (j : TaskId) : f j = if i = j then 1 else 0 := by
  have hi := hf i
  have hj := hf j
  by_cases hij : i = j
  · subst hij
    rw [if_pos rfl]
    split at hi <;> omega
  · have : ¬ owns j := fun h => hij (hu j (by split at hi; assumption; omega) h)
    rw [hj, if_neg this, if_neg hij]

/-- The owner of the fd in the interest set. -/
theorem Agree.of_interest (h : Agree net last fd n) (hpos : 0 < n .registering i + n .reading i)
    (j : TaskId) : n .registering j + n .reading j = if i = j then 1 else 0 :=
  count_of_owner h.interest (fun _ hi hj => Option.some.inj (hi.2.symm.trans hj.2)) hpos j

/-- The owner of the fd in the map. -/
theorem Agree.of_waiting (h : Agree net last fd n) (hpos : 0 < n .reading i + n .unregistering i)
    (j : TaskId) : n .reading j + n .unregistering j = if i = j then 1 else 0 :=
  count_of_owner h.waiting (fun _ hi hj => Option.some.inj (hi.symm.trans hj)) hpos j

/-- `EPOLL_CTL_ADD` succeeds: the fd was in no interest set, so it had no owner there, and the task
    becomes its owner. -/
theorem Agree.add (h : Agree net last fd n) (hfd : fd ∉ net.interest)
    (hreg : ∀ j, n' .registering j = n .registering j + if i = j then 1 else 0)
    (hread : ∀ j, n' .reading j = n .reading j)
    (hun : ∀ j, n' .unregistering j = n .unregistering j) :
    Agree { net with interest := net.interest ++ [fd] } (Function.update last fd (some i))
      fd n' := by
  refine ⟨fun _ => by simp, fun j => ?_, fun j => ?_⟩
  · have hset := h.interest j
    rw [if_neg fun hm => hfd hm.1] at hset
    have := hreg j
    have := hread j
    simp only [Function.update_self, List.mem_append, List.mem_singleton, or_true, true_and,
      Option.some.injEq]
    omega
  · rw [hread, hun]
    exact h.waiting j

/-- The task records itself in the map.  Nobody else reads from the fd, since the task owns it in
    the interest set, and nobody is unregistering it. -/
theorem Agree.insert (h : Agree net last fd n) (hpos : 0 < n .registering i)
    (hfree : ∀ j, n .unregistering j = 0)
    (hreg : ∀ j, n' .registering j + (if i = j then 1 else 0) = n .registering j)
    (hread : ∀ j, n' .reading j = n .reading j + if i = j then 1 else 0)
    (hun : ∀ j, n' .unregistering j = n .unregistering j) :
    Agree (net.insert fd i) last fd n' := by
  have hown := h.of_interest (i := i) (by omega)
  refine ⟨h.added, fun j => ?_, fun j => ?_⟩
  · have hset := h.interest j
    have := hreg j
    have := hread j
    show _ = if fd ∈ net.interest ∧ last fd = some j then 1 else 0
    omega
  · have := hown i
    have := hown j
    have := hread j
    have := hun j
    have := hfree j
    simp only [NetPoller.insert, AList.lookup_insert, Option.some.injEq]
    by_cases hij : i = j
    · subst hij
      simp only [if_true] at *
      omega
    · simp only [hij, if_false] at *
      omega

/-- `EPOLL_CTL_DEL`: the task gives up the fd in the interest set, and keeps it in the map. -/
theorem Agree.del (h : Agree net last fd n) (hpos : 0 < n .reading i)
    (hreg : ∀ j, n' .registering j = n .registering j)
    (hread : ∀ j, n' .reading j + (if i = j then 1 else 0) = n .reading j)
    (hun : ∀ j, n' .unregistering j = n .unregistering j + if i = j then 1 else 0) :
    Agree (net.epollCtlDel fd) last fd n' := by
  have hown := h.of_interest (i := i) (by omega)
  have hgone : ¬ fd ∈ (net.epollCtlDel fd).interest := by simp [NetPoller.epollCtlDel]
  refine ⟨fun hm => absurd hm hgone, fun j => ?_, fun j => ?_⟩
  · have := hown j
    have := hreg j
    have := hread j
    rw [if_neg fun hm => hgone hm.1]
    omega
  · have hmap := h.waiting j
    have := hread j
    have := hun j
    show _ = if net.waitingFds.lookup fd = some j then 1 else 0
    omega

/-- The task takes itself out of the map. -/
theorem Agree.remove (h : Agree net last fd n) (hpos : 0 < n .unregistering i)
    (hreg : ∀ j, n' .registering j = n .registering j)
    (hread : ∀ j, n' .reading j = n .reading j)
    (hun : ∀ j, n' .unregistering j + (if i = j then 1 else 0) = n .unregistering j) :
    Agree (net.remove fd) last fd n' := by
  have hown := h.of_waiting (i := i) (by omega)
  refine ⟨h.added, fun j => ?_, fun j => ?_⟩
  · rw [hreg, hread]
    exact h.interest j
  · have := hown j
    have := hread j
    have := hun j
    simp only [NetPoller.remove, AList.lookup_erase, reduceCtorEq, if_false]
    omega

/-- **A step of a task keeps the owners of an fd**, if it records nothing for the fd while another
    task is unregistering it. -/
theorem Agree.step (h : Agree net last fd n) (hs : NetStep i net x net' x')
    (hn : ∀ y j, n' y j + (if i = j ∧ x = some (y, fd) then 1 else 0)
      = n y j + if i = j ∧ x' = some (y, fd) then 1 else 0)
    (hpos : ∀ y, x = some (y, fd) → 0 < n y i)
    (hfree : x = some (.registering, fd) → ∀ j, n .unregistering j = 0) :
    Agree net' (noteAdd i last x x') fd n' := by
  have hother : (∀ y, x ≠ some (y, fd)) → (∀ y, x' ≠ some (y, fd)) → ∀ y j, n' y j = n y j := by
    intro hx hx' y j
    have := hn y j
    simpa [hx y, hx' y] using this
  have hreg := hn .registering
  have hread := hn .reading
  have hun := hn .unregistering
  cases hs with
  | quiet =>
    rw [noteAdd_self]
    exact h.congr Iff.rfl rfl rfl fun y j => by have := hn y j; omega
  | @add fd' hfd =>
    by_cases heq : fd' = fd
    · subst heq
      exact h.add hfd (fun j => by simpa using hreg j) (fun j => by simpa using hread j)
        fun j => by simpa using hun j
    · exact h.congr (by simp [Ne.symm heq]) rfl (Function.update_of_ne (Ne.symm heq) _ _)
        (hother (by simp) (by simp [heq]))
  | @insert fd' =>
    by_cases heq : fd' = fd
    · subst heq
      exact h.insert (hpos _ rfl) (hfree rfl) (fun j => by simpa using hreg j)
        (fun j => by simpa using hread j) fun j => by simpa using hun j
    · exact h.congr Iff.rfl (AList.lookup_insert_ne (Ne.symm heq)) rfl
        (hother (by simp [heq]) (by simp [heq]))
  | @del fd' =>
    by_cases heq : fd' = fd
    · subst heq
      exact h.del (hpos _ rfl) (fun j => by simpa using hreg j) (fun j => by simpa using hread j)
        fun j => by simpa using hun j
    · exact h.congr (by simp [NetPoller.epollCtlDel, Ne.symm heq]) rfl rfl
        (hother (by simp [heq]) (by simp [heq]))
  | @remove fd' =>
    by_cases heq : fd' = fd
    · subst heq
      exact h.remove (hpos _ rfl) (fun j => by simpa using hreg j) (fun j => by simpa using hread j)
        fun j => by simpa using hun j
    · exact h.congr Iff.rfl (AList.lookup_erase_ne (Ne.symm heq)) rfl
        (hother (by simp [heq]) (by simp))

end Agreement

/-! ### Runs

What the two owners are is seen from the codes of the tasks, wherever they are; each of the four
steps then changes one owner of one fd. A failing `EPOLL_CTL_ADD` changes nothing, since the task
panics.
-/

section Runs

variable {P : Program σ V} {p : State σ V × (RawFd → Option TaskId)}

/-- Tasks that run or are about to park stand on a worker. -/
theorem codes_atNet_eq_zero {s : State σ V} (hsh : s.Shaped) {fd : RawFd} {y : NetPoint}
    (hy : y ≠ .reading) (h : ∀ pc ∈ s.workers, pc.atNet y fd = false) (i : TaskId) :
    s.codes (Code.atNet y fd) i = 0 := by
  -- a task in the queue is at its entry, in its closure, or parked
  have hres : ∀ c : Code σ V, c.resumable = true → c.atNet y fd = false := by
    intro c hc
    cases c with
    | parked p =>
      cases p <;> simp [Code.atNet, Code.netPoint]
      intro h
      exact absurd h.symm hy
    | entry | user => rfl
    | _ => cases hc
  have hpark : ∀ c : Code σ V, c.isParked = true → c.atNet y fd = false :=
    fun c hc => hres c (Code.resumable_of_isParked hc)
  unfold State.codes GlobalQueue.held State.total
  rw [Slots.sum_map_eq_zero fun t ht => counts_eq_zero (hres _ (hsh.queue.runnable t ht).2),
    Slots.sum_map_eq_zero fun pc hpc => ?_]
  · cases hl : s.sh.queue.waiting.lookup i with
    | none => rfl
    | some t =>
      simp [counts_eq_zero (hpark _ (hsh.queue.waiting i t hl).2.2)]
  · have hshape := hsh.workers pc hpc
    cases pc with
    | run t => exact counts_eq_zero (h _ hpc)
    | switched t =>
      rcases hshape with hd | ⟨-, hc⟩ | ⟨-, hc⟩
      · exact if_pos hd
      · simp [Pc.holds, counts_eq_zero (hpark _ hc)]
      · simp [Pc.holds, counts_eq_zero (hres _ (Code.resumable_of_isUser hc))]
    | _ => rfl

variable {s s' : State σ V} {w : Nat} {ch : Choice} {free : Bool} {pc pc' : Pc σ V}
  {e : Effect σ V} {t u : Task σ V} {last : RawFd → Option TaskId} {fd : RawFd}

/-- A task that records itself for the fd does so while nobody unregisters the fd. -/
theorem Orderly.none_unregisters (h : Orderly (.worker w ch) s) (hw : s.workers[w]? = some (.run t))
    (hc : t.code.netPoint = some (.registering, fd)) :
    ∀ pc ∈ s.workers, pc.atNet .unregistering fd = false := by
  obtain ⟨k, hk⟩ : ∃ k, t.code = .registerRead fd k := by
    generalize t.code = c at hc
    cases c with
    | registerRead fd' k => cases hc; exact ⟨k, rfl⟩
    | park p => cases p <;> cases hc
    | parked p => cases p <;> cases hc
    | _ => cases hc
  unfold Orderly overtakes? at h
  simpa [hw, hk] using h

/-- What is seen of the step of a task. -/
theorem seeAdd_run (hw : s.workers[w]? = some (.run t)) (hw' : s'.workers[w]? = some pc')
    (hu : pc'.task? = some u) :
    seeAdd (.worker w ch) s s' last = noteAdd t.id last t.code.netPoint u.code.netPoint := by
  simp only [seeAdd, hw, hw', Option.bind_some, hu]
  rfl

/-- A worker that runs no task is not seen to add an fd. -/
theorem seeAdd_other (hw : s.workers[w]? = some pc) (hpc : ∀ t, pc ≠ .run t)
    (hs : WorkerStep P ch free s.sh pc e) (hmove : WorkerMove s s' w pc e) :
    seeAdd (.worker w ch) s s' last = last := by
  unfold seeAdd
  cases pc with
  | run t => exact absurd rfl (hpc t)
  | switched t =>
    have htop : e.pc = .top := by
      cases hs <;> rfl
    simp [hw, hmove.at_ (by simp [htop]), htop, Pc.task?]
  | _ => simp [hw, Pc.task?]

/-- **The owners of each fd**, in every state reached by a run in which no task records itself for
    an fd that another one is unregistering. -/
theorem reach_agree (hr : ((runtime P).observe seeAdd fun _ => none).Reach
      (fun a p => Orderly a p.1) p) :
    Agree p.1.sh.net p.2 fd fun y i => p.1.codes (Code.atNet y fd) i := by
  refine hr.invariant
    -- the owners are counted over all tasks that have not finished, wherever they are
    (I := fun p => Agree p.1.sh.net p.2 fd fun y i => p.1.codes (Code.atNet y fd) i) ?_ ?_
  · rintro ⟨s, last⟩ ⟨⟨caps, groups, calls, rfl⟩, rfl⟩
    constructor <;> simp [State.initial, State.codes, State.total, GlobalQueue.held,
      GlobalQueue.new, NetPoller.new]
  · intro p p' a hr h hok hn
    obtain ⟨hn, hsee⟩ := System.observe_next hn
    have hr := System.observe_reach hr
    have hsh := reach_shaped hr
    obtain ⟨-, hnext⟩ := next_inv hn
    rw [hsee]
    by_cases ha : ∃ w ch, a = .worker w ch
    · obtain ⟨w, ch, rfl⟩ := ha
      obtain ⟨pc, e, hw, hs, hmove⟩ := hnext.worker_move
      rcases hs.task_or with ⟨t, rfl, htask⟩ | hpc
      · have hmem := List.mem_of_getElem? hw
        have hcodes := fun y i => codes_run (p := Code.atNet y fd) (i := i) hsh (fun _ => rfl) hs
          hmove
        obtain ⟨x, ⟨hx, u, hu, hux⟩, hnet⟩ := htask.net (hsh.workers _ hmem)
        have hb : e.pc ≠ .blocked := by
          rintro hb
          rw [hb] at hu
          cases hu
        rw [seeAdd_run hw (hmove.at_ hb) hu, hux, hmove.sh]
        have hcount : ∀ y j, t.counts (Code.atNet y fd) j
            = if t.id = j ∧ t.code.netPoint = some (y, fd) then 1 else 0 :=
          fun y j => if_congr (and_congr_right' decide_eq_true_iff) rfl rfl
        refine h.step hnet (fun y j => ?_) (fun y hy => ?_) (fun hreg j => ?_)
        · rw [← hcount, ← hx]
          exact hcodes y j
        · -- the task itself is counted where it stands
          have := hcodes y t.id
          have := hmove.total _ (silent_holds (Code.atNet y fd) t.id)
          have h1 := Slots.le_sum_map (Pc.holds (Code.atNet y fd) t.id) hw
          have h2 := hcount y t.id
          rw [if_pos ⟨rfl, hy⟩] at h2
          unfold State.codes State.total
          simp only [Pc.holds] at h1
          omega
        · exact codes_atNet_eq_zero hsh (by simp) (Orderly.none_unregisters hok hw hreg) j
      · -- no task moves, and the poller stays as it is
        have hother := fun y i => codes_other (p := Code.atNet y fd) (i := i) hsh (reach_placed hr)
          hw hpc hs hmove
        rw [seeAdd_other hw hpc hs hmove]
        have hnet := hs.net hpc
        rw [← hmove.sh] at hnet
        exact h.congr (by rw [hnet]) (by rw [hnet]) rfl hother
    · rcases hnext.cases with ⟨w, ch, -, -, hact, -⟩ | ⟨ho, hmove⟩
      · exact absurd ⟨w, ch, hact⟩ ha
      · have hnet : p'.1.sh.net = p.1.sh.net := by
          cases ho with
          | go hsh => rw [hsh]
          | push hsh => rw [hsh]; rfl
          | same hsh => exact hsh.net
        have hlast : seeAdd a p.1 p'.1 p.2 = p.2 := by
          cases a with
          | worker w ch => exact absurd ⟨w, ch, rfl⟩ ha
          | _ => rfl
        rw [hlast]
        exact h.congr (by rw [hnet]) (by rw [hnet]) rfl
          fun y i => codes_outer (fun _ => rfl) ho hmove

/-- **The interest set and `waiting_fds` agree.**  In every state reached by a run in which no task
    records itself for an fd that another one is unregistering: an fd on which no `register_read` and
    no `unregister` is in progress is in the interest set exactly when `waiting_fds` has it, and the
    task recorded there is the one whose `EPOLL_CTL_ADD` succeeded last. -/
theorem interest_agrees (hr : ((runtime P).observe seeAdd fun _ => none).Reach
      (fun a p => Orderly a p.1) p)
    (hidle : ∀ pc ∈ p.1.workers,
      pc.atNet .registering fd = false ∧ pc.atNet .unregistering fd = false) :
    (fd ∈ p.1.sh.net.interest ↔ fd ∈ p.1.sh.net.waitingFds) ∧
      ∀ i, p.1.sh.net.waitingFds.lookup fd = some i → p.2 fd = some i := by
  have h : Agree p.1.sh.net p.2 fd _ := reach_agree hr
  have hsh := reach_shaped (System.observe_reach hr)
  -- both owners are the task that reads from the fd
  have howner : ∀ i, (fd ∈ p.1.sh.net.interest ∧ p.2 fd = some i) ↔
      p.1.sh.net.waitingFds.lookup fd = some i := by
    intro i
    have h1 := h.interest i
    have h2 := h.waiting i
    have h3 := codes_atNet_eq_zero hsh (by simp) (fun pc hpc => (hidle pc hpc).1) i
    have h4 := codes_atNet_eq_zero hsh (by simp) (fun pc hpc => (hidle pc hpc).2) i
    simp only [h3, h4, Nat.zero_add, Nat.add_zero] at h1 h2
    rw [h1] at h2
    constructor <;> intro hi <;> by_contra hne <;> simp [hi, hne] at h2
  refine ⟨⟨fun hmem => ?_, fun hmem => ?_⟩, fun i hi => ((howner i).mpr hi).2⟩
  · obtain ⟨i, hi⟩ := Option.isSome_iff_exists.mp (h.added hmem)
    have hl := (howner i).mp ⟨hmem, hi⟩
    exact AList.lookup_isSome.mp (by rw [hl]; rfl)
  · obtain ⟨i, hi⟩ := Option.isSome_iff_exists.mp (AList.lookup_isSome.mpr hmem)
    exact ((howner i).mpr hi).1

end Runs

/-! ### Two readers of one fd

Both runs start where task 0 is about to give its fd up and task 1 is about to register it. They
differ in the order of the steps from there.
-/

/-- Task 0 has waited for the fd 5 and been reported, and is about to unregister; task 1 is about
    to register the same fd. -/
def twoReaders : List Act :=
  List.replicate 8 (Act.main {}) ++ List.replicate 7 (Act.worker 0 {}) ++
    List.replicate 3 (Act.worker 1 {}) ++ List.replicate 6 (Act.worker 0 {}) ++
    [Act.setReadable 5 true, Act.worker 0 { events := [5] }] ++ List.replicate 7 (Act.worker 0 {})

/-- Task 0 unregisters before task 1 registers. -/
theorem interest_agrees_readers :
    ∃ p, (((runtime readProgram).observe seeAdd fun _ => none).guard
          fun a p => !overtakes? a p.1).run
        (twoReaders ++ List.replicate 2 (Act.worker 0 {}) ++ List.replicate 2 (Act.worker 1 {}))
        (State.initial [] 0 [.go true, .go true, .startRuntime 2], fun _ => none) = some p ∧
      p.1.sh.net.waitingFds.lookup 5 = some 1 ∧ p.2 5 = some 1 ∧
      (5 ∈ p.1.sh.net.interest ↔ 5 ∈ p.1.sh.net.waitingFds) := by
  have h : ((((runtime readProgram).observe seeAdd fun _ => none).guard
        fun a p => !overtakes? a p.1).run
      (twoReaders ++ List.replicate 2 (Act.worker 0 {}) ++ List.replicate 2 (Act.worker 1 {}))
      (State.initial [] 0 [.go true, .go true, .startRuntime 2], fun _ => none)).map
        (fun p => (p.1.sh.net.waitingFds.lookup 5, p.1.workers.all fun pc =>
          !pc.atNet .registering 5 && !pc.atNet .unregistering 5)) = some (some 1, true) := by rfl
  obtain ⟨p, hp, hst⟩ := Option.map_eq_some_iff.mp h
  obtain ⟨hl, hidle⟩ := Prod.mk.inj hst
  have hr : ((runtime readProgram).observe seeAdd fun _ => none).Reach
      (fun a p => Orderly a p.1) p :=
    System.run_guard_reach (fun a p h => by simpa [Orderly] using h) ⟨⟨[], 0, _, rfl⟩, rfl⟩ hp
  have hag : (5 ∈ p.1.sh.net.interest ↔ 5 ∈ p.1.sh.net.waitingFds) ∧
      ∀ i, p.1.sh.net.waitingFds.lookup 5 = some i → p.2 5 = some i :=
    interest_agrees hr (by simpa using hidle)
  exact ⟨p, hp, hl, hag.2 1 hl, hag.1⟩

/-- **A record erased by the task that had the fd before.**  Task 1 registers the fd between the
    `EPOLL_CTL_DEL` of task 0 and its `remove`, which takes the record of task 1 out of the map: the
    fd stays in the interest set, and no poll will report task 1. -/
theorem interest_handover :
    ∃ s, (runtime readProgram).Reachable s ∧
      (∀ pc ∈ s.workers, ∀ fd, pc.atNet .registering fd = false ∧
        pc.atNet .unregistering fd = false) ∧
      s.sh.aborted = none ∧ s.sh.net.interest = [5] ∧ 5 ∉ s.sh.net.waitingFds ∧
      ∃ t, Pc.run t ∈ s.workers ∧ t.id = 1 ∧ t.code.atNet .reading 5 = true := by
  have h : ((runtime readProgram).run
      (twoReaders ++ [Act.worker 0 {}] ++ List.replicate 2 (Act.worker 1 {}) ++ [Act.worker 0 {}])
      (State.initial [] 0 [.go true, .go true, .startRuntime 2])).map
        (fun s => (s.workers, s.sh.aborted, s.sh.net.interest, s.sh.net.waitingFds.keys))
      = some ([.run { id := 0, code := .user false, state := .running },
          .run { id := 1, code := .park (.netPollRead 5 false), state := .running }],
        none, [5], []) := by rfl
  obtain ⟨s, hs, hst⟩ := Option.map_eq_some_iff.mp h
  obtain ⟨hw, hst⟩ := Prod.mk.inj hst
  obtain ⟨ha, hst⟩ := Prod.mk.inj hst
  obtain ⟨hi, hk⟩ := Prod.mk.inj hst
  refine ⟨s, System.run_reachable (M := runtime readProgram) ⟨[], 0, _, rfl⟩ hs, ?_, ha, hi, ?_,
    _, by rw [hw]; exact List.mem_cons_of_mem _ List.mem_cons_self, rfl, rfl⟩
  · intro pc hpc fd
    rw [hw] at hpc
    simp only [List.mem_cons, List.not_mem_nil, or_false] at hpc
    rcases hpc with rfl | rfl <;> simp [Pc.atNet, Code.atNet, Code.netPoint]
  · rw [AList.mem_keys, hk]
    simp

end MyGoroutine
