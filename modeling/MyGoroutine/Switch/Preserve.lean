import MyGoroutine.Lib.History
import MyGoroutine.Model.Switch

namespace MyGoroutine.Switch

/-!
# Context switching preserves the state of every party

Whoever has been switched out is found again by the next switch to him: his context, wherever the
`Task` value has been moved, holds the registers of his last switch out, and where they are not
enough, his own stack holds the rest.  Nobody else writes to either.

* `lastOut`, `lastWorker` — what the events so far say of a party: where it was when it was last
  switched out (a fresh task: at its entry point), and which worker has last resumed it;
* `State.Parked`, `Inv` — a party that does not run can go on with the context that is kept for it;
* `Inv.work`, `Inv.go`, … — every step keeps this;
* `reach_lawful` — so each switch goes on where its target was switched out last.
-/

variable {P : Platform} {n : Nat}

/-- Where the event leaves the party `p`: with the registers it expects back, and at the address
    where it goes on.  A fresh task has been left at its entry point. -/
def Event.out? (p : Party n) : Event P n → Option ((P.F → Word) × Word)
  | .created id stack entry closurePtr =>
    if p = .task id then some (P.entryFile (prepareStack stack) entry closurePtr, entry) else none
  | .switched _ old out ret _ _ _ => if p = old then some (out, ret) else none

/-- The worker on which the event resumes the task `id`. -/
def Event.worker? (id : TaskId) : Event P n → Option (Fin n)
  | .created _ _ _ _ => none
  | .switched w _ _ _ new _ _ => if new = .task id then some w else none

/-- Where the party `p` was when it was last switched out. -/
def lastOut (p : Party n) (l : List (Event P n)) : Option ((P.F → Word) × Word) :=
  (l.filterMap (Event.out? p)).getLast?

/-- The worker that has last resumed the task `id`. -/
def lastWorker (id : TaskId) (l : List (Event P n)) : Option (Fin n) :=
  (l.filterMap (Event.worker? id)).getLast?

section Log

variable {p : Party n} {id : TaskId} {l : List (Event P n)} {e : Event P n}

/-- Only a switch away from `p` changes what `p` has left with last. -/
theorem lastOut_concat_of_none (h : e.out? p = none) : lastOut p (l ++ [e]) = lastOut p l := by
  simp [lastOut, List.filterMap_append, h]

/-- After a switch away from `p`, what `p` has left with last is what the switch has found. -/
theorem lastOut_concat_of_some {o : (P.F → Word) × Word} (h : e.out? p = some o) :
    lastOut p (l ++ [e]) = some o := by
  simp [lastOut, List.filterMap_append, h]

/-- Only a switch to the task changes the worker that has run it last. -/
theorem lastWorker_concat_of_none (h : e.worker? id = none) :
    lastWorker id (l ++ [e]) = lastWorker id l := by
  simp [lastWorker, List.filterMap_append, h]

/-- After a switch to the task, the worker that has run it last is the worker of the switch. -/
theorem lastWorker_concat_of_some {w : Fin n} (h : e.worker? id = some w) :
    lastWorker id (l ++ [e]) = some w := by
  simp [lastWorker, List.filterMap_append, h]

/-! A switch is about the party that is left, and resumes another one. -/

variable {w : Fin n} {old new : Party n} {out file : P.F → Word} {ret pc : Word}

/-- A switch away from somebody else changes nothing for `p`. -/
theorem lastOut_switched_ne (h : p ≠ old) :
    lastOut p (l ++ [.switched w old out ret new file pc]) = lastOut p l :=
  lastOut_concat_of_none (if_neg h)

/-- A switch to somebody else changes nothing for the task. -/
theorem lastWorker_switched_ne (h : new ≠ .task id) :
    lastWorker id (l ++ [.switched w old out ret new file pc]) = lastWorker id l :=
  lastWorker_concat_of_none (if_neg h)

end Log

/-- What the events before say of the next one: a task is created once; a switch goes on where its
    target was switched out last; and a task is switched out to the scheduler of the worker that has
    resumed it. -/
def Lawful (before : List (Event P n)) : Event P n → Prop
  | .created id stack _ _ => lastOut (.task id) before = none ∧ stack.toNat + stackSize < 2 ^ 64
  | .switched w old _ _ new file pc =>
    lastOut new before = some (file, pc) ∧
      ((old = .scheduler w ∧ ∃ id, new = .task id) ∨
        ∃ id, old = .task id ∧ new = .scheduler w ∧ lastWorker id before = some w)

/-- The party `p`, whose stack is `own`, can go on with the context `c`. -/
def State.Parked (s : State P n) (p : Party n) (c : P.F → Word) (own : Region) : Prop :=
  ∃ v pc, lastOut p s.log = some (v, pc) ∧ P.Resumes s.mem c v pc ∧ (P.footprint v).Subset own

section Steps

variable {L : Layout P n} {s s' : State P n} {w : Fin n} {id : TaskId} {t : Task P n}
  {p : Party n} {c : P.F → Word} {own : Region}

/-- The context of a task that does not run. -/
def State.context? (L : Layout P n) (s : State P n) (t : Task P n) : Option (P.F → Word) :=
  match t.place with
  | .queued c => some c
  | .slot w => if s.onTask w then none else some (P.readContext s.mem (L.slot w))

/-- What holds in every state: the blocks are apart, and whoever does not run finds its registers
    and its stack as it left them. -/
structure Inv (L : Layout P n) (s : State P n) : Prop where
  /-- A slot and the task in it know of each other. -/
  slot : ∀ w id, s.slot w = some id ↔ ∃ stack, s.tasks id = some ⟨stack, .slot w⟩
  /-- A thread that runs a task has one. -/
  running : ∀ w, s.onTask w = true → ∃ id, s.slot w = some id
  /-- Ids are given out in order. -/
  below : ∀ id t, s.tasks id = some t → id < s.nextId
  /-- The blocks of two tasks are apart, -/
  apart : ∀ id id' t t', id ≠ id' → s.tasks id = some t → s.tasks id' = some t' →
    t.block.Disjoint t'.block
  /-- and apart from what the workers have. -/
  fixed : ∀ id t w, s.tasks id = some t → ∀ r ∈ L.regions w, t.block.Disjoint r
  /-- A task that does not run is as it switched out, or as it was created. -/
  task : ∀ id t c, s.tasks id = some t → s.context? L t = some c → s.Parked (.task id) c t.block
  /-- A scheduler that does not run is as it switched out. -/
  scheduler : ∀ w, s.onTask w = true →
    s.Parked (.scheduler w) (P.readContext s.mem (L.context w)) (L.stack w)
  /-- A running task was entered on the worker it runs on. -/
  worker : ∀ w id, s.onTask w = true → s.slot w = some id → lastWorker id s.log = some w
  /-- A task without an id has never switched out. -/
  unborn : ∀ id, s.nextId ≤ id → lastOut (.task id) s.log = none

/-- A party stays parked while its stack and the events about it stay the same. -/
theorem State.Parked.congr (h : s.Parked p c own) (s' : State P n) (hm : ∀ x ∈ own, s.mem x = s'.mem x)
    (hl : lastOut p s'.log = lastOut p s.log) : s'.Parked p c own := by
  obtain ⟨v, pc, hout, hres, hsub⟩ := h
  exact ⟨v, pc, hl.trans hout, hres.congr _ fun x hx => hm x (hsub x hx), hsub⟩

/-- The new value is at its place. -/
@[simp] theorem set_self {ι β : Type} [DecidableEq ι] (f : ι → β) (i : ι) (b : β) : set f i b i = b :=
  if_pos rfl

/-- The other values stay. -/
theorem set_ne {ι β : Type} [DecidableEq ι] {f : ι → β} {i j : ι} {b : β} (h : j ≠ i) :
    set f i b j = f j :=
  if_neg h

/-- An entry of a table with one entry replaced. -/
theorem set_some_inv {ι β : Type} [DecidableEq ι] {f : ι → Option β} {i j : ι} {a b : β}
    (h : set f i (some b) j = some a) : (j = i ∧ a = b) ∨ (j ≠ i ∧ f j = some a) := by
  by_cases hj : j = i
  · subst j
    exact .inl ⟨rfl, (Option.some.inj ((set_self _ _ _).symm.trans h)).symm⟩
  · exact .inr ⟨hj, (set_ne hj).symm.trans h⟩

/-! ### What keeps a party parked

A parked party is one that can go on: its context holds the registers it left with, and its stack is
as it was. Both are regions of memory, so whatever keeps clear of them keeps the party parked, and
so do events about other parties.
-/

/-- A scheduler stays parked while nobody writes to its context and its stack. -/
theorem Inv.parked_scheduler (hi : Inv L s) (hon : s.onTask w = true) (s' : State P n)
    (hcontext : ∀ x ∈ P.contextAt (L.context w), s.mem x = s'.mem x)
    (hstack : ∀ x ∈ L.stack w, s.mem x = s'.mem x)
    (hl : lastOut (.scheduler w) s'.log = lastOut (.scheduler w) s.log) :
    s'.Parked (.scheduler w) (P.readContext s'.mem (L.context w)) (L.stack w) := by
  rw [← Arch.readContext_congr hcontext]
  exact (hi.scheduler w hon).congr s' hstack hl

/-- A task that stays where it is remains parked while nobody writes to its block, nor to the slot
    that its context is in. -/
theorem Inv.parked_task (hi : Inv L s) (ht : s.tasks id = some t) (s' : State P n)
    (hc : s'.context? L t = some c)
    (hslot : ∀ w, t.place = .slot w → s'.onTask w = false →
      s.onTask w = false ∧ ∀ x ∈ P.contextAt (L.slot w), s.mem x = s'.mem x)
    (hblock : ∀ x ∈ t.block, s.mem x = s'.mem x)
    (hl : lastOut (.task id) s'.log = lastOut (.task id) s.log) :
    s'.Parked (.task id) c t.block := by
  refine (hi.task id t c ht ?_).congr s' hblock hl
  obtain ⟨stack, place⟩ := t
  cases place with
  | queued c' => exact hc
  | slot w =>
    simp only [State.context?] at hc ⊢
    split at hc
    · cases hc
    · next hoff =>
      obtain ⟨hon, hmem⟩ := hslot w rfl (Bool.not_eq_true _ ▸ hoff)
      rw [hon, Arch.readContext_congr hmem]
      exact hc

/-! ### The layout

The layout is a list of pairwise disjoint regions. The proofs never look at addresses: they only ask
which two regions are apart, and these lemmas say so for each kind of region.
-/

/-- The scheduler context of a worker is one of its regions. -/
theorem Layout.context_mem (L : Layout P n) (w : Fin n) : P.contextAt (L.context w) ∈ L.regions w := by
  simp [Layout.regions]

/-- The task slot of a worker is one of its regions. -/
theorem Layout.slot_mem (L : Layout P n) (w : Fin n) : P.contextAt (L.slot w) ∈ L.regions w := by
  simp [Layout.regions]

/-- The stack of a worker is one of its regions. -/
theorem Layout.stack_mem (L : Layout P n) (w : Fin n) : L.stack w ∈ L.regions w := by
  simp [Layout.regions]

/-- What different workers have is in different places. -/
theorem Layout.disjoint {w' : Fin n} (h : w ≠ w') {r r' : Region} (hr : r ∈ L.regions w)
    (hr' : r' ∈ L.regions w') : r.Disjoint r' :=
  Region.disjoint_of_apart (L.workers w w' h r hr r' hr')

/-- No scheduler context overlaps a task slot, of whatever worker. -/
theorem Layout.context_slot_disjoint (L : Layout P n) (w w' : Fin n) :
    (P.contextAt (L.context w)).Disjoint (P.contextAt (L.slot w')) := by
  by_cases h : w = w'
  · subst w'
    exact Region.disjoint_of_apart (L.context_slot w)
  · exact L.disjoint h (L.context_mem w) (L.slot_mem w')

/-- No worker's stack overlaps a task slot. -/
theorem Layout.stack_slot_disjoint (L : Layout P n) (w w' : Fin n) :
    (L.stack w).Disjoint (P.contextAt (L.slot w')) := by
  by_cases h : w = w'
  · subst w'
    exact (Region.disjoint_of_apart (L.slot_stack w)).symm
  · exact L.disjoint h (L.stack_mem w) (L.slot_mem w')

/-- The task in a slot has its context there. -/
theorem Inv.place_eq (hi : Inv L s) (h : s.slot w = some id) (ht : s.tasks id = some t) :
    t.place = .slot w := by
  obtain ⟨stack, ht'⟩ := (hi.slot w id).mp h
  obtain rfl := Option.some.inj (ht'.symm.trans ht)
  rfl

/-- A task that is placed in a slot is the task of this slot. -/
theorem Inv.slot_of_place (hi : Inv L s) (ht : s.tasks id = some t) (hp : t.place = .slot w) :
    s.slot w = some id := by
  obtain ⟨stack, place⟩ := t
  obtain rfl : place = .slot w := hp
  exact (hi.slot w id).mpr ⟨stack, ht⟩

/-- A task is in one slot at most. -/
theorem Inv.slot_unique (hi : Inv L s) {w' : Fin n} (h : s.slot w = some id)
    (h' : s.slot w' = some id) : w = w' := by
  obtain ⟨stack, ht⟩ := (hi.slot w id).mp h
  exact Place.slot.inj (hi.place_eq h' ht)

/-- A worker that runs a task is not the one whose scheduler acts. -/
theorem ne_of_onTask {w' : Fin n} (hon : s.onTask w = false) (hw' : s.onTask w' = true) : w' ≠ w := by
  rintro rfl
  rw [hon] at hw'
  cases hw'

/-- A worker that still runs a task is not the one whose task is switched out. -/
theorem ne_of_onTask_switched {w' : Fin n} (hon : s.onTask w = true)
    (hw' : set s.onTask w (!s.onTask w) w' = true) : w' ≠ w := by
  rintro rfl
  rw [set_self, hon] at hw'
  cases hw'

/-- The slots after the task `id` has left its own. -/
theorem Inv.slot_removed (hi : Inv L s) (hslot : s.slot w = some id)
    {tasks : TaskId → Option (Task P n)} (hid : ∀ w' stack, tasks id ≠ some ⟨stack, .slot w'⟩)
    (hne : ∀ i, i ≠ id → tasks i = s.tasks i) (w' : Fin n) (i : TaskId) :
    set s.slot w none w' = some i ↔ ∃ stack, tasks i = some ⟨stack, .slot w'⟩ := by
  refine ⟨fun h => ?_, fun ⟨stack, h⟩ => ?_⟩
  · have hww : w' ≠ w := by
      rintro rfl
      rw [set_self] at h
      cases h
    rw [set_ne hww] at h
    have hi' : i ≠ id := fun heq => hww (hi.slot_unique (heq ▸ h) hslot)
    obtain ⟨stack, hst⟩ := (hi.slot w' i).mp h
    exact ⟨stack, (hne i hi').trans hst⟩
  · have hi' : i ≠ id := fun heq => hid w' stack (heq ▸ h)
    have hs := (hi.slot w' i).mpr ⟨stack, (hne i hi').symm.trans h⟩
    have hww : w' ≠ w := by
      rintro rfl
      exact hi' (Option.some.inj (hs.symm.trans hslot))
    exact (set_ne hww).trans hs

/-! ### The running party works

A party that runs may write wherever no other party keeps anything. What it must not touch is the
union of the other parties' regions, so each of its writes is outside all of them.
-/

/-- Writes elsewhere leave a byte as it was. -/
theorem writeBytes_of_forall {m : Mem} {writes : List (Word × BitVec 8)} {x : Word}
    (h : ∀ q ∈ writes, q.1 ≠ x) : writeBytes m writes x = m x := by
  induction writes generalizing m with
  | nil => rfl
  | cons q writes ih =>
    have hq : x ≠ q.1 := Ne.symm (h q List.mem_cons_self)
    have := ih (m := fun y => if y = q.1 then q.2 else m y) fun r hr => h r (List.mem_cons_of_mem q hr)
    exact this.trans (if_neg hq)

/-- For a worker the regions of all others are foreign. -/
theorem mem_foreign_worker {w' : Fin n} (h : w' ≠ w) {r : Region} (hr : r ∈ L.regions w') :
    r ∈ s.foreign L w := by
  refine List.mem_append_left _ (List.mem_append_left _ (List.mem_flatMap.mpr ⟨w', ?_, hr⟩))
  simp [h]

/-- What is foreign to the running task is foreign to its worker. -/
theorem mem_foreign_own {r : Region} (hr : r ∈ s.ownForeign L w) : r ∈ s.foreign L w :=
  List.mem_append_left _ (List.mem_append_right _ hr)

/-- The block of a task is among the blocks, unless its task is skipped. -/
theorem mem_blocks {skip : TaskId → Bool} (ht : s.tasks id = some t) (hid : id < s.nextId)
    (hskip : skip id = false) : t.block ∈ s.blocks skip := by
  refine List.mem_flatMap.mpr ⟨id, List.mem_range.mpr hid, ?_⟩
  simp [hskip, ht]

/-- **Work keeps the others parked.** -/
theorem Inv.work (hi : Inv L s) {file : P.F → Word} {writes : List (Word × BitVec 8)}
    (hok : ∀ q ∈ writes, ∀ r ∈ s.foreign L w, q.1 ∉ r) :
    Inv L { s with mem := writeBytes s.mem writes, file := set s.file w file } := by
  -- what is not the running party's keeps its contents
  have hmem : ∀ r ∈ s.foreign L w, ∀ x ∈ r, s.mem x = writeBytes s.mem writes x := by
    intro r hr x hx
    refine (writeBytes_of_forall fun q hq heq => ?_).symm
    exact hok q hq r hr (heq ▸ hx)
  have hblock : ∀ id t, s.tasks id = some t → s.runs w id = false →
      ∀ x ∈ t.block, s.mem x = writeBytes s.mem writes x := fun id t ht hrun =>
    hmem _ (List.mem_append_right _ (mem_blocks ht (hi.below id t ht) hrun))
  refine ⟨hi.slot, hi.running, hi.below, hi.apart, hi.fixed, fun id t c ht hc => ?_, fun w' hw' => ?_,
    hi.worker, hi.unborn⟩
  · -- the task that runs has no context, so this one does not run here
    have hrun : s.runs w id = false := by
      by_contra h
      obtain ⟨hon, hslot⟩ := Bool.and_eq_true_iff.mp (Bool.not_eq_false _ ▸ h)
      obtain ⟨stack, place⟩ := t
      obtain rfl : place = .slot w := hi.place_eq (of_decide_eq_true hslot) ht
      have hc : (if s.onTask w then none else some _) = some c := hc
      rw [hon] at hc
      cases hc
    refine hi.parked_task ht _ hc (fun w' hp hoff => ⟨hoff, hmem _ ?_⟩) (hblock id t ht hrun) rfl
    by_cases hww : w' = w
    · subst w'
      have hoff : s.onTask w = false := hoff
      exact mem_foreign_own (by simp [State.ownForeign, hoff, hi.slot_of_place ht hp])
    · exact mem_foreign_worker hww (L.slot_mem w')
  · have hw' : s.onTask w' = true := hw'
    have hfor : P.contextAt (L.context w') ∈ s.foreign L w ∧ L.stack w' ∈ s.foreign L w := by
      by_cases hww : w' = w
      · subst w'
        exact ⟨mem_foreign_own (by simp [State.ownForeign, hw']),
          mem_foreign_own (by simp [State.ownForeign, hw'])⟩
      · exact ⟨mem_foreign_worker hww (L.context_mem w'), mem_foreign_worker hww (L.stack_mem w')⟩
    exact hi.parked_scheduler hw' _ (hmem _ hfor.1) (hmem _ hfor.2) rfl

/-! ### Tasks come, move and go

Between two switches the scheduler creates tasks and moves them between the queue and its slot. A
context is a value while its task is queued and lies in memory while the task is in a slot; a move
writes it to the slot or reads it back, and the registers in it stay the same.
-/

/-- What `allocatable` says. -/
theorem allocatable_inv {stack : Word} (h : s.allocatable L stack = true) :
    stack.toNat + stackSize < 2 ^ 64 ∧
      (∀ w, ∀ r ∈ L.regions w, r.Disjoint ⟨stack, stackSize⟩) ∧
      ∀ id t, s.tasks id = some t → id < s.nextId → t.block.Disjoint ⟨stack, stackSize⟩ := by
  obtain ⟨hsize, hall⟩ := Bool.and_eq_true_iff.mp h
  have hall := List.all_eq_true.mp hall
  refine ⟨of_decide_eq_true hsize, fun w r hr => ?_, fun id t ht hid => ?_⟩
  · exact Region.disjoint_of_apart
      (hall r (List.mem_append_left _ (List.mem_flatMap.mpr ⟨w, List.mem_finRange w, hr⟩)))
  · exact Region.disjoint_of_apart (hall _ (List.mem_append_right _ (mem_blocks ht hid rfl)))

/-- **A fresh task is parked at its entry point**, in a block of its own. -/
theorem Inv.go (hi : Inv L s) {stack entry closurePtr : Word} (hok : s.allocatable L stack = true) :
    Inv L { s with
      mem := (P.contextNew (prepareStack stack) entry closurePtr s.mem).1
      tasks := set s.tasks s.nextId
        (some ⟨stack, .queued (P.contextNew (prepareStack stack) entry closurePtr s.mem).2⟩)
      nextId := s.nextId + 1
      log := s.log ++ [.created s.nextId stack entry closurePtr] } := by
  obtain ⟨hsize, hworkers, hblocks⟩ := allocatable_inv hok
  have htop := top_subset hsize
  -- `Context::new` writes inside the new block only
  have hmem : ∀ r : Region, r.Disjoint ⟨stack, stackSize⟩ → ∀ x ∈ r,
      s.mem x = (P.contextNew (prepareStack stack) entry closurePtr s.mem).1 x := by
    intro r hr x hx
    exact (P.contextNew_frame _ entry closurePtr s.mem x fun h => hr x hx (htop x h)).symm
  have hold : ∀ {i t}, s.tasks i = some t → i ≠ s.nextId := fun h => Nat.ne_of_lt (hi.below _ _ h)
  have hout : ∀ {p : Party n}, p ≠ .task s.nextId →
      lastOut p (s.log ++ [.created s.nextId stack entry closurePtr]) = lastOut p s.log :=
    fun hp => lastOut_concat_of_none (if_neg hp)
  refine ⟨fun w i => ?_, hi.running, fun i t ht => ?_, fun i i' t t' hne ht ht' => ?_,
    fun i t w ht => ?_, fun i t c ht hc => ?_, fun w hw => ?_, fun w i hw hs => ?_,
    fun i hle => ?_⟩
  · by_cases hin : i = s.nextId
    · subst i
      simp only [set_self, Option.some.injEq, Task.mk.injEq, reduceCtorEq, and_false, exists_false,
        iff_false]
      intro h
      obtain ⟨_, ht⟩ := (hi.slot w _).mp h
      exact hold ht rfl
    · simp only [set_ne hin]
      exact hi.slot w i
  · rcases set_some_inv ht with ⟨rfl, -⟩ | ⟨-, ht⟩
    · exact Nat.lt_succ_self _
    · exact Nat.lt_succ_of_lt (hi.below i t ht)
  · rcases set_some_inv ht with ⟨rfl, rfl⟩ | ⟨-, ht⟩
    · rcases set_some_inv ht' with ⟨rfl, -⟩ | ⟨-, ht'⟩
      · exact absurd rfl hne
      · exact (hblocks i' t' ht' (hi.below _ _ ht')).symm
    · rcases set_some_inv ht' with ⟨rfl, rfl⟩ | ⟨-, ht'⟩
      · exact hblocks i t ht (hi.below _ _ ht)
      · exact hi.apart i i' t t' hne ht ht'
  · rcases set_some_inv ht with ⟨rfl, rfl⟩ | ⟨-, ht⟩
    · exact fun r hr => (hworkers w r hr).symm
    · exact hi.fixed i t w ht
  · rcases set_some_inv ht with ⟨rfl, rfl⟩ | ⟨hin, ht⟩
    · -- the new task
      obtain rfl := Option.some.inj hc
      exact ⟨_, _, lastOut_concat_of_some (if_pos rfl), P.contextNew_resumes _ _ _ _,
        fun x hx => htop x (P.entryFile_footprint _ _ _ x hx)⟩
    · exact hi.parked_task ht _ hc (fun w _ hoff => ⟨hoff, hmem _ (hworkers w _ (L.slot_mem w))⟩)
        (hmem _ (hblocks i t ht (hi.below i t ht))) (hout fun h => hin (Party.task.inj h))
  · exact hi.parked_scheduler hw _ (hmem _ (hworkers w _ (L.context_mem w)))
      (hmem _ (hworkers w _ (L.stack_mem w))) (hout nofun)
  · exact (lastWorker_concat_of_none rfl).trans (hi.worker w i hw hs)
  · have hle : s.nextId + 1 ≤ i := hle
    refine (hout fun h => ?_).trans (hi.unborn i (Nat.le_of_succ_le hle))
    exact Nat.ne_of_gt hle (Party.task.inj h)

/-- A task that is moved keeps its block. -/
theorem Inv.moved (hi : Inv L s) {stack : Word} {place : Place P n} (ht : s.tasks id = some ⟨stack, place⟩)
    (place' : Place P n) :
    (∀ i t, set s.tasks id (some ⟨stack, place'⟩) i = some t → i < s.nextId) ∧
    (∀ i i' t t', i ≠ i' → set s.tasks id (some ⟨stack, place'⟩) i = some t →
      set s.tasks id (some ⟨stack, place'⟩) i' = some t' → t.block.Disjoint t'.block) ∧
    ∀ i t w, set s.tasks id (some ⟨stack, place'⟩) i = some t →
      ∀ r ∈ L.regions w, t.block.Disjoint r := by
  have hblock : ∀ {i t}, set s.tasks id (some ⟨stack, place'⟩) i = some t →
      ∃ t', s.tasks i = some t' ∧ t'.block = t.block := by
    intro i t h
    rcases set_some_inv h with ⟨rfl, rfl⟩ | ⟨-, h⟩
    · exact ⟨_, ht, rfl⟩
    · exact ⟨t, h, rfl⟩
  refine ⟨fun i t h => ?_, fun i i' t t' hne h h' => ?_, fun i t w h => ?_⟩
  · obtain ⟨u, hu, -⟩ := hblock h
    exact hi.below i u hu
  · obtain ⟨u, hu, hb⟩ := hblock h
    obtain ⟨u', hu', hb'⟩ := hblock h'
    rw [← hb, ← hb']
    exact hi.apart i i' u u' hne hu hu'
  · obtain ⟨u, hu, hb⟩ := hblock h
    rw [← hb]
    exact hi.fixed i u w hu

/-- **Moving a task into a slot** moves its context with it. -/
theorem Inv.setCurrent (hi : Inv L s) (hon : s.onTask w = false) (hslot : s.slot w = none)
    {stack : Word} (ht : s.tasks id = some ⟨stack, .queued c⟩) :
    Inv L { s with
      mem := P.writeContext s.mem (L.slot w) c
      slot := set s.slot w (some id)
      tasks := set s.tasks id (some ⟨stack, .slot w⟩) } := by
  have hmem : ∀ r : Region, r.Disjoint (P.contextAt (L.slot w)) → ∀ x ∈ r,
      s.mem x = P.writeContext s.mem (L.slot w) c x :=
    fun r hr x hx => (Arch.writeContext_of_not_mem (hr x hx)).symm
  have hnot : ∀ w', s.slot w' ≠ some id := fun w' h => by cases hi.place_eq h ht
  obtain ⟨hbelow, hapart, hfixed⟩ := hi.moved ht (.slot w)
  refine ⟨fun w' i => ?_, fun w' hw' => ?_, hbelow, hapart, hfixed, fun i t c' h hc => ?_,
    fun w' hw' => ?_, fun w' i hw' hs => ?_, hi.unborn⟩
  · show set s.slot w (some id) w' = some i ↔ ∃ st, set s.tasks id (some ⟨stack, .slot w⟩) i
      = some ⟨st, .slot w'⟩
    by_cases hid : i = id
    · subst i
      by_cases hww : w' = w
      · subst w'
        simp
      · rw [set_ne hww]
        refine ⟨fun h => absurd h (hnot w'), fun ⟨st, h⟩ => ?_⟩
        rw [set_self] at h
        exact absurd (Place.slot.inj (congrArg Task.place (Option.some.inj h))).symm hww
    · rw [set_ne hid]
      by_cases hww : w' = w
      · subst w'
        rw [set_self]
        refine ⟨fun h => absurd (Option.some.inj h).symm hid, fun h => ?_⟩
        rw [(hi.slot w i).mpr h] at hslot
        cases hslot
      · rw [set_ne hww]
        exact hi.slot w' i
  · have hw' : s.onTask w' = true := hw'
    have hww := ne_of_onTask hon hw'
    exact ⟨_, (set_ne hww).trans (hi.running w' hw').choose_spec⟩
  · rcases set_some_inv h with ⟨rfl, rfl⟩ | ⟨-, hold⟩
    · -- the task that is moved: its context is read back from the slot
      have hread : c' = c := by
        have hc : (if s.onTask w then none else some (P.readContext
          (P.writeContext s.mem (L.slot w) c) (L.slot w))) = some c' := hc
        rw [hon, Arch.readContext_writeContext] at hc
        exact (Option.some.inj hc).symm
      subst hread
      exact (hi.task _ _ c' ht rfl).congr _ (hmem _ (hi.fixed i _ w ht _ (L.slot_mem w))) rfl
    · refine hi.parked_task hold _ hc (fun w' hp hoff => ⟨hoff, hmem _ ?_⟩)
        (hmem _ (hi.fixed i t w hold _ (L.slot_mem w))) rfl
      -- another task's slot is another worker's
      have hww : w' ≠ w := by
        rintro rfl
        rw [hi.slot_of_place hold hp] at hslot
        cases hslot
      exact L.disjoint hww (L.slot_mem w') (L.slot_mem w)
  · exact hi.parked_scheduler hw' _ (hmem _ (L.context_slot_disjoint w' w))
      (hmem _ (L.stack_slot_disjoint w' w)) rfl
  · have hw' : s.onTask w' = true := hw'
    have hww := ne_of_onTask hon hw'
    exact hi.worker w' i hw' ((set_ne hww).symm.trans hs)

/-- **Moving a task out of a slot** moves its context with it. -/
theorem Inv.takeCurrent (hi : Inv L s) (hon : s.onTask w = false) (hslot : s.slot w = some id)
    (ht : s.tasks id = some t) :
    Inv L { s with
      slot := set s.slot w none
      tasks := set s.tasks id (some { t with place := .queued (P.readContext s.mem (L.slot w)) }) } := by
  obtain ⟨stack, ht'⟩ := (hi.slot w id).mp hslot
  obtain rfl := Option.some.inj (ht.symm.trans ht')
  obtain ⟨hbelow, hapart, hfixed⟩ := hi.moved ht (.queued (P.readContext s.mem (L.slot w)))
  refine ⟨fun w' i => ?_, fun w' hw' => ?_, hbelow, hapart, hfixed, fun i u c' h hc => ?_,
    hi.scheduler, fun w' i hw' hs => ?_, hi.unborn⟩
  · exact hi.slot_removed hslot (by simp) (fun i hid => set_ne hid) w' i
  · exact ⟨_, (set_ne (ne_of_onTask hon hw')).trans (hi.running w' hw').choose_spec⟩
  · rcases set_some_inv h with ⟨rfl, rfl⟩ | ⟨hid, h⟩
    · obtain rfl := Option.some.inj hc
      have hctx : s.context? L ⟨stack, .slot w⟩ = some (P.readContext s.mem (L.slot w)) := by
        simp [State.context?, hon]
      exact hi.task i ⟨stack, .slot w⟩ _ ht hctx
    · exact hi.task i u c' h hc
  · exact hi.worker w' i hw' ((set_ne (ne_of_onTask hon hw')).symm.trans hs)

/-- Dropping the task in a slot. -/
theorem Inv.dropCurrent (hi : Inv L s) (hon : s.onTask w = false) (hslot : s.slot w = some id) :
    Inv L { s with slot := set s.slot w none, tasks := set s.tasks id none } := by
  have hold : ∀ {i u}, set s.tasks id none i = some u → i ≠ id ∧ s.tasks i = some u := by
    intro i u h
    by_cases hid : i = id
    · subst i
      rw [set_self] at h
      cases h
    · exact ⟨hid, (set_ne hid).symm.trans h⟩
  refine ⟨fun w' i => ?_, fun w' hw' => ?_, fun i u h => hi.below i u (hold h).2,
    fun i i' u u' hne h h' => hi.apart i i' u u' hne (hold h).2 (hold h').2,
    fun i u w' h => hi.fixed i u w' (hold h).2, fun i u c' h hc => hi.task i u c' (hold h).2 hc,
    hi.scheduler, fun w' i hw' hs => ?_, hi.unborn⟩
  · exact hi.slot_removed hslot (by simp) (fun i hid => set_ne hid) w' i
  · exact ⟨_, (set_ne (ne_of_onTask hon hw')).trans (hi.running w' hw').choose_spec⟩
  · exact hi.worker w' i hw' ((set_ne (ne_of_onTask hon hw')).symm.trans hs)

/-! ### Switches

Both directions of `context_switch` are one lemma, `switch_spec`: the old party's registers are
stored in its context, and the new party's are loaded from its own. The two cases differ in who is
parked afterwards.
-/

/-- **What a switch does**: the party that is left can go on later where it is, the one that is
    resumed goes on where it was, and nobody else's memory changes. -/
theorem switch_spec (p : Party n) {q : Party n} {old new : Word} (ret : Word) {ownp ownq : Region}
    (hfoot : (P.footprint (s.file w)).Subset ownp) (hq : s.Parked q (P.readContext s.mem new) ownq)
    (hpold : ownp.Disjoint (P.contextAt old)) (hnew : (P.contextAt new).Disjoint (P.contextAt old))
    (hpnew : ownp.Disjoint (P.contextAt new)) (hqold : ownq.Disjoint (P.contextAt old))
    (hqp : ownq.Disjoint ownp) :
    (∀ r : Region, r.Disjoint (P.contextAt old) → r.Disjoint ownp →
        ∀ x ∈ r, s.mem x = (s.switch w p q old new ret).mem x) ∧
      P.Resumes (s.switch w p q old new ret).mem
        (P.readContext (s.switch w p q old new ret).mem old) (P.view (s.file w) ret) ret ∧
      lastOut q s.log = some ((P.contextSwitch old new ret (cpu (s.file w) s.mem)).1.file,
        (P.contextSwitch old new ret (cpu (s.file w) s.mem)).2) := by
  obtain ⟨v, pc, hout, hres, hsub⟩ := hq
  have hfile : (cpu (s.file w) s.mem).file = s.file w := rfl
  refine ⟨fun r hr hr' x hx => ?_, ?_, ?_⟩
  · exact (Arch.contextSwitch_frame (cpu (s.file w) s.mem) (hr x hx)
      fun h => hr' x hx (hfoot x h)).symm
  · exact Arch.contextSwitch_saves (cpu (s.file w) s.mem) (hfoot.disjoint hpold)
  · obtain ⟨hf, hpc⟩ := Arch.contextSwitch_loads (cpu (s.file w) s.mem) ret hres hnew
      (hfoot.disjoint hpnew).symm (hsub.disjoint hqold)
      (fun x hx h => hqp x (hsub x hx) (hfoot x h))
    rw [hout, hf, hpc]

/-- **A switch to a task** keeps the invariant, and the task goes on with what it had left with. -/
theorem Inv.enter (hi : Inv L s) (hon : s.onTask w = false) (hslot : s.slot w = some id)
    (hfoot : (P.footprint (s.file w)).Subset (L.stack w)) (ret : Word) :
    Inv L (s.switch w (.scheduler w) (.task id) (L.context w) (L.slot w) ret) ∧
      lastOut (.task id) s.log
        = some ((P.contextSwitch (L.context w) (L.slot w) ret (cpu (s.file w) s.mem)).1.file,
          (P.contextSwitch (L.context w) (L.slot w) ret (cpu (s.file w) s.mem)).2) := by
  obtain ⟨stack, ht⟩ := (hi.slot w id).mp hslot
  have hctx : s.context? L ⟨stack, .slot w⟩ = some (P.readContext s.mem (L.slot w)) := by
    simp [State.context?, hon]
  have hfixed := hi.fixed id _ w ht
  obtain ⟨hmem, hres, hout⟩ := switch_spec (.scheduler w) ret hfoot
    (hi.task id _ _ ht hctx) (Region.disjoint_of_apart (L.context_stack w)).symm
    (L.context_slot_disjoint w w).symm (L.stack_slot_disjoint w w) (hfixed _ (L.context_mem w))
    (hfixed _ (L.stack_mem w))
  refine ⟨⟨hi.slot, fun w' hw' => ?_, hi.below, hi.apart, hi.fixed, fun i t c h hc => ?_,
    fun w' hw' => ?_, fun w' i hw' hs => ?_, fun i hle => ?_⟩, hout⟩
  · by_cases hww : w' = w
    · exact ⟨id, hww ▸ hslot⟩
    · exact hi.running w' ((set_ne hww).symm.trans hw')
  · have hkeep := hmem _ (hi.fixed i t w h _ (L.context_mem w)) (hi.fixed i t w h _ (L.stack_mem w))
    have hlast : lastOut (.task i) (s.switch w (.scheduler w) (.task id) (L.context w) (L.slot w)
        ret).log = lastOut (.task i) s.log := lastOut_switched_ne nofun
    refine hi.parked_task h _ hc (fun w' _ hoff => ?_) hkeep hlast
    -- the context of a task that does not run is in the slot of another worker
    have hww : w' ≠ w := by
      rintro rfl
      have hoff : set s.onTask w' (!s.onTask w') w' = false := hoff
      rw [set_self, hon] at hoff
      cases hoff
    exact ⟨(set_ne hww).symm.trans hoff, hmem _ (L.context_slot_disjoint w w').symm
      (L.stack_slot_disjoint w w').symm⟩
  · by_cases hww : w' = w
    · subst w'
      refine ⟨_, _, lastOut_concat_of_some (if_pos rfl), hres, ?_⟩
      rw [Arch.footprint_view]
      exact hfoot
    · exact hi.parked_scheduler ((set_ne hww).symm.trans hw') _
        (hmem _ (L.disjoint hww (L.context_mem w') (L.context_mem w))
          (L.disjoint hww (L.context_mem w') (L.stack_mem w)))
        (hmem _ (L.disjoint hww (L.stack_mem w') (L.context_mem w))
          (L.disjoint hww (L.stack_mem w') (L.stack_mem w)))
        (lastOut_switched_ne fun h => hww (Party.scheduler.inj h))
  · have hs : s.slot w' = some i := hs
    by_cases hww : w' = w
    · subst w'
      obtain rfl := Option.some.inj (hslot.symm.trans hs)
      exact lastWorker_concat_of_some (if_pos rfl)
    · refine (lastWorker_switched_ne fun h => ?_).trans
        (hi.worker w' i ((set_ne hww).symm.trans hw') hs)
      exact hww (hi.slot_unique hs (Party.task.inj h ▸ hslot))
  · refine (lastOut_switched_ne ?_).trans (hi.unborn i hle)
    exact nofun

/-- **A switch back to the scheduler** keeps the invariant, and the scheduler goes on with what it
    had left with. -/
theorem Inv.switchToScheduler (hi : Inv L s) (hon : s.onTask w = true) (hslot : s.slot w = some id)
    (ht : s.tasks id = some t) (hfoot : (P.footprint (s.file w)).Subset t.block) (ret : Word) :
    Inv L (s.switch w (.task id) (.scheduler w) (L.slot w) (L.context w) ret) ∧
      lastOut (.scheduler w) s.log
        = some ((P.contextSwitch (L.slot w) (L.context w) ret (cpu (s.file w) s.mem)).1.file,
          (P.contextSwitch (L.slot w) (L.context w) ret (cpu (s.file w) s.mem)).2) := by
  obtain ⟨stack, ht'⟩ := (hi.slot w id).mp hslot
  obtain rfl := Option.some.inj (ht.symm.trans ht')
  have hfixed' := fun w' => hi.fixed id _ w' ht
  have hfixed := hfixed' w
  obtain ⟨hmem, hres, hout⟩ := switch_spec (.task id) ret hfoot (hi.scheduler w hon)
    (hfixed _ (L.slot_mem w)) (L.context_slot_disjoint w w) (hfixed _ (L.context_mem w))
    (L.stack_slot_disjoint w w) (hfixed _ (L.stack_mem w)).symm
  refine ⟨⟨hi.slot, fun w' hw' => ?_, hi.below, hi.apart, hi.fixed, fun i t c h hc => ?_,
    fun w' hw' => ?_, fun w' i hw' hs => ?_, fun i hle => ?_⟩, hout⟩
  · have hww := ne_of_onTask_switched hon hw'
    exact hi.running w' ((set_ne hww).symm.trans hw')
  · by_cases hid : i = id
    · -- the task that is switched out: its context is in the slot
      subst i
      obtain rfl := Option.some.inj (ht.symm.trans h)
      have hc : (if set s.onTask w (!s.onTask w) w then none else some (P.readContext
        (s.switch w (.task id) (.scheduler w) (L.slot w) (L.context w) ret).mem (L.slot w)))
        = some c := hc
      rw [set_self, hon] at hc
      obtain rfl := Option.some.inj hc
      refine ⟨_, _, lastOut_concat_of_some (if_pos rfl), hres, ?_⟩
      rw [Arch.footprint_view]
      exact hfoot
    · have hkeep := hmem _ (hi.fixed i t w h _ (L.slot_mem w)) (hi.apart i id t _ hid h ht)
      have hlast : lastOut (.task i) (s.switch w (.task id) (.scheduler w) (L.slot w) (L.context w)
          ret).log = lastOut (.task i) s.log :=
        lastOut_switched_ne fun h => hid (Party.task.inj h)
      refine hi.parked_task h _ hc (fun w' hp hoff => ?_) hkeep hlast
      have hww : w' ≠ w := by
        rintro rfl
        exact hid (Option.some.inj ((hi.slot_of_place h hp).symm.trans hslot))
      exact ⟨(set_ne hww).symm.trans hoff, hmem _ (L.disjoint hww (L.slot_mem w') (L.slot_mem w))
        (hfixed' w' _ (L.slot_mem w')).symm⟩
  -- the schedulers of the other workers: the switch has written to none of their regions
  · have hww := ne_of_onTask_switched hon hw'
    exact hi.parked_scheduler ((set_ne hww).symm.trans hw') _
      (hmem _ (L.context_slot_disjoint w' w) (hfixed' w' _ (L.context_mem w')).symm)
      (hmem _ (L.stack_slot_disjoint w' w) (hfixed' w' _ (L.stack_mem w')).symm)
      (lastOut_switched_ne nofun)
  · have hww := ne_of_onTask_switched hon hw'
    refine (lastWorker_switched_ne ?_).trans (hi.worker w' i ((set_ne hww).symm.trans hw') hs)
    exact nofun
  · refine (lastOut_switched_ne fun h => ?_).trans (hi.unborn i hle)
    exact Nat.not_lt.mpr hle (Party.task.inj h ▸ hi.below id _ ht)

/-! ### Every step, every run

The invariant for one step is the lemma for its kind, and a run is a list of steps.
-/

/-- **One step** keeps the invariant, and what it adds to the log is lawful. -/
theorem Inv.next (hi : Inv L s) {a : Act P n} (h : next L a s = some s') :
    Inv L s' ∧ (s'.log = s.log ∨ ∃ e, s'.log = s.log ++ [e] ∧ Lawful s.log e) := by
  cases a with
  | work w file writes =>
    simp only [Switch.next, Option.ite_none_right_eq_some, Option.some.injEq] at h
    obtain ⟨hok, rfl⟩ := h
    refine ⟨hi.work fun q hq r hr => ?_, .inl rfl⟩
    have hq := List.all_eq_true.mp (List.all_eq_true.mp hok q hq) r hr
    simpa using hq
  | go stack entry closurePtr =>
    simp only [Switch.next, Option.ite_none_right_eq_some, Option.some.injEq] at h
    obtain ⟨hok, rfl⟩ := h
    exact ⟨hi.go hok, .inr ⟨_, rfl, hi.unborn _ (Nat.le_refl _), (allocatable_inv hok).1⟩⟩
  | setCurrent w id =>
    simp only [Switch.next] at h
    split at h
    · next hon hslot ht =>
      cases h
      exact ⟨hi.setCurrent hon hslot ht, .inl rfl⟩
    · cases h
  | enter w ret =>
    simp only [Switch.next] at h
    split at h
    · next id hon hslot =>
      obtain ⟨hfoot, h⟩ := Option.ite_none_right_eq_some.mp h
      cases h
      obtain ⟨hinv, hout⟩ := hi.enter hon hslot (Region.subset_of_within hfoot) ret
      exact ⟨hinv, .inr ⟨_, rfl, hout, .inl ⟨rfl, id, rfl⟩⟩⟩
    · cases h
  | switchToScheduler w ret =>
    simp only [Switch.next] at h
    split at h
    · next id hon hslot =>
      obtain ⟨hfoot, h⟩ := Option.ite_none_right_eq_some.mp h
      cases h
      obtain ⟨t, ht, hfoot⟩ := (Option.any_eq_true _ _).mp hfoot
      obtain ⟨hinv, hout⟩ := hi.switchToScheduler hon hslot ht (Region.subset_of_within hfoot) ret
      exact ⟨hinv, .inr ⟨_, rfl, hout, .inr ⟨id, rfl, rfl, hi.worker w id hon hslot⟩⟩⟩
    · cases h
  | takeCurrent w =>
    simp only [Switch.next] at h
    split at h
    · next hon hslot =>
      obtain ⟨t, ht, rfl⟩ := Option.map_eq_some_iff.mp h
      exact ⟨hi.takeCurrent hon hslot ht, .inl rfl⟩
    · cases h
  | dropCurrent w =>
    simp only [Switch.next] at h
    split at h
    · next hon hslot =>
      cases h
      exact ⟨hi.dropCurrent hon hslot, .inl rfl⟩
    · cases h

/-- The invariant holds before the first switch. -/
theorem inv_init {L : Layout P n} {s : State P n} (h : (machine P L).init s) : Inv L s := by
  obtain ⟨mem, file, rfl⟩ := h
  exact ⟨by simp, nofun, nofun, nofun, nofun, nofun, nofun, nofun, fun _ _ => rfl⟩

/-- The invariant holds in every state reached. -/
theorem reach_inv (hr : (machine P L).Reachable s) : Inv L s :=
  hr.invariant (I := Inv L) (fun _ h => inv_init h) fun _ _ _ _ hi hn => (hi.next hn).1

/-- **Every switch goes on where its target was switched out last.** -/
theorem reach_lawful (hr : (machine P L).Reachable s) : History.Each Lawful s.log := by
  refine hr.invariant (I := fun s => History.Each Lawful s.log) (fun s h => ?_)
    fun s s' a hr hl hn => ?_
  · obtain ⟨mem, file, rfl⟩ := h
    exact .nil _
  · rcases ((reach_inv hr).next hn).2 with hlog | ⟨e, hlog, he⟩
    · rw [hlog]
      exact hl
    · rw [hlog]
      exact hl.concat he

end Steps

end MyGoroutine.Switch
