import MyGoroutine.Switch.Preserve

namespace MyGoroutine.Switch

/-!
# A fresh task, and context switching as a whole

A task that nobody has switched out yet is resumed at its entry point, with the closure pointer in
the register that `get_closure_ptr` reads and an aligned stack pointer in its own block.

* `Fresh` — the task has not been switched out;
* `fresh_start` — what a switch to a fresh task goes on with;
* `x86_64_entry`, `aarch64_entry` — these registers on the two architectures;
* `context_switches` — all that switching preserves, on both.
-/

variable {P : Platform} {n : Nat}

/-- Nobody has switched the task `id` out. -/
def Fresh (id : TaskId) (l : List (Event P n)) : Prop :=
  ∀ w out ret new file pc, .switched w (.task id) out ret new file pc ∉ l

/-- What is known of a party comes from one of the events. -/
theorem exists_of_lastOut {p : Party n} {l : List (Event P n)} {o : (P.F → Word) × Word}
    (h : lastOut p l = some o) : ∃ e ∈ l, e.out? p = some o :=
  List.mem_filterMap.mp (List.mem_of_getLast? h)

/-- **A fresh task starts at its entry point.** -/
theorem fresh_start {L : Layout P n} {s : State P n} (hr : (machine P L).Reachable s) {w : Fin n}
    {old : Party n} {out file : P.F → Word} {ret pc : Word} {id : TaskId}
    {before after : List (Event P n)}
    (hlog : s.log = before ++ .switched w old out ret (.task id) file pc :: after)
    (hf : Fresh id before) :
    ∃ stack closurePtr, .created id stack pc closurePtr ∈ before ∧
      stack.toNat + stackSize < 2 ^ 64 ∧ file = P.entryFile (prepareStack stack) pc closurePtr := by
  have hlaw := reach_lawful hr
  obtain ⟨hout, -⟩ : Lawful before (.switched w old out ret (.task id) file pc) := hlaw _ _ _ hlog
  obtain ⟨e, he, hout⟩ := exists_of_lastOut hout
  cases e with
  | created i stack entry closurePtr =>
    obtain ⟨hi, ho⟩ := Option.ite_none_right_eq_some.mp hout
    obtain rfl := Party.task.inj hi
    obtain ⟨rfl, rfl⟩ := Prod.mk.inj (Option.some.inj ho)
    obtain ⟨l₁, l₂, hb⟩ := List.append_of_mem he
    -- the block was checked when the task was created
    have hcreated : Lawful l₁ (.created id stack entry closurePtr) :=
      hlaw l₁ _ (l₂ ++ .switched w old out ret (.task id)
        (P.entryFile (prepareStack stack) entry closurePtr) entry :: after) (by rw [hlog, hb]; simp)
    exact ⟨stack, closurePtr, he, hcreated.2, rfl⟩
  | switched w' old' out' ret' new' file' pc' =>
    obtain ⟨hi, -⟩ := Option.ite_none_right_eq_some.mp hout
    exact absurd (hi ▸ he) (hf w' out' ret' new' file' pc')

section Entry

variable {stack entry closurePtr : Word}

/-- On x86_64 the stack pointer is 8 bytes below the top, as after a call. -/
theorem x86_64_entry (h : stack.toNat + stackSize < 2 ^ 64) :
    x86_64.entryFile (prepareStack stack) entry closurePtr .rsp ∈ (⟨stack, stackSize⟩ : Region) ∧
      (x86_64.entryFile (prepareStack stack) entry closurePtr .rsp).toNat % 16 = 8 := by
  show prepareStack stack - 8 ∈ (⟨stack, stackSize⟩ : Region) ∧
    (prepareStack stack - 8).toNat % 16 = 8
  have htop := toNat_prepareStack h
  rw [Region.mem_def]
  simp only
  unfold stackSize at *
  have hsub : (prepareStack stack - 8).toNat = (prepareStack stack).toNat - 8 := by bv_omega
  refine ⟨by bv_omega, ?_⟩
  rw [hsub]
  omega

/-- On aarch64 the stack pointer is the top itself: aligned, and behind the start of the block. -/
theorem aarch64_entry (h : stack.toNat + stackSize < 2 ^ 64) :
    stack.toNat < (aarch64.entryFile (prepareStack stack) entry closurePtr .sp).toNat ∧
      (aarch64.entryFile (prepareStack stack) entry closurePtr .sp).toNat
        ≤ stack.toNat + stackSize ∧
      (aarch64.entryFile (prepareStack stack) entry closurePtr .sp).toNat % 16 = 0 := by
  show stack.toNat < (prepareStack stack).toNat ∧
    (prepareStack stack).toNat ≤ stack.toNat + stackSize ∧ (prepareStack stack).toNat % 16 = 0
  have htop := toNat_prepareStack h
  unfold stackSize at *
  omega

/-- In an aligned block there is nothing to round off: the stack pointer is the end of the block. -/
theorem aarch64_entry_aligned (h : stack.toNat + stackSize < 2 ^ 64)
    (ha : stack.toNat % 16 = 0) :
    (aarch64.entryFile (prepareStack stack) entry closurePtr .sp).toNat
      = stack.toNat + stackSize := by
  show (prepareStack stack).toNat = stack.toNat + stackSize
  have htop := toNat_prepareStack h
  unfold stackSize at *
  omega

end Entry

/-- **Context switching preserves every party's state**: each switch goes on where its target was
    switched out last, a task is switched out to the scheduler of the worker it runs on, and a fresh
    task starts at its entry point with its closure pointer and an aligned stack pointer.

    The stack of aarch64 is empty while `sp` is at its end, and the end of the block is where a fresh
    task starts when the block is aligned: what the task pushes is inside. -/
theorem context_switches {n : Nat} :
    (∀ (L : Layout x86_64 n) (s : State x86_64 n), (machine x86_64 L).Reachable s →
      History.Each Lawful s.log ∧
      ∀ before w old out ret id file pc after,
        s.log = before ++ .switched w old out ret (.task id) file pc :: after → Fresh id before →
          ∃ stack closurePtr, .created id stack pc closurePtr ∈ before ∧ file .r15 = closurePtr ∧
            file .rsp ∈ (⟨stack, stackSize⟩ : Region) ∧ (file .rsp).toNat % 16 = 8) ∧
    (∀ (L : Layout aarch64 n) (s : State aarch64 n), (machine aarch64 L).Reachable s →
      History.Each Lawful s.log ∧
      ∀ before w old out ret id file pc after,
        s.log = before ++ .switched w old out ret (.task id) file pc :: after → Fresh id before →
          ∃ stack closurePtr, .created id stack pc closurePtr ∈ before ∧ file .x19 = closurePtr ∧
            stack.toNat < (file .sp).toNat ∧ (file .sp).toNat ≤ stack.toNat + stackSize ∧
            (file .sp).toNat % 16 = 0 ∧
            (stack.toNat % 16 = 0 → (file .sp).toNat = stack.toNat + stackSize)) := by
  refine ⟨fun L s hr => ⟨reach_lawful hr, ?_⟩, fun L s hr => ⟨reach_lawful hr, ?_⟩⟩
  · intro before w old out ret id file pc after hlog hf
    obtain ⟨stack, closurePtr, hmem, hsize, rfl⟩ := fresh_start hr hlog hf
    exact ⟨stack, closurePtr, hmem, rfl, x86_64_entry hsize⟩
  · intro before w old out ret id file pc after hlog hf
    obtain ⟨stack, closurePtr, hmem, hsize, rfl⟩ := fresh_start hr hlog hf
    obtain ⟨hlo, hhi, halign⟩ := aarch64_entry hsize
    exact ⟨stack, closurePtr, hmem, rfl, hlo, hhi, halign, aarch64_entry_aligned hsize⟩

/-! ### A single worker

The two runs below are on the smallest layout there is: one worker, its two contexts and its stack,
and one block for the task. The memory is blank, so the only registers that matter are those that
`Context::new` sets.
-/

/-- Two contexts and a stack, for a worker on a platform with a context of at most 4096 bytes. -/
def Layout.single (P : Platform) (h : 8 * P.fields.length ≤ 0x1000) : Layout P 1 where
  context _ := 0x1000
  slot _ := 0x2000
  stack _ := ⟨0x3000, 0x1000⟩
  context_slot _ := Region.apart_of_le h h (by decide) (by decide)
  context_stack _ := Region.apart_of_le h (Nat.le_refl _) (by decide) (by decide)
  slot_stack _ := Region.apart_of_le h (Nat.le_refl _) (by decide) (by decide)
  workers w w' h := absurd (Subsingleton.elim w w') h

/-- No task yet, and blank memory and registers. -/
def State.blank (P : Platform) (n : Nat) : State P n where
  mem _ := 0
  file _ _ := 0
  slot _ := none
  onTask _ := false
  tasks _ := none
  nextId := 0
  log := []

/-- On aarch64 a fresh task in an aligned block starts with `sp` at the end of the block, which is
    the first address outside. -/
theorem aarch64_starts_at_end :
    ∃ (L : Layout aarch64 1) (s : State aarch64 1) (out file : aarch64.F → Word),
      (machine aarch64 L).Reachable s ∧
      s.log = [.created 0 0x100000 0x400000 0x500000,
        .switched 0 (.scheduler 0) out 0x600000 (.task 0) file 0x400000] ∧
      file .sp = 0x110000 ∧ file .sp ∉ (⟨0x100000, stackSize⟩ : Region) := by
  obtain ⟨s, hs, hlog⟩ := Option.map_eq_some_iff.mp
    (show ((machine aarch64 (.single aarch64 (by decide))).run
        [.go 0x100000 0x400000 0x500000, .setCurrent 0 0, .enter 0 0x600000] (.blank _ _)).map State.log
      = some [.created 0 0x100000 0x400000 0x500000,
        .switched 0 (.scheduler 0) _ 0x600000 (.task 0) _ 0x400000] by rfl)
  refine ⟨_, s, _, _, System.run_reachable ⟨_, _, rfl⟩ hs, hlog, by rfl, ?_⟩
  rw [Region.mem_def]
  show ¬ ((0x110000 : Word) - 0x100000).toNat < stackSize
  decide

/-- A task starts and is switched out again: the scheduler goes on behind its call. -/
theorem context_switches_back :
    ∃ (L : Layout x86_64 1) (s : State x86_64 1) (out file out' file' : x86_64.F → Word),
      (machine x86_64 L).Reachable s ∧
      s.log = [.created 0 0x100000 0x400000 0x500000,
        .switched 0 (.scheduler 0) out 0x600000 (.task 0) file 0x400000,
        .switched 0 (.task 0) out' 0x700000 (.scheduler 0) file' 0x600000] ∧
      Lawful [.created 0 0x100000 0x400000 0x500000,
          .switched 0 (.scheduler 0) out 0x600000 (.task 0) file 0x400000]
        (.switched 0 (.task 0) out' 0x700000 (.scheduler 0) file' 0x600000 : Event x86_64 1) ∧
      file .r15 = 0x500000 ∧ file .rsp ∈ (⟨0x100000, stackSize⟩ : Region) ∧
      (file .rsp).toNat % 16 = 8 := by
  obtain ⟨s, hs, hlog⟩ := Option.map_eq_some_iff.mp
    (show ((machine x86_64 (.single x86_64 (by decide))).run
        [.go 0x100000 0x400000 0x500000, .setCurrent 0 0, .enter 0 0x600000,
          .switchToScheduler 0 0x700000]
        { State.blank _ _ with file := fun _ _ => 0x3800 }).map State.log
      = some [.created 0 0x100000 0x400000 0x500000,
        .switched 0 (.scheduler 0) _ 0x600000 (.task 0) _ 0x400000,
        .switched 0 (.task 0) _ 0x700000 (.scheduler 0) _ 0x600000] by rfl)
  obtain ⟨hlaw, hstart⟩ := context_switches.1 _ s (System.run_reachable ⟨_, _, rfl⟩ hs)
  obtain ⟨stack, closurePtr, hmem, hclosure, hrsp, halign⟩ :=
    hstart [_] _ _ _ _ _ _ _ [_] hlog (by simp [Fresh])
  -- the only task is the one that was created
  simp only [List.mem_singleton, Event.created.injEq, true_and] at hmem
  obtain ⟨rfl, rfl⟩ := hmem
  exact ⟨_, s, _, _, _, _, System.run_reachable ⟨_, _, rfl⟩ hs, hlog, hlaw [_, _] _ [] hlog, hclosure,
    hrsp, halign⟩

end MyGoroutine.Switch
