import MyGoroutine.Lib.Machine

namespace MyGoroutine

/-!
# Context switching (`arch/x86_64.rs`, `arch/aarch64.rs`, `common.rs`)

Each architecture has its `Context`, a `repr(C)` record of words, and `context_switch`, written in
assembly.  The fields of the record are the names of the preserved registers, in the order of
declaration; field number `i` has the offset `8 * i`.

* `X86_64.code`, `AArch64.code` — the instructions of `context_switch` up to `ret`;
* `X86_64.arch`, `AArch64.arch` — they store and load the whole record, field by field;
* `X86_64.Context.new`, `AArch64.Context.new` — the context of a fresh task;
* `prepareStack` — the top of the stack in a block of `stackSize` bytes;
* `Platform` — what the rest of the runtime uses of an architecture, with the laws of a fresh
  context; `x86_64` and `aarch64`.
-/

/-! ### `arch/x86_64.rs`

The offsets and the order of the stores are those of the assembly. The return address is no field of
the context: `context_switch` is entered by a `call`, and it is on the stack.
-/

namespace X86_64

/-- The fields of `Context`. -/
inductive Field where
  | rsp | rbp | rbx | r12 | r13 | r14 | r15
deriving DecidableEq, Repr

/-- The fields in the order of declaration. -/
def fields : List Field := [.rsp, .rbp, .rbx, .r12, .r13, .r14, .r15]

/-- `context_switch`; `old` is `rdi` and `new` is `rsi`. -/
def code : List (Instr Field) :=
  [.str .old 0x00 (.saved .rsp),
   .str .old 0x08 (.saved .rbp),
   .str .old 0x10 (.saved .rbx),
   .str .old 0x18 (.saved .r12),
   .str .old 0x20 (.saved .r13),
   .str .old 0x28 (.saved .r14),
   .str .old 0x30 (.saved .r15),
   .ldr (.saved .rsp) .new 0x00,
   .ldr (.saved .rbp) .new 0x08,
   .ldr (.saved .rbx) .new 0x10,
   .ldr (.saved .r12) .new 0x18,
   .ldr (.saved .r13) .new 0x20,
   .ldr (.saved .r14) .new 0x28,
   .ldr (.saved .r15) .new 0x30]

/-- The code of the switch: the saves, and then the loads. -/
theorem code_eq : code = saves fields 0 ++ loads fields 0 := rfl

/-- `Context::new`: it writes the entry point to the fresh stack. -/
def Context.new (stackTop entry closurePtr : Word) (m : Mem) : Mem × (Field → Word) :=
  let initialRsp := stackTop - 16
  (m.store initialRsp entry, fun
    | .rsp => initialRsp
    | .r15 => closurePtr
    | _ => 0)

/-- The offsets of the assembly are those of the record. -/
def arch : Arch where
  F := Field
  fields := fields
  nodup := by decide
  complete := by intro f; cases f <;> decide
  small := by decide
  code := code
  link := .stack .rsp
  code_mem c := by
    rw [code_eq, exec_append, (exec_loads (by decide) 0 _).1, exec_saves]
    simp
  code_file c f := by
    rw [code_eq, exec_append, Cpu.file, (exec_loads (by decide) 0 _).1,
      (exec_loads (by decide) 0 _).2.1 f (by cases f <;> decide), exec_saves]
    simp

end X86_64

/-! ### `arch/aarch64.rs`

The return address is the register `x30`, which is a field like any other. The stack pointer cannot
be stored directly, so it goes through a scratch register.
-/

namespace AArch64

/-- The fields of `Context`. -/
inductive Field where
  | sp | lr | fp
  | x19 | x20 | x21 | x22 | x23 | x24 | x25 | x26 | x27 | x28
  | d8 | d9 | d10 | d11 | d12 | d13 | d14 | d15
deriving DecidableEq, Repr

/-- The fields in the order of declaration. -/
def fields : List Field :=
  [.sp, .lr, .fp, .x19, .x20, .x21, .x22, .x23, .x24, .x25, .x26, .x27, .x28,
   .d8, .d9, .d10, .d11, .d12, .d13, .d14, .d15]

/-- `context_switch`; `old` is `x0`, `new` is `x1`, and `scratch` is `x9`. -/
def code : List (Instr Field) :=
  [.mov .scratch (.saved .sp),
   .str .old 0x00 .scratch,
   .str .old 0x08 (.saved .lr),
   .str .old 0x10 (.saved .fp),
   .str .old 0x18 (.saved .x19),
   .str .old 0x20 (.saved .x20),
   .str .old 0x28 (.saved .x21),
   .str .old 0x30 (.saved .x22),
   .str .old 0x38 (.saved .x23),
   .str .old 0x40 (.saved .x24),
   .str .old 0x48 (.saved .x25),
   .str .old 0x50 (.saved .x26),
   .str .old 0x58 (.saved .x27),
   .str .old 0x60 (.saved .x28),
   .str .old 0x68 (.saved .d8),
   .str .old 0x70 (.saved .d9),
   .str .old 0x78 (.saved .d10),
   .str .old 0x80 (.saved .d11),
   .str .old 0x88 (.saved .d12),
   .str .old 0x90 (.saved .d13),
   .str .old 0x98 (.saved .d14),
   .str .old 0xa0 (.saved .d15),
   .ldr .scratch .new 0x00,
   .mov (.saved .sp) .scratch,
   .ldr (.saved .lr) .new 0x08,
   .ldr (.saved .fp) .new 0x10,
   .ldr (.saved .x19) .new 0x18,
   .ldr (.saved .x20) .new 0x20,
   .ldr (.saved .x21) .new 0x28,
   .ldr (.saved .x22) .new 0x30,
   .ldr (.saved .x23) .new 0x38,
   .ldr (.saved .x24) .new 0x40,
   .ldr (.saved .x25) .new 0x48,
   .ldr (.saved .x26) .new 0x50,
   .ldr (.saved .x27) .new 0x58,
   .ldr (.saved .x28) .new 0x60,
   .ldr (.saved .d8) .new 0x68,
   .ldr (.saved .d9) .new 0x70,
   .ldr (.saved .d10) .new 0x78,
   .ldr (.saved .d11) .new 0x80,
   .ldr (.saved .d12) .new 0x88,
   .ldr (.saved .d13) .new 0x90,
   .ldr (.saved .d14) .new 0x98,
   .ldr (.saved .d15) .new 0xa0]

/-- The stack pointer goes through the scratch register, both ways. -/
theorem code_eq :
    code = [.mov .scratch (.saved .sp), .str .old 0 .scratch] ++ saves fields.tail 8 ++
      [.ldr .scratch .new 0, .mov (.saved .sp) .scratch] ++ loads fields.tail 8 := rfl

/-- `Context::new`. -/
def Context.new (stackTop entry closurePtr : Word) (m : Mem) : Mem × (Field → Word) :=
  (m, fun
    | .sp => stackTop
    | .lr => entry
    | .x19 => closurePtr
    | _ => 0)

/-- The first half of the code stores all registers. -/
theorem exec_storeAll (c : Cpu Field) :
    exec ([.mov .scratch (.saved .sp), .str .old 0 .scratch] ++ saves fields.tail 8) c
      = { c.set .scratch (c.file .sp) with mem := c.mem.writeBlock fields (c.regs .old) c.file } := by
  rw [exec_append, exec_saves]
  simp [exec, Instr.exec, Cpu.set, fields, Mem.writeBlock, Cpu.file]

/-- The second half loads all registers. -/
theorem exec_loadAll (c : Cpu Field) :
    (exec ([.ldr .scratch .new 0, .mov (.saved .sp) .scratch] ++ loads fields.tail 8) c).mem = c.mem ∧
      ∀ f, (exec ([.ldr .scratch .new 0, .mov (.saved .sp) .scratch] ++ loads fields.tail 8) c).file f
        = c.mem.readBlock fields (c.regs .new) f := by
  rw [exec_append]
  generalize hc' : exec [.ldr .scratch .new 0, .mov (.saved .sp) .scratch] c = c'
  have hmem : c'.mem = c.mem := by rw [← hc']; rfl
  have hnew : c'.regs .new = c.regs .new := by
    rw [← hc']
    simp [exec, Instr.exec, Cpu.set]
  have hsp : c'.regs (.saved .sp) = c.mem.load (c.regs .new) := by
    rw [← hc']
    simp [exec, Instr.exec, Cpu.set]
  obtain ⟨hm, hin, hout⟩ := exec_loads (show fields.tail.Nodup by decide) 8 c'
  refine ⟨hm.trans hmem, fun f => ?_⟩
  by_cases hf : f = .sp
  · subst f
    rw [Cpu.file, hout .sp (by decide), hsp, Mem.readBlock]
    simp [fields]
  · have hmem' : f ∈ fields.tail := by cases f <;> first | exact absurd rfl hf | decide
    rw [Cpu.file, hin f hmem', hmem, hnew, Mem.readBlock, Mem.readBlock]
    congr 1
    have hidx : fields.idxOf f = fields.tail.idxOf f + 1 := List.idxOf_cons_ne _ (Ne.symm hf)
    rw [hidx]
    bv_omega

/-- The offsets of the assembly are those of the record. -/
def arch : Arch where
  F := Field
  fields := fields
  nodup := by decide
  complete := by intro f; cases f <;> decide
  small := by decide
  code := code
  link := .register .lr
  code_mem c := by
    rw [code_eq, List.append_assoc, exec_append, (exec_loadAll _).1, exec_storeAll]
  code_file c f := by
    rw [code_eq, List.append_assoc, exec_append, (exec_loadAll _).1, (exec_loadAll _).2 f, exec_storeAll]
    simp [Cpu.set]

end AArch64

/-! ### `common.rs`

What the runtime uses of either architecture, so that the proofs about switching are made once.
-/

/-- `STACK_SIZE`. -/
def stackSize : Nat := 64 * 1024

/-- `prepare_stack`: the aligned top of the stack in the block at `base`. -/
def prepareStack (base : Word) : Word := (base + BitVec.ofNat 64 stackSize) &&& ~~~(0xF : Word)

/-- What the runtime uses of an architecture.  A fresh task starts at its entry point with the
    registers `entryFile`. -/
structure Platform extends Arch where
  /-- The stack pointer. -/
  sp : F
  /-- The register that `get_closure_ptr` reads. -/
  closure : F
  /-- `Context::new(stack_top, entry, closure_ptr)`: the memory and the context. -/
  contextNew : Word → Word → Word → Mem → Mem × (F → Word)
  /-- The registers with which a fresh context arrives at its entry point. -/
  entryFile : Word → Word → Word → F → Word
  /-- The stack pointer at the entry point, below the top of the stack. -/
  entryOffset : Nat
  entryFile_sp : ∀ stackTop entry closurePtr,
    entryFile stackTop entry closurePtr sp = stackTop - BitVec.ofNat 64 entryOffset
  entryFile_closure : ∀ stackTop entry closurePtr,
    entryFile stackTop entry closurePtr closure = closurePtr
  /-- `Context::new` writes at most the 16 bytes below the top, -/
  contextNew_frame : ∀ stackTop entry closurePtr m x, x ∉ (⟨stackTop - 16, 16⟩ : Region) →
    (contextNew stackTop entry closurePtr m).1 x = m x
  /-- and what it builds can be resumed at the entry point. -/
  contextNew_resumes : ∀ stackTop entry closurePtr m,
    toArch.Resumes (contextNew stackTop entry closurePtr m).1 (contextNew stackTop entry closurePtr m).2
      (entryFile stackTop entry closurePtr) entry
  /-- Nor does such a resumption need more than these bytes. -/
  entryFile_footprint : ∀ stackTop entry closurePtr,
    (toArch.footprint (entryFile stackTop entry closurePtr)).Subset ⟨stackTop - 16, 16⟩

/-- After `ret` has popped the entry point, the stack pointer is `stack_top - 8`. -/
def x86_64 : Platform where
  toArch := X86_64.arch
  sp := .rsp
  closure := .r15
  contextNew := X86_64.Context.new
  entryFile stackTop _ closurePtr := fun
    | .rsp => stackTop - 8
    | .r15 => closurePtr
    | _ => 0
  entryOffset := 8
  entryFile_sp _ _ _ := rfl
  entryFile_closure _ _ _ := rfl
  contextNew_frame stackTop _ _ m x hx := by
    refine Mem.store_of_not_mem fun h => hx ?_
    rw [Region.mem_def] at h ⊢
    simp only at h ⊢
    omega
  contextNew_resumes stackTop entry closurePtr m := by
    refine ⟨?_, fun f hf => ?_, Mem.load_store⟩
    · show stackTop - 16 = stackTop - 8 - 8
      bv_omega
    · cases f <;> first | exact absurd rfl hf | rfl
  entryFile_footprint stackTop _ _ := by
    intro x hx
    have hx : x ∈ wordAt (stackTop - 8 - 8) := hx
    rw [Region.mem_def] at hx ⊢
    simp only at hx ⊢
    bv_omega

/-- `aarch64.rs`. -/
def aarch64 : Platform where
  toArch := AArch64.arch
  sp := .sp
  closure := .x19
  contextNew := AArch64.Context.new
  entryFile stackTop entry closurePtr := fun
    | .sp => stackTop
    | .lr => entry
    | .x19 => closurePtr
    | _ => 0
  entryOffset := 0
  entryFile_sp stackTop _ _ := by simp
  entryFile_closure _ _ _ := rfl
  contextNew_frame _ _ _ _ _ _ := rfl
  contextNew_resumes _ _ _ _ := by
    refine ⟨funext fun f => ?_, rfl⟩
    cases f <;> rfl
  entryFile_footprint _ _ _ := by
    intro x hx
    exact absurd hx (by simp [Arch.footprint, AArch64.arch, Link.footprint, Region.mem_def])

/-! ### The stack of a fresh task

Rounding the top of the block down to a multiple of 16 loses at most 15 bytes, so the words that
`Context::new` writes are still in the block.
-/

section Stack

variable {base : Word}

/-- Masking the low four bits rounds down to a multiple of 16. -/
theorem toNat_align (a : Word) : (a &&& ~~~(0xF : Word)).toNat = a.toNat / 16 * 16 := by
  have hmask : ~~~(0xF : Word) = BitVec.allOnes 64 <<< 4 := by decide
  have h : a &&& ~~~(0xF : Word) = (a >>> 4) <<< 4 := by
    rw [hmask]
    ext i hi
    simp only [BitVec.getElem_and, BitVec.getElem_shiftLeft, BitVec.getElem_allOnes]
    grind
  rw [h]
  simp only [BitVec.toNat_shiftLeft, BitVec.toNat_ushiftRight, Nat.shiftRight_eq_div_pow,
    Nat.shiftLeft_eq]
  omega

/-- The top of the stack is the last multiple of 16 up to the end of the block. -/
theorem toNat_prepareStack (h : base.toNat + stackSize < 2 ^ 64) :
    (prepareStack base).toNat = (base.toNat + stackSize) / 16 * 16 := by
  have hadd : (base + BitVec.ofNat 64 stackSize).toNat = base.toNat + stackSize := by
    unfold stackSize at h ⊢
    bv_omega
  rw [prepareStack, toNat_align, hadd]

/-- The words that `Context::new` writes are in the block. -/
theorem top_subset (h : base.toNat + stackSize < 2 ^ 64) :
    (⟨prepareStack base - 16, 16⟩ : Region).Subset ⟨base, stackSize⟩ := by
  have htop := toNat_prepareStack h
  intro x hx
  rw [Region.mem_def] at hx ⊢
  simp only at hx ⊢
  unfold stackSize at *
  bv_omega

end Stack

end MyGoroutine
