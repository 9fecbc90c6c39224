import MyGoroutine.Lib.Memory

/-!
# Machine code that switches contexts

A context is a block of words, one for each register that a function has to preserve.  A context
switch is a function that stores these registers in one context and loads them from another one, so
that it returns to whoever called it with that other context to store in.

* `Reg`, `Cpu`, `Instr`, `exec` — a machine with preserved registers named `F`, the two argument
  registers and a scratch register;
* `saves`, `loads` — the code that stores or loads a whole block, and what it does;
* `Link` — where a call leaves the return address: on the stack, or in a register;
* `Arch`, `Arch.contextSwitch` — an architecture with its switch, and a call of it;
* `Arch.Resumes` — a context holds what it takes to go on with the registers `v` at `pc`;
* `contextSwitch_saves`, `contextSwitch_loads`, `contextSwitch_frame` — the switch leaves such a
  context behind for its caller, goes on with such a context, and writes nothing else.
-/

/-- The registers that a switch deals with: the preserved ones, the two arguments and one more. -/
inductive Reg (F : Type) where
  /-- A preserved register. -/
  | saved (f : F)
  /-- The first argument of the switch. -/
  | old
  /-- The second argument. -/
  | new
  /-- A register that the code may use. -/
  | scratch
deriving DecidableEq

/-- The registers and the memory. -/
structure Cpu (F : Type) where
  regs : Reg F → Word
  mem : Mem

/-- The instructions of a switch: a move, a store and a load of one word. -/
inductive Instr (F : Type) where
  | mov (dst src : Reg F)
  | str (base : Reg F) (off : Nat) (src : Reg F)
  | ldr (dst base : Reg F) (off : Nat)

variable {F : Type} [DecidableEq F]

/-- A register is written. -/
def Cpu.set (c : Cpu F) (r : Reg F) (v : Word) : Cpu F :=
  { c with regs := fun x => if x = r then v else c.regs x }

/-- The preserved registers. -/
def Cpu.file (c : Cpu F) (f : F) : Word := c.regs (.saved f)

/-- One instruction. -/
def Instr.exec : Instr F → Cpu F → Cpu F
  | .mov dst src, c => c.set dst (c.regs src)
  | .str base off src, c => { c with mem := c.mem.store (c.regs base + BitVec.ofNat 64 off) (c.regs src) }
  | .ldr dst base off, c => c.set dst (c.mem.load (c.regs base + BitVec.ofNat 64 off))

/-- Straight-line code. -/
def exec : List (Instr F) → Cpu F → Cpu F
  | [], c => c
  | i :: is, c => exec is (i.exec c)

/-- Two pieces of code run one after the other. -/
theorem exec_append (is js : List (Instr F)) (c : Cpu F) : exec (is ++ js) c = exec js (exec is c) := by
  induction is generalizing c with
  | nil => rfl
  | cons i is ih => exact ih _

/-! ### Storing and loading a block

The code of a switch is a sequence of stores to one block and one of loads from another. Each
sequence is dealt with by induction on the list of registers.
-/

/-- Store the registers `fs` one after the other, from the offset `off` of the first argument on. -/
def saves : List F → Nat → List (Instr F)
  | [], _ => []
  | f :: fs, off => .str .old off (.saved f) :: saves fs (off + 8)

/-- Load the registers `fs` from the offset `off` of the second argument on. -/
def loads : List F → Nat → List (Instr F)
  | [], _ => []
  | f :: fs, off => .ldr (.saved f) .new off :: loads fs (off + 8)

/-- A run of saves writes the fields, one word after the other. -/
theorem exec_saves (fs : List F) (off : Nat) (c : Cpu F) :
    exec (saves fs off) c
      = { c with mem := c.mem.writeBlock fs (c.regs .old + BitVec.ofNat 64 off) c.file } := by
  induction fs generalizing off c with
  | nil => rfl
  | cons f fs ih =>
    have haddr : c.regs .old + BitVec.ofNat 64 (off + 8) = c.regs .old + BitVec.ofNat 64 off + 8 := by
      bv_omega
    rw [saves, exec, ih]
    show ({ c with mem := Mem.writeBlock fs _ (c.regs .old + BitVec.ofNat 64 (off + 8)) c.file } : Cpu F)
      = _
    rw [haddr]
    rfl

/-- Loading changes the loaded registers only, and not the memory. -/
theorem exec_loads {fs : List F} (hnd : fs.Nodup) (off : Nat) (c : Cpu F) :
    (exec (loads fs off) c).mem = c.mem ∧
      (∀ f ∈ fs, (exec (loads fs off) c).regs (.saved f)
        = c.mem.readBlock fs (c.regs .new + BitVec.ofNat 64 off) f) ∧
      ∀ f ∉ fs, (exec (loads fs off) c).regs (.saved f) = c.regs (.saved f) := by
  induction fs generalizing off c with
  | nil => exact ⟨rfl, by simp, fun _ _ => rfl⟩
  | cons g fs ih =>
    obtain ⟨hg, hnd⟩ := List.nodup_cons.mp hnd
    rw [loads, exec]
    obtain ⟨hmem, hin, hout⟩ := ih hnd (off + 8) ((Instr.ldr (.saved g) .new off).exec c)
    have haddr : c.regs .new + BitVec.ofNat 64 (off + 8) = c.regs .new + BitVec.ofNat 64 off + 8 := by
      bv_omega
    refine ⟨hmem, fun f hf => ?_, fun f hf => ?_⟩
    · by_cases hfg : f = g
      · subst f
        rw [hout g hg, Mem.readBlock, List.idxOf_cons_self]
        simp [Instr.exec, Cpu.set]
      · have hf : f ∈ fs := (List.mem_cons.mp hf).resolve_left hfg
        rw [hin f hf]
        show c.mem.readBlock fs (c.regs .new + BitVec.ofNat 64 (off + 8)) f = _
        rw [haddr, Mem.readBlock, Mem.readBlock, List.idxOf_cons_ne _ (Ne.symm hfg)]
        congr 1
        bv_omega
    · have hfg : f ≠ g := fun h => hf (h ▸ List.mem_cons_self)
      rw [hout f fun h => hf (List.mem_cons_of_mem g h)]
      simp [Instr.exec, Cpu.set, hfg]

/-! ### Calls and returns

The switch is entered by a call and left by a return, and the two belong to different parties. What
a party leaves behind is its view: the registers that the caller of a function may rely on.
-/

/-- Where a call leaves the return address. -/
inductive Link (F : Type) where
  /-- On the stack, which grows downwards. -/
  | stack (sp : F)
  | register (lr : F)

/-- Call a function, to return to `ret`. -/
def Link.call : Link F → Word → Cpu F → Cpu F
  | .stack sp, ret, c =>
    let top := c.file sp - 8
    { c.set (.saved sp) top with mem := c.mem.store top ret }
  | .register lr, ret, c => c.set (.saved lr) ret

/-- Return: the caller goes on at the address in the second component. -/
def Link.ret : Link F → Cpu F → Cpu F × Word
  | .stack sp, c => (c.set (.saved sp) (c.file sp + 8), c.mem.load (c.file sp))
  | .register lr, c => (c, c.file lr)

/-- The registers as the caller of a function finds them when it returns to `ret`. -/
def Link.view : Link F → (F → Word) → Word → F → Word
  | .stack _, v, _ => v
  | .register lr, v, ret => fun f => if f = lr then ret else v f

/-- What a call writes, made with the registers `v`. -/
def Link.footprint : Link F → (F → Word) → Region
  | .stack sp, v => wordAt (v sp - 8)
  | .register _, _ => ⟨0, 0⟩

/-- An architecture: the preserved registers in the order of the context, the code of the switch,
    and where a call leaves the return address.  The code stores and loads the whole context. -/
structure Arch where
  /-- The preserved registers, -/
  F : Type
  [decEq : DecidableEq F]
  /-- in the order in which a context has them. -/
  fields : List F
  nodup : fields.Nodup
  complete : ∀ f, f ∈ fields
  small : 8 * fields.length < 2 ^ 64
  /-- The switch, without the call and the return. -/
  code : List (Instr F)
  /-- Where a call leaves the return address. -/
  link : Link F
  /-- The code writes the old context and nothing else, -/
  code_mem : ∀ c : Cpu F, (exec code c).mem = c.mem.writeBlock fields (c.regs .old) c.file
  /-- and loads the new one, as it stands after the old one is written. -/
  code_file : ∀ (c : Cpu F) (f : F),
    (exec code c).file f = (exec code c).mem.readBlock fields (c.regs .new) f

namespace Arch

attribute [instance] Arch.decEq

variable {A : Arch} {m m' : Mem} {c v : A.F → Word} {old new ret pc x : Word} {cpu : Cpu A.F}

/-- The addresses of a context. -/
abbrev contextAt (A : Arch) (a : Word) : Region := ⟨a, 8 * A.fields.length⟩

/-- The context at `a`. -/
def readContext (A : Arch) (m : Mem) (a : Word) : A.F → Word := m.readBlock A.fields a

/-- The memory with the context `c` at `a`. -/
def writeContext (A : Arch) (m : Mem) (a : Word) (c : A.F → Word) : Mem := m.writeBlock A.fields a c

/-- The call `context_switch(old, new)`, which is to return to `ret`: the machine afterwards, and
    where it goes on. -/
def contextSwitch (A : Arch) (old new ret : Word) (cpu : Cpu A.F) : Cpu A.F × Word :=
  A.link.ret (exec A.code (A.link.call ret ((cpu.set .old old).set .new new)))

/-- The context `c` goes on with the registers `v` at `pc`. -/
def Resumes (A : Arch) (m : Mem) (c v : A.F → Word) (pc : Word) : Prop :=
  match A.link with
  | .stack sp => c sp = v sp - 8 ∧ (∀ f, f ≠ sp → c f = v f) ∧ m.load (c sp) = pc
  | .register lr => c = v ∧ v lr = pc

/-- The registers as the caller of the switch expects them back. -/
abbrev view (A : Arch) (v : A.F → Word) (ret : Word) : A.F → Word := A.link.view v ret

/-- What a call with the registers `v` writes on the stack of its caller. -/
abbrev footprint (A : Arch) (v : A.F → Word) : Region := A.link.footprint v

/-- What has been written to a context is read back. -/
theorem readContext_writeContext (a : Word) : A.readContext (A.writeContext m a c) a = c :=
  funext fun f => Mem.readBlock_writeBlock A.small (A.complete f)

/-- Writing a context changes no byte beside it. -/
theorem writeContext_of_not_mem {a : Word} (h : x ∉ A.contextAt a) : A.writeContext m a c x = m x :=
  Mem.writeBlock_of_not_mem A.small h

/-- A context is read from its own bytes only. -/
theorem readContext_congr {a : Word} (h : ∀ x ∈ A.contextAt a, m x = m' x) :
    A.readContext m a = A.readContext m' a :=
  funext fun f => Mem.readBlock_congr A.small (A.complete f) h

/-- A call leaves the view of its caller's registers alone, as far as its stack goes. -/
theorem footprint_view (v : A.F → Word) (ret : Word) : A.footprint (A.view v ret) = A.footprint v := by
  unfold footprint view
  cases A.link <;> rfl

/-- Whether a context goes on depends on what its caller has on the stack. -/
theorem Resumes.congr (h : A.Resumes m c v pc) (m' : Mem) (hm : ∀ x ∈ A.footprint v, m x = m' x) :
    A.Resumes m' c v pc := by
  unfold Resumes footprint at *
  cases hl : A.link with
  | stack sp =>
    rw [hl] at h hm
    obtain ⟨hsp, hrest, hpc⟩ := h
    refine ⟨hsp, hrest, ?_⟩
    rw [← hpc, hsp]
    exact (Mem.load_congr hm).symm
  | register lr =>
    rw [hl] at h
    exact h

/-- The memory after the call, before the code of the switch. -/
theorem call_mem_of_not_mem (h : x ∉ A.footprint cpu.file) :
    (A.link.call ret ((cpu.set .old old).set .new new)).mem x = cpu.mem x := by
  unfold footprint at h
  cases hl : A.link with
  | stack sp =>
    rw [hl] at h
    exact Mem.store_of_not_mem h
  | register lr => rfl

/-- The call leaves the first argument alone. -/
theorem call_old : (A.link.call ret ((cpu.set .old old).set .new new)).regs .old = old := by
  cases A.link <;> simp [Link.call, Cpu.set]

/-- The call leaves the second argument alone. -/
theorem call_new : (A.link.call ret ((cpu.set .old old).set .new new)).regs .new = new := by
  cases A.link <;> simp [Link.call, Cpu.set]

/-- The return writes nothing. -/
theorem ret_mem (l : Link A.F) (c : Cpu A.F) : (l.ret c).1.mem = c.mem := by
  cases l <;> rfl

/-- The memory after the switch. -/
theorem contextSwitch_mem :
    (A.contextSwitch old new ret cpu).1.mem
      = A.writeContext (A.link.call ret ((cpu.set .old old).set .new new)).mem old
          (A.link.call ret ((cpu.set .old old).set .new new)).file := by
  rw [contextSwitch, ret_mem, A.code_mem, call_old]
  rfl

/-- **The switch writes the context and the word that the call pushes, and nothing else.** -/
theorem contextSwitch_frame (cpu : Cpu A.F) (hold : x ∉ A.contextAt old) (hpush : x ∉ A.footprint cpu.file) :
    (A.contextSwitch old new ret cpu).1.mem x = cpu.mem x := by
  rw [contextSwitch_mem, writeContext_of_not_mem hold, call_mem_of_not_mem hpush]

/-- **The switch leaves a context behind that goes on where its caller was.** -/
theorem contextSwitch_saves (cpu : Cpu A.F) (h : (A.footprint cpu.file).Disjoint (A.contextAt old)) :
    A.Resumes (A.contextSwitch old new ret cpu).1.mem
      (A.readContext (A.contextSwitch old new ret cpu).1.mem old) (A.view cpu.file ret) ret := by
  rw [contextSwitch_mem, readContext_writeContext]
  unfold Resumes view footprint at *
  cases hl : A.link with
  | stack sp =>
    rw [hl] at h
    have hfile : ∀ f, ((Link.stack sp).call ret ((cpu.set .old old).set .new new)).file f
        = if f = sp then cpu.file sp - 8 else cpu.file f := by
      intro f
      by_cases hf : f = sp <;> simp [Link.call, Cpu.set, Cpu.file, hf]
    refine ⟨?_, fun f hf => ?_, ?_⟩
    · rw [hfile, if_pos rfl]
      rfl
    · rw [hfile, if_neg hf]
      rfl
    · -- the word that the call has pushed is not part of the context
      rw [hfile, if_pos rfl]
      show Mem.load (A.writeContext (cpu.mem.store (cpu.file sp - 8) ret) old _) (cpu.file sp - 8) = ret
      have hload := Mem.load_congr fun x hx => writeContext_of_not_mem
        (m := cpu.mem.store (cpu.file sp - 8) ret)
        (c := ((Link.stack sp).call ret ((cpu.set .old old).set .new new)).file) (h x hx)
      exact hload.trans Mem.load_store
  | register lr =>
    refine ⟨funext fun f => ?_, ?_⟩
    · by_cases hf : f = lr <;> simp [Link.call, Link.view, Cpu.set, Cpu.file, hf]
    · simp [Link.view]

/-- **The switch goes on with the context that it loads**, if the call does not overwrite it. -/
theorem contextSwitch_loads (cpu : Cpu A.F) (ret : Word)
    (h : A.Resumes cpu.mem (A.readContext cpu.mem new) v pc)
    (hold : (A.contextAt new).Disjoint (A.contextAt old))
    (hpush : (A.contextAt new).Disjoint (A.footprint cpu.file))
    (hvold : (A.footprint v).Disjoint (A.contextAt old))
    (hvpush : (A.footprint v).Disjoint (A.footprint cpu.file)) :
    (A.contextSwitch old new ret cpu).1.file = v ∧ (A.contextSwitch old new ret cpu).2 = pc := by
  -- the memory that the switch loads from is, there, the memory before
  have hmem : ∀ x, x ∉ A.contextAt old → x ∉ A.footprint cpu.file →
      (exec A.code (A.link.call ret ((cpu.set .old old).set .new new))).mem x = cpu.mem x := by
    intro x h1 h2
    have : (A.contextSwitch old new ret cpu).1.mem x = cpu.mem x := contextSwitch_frame cpu h1 h2
    rwa [contextSwitch, ret_mem] at this
  have hfile : (exec A.code (A.link.call ret ((cpu.set .old old).set .new new))).file
      = A.readContext cpu.mem new := by
    funext f
    rw [A.code_file, call_new]
    exact congrFun (readContext_congr fun x hx => hmem x (hold x hx) (hpush x hx)) f
  have hres := h.congr (exec A.code (A.link.call ret ((cpu.set .old old).set .new new))).mem
    fun x hx => (hmem x (hvold x hx) (hvpush x hx)).symm
  rw [← hfile] at hres
  rw [contextSwitch]
  generalize exec A.code _ = c at hres
  unfold Resumes at hres
  cases hl : A.link with
  | stack sp =>
    rw [hl] at hres
    obtain ⟨hsp, hrest, hpc⟩ := hres
    refine ⟨funext fun f => ?_, hpc⟩
    by_cases hf : f = sp
    · subst f
      simp only [Link.ret, Cpu.file, Cpu.set, if_true]
      show c.file sp + 8 = v sp
      rw [hsp]
      exact BitVec.sub_add_cancel _ _
    · have := hrest f hf
      simpa [Link.ret, Cpu.file, Cpu.set, hf] using this
  | register lr =>
    rw [hl] at hres
    obtain ⟨hc, hpc⟩ := hres
    exact ⟨hc, (congrFun hc lr).trans hpc⟩

end Arch
