import Mathlib.Algebra.Ring.Nat
import Mathlib.Data.Finset.Basic
import Mathlib.Data.List.Nodup

/-!
# Memory — bytes, words, regions and blocks of words

Memory is a function from 64-bit addresses to bytes; addresses wrap around.

* `Mem.load`, `Mem.store` — little-endian words, and what a load sees after a store;
* `Region` — a range of addresses; `Region.Disjoint` and `Region.Subset`, with the executable tests
  `apart` and `within`;
* `Mem.readBlock`, `Mem.writeBlock` — consecutive words under names `F`, in the order of a list: the
  layout of a record whose fields are words.
-/

/-- A machine word, and an address. -/
abbrev Word := BitVec 64

/-- The memory, byte by byte. -/
abbrev Mem := Word → BitVec 8

/-- The addresses from `base` on, `size` of them. -/
structure Region where
  base : Word
  size : Nat

namespace Region

instance : Membership Word Region := ⟨fun r x => (x - r.base).toNat < r.size⟩

instance (r : Region) (x : Word) : Decidable (x ∈ r) :=
  inferInstanceAs (Decidable ((x - r.base).toNat < r.size))

variable {r r' : Region} {x : Word}

/-- An address is in a region when it lies less than its size behind its base, with wrap-around. -/
theorem mem_def : x ∈ r ↔ (x - r.base).toNat < r.size := Iff.rfl

/-- No address is in both regions. -/
def Disjoint (r r' : Region) : Prop := ∀ x ∈ r, x ∉ r'

/-- Every address of `r` is in `r'`. -/
def Subset (r r' : Region) : Prop := ∀ x ∈ r, x ∈ r'

/-- Disjointness does not depend on the order. -/
theorem Disjoint.symm (h : r.Disjoint r') : r'.Disjoint r := fun x hx' hx => h x hx hx'

/-- A part of a region is disjoint from what the region is disjoint from. -/
theorem Subset.disjoint {r'' : Region} (h : r.Subset r') (hd : r'.Disjoint r'') : r.Disjoint r'' :=
  fun x hx => hd x (h x hx)

/-- A test for disjoint regions. -/
def apart (r r' : Region) : Bool :=
  decide (r.size ≤ (r'.base - r.base).toNat) && decide (r'.size ≤ (r.base - r'.base).toNat)

/-- The test for two regions that do not wrap around. -/
theorem disjoint_of_apart (h : r.apart r' = true) : r.Disjoint r' := by
  obtain ⟨h1, h2⟩ := Bool.and_eq_true_iff.mp h
  have h1 := of_decide_eq_true h1
  have h2 := of_decide_eq_true h2
  intro x hx
  rw [mem_def] at hx ⊢
  bv_omega

/-- Regions of at most `n` bytes, with bases that are `n` apart. -/
theorem apart_of_le {a b : Word} {k l n : Nat} (hk : k ≤ n) (hl : l ≤ n) (hab : n ≤ (b - a).toNat)
    (hba : n ≤ (a - b).toNat) : apart ⟨a, k⟩ ⟨b, l⟩ = true :=
  Bool.and_eq_true_iff.mpr ⟨decide_eq_true (hk.trans hab), decide_eq_true (hl.trans hba)⟩

/-- A test for one region inside another one. -/
def within (r r' : Region) : Bool :=
  decide (r.size = 0) || decide ((r.base - r'.base).toNat + r.size ≤ r'.size)

/-- The test for a part of a region that does not wrap around. -/
theorem subset_of_within (h : r.within r' = true) : r.Subset r' := by
  intro x hx
  rw [mem_def] at hx ⊢
  rcases Bool.or_eq_true_iff.mp h with h | h
  · have h := of_decide_eq_true h
    omega
  · have h := of_decide_eq_true h
    bv_omega

/-- A region at an offset inside another one. -/
theorem mem_of_le {b : Word} {off n size : Nat} (h : x ∈ (⟨b + BitVec.ofNat 64 off, n⟩ : Region))
    (hle : off + n ≤ size) (hsize : size < 2 ^ 64) : x ∈ (⟨b, size⟩ : Region) := by
  rw [mem_def] at h ⊢
  simp only at h ⊢
  bv_omega

end Region

/-- The addresses of the word at `a`. -/
abbrev wordAt (a : Word) : Region := ⟨a, 8⟩

namespace Mem

variable {m m' : Mem} {a b v x : Word}

/-- Byte `i` of a word. -/
def byteOf (v : Word) (i : Nat) : BitVec 8 := v.extractLsb' (8 * i) 8

/-- A word is stored, the lowest byte first. -/
def store (m : Mem) (a v : Word) : Mem := fun x =>
  if (x - a).toNat < 8 then byteOf v (x - a).toNat else m x

/-- The word with the bytes `f 0` to `f 7`, the lowest first. -/
def assemble (f : Nat → BitVec 8) : Word := f 7 ++ f 6 ++ f 5 ++ f 4 ++ f 3 ++ f 2 ++ f 1 ++ f 0

/-- A word is loaded. -/
def load (m : Mem) (a : Word) : Word := assemble fun i => m (a + BitVec.ofNat 64 i)

/-- A word is put together from eight bytes. -/
theorem assemble_congr {f g : Nat → BitVec 8} (h : ∀ i < 8, f i = g i) : assemble f = assemble g := by
  simp only [assemble, h 0 (by omega), h 1 (by omega), h 2 (by omega), h 3 (by omega),
    h 4 (by omega), h 5 (by omega), h 6 (by omega), h 7 (by omega)]

/-- A word is made of its bytes. -/
theorem assemble_byteOf (v : Word) : assemble (byteOf v) = v := by
  unfold assemble byteOf
  ext i hi
  simp only [BitVec.getElem_append, BitVec.getElem_extractLsb']
  grind

/-- The eight bytes of a word. -/
theorem add_mem_wordAt {i : Nat} (hi : i < 8) : a + BitVec.ofNat 64 i ∈ wordAt a := by
  rw [Region.mem_def]
  simp only
  bv_omega

/-- A store changes no byte beside its word. -/
theorem store_of_not_mem (h : x ∉ wordAt a) : m.store a v x = m x := if_neg h

/-- **A load sees the word that was stored at its address.** -/
@[simp] theorem load_store : (m.store a v).load a = v := by
  have h : ∀ i < 8, m.store a v (a + BitVec.ofNat 64 i) = byteOf v i := by
    intro i hi
    have hsub : (a + BitVec.ofNat 64 i - a).toNat = i := by bv_omega
    rw [store, hsub, if_pos hi]
  exact (assemble_congr h).trans (assemble_byteOf v)

/-- A load depends on the bytes of its word. -/
theorem load_congr (h : ∀ x ∈ wordAt a, m x = m' x) : m.load a = m'.load a :=
  assemble_congr fun _ hi => h _ (add_mem_wordAt hi)

/-! ### Blocks of words

A context is a block of words, one for each register. It is written and read word by word.
-/

section Block

variable {F : Type*} {fs : List F} {f : F} {c : F → Word}

/-- A record of words is written, field by field. -/
def writeBlock : List F → Mem → Word → (F → Word) → Mem
  | [], m, _, _ => m
  | f :: fs, m, a, c => writeBlock fs (m.store a (c f)) (a + 8) c

/-- The addresses of the block. -/
abbrev blockAt (fs : List F) (a : Word) : Region := ⟨a, 8 * fs.length⟩

/-- Writing a block leaves the other addresses alone. -/
theorem writeBlock_of_not_mem (hlen : 8 * fs.length < 2 ^ 64) (h : x ∉ blockAt fs a) :
    writeBlock fs m a c x = m x := by
  induction fs generalizing m a with
  | nil => rfl
  | cons f fs ih =>
    rw [Region.mem_def] at h
    simp only [List.length_cons] at h hlen
    have htail : x ∉ blockAt fs (a + 8) := by
      rw [Region.mem_def]
      simp only
      bv_omega
    rw [writeBlock, ih (by omega) htail]
    refine store_of_not_mem ?_
    rw [Region.mem_def]
    simp only
    omega

variable [DecidableEq F]

/-- The word `f` of the block of `fs` at `a`. -/
def readBlock (fs : List F) (m : Mem) (a : Word) (f : F) : Word :=
  m.load (a + BitVec.ofNat 64 (8 * fs.idxOf f))

/-- **A block is read as it was written.** -/
theorem readBlock_writeBlock (hlen : 8 * fs.length < 2 ^ 64) (hf : f ∈ fs) :
    readBlock fs (writeBlock fs m a c) a f = c f := by
  induction fs generalizing m a with
  | nil => cases hf
  | cons g fs ih =>
    simp only [List.length_cons] at hlen
    by_cases hg : g = f
    · -- the rest of the block is written behind the first word
      subst g
      rw [readBlock, List.idxOf_cons_self, writeBlock]
      have hzero : a + BitVec.ofNat 64 (8 * 0) = a := by simp
      rw [hzero]
      have hload : (writeBlock fs (m.store a (c f)) (a + 8) c).load a = (m.store a (c f)).load a := by
        refine load_congr fun x hx => writeBlock_of_not_mem (by omega) fun hx' => ?_
        rw [Region.mem_def] at hx hx'
        simp only at hx hx'
        bv_omega
      exact hload.trans load_store
    · have hf : f ∈ fs := (List.mem_cons.mp hf).resolve_left (Ne.symm hg)
      have haddr : a + BitVec.ofNat 64 (8 * (fs.idxOf f + 1))
          = a + 8 + BitVec.ofNat 64 (8 * fs.idxOf f) := by
        bv_omega
      have hread : ∀ m : Mem, readBlock (g :: fs) m a f = readBlock fs m (a + 8) f := by
        intro m
        rw [readBlock, List.idxOf_cons_ne _ hg, haddr]
        rfl
      rw [hread, writeBlock, ih (by omega) hf]

/-- What is read depends on the addresses of the block. -/
theorem readBlock_congr (hlen : 8 * fs.length < 2 ^ 64) (hf : f ∈ fs)
    (h : ∀ x ∈ blockAt fs a, m x = m' x) : readBlock fs m a f = readBlock fs m' a f := by
  have hlt : fs.idxOf f < fs.length := List.idxOf_lt_length_of_mem hf
  refine load_congr fun x hx => h x ?_
  exact Region.mem_of_le hx (by omega) hlen

end Block

end Mem
