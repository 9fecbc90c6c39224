import Mathlib.Algebra.BigOperators.Group.List.Basic
import Mathlib.Algebra.Order.BigOperators.Group.List
import Mathlib.Algebra.Order.Group.Nat
import Mathlib.Algebra.Ring.Nat
import Mathlib.Data.List.AList

/-!
# Slots — measures on lists of slots and on finite maps

A table of threads is a list of slots; a step replaces one slot.  A quantity spread over
the slots is the sum of a measure `f` of each, and the lemmas below say how it moves.

* `sum_map_split`, `sum_map_set` — replacing one slot moves the sum by the difference of the two
  measures;
* `le_sum_map` — one slot is at most the sum;
* `sum_map_of_unique` — a sum with one slot that counts is that slot;
* `lookup_insert_ite`, `lookup_erase_ite` — lookups in an updated map, as a case split;
* `count_cons_ite`, `count_singleton_ite` — counts, likewise.
-/

namespace Slots

variable {α β : Type*}

/-- Writing back what stands in a slot changes nothing. -/
theorem set_of_getElem? {l : List α} {i : Nat} {a : α} (h : l[i]? = some a) : l.set i a = l := by
  obtain ⟨hi, rfl⟩ := List.getElem?_eq_some_iff.mp h
  exact List.set_getElem_self hi

/-- What one slot and all others have of the quantity, before and after the slot is replaced. -/
theorem sum_map_split {M : Type*} [AddCommMonoid M] {l : List α} (f : α → M) {i : Nat} {a : α}
    (h : l[i]? = some a) :
    ∃ rest, (l.map f).sum = f a + rest ∧ ∀ b, ((l.set i b).map f).sum = f b + rest := by
  induction l generalizing i with
  | nil => simp at h
  | cons x l ih =>
    cases i with
    | zero =>
      obtain rfl : x = a := by simpa using h
      exact ⟨(l.map f).sum, by simp, by simp⟩
    | succ i =>
      obtain ⟨rest, hl, hset⟩ := ih (i := i) (by simpa using h)
      refine ⟨f x + rest, ?_, fun b => ?_⟩
      · rw [List.map_cons, List.sum_cons, hl, add_left_comm]
      · rw [List.set_cons_succ, List.map_cons, List.sum_cons, hset, add_left_comm]

/-- Replacing slot `i`. -/
theorem sum_map_set {l : List α} (f : α → Nat) {i : Nat} {a : α} (b : α) (h : l[i]? = some a) :
    ((l.set i b).map f).sum + f a = (l.map f).sum + f b := by
  obtain ⟨rest, hl, hset⟩ := sum_map_split f h
  have := hset b
  omega

/-- One slot is at most the sum. -/
theorem le_sum_map {l : List α} (f : α → Nat) {i : Nat} {a : α} (h : l[i]? = some a) :
    f a ≤ (l.map f).sum :=
  List.single_le_sum (by simp) _ (List.mem_map_of_mem (List.mem_of_getElem? h))

/-- Two different slots are together at most the sum. -/
theorem add_le_sum_map {l : List α} (f : α → Nat) {i j : Nat} {a b : α} (hi : l[i]? = some a)
    (hj : l[j]? = some b) (hij : i ≠ j) : f a + f b ≤ (l.map f).sum := by
  induction l generalizing i j with
  | nil => simp at hi
  | cons x l ih =>
    cases i with
    | zero =>
      obtain ⟨j, rfl⟩ := Nat.exists_eq_succ_of_ne_zero (Ne.symm hij)
      obtain rfl : x = a := by simpa using hi
      have := le_sum_map f (l := l) (i := j) (by simpa using hj)
      simp only [List.map_cons, List.sum_cons]
      omega
    | succ i =>
      cases j with
      | zero =>
        obtain rfl : x = b := by simpa using hj
        have := le_sum_map f (l := l) (i := i) (by simpa using hi)
        simp only [List.map_cons, List.sum_cons]
        omega
      | succ j =>
        have := ih (i := i) (j := j) (by simpa using hi) (by simpa using hj) (by omega)
        simp only [List.map_cons, List.sum_cons]
        omega

/-- Slots that measure zero sum to zero. -/
theorem sum_map_eq_zero {l : List α} {f : α → Nat} (h : ∀ a ∈ l, f a = 0) : (l.map f).sum = 0 :=
  List.sum_eq_zero fun n hn => by
    obtain ⟨a, ha, rfl⟩ := List.mem_map.mp hn
    exact h a ha

/-- When only one slot may measure something, the sum is that slot. -/
theorem sum_map_of_unique {l : List α} {f : α → Nat} {i : Nat} {a : α} (hi : l[i]? = some a)
    (h : ∀ j b, l[j]? = some b → j ≠ i → f b = 0) : (l.map f).sum = f a := by
  induction l generalizing i with
  | nil => simp at hi
  | cons x l ih =>
    rw [List.map_cons, List.sum_cons]
    cases i with
    | zero =>
      obtain rfl : x = a := by simpa using hi
      rw [sum_map_eq_zero fun b hb => ?_, Nat.add_zero]
      obtain ⟨j, hj⟩ := List.mem_iff_getElem?.mp hb
      exact h (j + 1) b (by simpa using hj) (by omega)
    | succ i =>
      rw [h 0 x (by simp) (by omega), Nat.zero_add]
      exact ih (by simpa using hi) fun j b hj hne => h (j + 1) b (by simpa using hj) (by omega)

/-- A sum is positive only through one of its slots. -/
theorem exists_pos_of_sum_pos {l : List α} {f : α → Nat} (h : 0 < (l.map f).sum) :
    ∃ (i : Nat) (a : α), l[i]? = some a ∧ 0 < f a := by
  induction l with
  | nil => simp at h
  | cons x l ih =>
    by_cases hx : 0 < f x
    · exact ⟨0, x, by simp, hx⟩
    · obtain ⟨i, a, hi, ha⟩ := ih (by simpa [Nat.eq_zero_of_not_pos hx] using h)
      exact ⟨i + 1, a, by simpa using hi, ha⟩

section Map

variable [DecidableEq α]

/-- Looking up after an insertion. -/
theorem lookup_insert_ite (m : AList (fun _ : α => β)) (a b : α) (v : β) :
    (m.insert a v).lookup b = if b = a then some v else m.lookup b := by
  split
  · subst b; exact AList.lookup_insert m
  · exact AList.lookup_insert_ne ‹_›

/-- Looking up after a removal. -/
theorem lookup_erase_ite (m : AList (fun _ : α => β)) (a b : α) :
    (m.erase a).lookup b = if b = a then none else m.lookup b := by
  split
  · subst b; exact AList.lookup_erase a m
  · exact AList.lookup_erase_ne ‹_›

/-- A map without keys answers no lookup. -/
theorem lookup_of_keys_nil {m : AList (fun _ : α => β)} (h : m.keys = []) (a : α) :
    m.lookup a = none :=
  AList.lookup_eq_none.mpr (by rw [AList.mem_keys, h]; simp)

/-- Counting in a list with one more entry. -/
theorem count_cons_ite (a b : α) (l : List α) :
    (a :: l).count b = l.count b + if b = a then 1 else 0 := by
  rw [List.count_cons]
  simp only [beq_iff_eq, @eq_comm _ a b]

/-- Counting in a list of one entry. -/
theorem count_singleton_ite (a b : α) : [a].count b = if b = a then 1 else 0 := by
  rw [count_cons_ite, List.count_nil, Nat.zero_add]

end Map

end Slots
