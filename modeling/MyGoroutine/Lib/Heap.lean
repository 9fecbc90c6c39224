import MyGoroutine.Lib.History
import Mathlib.Data.List.Perm.Subperm
import Mathlib.Order.Basic

/-!
# Priority queues — histories of pushes and pops

A priority queue is used through pushes, and through pops that take an entry with the least key.
Its contents are a list up to order: equal entries count.

* `PriorityQueue.Op`, `contents` — the operations, and what they leave;
* `pushes`, `pops` — the entries that have come and gone;
* `Least` — the law of a pop, for `History.Each`;
* `contents_perm` — nothing is lost, and nothing comes twice;
* `firstComers`, `firstComers_sorted` — those of the popped entries that were there from the start
  have come out in the order of their keys.
-/

namespace PriorityQueue

/-- What is done to the queue. -/
inductive Op (α : Type*) where
  | push (a : α)
  | pop (a : α)

variable {α β : Type*}

/-- The entry that the operation pushes. -/
def Op.pushed? : Op α → Option α
  | .push a => some a
  | .pop _ => none

/-- The entry that the operation pops. -/
def Op.popped? : Op α → Option α
  | .push _ => none
  | .pop a => some a

/-- The entries that the operations have pushed. -/
def pushes (ops : List (Op α)) : List α := ops.filterMap Op.pushed?

/-- The entries that the operations have popped. -/
def pops (ops : List (Op α)) : List α := ops.filterMap Op.popped?

variable [DecidableEq α]

/-- The contents after one operation. -/
def Op.apply (h : List α) : Op α → List α
  | .push a => a :: h
  | .pop a => h.erase a

/-- The contents after some operations. -/
def contents (h : List α) (ops : List (Op α)) : List α := ops.foldl Op.apply h

section Contents

variable {h : List α} {ops ops' : List (Op α)} {op : Op α}

@[simp] theorem contents_nil : contents h [] = h := rfl

@[simp] theorem contents_cons : contents h (op :: ops) = contents (op.apply h) ops := rfl

/-- The contents are built up operation by operation. -/
theorem contents_append : contents h (ops ++ ops') = contents (contents h ops) ops' :=
  List.foldl_append

end Contents

section Law

variable [LE β] (k : α → β) {h : List α} {ops ops' : List (Op α)} {op : Op α}

/-- A pop takes an entry that is there, and none has a smaller key. -/
def Least (h : List α) (before : List (Op α)) : Op α → Prop
  | .push _ => True
  | .pop a => a ∈ contents h before ∧ ∀ x ∈ contents h before, k a ≤ k x

variable {k}

/-- The law for the operations that follow others. -/
theorem least_append (hlaw : History.Each (Least k h) (ops ++ ops')) :
    History.Each (Least k (contents h ops)) ops' := by
  intro before e after heq
  have := hlaw (ops ++ before) e after (by rw [heq, List.append_assoc])
  cases e with
  | push a => trivial
  | pop a =>
    unfold Least at this ⊢
    rwa [contents_append] at this

/-- **Nothing is lost**: what is there and what has come out is what was there and what has come
    in. -/
theorem contents_perm (hlaw : History.Each (Least k h) ops) :
    (contents h ops ++ pops ops).Perm (h ++ pushes ops) := by
  induction ops using List.reverseRecOn with
  | nil => exact List.Perm.refl _
  | append_singleton ops op ih =>
    have ih := ih hlaw.init
    have hop := hlaw ops op [] rfl
    rw [contents_append]
    cases op with
    | push a =>
      have hpops : pops (ops ++ [.push a]) = pops ops := by simp [pops, Op.popped?]
      have hpushes : pushes (ops ++ [.push a]) = pushes ops ++ [a] := by simp [pushes, Op.pushed?]
      rw [hpops, hpushes, ← List.append_assoc]
      exact (ih.cons a).trans (List.perm_append_singleton a _).symm
    | pop a =>
      obtain ⟨hmem, -⟩ := hop
      have hpops : pops (ops ++ [.pop a]) = pops ops ++ [a] := by simp [pops, Op.popped?]
      have hpushes : pushes (ops ++ [.pop a]) = pushes ops := by simp [pushes, Op.pushed?]
      rw [hpops, hpushes, ← List.append_assoc]
      have hback : (a :: ((contents h ops).erase a ++ pops ops)).Perm (contents h ops ++ pops ops) :=
        (List.perm_cons_erase hmem).symm.append_right _
      exact (List.perm_append_singleton a _).trans (hback.trans ih)

/-! ### Entries from the start

Pushes go on while the entries come out, so what is popped is not sorted as a whole. But of the
entries that were there from the start, none can overtake a smaller one.
-/

/-- Those of the popped entries `as` that were in `h` from the start; of equal entries the old ones
    come first. -/
def firstComers : List α → List α → List α
  | _, [] => []
  | h, a :: as => if a ∈ h then a :: firstComers (h.erase a) as else firstComers h as

/-- The first comers were there from the start. -/
theorem mem_of_mem_firstComers {as : List α} {x : α} (hx : x ∈ firstComers h as) : x ∈ h := by
  induction as generalizing h with
  | nil => cases hx
  | cons a as ih =>
    rw [firstComers] at hx
    split at hx
    · next ha =>
      rcases List.mem_cons.mp hx with rfl | hx
      · exact ha
      · exact List.mem_of_mem_erase (ih hx)
    · exact ih hx

/-- The old entries that are left are in the queue, so each pop takes one that is before them. -/
theorem firstComers_sorted_of_subperm {old : List α} (hold : old.Subperm h)
    (hlaw : History.Each (Least k h) ops) :
    (firstComers old (pops ops)).Pairwise fun a b => k a ≤ k b := by
  induction ops generalizing h old with
  | nil => exact List.Pairwise.nil
  | cons op ops ih =>
    have hop := hlaw [] op ops rfl
    have hlaw' : History.Each (Least k (contents h [op])) ops := least_append hlaw
    cases op with
    | push a => exact ih (hold.trans (List.sublist_cons_self a h).subperm) hlaw'
    | pop a =>
      obtain ⟨-, hmin⟩ := hop
      have hpops : pops (.pop a :: ops) = a :: pops ops := rfl
      rw [hpops, firstComers]
      split
      · refine List.pairwise_cons.mpr ⟨fun b hb => ?_, ih (hold.erase a) hlaw'⟩
        exact hmin b (hold.subset (List.mem_of_mem_erase (mem_of_mem_firstComers hb)))
      · next ha =>
        refine ih ?_ hlaw'
        have := hold.erase a
        rwa [List.erase_of_not_mem ha] at this

/-- **Entries that were there from the start come out in order**, whatever is pushed meanwhile. -/
theorem firstComers_sorted (hlaw : History.Each (Least k h) ops) :
    (firstComers h (pops ops)).Pairwise fun a b => k a ≤ k b :=
  firstComers_sorted_of_subperm (List.Subperm.refl h) hlaw

end Law

end PriorityQueue
