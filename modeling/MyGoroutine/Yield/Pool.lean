import MyGoroutine.Model.Yield
import Mathlib.Algebra.BigOperators.Group.Multiset.Basic

namespace MyGoroutine.Yield

/-!
# The pool of live tasks

What the three runtimes do, whoever runs the worker loop: there is a pool of live tasks, and at
each step one of them goes on.  Where a task is kept meanwhile (in the queue, on some worker, in
the hands of `go`) plays no part here.

* `Strand` — a live task, as far as it matters what it still has to do;
* `Pool`, `Pool.Step` — the pool with the events so far, and what one step does to it;
* `seen`, `closures`, `submitted` — what the events say: what has been seen of one task, which
  closures have been made tasks, and which of them by the main thread;
* `Pool.Inv`, `Pool.Step.inv` — what holds of every pool: ids are not shared, what has been seen of
  a task and what it still has to do make up its program, and the tasks created and those still to
  be spawned make up the trees of the tasks submitted.
-/

variable {α : Type}

/-- A live task. -/
structure Strand (α : Type) where
  id : TaskId
  /-- It has to be resumed before it goes on. -/
  ready : Bool
  rest : Script α

/-- What will be seen of the task. -/
def Strand.left (x : Strand α) : List (Seen α) :=
  if x.ready then .resume :: x.rest.steps else x.rest.steps

/-- The tasks that are not finished, whoever has them. -/
structure Pool (α : Type) where
  strands : Multiset (Strand α)
  nextId : TaskId
  log : List (Event α)

/-! ### Reading the events

Each event is seen at one task, or at none, and tells one thing of it: a resumption, a step of its
own, its end. What has been seen of a task is compared with what its program shows.
-/

/-- The task at which the event is seen, and as what. -/
def Event.seen? : Event α → Option (TaskId × Seen α)
  | .created (some parent) _ f => some (parent, .go f)
  | .created none _ _ => none
  | .enqueued _ => none
  | .resumed id => some (id, .resume)
  | .acted id a => some (id, .act a)
  | .blocked id a => some (id, .io a)
  | .yielded id => some (id, .gosched)
  | .finished id => some (id, .finish)
  | .shutDown _ => none

/-- What the event shows of the task `id`. -/
def Event.seenOf (id : TaskId) (e : Event α) : Option (Seen α) :=
  e.seen?.bind fun p => if p.1 = id then some p.2 else none

/-- The closure that the event makes a task. -/
def Event.closure? : Event α → Option (Script α)
  | .created _ _ f => some f
  | _ => none

/-- The closure that the main thread makes a task. -/
def Event.submitted? : Event α → Option (Script α)
  | .created none _ f => some f
  | _ => none

/-- Nothing is created, and no task is concerned. -/
def Event.Quiet (e : Event α) : Prop := e.seen? = none ∧ e.closure? = none

/-- What has been seen of the task `id`. -/
def seen (id : TaskId) (l : List (Event α)) : List (Seen α) := l.filterMap (Event.seenOf id)

/-- The closures that have been made tasks. -/
def closures (l : List (Event α)) : List (Script α) := l.filterMap Event.closure?

/-- The closures that the main thread has passed to `go`. -/
def submitted (l : List (Event α)) : List (Script α) := l.filterMap Event.submitted?

/-- What is seen of a task grows with the history. -/
@[simp] theorem seen_append (id : TaskId) (l l' : List (Event α)) :
    seen id (l ++ l') = seen id l ++ seen id l' :=
  List.filterMap_append

/-- The closures grow with the history. -/
@[simp] theorem closures_append (l l' : List (Event α)) :
    closures (l ++ l') = closures l ++ closures l' :=
  List.filterMap_append

/-- The submitted closures grow with the history. -/
@[simp] theorem submitted_append (l l' : List (Event α)) :
    submitted (l ++ l') = submitted l ++ submitted l' :=
  List.filterMap_append

/-- What creates no task submits none. -/
theorem Event.submitted?_of_closure? {e : Event α} (h : e.closure? = none) :
    e.submitted? = none := by
  cases e with
  | created parent id f => cases h
  | _ => rfl

/-- An event of the task `id`. -/
theorem seen_self {id : TaskId} {e : Event α} {x : Seen α} (h : e.seen? = some (id, x)) :
    seen id [e] = [x] := by
  simp [seen, Event.seenOf, h]

/-- An event of another task. -/
theorem seen_other {id i : TaskId} {e : Event α} {x : Seen α} (h : e.seen? = some (i, x))
    (hne : i ≠ id) : seen id [e] = [] := by
  simp [seen, Event.seenOf, h, hne]

/-- An event of no task. -/
theorem seen_none {id : TaskId} {e : Event α} (h : e.seen? = none) : seen id [e] = [] := by
  simp [seen, Event.seenOf, h]

/-! ### Steps

The pool is the abstract runtime: any of its live tasks may go on, in any order.
-/

/-- A task goes on, and spawns nothing. -/
inductive Advance : Strand α → Event α → Strand α → Prop where
  | resume (id : TaskId) (k : Script α) : Advance ⟨id, true, k⟩ (.resumed id) ⟨id, false, k⟩
  | act (id : TaskId) (a : α) (k : Script α) :
      Advance ⟨id, false, .act a k⟩ (.acted id a) ⟨id, false, k⟩
  | io (id : TaskId) (a : α) (k : Script α) :
      Advance ⟨id, false, .io a k⟩ (.blocked id a) ⟨id, false, k⟩
  | gosched (id : TaskId) (k : Script α) :
      Advance ⟨id, false, .gosched k⟩ (.yielded id) ⟨id, true, k⟩

/-- What can happen to the pool. -/
inductive Pool.Step : Pool α → Pool α → Prop where
  /-- One strand goes on. -/
  | advance {x x' : Strand α} {e : Event α} (h : Advance x e x') (r : Multiset (Strand α))
      (n : TaskId) (l : List (Event α)) : Step ⟨x ::ₘ r, n, l⟩ ⟨x' ::ₘ r, n, l ++ [e]⟩
  /-- A strand creates another. -/
  | go (id : TaskId) (f k : Script α) (r : Multiset (Strand α)) (n : TaskId) (l : List (Event α)) :
      Step ⟨⟨id, false, .go f k⟩ ::ₘ r, n, l⟩
        ⟨⟨n, true, f⟩ ::ₘ ⟨id, false, k⟩ ::ₘ r, n + 1, l ++ [.created (some id) n f]⟩
  /-- A strand ends. -/
  | finish (id : TaskId) (r : Multiset (Strand α)) (n : TaskId) (l : List (Event α)) :
      Step ⟨⟨id, false, .done⟩ ::ₘ r, n, l⟩ ⟨r, n, l ++ [.finished id]⟩
  /-- The main thread calls `go`. -/
  | submit (f : Script α) (r : Multiset (Strand α)) (n : TaskId) (l : List (Event α)) :
      Step ⟨r, n, l⟩ ⟨⟨n, true, f⟩ ::ₘ r, n + 1, l ++ [.created none n f]⟩
  /-- Nothing happens to any task. -/
  | quiet {es : List (Event α)} (h : ∀ e ∈ es, e.Quiet) (r : Multiset (Strand α)) (n : TaskId)
      (l : List (Event α)) : Step ⟨r, n, l⟩ ⟨r, n, l ++ es⟩

/-- Standing still is a step of the pool. -/
theorem Pool.Step.refl (p : Pool α) : Pool.Step p p := by
  have hnil : ∀ e ∈ ([] : List (Event α)), e.Quiet := by simp
  simpa using Pool.Step.quiet hnil p.strands p.nextId p.log

namespace Advance

variable {x x' : Strand α} {e : Event α}

/-- A strand keeps its id. -/
theorem id_eq (h : Advance x e x') : x'.id = x.id := by cases h <;> rfl

/-- A strand spawns the same children, before and after it advances. -/
theorem spawns_eq (h : Advance x e x') : x'.rest.spawns = x.rest.spawns := by cases h <;> rfl

/-- Advancing creates no task. -/
theorem closure? (h : Advance x e x') : e.closure? = none := by cases h <;> rfl

/-- What is seen is the next of what was to be seen. -/
theorem left_eq (h : Advance x e x') :
    ∃ y, e.seen? = some (x.id, y) ∧ x.left = y :: x'.left := by
  cases h <;> exact ⟨_, rfl, rfl⟩

end Advance

/-! ### What holds of every pool

What was seen of a task and what it has left to do make up its program. This is kept by every step,
so at the end everything has been seen.
-/

/-- The task `id` with the closure `f`: what has been seen of it and what it still has to do make
    up its program; once it has nothing left to do it is not in the pool. -/
def Pool.Accounts (p : Pool α) (id : TaskId) (f : Script α) : Prop :=
  (seen id p.log = f.trace ∧ ∀ x ∈ p.strands, x.id ≠ id) ∨
    ∃ x ∈ p.strands, x.id = id ∧ seen id p.log ++ x.left = f.trace

/-- What holds of every pool. -/
structure Pool.Inv (p : Pool α) : Prop where
  /-- No two strands have one id, -/
  nodup : (p.strands.map Strand.id).Nodup
  /-- and no id is one that is still to be given out. -/
  below : ∀ x ∈ p.strands, x.id < p.nextId
  /-- Created tasks have an id that was given out, -/
  born : ∀ parent id f, .created parent id f ∈ p.log → id < p.nextId
  /-- and nothing is seen of the others. -/
  unborn : ∀ id, p.nextId ≤ id → seen id p.log = []
  /-- Every created task is accounted for. -/
  accounts : ∀ parent id f, .created parent id f ∈ p.log → p.Accounts id f
  /-- The closures that were created and those still to come are the ones that the calls of the main
      thread lead to. -/
  trees : (closures p.log : Multiset (Script α)) + (p.strands.map fun x => x.rest.spawns).sum
    = ((submitted p.log).map Script.tree).sum

namespace Pool

variable {p : Pool α} {x x' : Strand α} {r ys : Multiset (Strand α)} {n : TaskId}
  {l es : List (Event α)} {e : Event α} {id : TaskId} {f : Script α}

/-- Only one task of the pool has the id of `x`. -/
theorem Inv.eq_of_id (hi : Pool.Inv ⟨x ::ₘ r, n, l⟩) {y : Strand α} (hy : y ∈ r) : y.id ≠ x.id := by
  have hnd : ((x ::ₘ r).map Strand.id).Nodup := hi.nodup
  rw [Multiset.map_cons, Multiset.nodup_cons] at hnd
  intro h
  exact hnd.1 (h ▸ Multiset.mem_map_of_mem Strand.id hy)

/-- The account of another task stays, when the events do not concern it. -/
theorem Accounts.other {m : TaskId} (h : Accounts ⟨x ::ₘ r, n, l⟩ id f) (hx : x.id ≠ id)
    (hys : ∀ y ∈ ys, y.id ≠ id) (hes : seen id es = []) :
    Accounts ⟨ys + r, m, l ++ es⟩ id f := by
  have hseen : seen id (l ++ es) = seen id l := by rw [seen_append, hes, List.append_nil]
  rcases h with ⟨hs, hno⟩ | ⟨y, hy, hid, hs⟩
  · refine .inl ⟨hseen.trans hs, fun y hy => ?_⟩
    rcases Multiset.mem_add.mp hy with hy | hy
    · exact hys y hy
    · exact hno y (Multiset.mem_cons_of_mem hy)
  · rcases Multiset.mem_cons.mp hy with rfl | hy
    · exact absurd hid hx
    · refine .inr ⟨y, Multiset.mem_add.mpr (.inr hy), hid, ?_⟩
      show seen id (l ++ es) ++ y.left = f.trace
      rw [hseen]
      exact hs

/-- The account of the task that takes the step. -/
theorem Accounts.own (h : Accounts ⟨x ::ₘ r, n, l⟩ x.id f) (hr : ∀ y ∈ r, y.id ≠ x.id) :
    seen x.id l ++ x.left = f.trace := by
  rcases h with ⟨-, hno⟩ | ⟨y, hy, hid, hs⟩
  · exact absurd rfl (hno x (Multiset.mem_cons_self x r))
  · rcases Multiset.mem_cons.mp hy with rfl | hy
    · exact hs
    · exact absurd hid (hr y hy)

/-- An event that creates no task. -/
theorem mem_of_closure? {parent : Option TaskId} (he : e.closure? = none)
    (h : Event.created parent id f ∈ l ++ [e]) : Event.created parent id f ∈ l := by
  rcases List.mem_append.mp h with h | h
  · exact h
  · rw [← List.mem_singleton.mp h] at he
    cases he

/-- An event that creates no task adds no closure. -/
theorem closures_concat (he : e.closure? = none) : closures (l ++ [e]) = closures l := by
  rw [closures_append, closures, closures, List.filterMap_cons, he, List.filterMap_nil,
    List.append_nil]

/-- An event that creates no task submits none. -/
theorem submitted_concat (he : e.closure? = none) : submitted (l ++ [e]) = submitted l := by
  rw [submitted_append, submitted, submitted, List.filterMap_cons, Event.submitted?_of_closure? he,
    List.filterMap_nil, List.append_nil]

/-- The invariant survives a strand that advances. -/
theorem Inv.advance (hi : Inv ⟨x ::ₘ r, n, l⟩) (h : Advance x e x') :
    Inv ⟨x' ::ₘ r, n, l ++ [e]⟩ := by
  obtain ⟨y, he, hleft⟩ := h.left_eq
  have hx : x.id < n := hi.below x (Multiset.mem_cons_self x r)
  constructor
  · show ((x' ::ₘ r).map Strand.id).Nodup
    rw [Multiset.map_cons, h.id_eq, ← Multiset.map_cons]
    exact hi.nodup
  · intro z hz
    rcases Multiset.mem_cons.mp hz with rfl | hz
    · exact h.id_eq ▸ hx
    · exact hi.below z (Multiset.mem_cons_of_mem hz)
  · intro parent i f hc
    exact hi.born parent i f (mem_of_closure? h.closure? hc)
  · intro i hn
    have hne : x.id ≠ i := Nat.ne_of_lt (Nat.lt_of_lt_of_le hx hn)
    show seen i (l ++ [e]) = []
    rw [seen_append, seen_other he hne, List.append_nil]
    exact hi.unborn i hn
  · intro parent i f hc
    have ha := hi.accounts parent i f (mem_of_closure? h.closure? hc)
    by_cases hid : x.id = i
    · -- the step is the next one of the program
      subst i
      refine .inr ⟨x', Multiset.mem_cons_self x' r, h.id_eq, ?_⟩
      show seen x.id (l ++ [e]) ++ x'.left = f.trace
      rw [seen_append, seen_self he, List.append_assoc, List.singleton_append, ← hleft]
      exact ha.own fun y hy => hi.eq_of_id hy
    · have hx' : ∀ z ∈ ({x'} : Multiset (Strand α)), z.id ≠ i := by
        intro z hz
        rw [Multiset.mem_singleton.mp hz, h.id_eq]
        exact hid
      have := ha.other (m := n) hid hx' (seen_other he hid)
      rwa [Multiset.singleton_add] at this
  · have ht := hi.trees
    simp only [Multiset.map_cons, Multiset.sum_cons] at ht ⊢
    rw [closures_concat h.closure?, submitted_concat h.closure?, h.spawns_eq]
    exact ht

/-- The invariant survives the end of a strand. -/
theorem Inv.finish (hi : Inv ⟨⟨id, false, .done⟩ ::ₘ r, n, l⟩) :
    Inv ⟨r, n, l ++ [.finished id]⟩ := by
  have hid : id < n := hi.below _ (Multiset.mem_cons_self _ r)
  have hr : ∀ y ∈ r, y.id ≠ id := fun y hy => hi.eq_of_id hy
  have he : (Event.finished id : Event α).seen? = some (id, .finish) := rfl
  constructor
  · have hnd := hi.nodup
    simp only [Multiset.map_cons] at hnd
    exact (Multiset.nodup_cons.mp hnd).2
  · intro z hz
    exact hi.below z (Multiset.mem_cons_of_mem hz)
  · intro parent i f hc
    exact hi.born parent i f (mem_of_closure? rfl hc)
  · intro i hn
    have hne : id ≠ i := Nat.ne_of_lt (Nat.lt_of_lt_of_le hid hn)
    show seen i (l ++ [.finished id]) = []
    rw [seen_append, seen_other he hne, List.append_nil]
    exact hi.unborn i hn
  · intro parent i f hc
    have ha := hi.accounts parent i f (mem_of_closure? rfl hc)
    by_cases hii : id = i
    · -- the program is at its end
      subst i
      refine .inl ⟨?_, hr⟩
      show seen id (l ++ [.finished id]) = f.trace
      rw [seen_append, seen_self he]
      exact ha.own hr
    · have hnone : ∀ y ∈ (0 : Multiset (Strand α)), y.id ≠ i := by simp
      have := ha.other (m := n) hii hnone (seen_other he hii)
      rwa [zero_add] at this
  · have ht := hi.trees
    simp only [Multiset.map_cons, Multiset.sum_cons, Script.spawns, zero_add] at ht
    rw [closures_concat rfl, submitted_concat rfl]
    exact ht

/-- The account of a task that has just been created. -/
theorem Accounts.fresh {parent : Option TaskId} (hn : seen n l = []) (hp : parent ≠ some n)
    (hr : ⟨n, true, f⟩ ∈ r) {m : TaskId} :
    Accounts ⟨r, m, l ++ [.created parent n f]⟩ n f := by
  refine .inr ⟨_, hr, rfl, ?_⟩
  have he : seen n [(.created parent n f : Event α)] = [] := by
    cases parent with
    | none => exact seen_none rfl
    | some i => exact seen_other (i := i) (x := .go f) rfl fun h => hp (congrArg some h)
  show seen n (l ++ [.created parent n f]) ++ .resume :: f.steps = f.trace
  rw [seen_append, he, hn]
  rfl

/-- A created event is an old one, or the last. -/
theorem mem_created_concat {parent parent' : Option TaskId} {i : TaskId} {g : Script α}
    (h : Event.created parent i g ∈ l ++ [.created parent' id f]) :
    Event.created parent i g ∈ l ∨ (parent = parent' ∧ i = id ∧ g = f) := by
  rcases List.mem_append.mp h with h | h
  · exact .inl h
  · obtain ⟨rfl, rfl, rfl⟩ := Event.created.inj (List.mem_singleton.mp h)
    exact .inr ⟨rfl, rfl, rfl⟩

/-- The invariant survives a `go` inside a strand. -/
theorem Inv.go {k : Script α} (hi : Inv ⟨⟨id, false, .go f k⟩ ::ₘ r, n, l⟩) :
    Inv ⟨⟨n, true, f⟩ ::ₘ ⟨id, false, k⟩ ::ₘ r, n + 1, l ++ [.created (some id) n f]⟩ := by
  have hid : id < n := hi.below _ (Multiset.mem_cons_self _ r)
  have he : (Event.created (some id) n f : Event α).seen? = some (id, .go f) := rfl
  constructor
  -- the id of the child is a new one
  · have hnd := hi.nodup
    simp only [Multiset.map_cons] at hnd ⊢
    refine Multiset.nodup_cons.mpr ⟨fun h => ?_, hnd⟩
    rw [← Multiset.map_cons Strand.id ⟨id, false, .go f k⟩] at h
    obtain ⟨z, hz, hzn⟩ := Multiset.mem_map.mp h
    exact absurd hzn (Nat.ne_of_lt (hi.below z hz))
  · intro z hz
    show z.id < n + 1
    rcases Multiset.mem_cons.mp hz with rfl | hz
    · exact Nat.lt_succ_self n
    · rcases Multiset.mem_cons.mp hz with rfl | hz
      · exact Nat.lt_succ_of_lt hid
      · exact Nat.lt_succ_of_lt (hi.below z (Multiset.mem_cons_of_mem hz))
  · intro parent i g hc
    rcases mem_created_concat hc with hc | ⟨-, rfl, -⟩
    · exact Nat.lt_succ_of_lt (hi.born parent i g hc)
    · exact Nat.lt_succ_self _
  · intro i hn
    have hne : id ≠ i := Nat.ne_of_lt (Nat.lt_of_lt_of_le hid (Nat.le_of_succ_le hn))
    show seen i (l ++ [.created (some id) n f]) = []
    rw [seen_append, seen_other he hne, List.append_nil]
    exact hi.unborn i (Nat.le_of_succ_le hn)
  · intro parent i g hc
    rcases mem_created_concat hc with hc | ⟨-, rfl, rfl⟩
    · have hin : i < n := hi.born parent i g hc
      have ha := hi.accounts parent i g hc
      by_cases hii : id = i
      · -- the parent's program goes on after the call
        subst i
        refine .inr ⟨⟨id, false, k⟩, Multiset.mem_cons_of_mem (Multiset.mem_cons_self _ r), rfl, ?_⟩
        show seen id (l ++ [.created (some id) n f]) ++ k.steps = g.trace
        rw [seen_append, seen_self he, List.append_assoc]
        exact ha.own fun y hy => hi.eq_of_id hy
      · have hys : ∀ z ∈ (⟨n, true, f⟩ ::ₘ {⟨id, false, k⟩} : Multiset (Strand α)), z.id ≠ i := by
          intro z hz
          rcases Multiset.mem_cons.mp hz with rfl | hz
          · exact Nat.ne_of_gt hin
          · rw [Multiset.mem_singleton.mp hz]
            exact hii
        have := ha.other (m := n + 1) hii hys (seen_other he hii)
        rwa [Multiset.cons_add, Multiset.singleton_add] at this
    · exact .fresh (hi.unborn _ le_rfl) (fun h => absurd (Option.some.inj h) (Nat.ne_of_lt hid))
        (Multiset.mem_cons_self _ _)
  -- the child's tree leaves the parent's program and counts for itself
  · have ht := hi.trees
    simp only [Multiset.map_cons, Multiset.sum_cons, Script.spawns] at ht ⊢
    have hc : closures (l ++ [.created (some id) n f]) = closures l ++ [f] := closures_append _ _
    have hs : submitted (l ++ [.created (some id) n f]) = submitted l :=
      (submitted_append _ _).trans (List.append_nil _)
    rw [hc, hs, ← ht, ← Multiset.coe_add, Multiset.coe_singleton, ← Multiset.singleton_add]
    ac_rfl

/-- The invariant survives a `go` of the main thread. -/
theorem Inv.submit (hi : Inv ⟨r, n, l⟩) (f : Script α) :
    Inv ⟨⟨n, true, f⟩ ::ₘ r, n + 1, l ++ [.created none n f]⟩ := by
  have he : (Event.created none n f : Event α).seen? = none := rfl
  constructor
  · refine (Multiset.map_cons _ _ _) ▸ Multiset.nodup_cons.mpr ⟨fun h => ?_, hi.nodup⟩
    obtain ⟨z, hz, hzn⟩ := Multiset.mem_map.mp h
    exact absurd hzn (Nat.ne_of_lt (hi.below z hz))
  · intro z hz
    rcases Multiset.mem_cons.mp hz with rfl | hz
    · exact Nat.lt_succ_self n
    · exact Nat.lt_succ_of_lt (hi.below z hz)
  · intro parent i g hc
    rcases mem_created_concat hc with hc | ⟨-, rfl, -⟩
    · exact Nat.lt_succ_of_lt (hi.born parent i g hc)
    · exact Nat.lt_succ_self _
  · intro i hn
    show seen i (l ++ [.created none n f]) = []
    rw [seen_append, seen_none he, List.append_nil]
    exact hi.unborn i (Nat.le_of_succ_le hn)
  · intro parent i g hc
    rcases mem_created_concat hc with hc | ⟨-, rfl, rfl⟩
    · have hin : i < n := hi.born parent i g hc
      have hseen : seen i (l ++ [.created none n f]) = seen i l := by
        rw [seen_append, seen_none he, List.append_nil]
      rcases hi.accounts parent i g hc with ⟨hs, hno⟩ | ⟨y, hy, hyi, hs⟩
      · refine .inl ⟨hseen.trans hs, fun z hz => ?_⟩
        rcases Multiset.mem_cons.mp hz with rfl | hz
        · exact Nat.ne_of_gt hin
        · exact hno z hz
      · exact .inr ⟨y, Multiset.mem_cons_of_mem hy, hyi, (congrArg (· ++ y.left) hseen).trans hs⟩
    · exact .fresh (hi.unborn _ le_rfl) (by simp) (Multiset.mem_cons_self _ _)
  · have ht := hi.trees
    simp only [Multiset.map_cons, Multiset.sum_cons] at ht ⊢
    have hc : closures (l ++ [.created none n f]) = closures l ++ [f] := closures_append _ _
    have hs : submitted (l ++ [.created none n f]) = submitted l ++ [f] := submitted_append _ _
    rw [hc, hs, List.map_append, List.sum_append, ← ht, ← Multiset.coe_add, Multiset.coe_singleton,
      List.map_singleton, List.sum_singleton, Script.tree, ← Multiset.singleton_add]
    ac_rfl

end Pool

/-- **Every step of the pool keeps the account.** -/
theorem Pool.Step.inv {p p' : Pool α} (h : Pool.Step p p') (hi : p.Inv) : p'.Inv := by
  cases h with
  | advance h r n l => exact hi.advance h
  | go id f k r n l => exact hi.go
  | finish id r n l => exact hi.finish
  | submit f r n l => exact hi.submit f
  | @quiet es h r n l =>
    have hseen : ∀ i, seen i es = [] := by
      intro i
      refine List.filterMap_eq_nil_iff.mpr fun e he => ?_
      simp [Event.seenOf, (h e he).1]
    have hclosures : closures es = [] := List.filterMap_eq_nil_iff.mpr fun e he => (h e he).2
    have hsubmitted : submitted es = [] :=
      List.filterMap_eq_nil_iff.mpr fun e he => Event.submitted?_of_closure? (h e he).2
    have hmem : ∀ parent i f, Event.created parent i f ∈ l ++ es → Event.created parent i f ∈ l := by
      intro parent i f hc
      rcases List.mem_append.mp hc with hc | hc
      · exact hc
      · exact absurd (h _ hc).2 (by simp [Event.closure?])
    refine ⟨hi.nodup, hi.below, fun parent i f hc => hi.born parent i f (hmem parent i f hc), ?_, ?_, ?_⟩
    · intro i hn
      show seen i (l ++ es) = []
      rw [seen_append, hseen, List.append_nil]
      exact hi.unborn i hn
    · intro parent i f hc
      simpa [Pool.Accounts, hseen] using hi.accounts parent i f (hmem parent i f hc)
    · simpa [hclosures, hsubmitted] using hi.trees

/-- The pool before anything happens. -/
theorem Pool.inv_empty : (⟨0, 0, []⟩ : Pool α).Inv := by
  constructor <;> simp [seen, closures, submitted]

/-- **Nobody is left**: every task has finished after exactly the steps of its program, resumed
    once at its start and once after each yield, and the tasks are those of the trees submitted. -/
theorem Pool.Inv.complete {p : Pool α} (hi : p.Inv) (h0 : p.strands = 0) :
    (closures p.log : Multiset (Script α)) = ((submitted p.log).map Script.tree).sum ∧
      ∀ parent id f, .created parent id f ∈ p.log → seen id p.log = f.trace := by
  constructor
  · simpa [h0] using hi.trees
  · intro parent id f hc
    rcases hi.accounts parent id f hc with ⟨hs, -⟩ | ⟨x, hx, -⟩
    · exact hs
    · rw [h0] at hx
      exact absurd hx (Multiset.notMem_zero x)

end MyGoroutine.Yield
