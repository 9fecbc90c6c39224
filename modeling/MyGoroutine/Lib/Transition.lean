import Mathlib.Logic.Basic

/-!
# Transition systems — reachability, invariants and restricted runs

A system is given by its initial states and an executable, partial, labelled step
function; the label resolves every choice that the system leaves open (which party
moves, what the environment answers).

* `System.Reach ok` — the states reached by runs all of whose steps meet `ok`;
* `System.Reachable` — the states reached by any run (`ok` is always true);
* `Reach.invariant` — the induction rule: what holds initially and survives every
  admitted step holds in every state reached;
* `System.run` — execution of a fixed schedule, and `run_reachable`, which turns an
  evaluated schedule into a reachable state;
* `run_length_le`, `exists_run` — runs that a measure bounds, and runs that lead to a goal;
* `System.guard` — the system whose steps are checked first, and `guard_reach`,
  `run_guard_reach`, by which its runs are runs whose steps all meet the check;
* `System.startingAt` — the system with one initial state, and `startingAt_reach`;
* `System.observe` — the system with an observer beside it, which notes what the steps do, and
  `observe_reach`, by which what the observer watches is a run of the system itself.
-/

universe u v w

/-- A transition system: initial states and a partial step function per label. -/
structure System (S : Type u) (A : Type v) where
  init : S → Prop
  next : A → S → Option S

namespace System

variable {S : Type u} {A : Type v} (M : System S A)

/-- The states reached by runs whose steps all meet `ok`. -/
inductive Reach (ok : A → S → Prop) : S → Prop where
  | init {s : S} (h : M.init s) : Reach ok s
  | step {s s' : S} {a : A} (hr : Reach ok s) (hok : ok a s) (hn : M.next a s = some s') :
      Reach ok s'

/-- The states reached by any run. -/
def Reachable : S → Prop := M.Reach (fun _ _ => True)

variable {M}

/-- Fewer admitted steps reach fewer states. -/
theorem Reach.mono {ok ok' : A → S → Prop} (h : ∀ a s, ok a s → ok' a s) {s : S}
    (hr : M.Reach ok s) : M.Reach ok' s := by
  induction hr with
  | init h0 => exact .init h0
  | step _ hok hn ih => exact .step ih (h _ _ hok) hn

/-- A run within a condition is a run. -/
theorem Reach.reachable {ok : A → S → Prop} {s : S} (hr : M.Reach ok s) : M.Reachable s :=
  hr.mono (fun _ _ _ => trivial)

/-- When no step from a reachable state is refused, every run is an admitted one. -/
theorem Reachable.always {ok : A → S → Prop} (h : ∀ a s, M.Reachable s → ok a s) {s : S}
    (hr : M.Reachable s) : M.Reach ok s := by
  induction hr with
  | init h0 => exact .init h0
  | @step s s' a hr _ hn ih => exact .step ih (h a s hr) hn

/-- Admitted steps all of which meet `ok'` as well. -/
theorem Reach.and {ok ok' : A → S → Prop} (h : ∀ a s, M.Reach ok s → ok' a s) {s : S}
    (hr : M.Reach ok s) : M.Reach (fun a s => ok a s ∧ ok' a s) s := by
  induction hr with
  | init h0 => exact .init h0
  | step hr hok hn ih => exact .step ih ⟨hok, h _ _ hr⟩ hn

/-- One more step of a run. -/
theorem Reachable.step {s s' : S} {a : A} (hr : M.Reachable s) (hn : M.next a s = some s') :
    M.Reachable s' :=
  Reach.step hr trivial hn

/-- **Invariant rule.** What holds initially and is preserved by every admitted step from a
    state reached holds in every state reached. -/
theorem Reach.invariant {ok : A → S → Prop} {I : S → Prop} (h0 : ∀ s, M.init s → I s)
    (hs : ∀ s s' a, M.Reach ok s → I s → ok a s → M.next a s = some s' → I s') {s : S}
    (hr : M.Reach ok s) : I s := by
  induction hr with
  | init h => exact h0 _ h
  | step hr hok hn ih => exact hs _ _ _ hr ih hok hn

/-- The invariant rule for unrestricted runs. -/
theorem Reachable.invariant {I : S → Prop} (h0 : ∀ s, M.init s → I s)
    (hs : ∀ s s' a, M.Reachable s → I s → M.next a s = some s' → I s') {s : S}
    (hr : M.Reachable s) : I s :=
  Reach.invariant h0 (fun s s' a hr hi _ hn => hs s s' a hr hi hn) hr

variable (M)

/-- Execute a schedule, one label after another. -/
def run : List A → S → Option S
  | [], s => some s
  | a :: as, s => (M.next a s).bind (run as)

variable {M}

/-- The empty run stays where it is. -/
@[simp] theorem run_nil (s : S) : M.run [] s = some s := rfl

/-- A run takes its first step, and then the others. -/
@[simp] theorem run_cons (a : A) (as : List A) (s : S) :
    M.run (a :: as) s = (M.next a s).bind (M.run as) := rfl

/-- A schedule of one step. -/
theorem run_one {a : A} {s s' : S} (h : M.next a s = some s') : M.run [a] s = some s' := by
  rw [run_cons, h]
  rfl

/-- A schedule of two steps. -/
theorem run_two {a b : A} {s t s' : S} (h : M.next a s = some t) (h' : M.next b t = some s') :
    M.run [a, b] s = some s' := by
  rw [run_cons, h]
  exact run_one h'

/-- A schedule in two parts. -/
theorem run_append (as bs : List A) (s : S) :
    M.run (as ++ bs) s = (M.run as s).bind (M.run bs) := by
  induction as generalizing s with
  | nil => rfl
  | cons a as ih =>
    rw [List.cons_append, run_cons, run_cons, Option.bind_assoc]
    exact congrArg _ (funext ih)

/-- A schedule executed from a state reached ends in a state reached. -/
theorem Reachable.run {as : List A} {s s' : S} (hr : M.Reachable s)
    (h : M.run as s = some s') : M.Reachable s' := by
  induction as generalizing s with
  | nil => cases h; exact hr
  | cons a as ih =>
    obtain ⟨t, ht, h⟩ := Option.bind_eq_some_iff.mp h
    exact ih (hr.step ht) h

/-- A schedule executed from an initial state ends in a reachable state. -/
theorem run_reachable {as : List A} {s s' : S} (h0 : M.init s) (h : M.run as s = some s') :
    M.Reachable s' :=
  Reachable.run (.init h0) h

/-- Every reachable state is the end of a schedule. -/
theorem Reachable.exists_schedule {s : S} (hr : M.Reachable s) :
    ∃ s₀ as, M.init s₀ ∧ M.run as s₀ = some s := by
  induction hr with
  | init h0 => exact ⟨_, [], h0, rfl⟩
  | @step s s' a _ _ hn ih =>
    obtain ⟨s₀, as, h0, hrun⟩ := ih
    refine ⟨s₀, as ++ [a], h0, ?_⟩
    rw [run_append, hrun]
    exact run_one hn

/-- **Invariant rule for a schedule**: what every step keeps, the schedule keeps. -/
theorem run_invariant {I : S → Prop} (hs : ∀ a s s', M.next a s = some s' → I s → I s')
    {as : List A} {s s' : S} (h : M.run as s = some s') (hi : I s) : I s' := by
  induction as generalizing s with
  | nil => cases h; exact hi
  | cons a as ih =>
    obtain ⟨t, ht, h⟩ := Option.bind_eq_some_iff.mp h
    exact ih h (hs a s t ht hi)

/-- **Termination rule.**  When every step makes the measure smaller, a schedule is no longer than
    the measure. -/
theorem run_length_le {μ : S → Nat} (hμ : ∀ a s s', M.next a s = some s' → μ s' < μ s)
    {as : List A} {s s' : S} (h : M.run as s = some s') : as.length + μ s' ≤ μ s := by
  induction as generalizing s with
  | nil => cases h; simp
  | cons a as ih =>
    obtain ⟨t, ht, h⟩ := Option.bind_eq_some_iff.mp h
    have := ih h
    have := hμ a s t ht
    rw [List.length_cons]
    omega

/-- **Progress rule.**  When every step makes the measure smaller and only states in `goal` have no
    next step, every state has a schedule that leads into `goal`. -/
theorem exists_run {μ : S → Nat} (hμ : ∀ a s s', M.next a s = some s' → μ s' < μ s)
    {I Q : S → Prop} (hI : ∀ a s s', I s → ¬ Q s → M.next a s = some s' → I s')
    (hgoal : ∀ s, I s → ¬ Q s → ∃ a s', M.next a s = some s') {s : S} (hs : I s) :
    ∃ as s', M.run as s = some s' ∧ I s' ∧ Q s' := by
  induction hm : μ s using Nat.strongRecOn generalizing s with
  | _ n ih =>
    by_cases hg : Q s
    · exact ⟨[], s, rfl, hs, hg⟩
    · obtain ⟨a, t, ht⟩ := hgoal s hs hg
      obtain ⟨as, s', hrun, h⟩ := ih (μ t) (hm ▸ hμ a s t ht) (hI a s t hs hg ht) rfl
      exact ⟨a :: as, s', by rw [run_cons, ht]; exact hrun, h⟩

/-- The schedule `as`, executed from `s` to `s'`, takes the step `a` from `t` to `t'`. -/
def Passes (M : System S A) (as : List A) (s s' t : S) (a : A) (t' : S) : Prop :=
  ∃ before after, as = before ++ a :: after ∧ M.run before s = some t ∧ M.next a t = some t' ∧
    M.run after t' = some s'

/-- **What holds at the end and not at the beginning begins to hold in some step.** -/
theorem run_crossing {p : S → Prop} {as : List A} {s s' : S} (h : M.run as s = some s')
    (h0 : ¬ p s) (h1 : p s') : ∃ t a t', M.Passes as s s' t a t' ∧ ¬ p t ∧ p t' := by
  induction as generalizing s with
  | nil =>
    cases h
    exact absurd h1 h0
  | cons a as ih =>
    obtain ⟨t, ht, h⟩ := Option.bind_eq_some_iff.mp h
    by_cases hp : p t
    · exact ⟨s, a, t, ⟨[], as, rfl, rfl, ht, h⟩, h0, hp⟩
    · obtain ⟨u, b, u', ⟨before, after, rfl, hu, hn, ha⟩, hp, hp'⟩ := ih h hp
      exact ⟨u, b, u', ⟨a :: before, after, rfl, by rw [run_cons, ht]; exact hu, hn, ha⟩, hp, hp'⟩

/-- **What no step changes** is the same around the step that the schedule takes, and at its
    end. -/
theorem Passes.unchanged {β : Sort*} {f : S → β} (hf : ∀ a s s', M.next a s = some s' → f s' = f s)
    {as : List A} {s s' t t' : S} {a : A} (h : M.Passes as s s' t a t') : f t = f s' ∧ f t' = f s' := by
  obtain ⟨before, after, -, -, hn, hrun⟩ := h
  have hend : f s' = f t' :=
    run_invariant (I := fun s => f s = f t') (fun a s s' hn h => (hf a s s' hn).trans h) hrun rfl
  exact ⟨(hf a t t' hn).symm.trans hend.symm, hend.symm⟩

/-! ### Checked runs

A schedule whose steps are checked by a decidable condition: what it executes are runs within the
condition.
-/

/-- The system that refuses the steps which fail the check `b`. -/
def guard (M : System S A) (b : A → S → Bool) : System S A where
  init := M.init
  next a s := if b a s then M.next a s else none

/-- A run of the checked system is a run whose steps all meet `ok`. -/
theorem guard_reach {b : A → S → Bool} {ok : A → S → Prop} (hb : ∀ a s, b a s = true → ok a s)
    {s : S} (hr : (M.guard b).Reachable s) : M.Reach ok s := by
  induction hr with
  | init h => exact .init h
  | @step s s' a _ _ hn ih =>
    simp only [guard] at hn
    split at hn
    · exact .step ih (hb a s ‹_›) hn
    · cases hn

/-- A schedule that the checked system executes from an initial state. -/
theorem run_guard_reach {b : A → S → Bool} {ok : A → S → Prop}
    (hb : ∀ a s, b a s = true → ok a s) {as : List A} {s s' : S} (h0 : M.init s)
    (h : (M.guard b).run as s = some s') : M.Reach ok s' :=
  guard_reach hb (run_reachable (show (M.guard b).init s from h0) h)

/-! ### Runs from one state

The runs that begin in a given state. If that state is initial, they are runs of the system.
-/

/-- The system with the single initial state `s₀`. -/
def startingAt (M : System S A) (s₀ : S) : System S A where
  init s := s = s₀
  next := M.next

/-- A run from an initial state is a run. -/
theorem startingAt_reach {s₀ : S} (h0 : M.init s₀) {ok : A → S → Prop} {s : S}
    (hr : (M.startingAt s₀).Reach ok s) : M.Reach ok s := by
  induction hr with
  | init h => exact .init (h ▸ h0)
  | step _ hok hn ih => exact .step ih hok hn

/-- A schedule executed from `s₀` is a run of that system. -/
theorem startingAt_run {s₀ s : S} {as : List A} (h : M.run as s₀ = some s) :
    (M.startingAt s₀).Reachable s := by
  have hrun : ∀ t, (M.startingAt s₀).run as t = M.run as t := by
    clear h
    induction as with
    | nil => exact fun _ => rfl
    | cons a as ih =>
      intro t
      rw [run_cons, run_cons, funext ih]
      rfl
  exact Reachable.run (.init rfl) ((hrun s₀).trans h)

/-! ### Observers

Some conditions speak of what has happened before. An observer goes along with the system and notes
it, and changes no run.
-/

section Observers

variable {G : Type w}

/-- The system with an observer beside it, whose notes follow each step by `see`. -/
def observe (M : System S A) (see : A → S → S → G → G) (g₀ : G) : System (S × G) A where
  init p := M.init p.1 ∧ p.2 = g₀
  next a p := (M.next a p.1).map fun s => (s, see a p.1 s p.2)

variable {see : A → S → S → G → G} {g₀ : G} {p p' : S × G} {ok : A → S → Prop}

/-- A step under observation is a step of the system, and what the observer makes of it. -/
theorem observe_next {a : A} (h : (M.observe see g₀).next a p = some p') :
    M.next a p.1 = some p'.1 ∧ p'.2 = see a p.1 p'.1 p.2 := by
  obtain ⟨s, hs, rfl⟩ := Option.map_eq_some_iff.mp h
  exact ⟨hs, rfl⟩

/-- What the observer watches is a run of the system. -/
theorem observe_reach (hr : (M.observe see g₀).Reach (fun a p => ok a p.1) p) : M.Reach ok p.1 := by
  induction hr with
  | init h => exact .init h.1
  | step _ hok hn ih => exact .step ih hok (observe_next hn).1

end Observers

end System
