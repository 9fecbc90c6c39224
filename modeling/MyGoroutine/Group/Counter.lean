import MyGoroutine.Chan.Poison
import Mathlib.Algebra.BigOperators.Group.List.Basic
import Mathlib.Algebra.Ring.Int.Defs

namespace MyGoroutine

/-!
# The counter of a wait group

The counter is stored before it is checked, and without overflow checks it wraps.  A counter that
is not negative plus any `i32` is either exact or wraps to a negative number, and the panic that
follows leaves the wrapped counter behind in a poisoned mutex, where nobody sees it.

* `toInt_add_of_fits`, `toInt_add_of_overflow` — the two ways an addition can go;
* `GroupOp`, `GroupOp.run`, `GroupOp.outcomes` — sequences of calls, whichever tasks make them;
* `add_spec` — the section of `add` on a counter that is not negative;
* `GroupOp.Exact` — the counter is the sum of the deltas, or the mutex is poisoned;
* `counter_exact` — what this makes of any sequence of calls.
-/

section Add

variable {a d : Int32}

/-- The sum is exact when it is one of an `i32`. -/
theorem toInt_add_of_fits (hlo : -2 ^ 31 ≤ a.toInt + d.toInt) (hhi : a.toInt + d.toInt < 2 ^ 31) :
    (a + d).toInt = a.toInt + d.toInt := by
  rw [Int32.toInt_add, Int.bmod_eq_emod]
  split <;> omega

/-- Beyond the largest `i32` the sum wraps to a negative number. -/
theorem toInt_add_of_overflow (hhi : 2 ^ 31 ≤ a.toInt + d.toInt) : (a + d).toInt < 0 := by
  have ha := a.toInt_lt
  have hd := d.toInt_lt
  rw [Int32.toInt_add, Int.bmod_eq_emod]
  split <;> omega

end Add

/-! ### Calls

A wait group on its own, without a runtime: a sequence of calls of `add`, `done` and `wait` by any
tasks. The exact counter is the sum of the deltas as an integer, and the `Int32` of the code is
compared with it.
-/

/-- A call on a wait group. -/
inductive GroupOp where
  | add (delta : Int32)
  | done
  | wait (t : TaskId)

/-- What a section that does not panic tells its caller. -/
inductive GroupOutcome where
  /-- The waiters that `add` has collected. -/
  | woken (waiters : List TaskId)
  /-- `wait` found the counter at zero, or has registered. -/
  | waits (park : Bool)
deriving DecidableEq

namespace GroupOp

/-- What the call adds to the counter; `done` is `add(-1)`. -/
def delta : GroupOp → Int32
  | .add d => d
  | .done => -1
  | .wait _ => 0

/-- The call is an `add`, or a `done`. -/
def isAdd : GroupOp → Bool
  | .add _ | .done => true
  | .wait _ => false

/-- Lock the wait group and run the section. -/
def enter (overflowChecks : Bool) (m : WaitGroup) : GroupOp → WaitGroup × Except Panic GroupOutcome
  | .add d => let r := m.lock (·.add overflowChecks d); (r.1, r.2.map .woken)
  | .done => let r := m.lock (·.add overflowChecks (-1)); (r.1, r.2.map .woken)
  | .wait t => let r := m.lock (·.wait t); (r.1, r.2.map .waits)

/-- The wait group after a sequence of calls. -/
def run (overflowChecks : Bool) (m : WaitGroup) (ops : List GroupOp) : WaitGroup :=
  ops.foldl (fun m op => (op.enter overflowChecks m).1) m

/-- The outcomes of a sequence of calls. -/
def outcomes (overflowChecks : Bool) (m : WaitGroup) :
    List GroupOp → List (Except Panic GroupOutcome)
  | [] => []
  | op :: ops => (op.enter overflowChecks m).2 :: outcomes overflowChecks (op.enter overflowChecks m).1 ops

/-- The exact sum of the deltas. -/
def sum (ops : List GroupOp) : Int := (ops.map fun op => op.delta.toInt).sum

end GroupOp

section Sections

variable {m : WaitGroupInner}

/-- **The section of `add`**, on a counter that is not negative: within the range of an `i32` from
    zero on the sum is exact, and outside it panics. -/
theorem add_spec (overflowChecks : Bool) (d : Int32) (h0 : 0 ≤ m.counter.toInt) :
    if 0 ≤ m.counter.toInt + d.toInt ∧ m.counter.toInt + d.toInt < 2 ^ 31 then
      ∃ m' woken, m.add overflowChecks d = (m', .ok woken) ∧
        m'.counter.toInt = m.counter.toInt + d.toInt
    else ∃ m' p, m.add overflowChecks d = (m', .error p) := by
  have hd := d.le_toInt
  split
  · next hfit =>
    obtain ⟨hlo, hhi⟩ := hfit
    have hsum := toInt_add_of_fits (a := m.counter) (d := d) (by omega) hhi
    have hfits : WaitGroupInner.addFits m.counter d = true := by
      simp only [WaitGroupInner.addFits, Bool.and_eq_true, decide_eq_true_eq]
      omega
    have hneg : ¬ m.counter + d < 0 := by
      rw [Int32.lt_iff_toInt_lt, hsum]
      simpa using hlo
    simp only [WaitGroupInner.add, hfits, Bool.not_true, Bool.and_false, Bool.false_eq_true, if_false,
      hneg]
    split
    · exact ⟨_, _, rfl, hsum⟩
    · exact ⟨_, _, rfl, hsum⟩
  · next hfit =>
    -- the new counter is negative: exactly so, or because it has wrapped
    have hneg : m.counter + d < 0 := by
      rw [Int32.lt_iff_toInt_lt]
      show (m.counter + d).toInt < 0
      by_cases hhi : m.counter.toInt + d.toInt < 2 ^ 31
      · rw [toInt_add_of_fits (by omega) hhi]
        omega
      · exact toInt_add_of_overflow (by omega)
    simp only [WaitGroupInner.add, hneg, if_true]
    split
    · exact ⟨_, _, rfl⟩
    · exact ⟨_, _, rfl⟩

/-- `wait` leaves the counter alone. -/
theorem wait_spec (t : TaskId) : ∃ m' park, m.wait t = (m', .ok park) ∧ m'.counter = m.counter := by
  unfold WaitGroupInner.wait
  split
  · exact ⟨_, _, rfl, rfl⟩
  · exact ⟨_, _, rfl, rfl⟩

end Sections

namespace GroupOp

variable (overflowChecks : Bool) {m : WaitGroup} {op : GroupOp}

/-- The counter is the sum `n`, unless the mutex is poisoned. -/
def Exact (m : WaitGroup) (n : Int) : Prop :=
  m.poisoned = false → m.val.counter.toInt = n ∧ 0 ≤ n ∧ n < 2 ^ 31

/-- A section that does not panic, on a mutex that is not poisoned. -/
theorem lock_ok {α β : Type} {m : Mutex α} {body : α → α × Except Panic β} (hp : m.poisoned = false)
    {a : α} {b : β} (h : body m.val = (a, .ok b)) : m.lock body = (⟨a, false⟩, .ok b) := by
  simp [Mutex.lock, hp, h]

/-- A section that panics poisons the mutex. -/
theorem lock_panic {α β : Type} {m : Mutex α} {body : α → α × Except Panic β}
    (hp : m.poisoned = false) {a : α} {p : Panic} (h : body m.val = (a, .error p)) :
    m.lock body = (⟨a, true⟩, .error p) := by
  simp [Mutex.lock, hp, h]

/-- `done` is `add(-1)`. -/
theorem enter_of_isAdd (h : op.isAdd = true) :
    op.enter overflowChecks m = (GroupOp.add op.delta).enter overflowChecks m := by
  cases op with
  | add | done => rfl
  | wait => cases h

/-- A call on a poisoned wait group panics before its section. -/
theorem enter_of_poisoned (hp : m.poisoned = true) (op : GroupOp) :
    op.enter overflowChecks m = (m, .error .poisoned) := by
  cases op <;> simp only [GroupOp.enter, lock_of_poisoned hp] <;> rfl

/-- **`add` on a wait group that is not poisoned**: the counter stays exact, or the call panics and
    poisons it. -/
theorem enter_add {n : Int} (hm : Exact m n) (hp : m.poisoned = false) (h : op.isAdd = true) :
    if 0 ≤ n + op.delta.toInt ∧ n + op.delta.toInt < 2 ^ 31 then
      ∃ m' woken, op.enter overflowChecks m = (⟨m', false⟩, .ok (.woken woken)) ∧
        m'.counter.toInt = n + op.delta.toInt
    else ∃ m' p, op.enter overflowChecks m = (⟨m', true⟩, .error p) := by
  obtain ⟨hc, h0, -⟩ := hm hp
  have hspec := add_spec overflowChecks op.delta (show 0 ≤ m.val.counter.toInt from hc ▸ h0)
  rw [hc] at hspec
  rw [enter_of_isAdd overflowChecks h]
  split at hspec
  · next hfit =>
    obtain ⟨m', woken, hadd, hsum⟩ := hspec
    rw [if_pos hfit]
    refine ⟨m', woken, ?_, hsum⟩
    simp [GroupOp.enter, lock_ok hp hadd, Except.map]
  · next hfit =>
    obtain ⟨m', p, hadd⟩ := hspec
    rw [if_neg hfit]
    refine ⟨m', p, ?_⟩
    simp [GroupOp.enter, lock_panic hp hadd, Except.map]

/-- **Each call keeps the counter exact.** -/
theorem Exact.enter {n : Int} (hm : Exact m n) (op : GroupOp) :
    Exact (op.enter overflowChecks m).1 (n + op.delta.toInt) := by
  intro hpois
  by_cases hp : m.poisoned = true
  · rw [enter_of_poisoned overflowChecks hp] at hpois
    exact absurd hpois (by rw [hp]; decide)
  · have hp : m.poisoned = false := Bool.not_eq_true _ ▸ hp
    by_cases hadd : op.isAdd = true
    · have hspec := enter_add overflowChecks hm hp hadd
      split at hspec
      · next hfit =>
        obtain ⟨m', woken, henter, hsum⟩ := hspec
        rw [henter]
        exact ⟨hsum, hfit⟩
      · obtain ⟨m', p, henter⟩ := hspec
        rw [henter] at hpois
        cases hpois
    · cases op with
      | add | done => exact absurd rfl hadd
      | wait t =>
        obtain ⟨m', park, hwait, hc⟩ := wait_spec (m := m.val) t
        have hdelta : (GroupOp.wait t).delta.toInt = 0 := rfl
        rw [hdelta, Int.add_zero]
        simp only [GroupOp.enter, lock_ok hp hwait, hc]
        exact hm hp

/-- From an exact counter on, the counter stays exact. -/
theorem Exact.run {n : Int} (hm : Exact m n) (ops : List GroupOp) :
    Exact (GroupOp.run overflowChecks m ops) (n + sum ops) := by
  induction ops generalizing m n with
  | nil =>
    rw [sum, List.map_nil, List.sum_nil, Int.add_zero]
    exact hm
  | cons op ops ih =>
    rw [sum, List.map_cons, List.sum_cons, ← Int.add_assoc]
    exact ih (hm.enter overflowChecks op)

/-- A new counter is zero. -/
theorem exact_new : Exact .new 0 := fun _ => by decide

/-- **An `add` panics** exactly if the mutex is poisoned or the sum leaves the range. -/
theorem enter_error_iff {n : Int} (hm : Exact m n) (h : op.isAdd = true) :
    (∃ p, (op.enter overflowChecks m).2 = .error p) ↔
      m.poisoned = true ∨ ¬ (0 ≤ n + op.delta.toInt ∧ n + op.delta.toInt < 2 ^ 31) := by
  by_cases hp : m.poisoned = true
  · rw [enter_of_poisoned overflowChecks hp]
    exact iff_of_true ⟨_, rfl⟩ (.inl hp)
  · have hspec := enter_add overflowChecks hm (Bool.not_eq_true _ ▸ hp) h
    split at hspec
    · next hfit =>
      obtain ⟨m', woken, henter, -⟩ := hspec
      rw [henter]
      refine iff_of_false (fun ⟨p, herr⟩ => ?_) fun hor => hor.elim hp fun hout => hout hfit
      cases herr
    · next hfit =>
      obtain ⟨m', p, henter⟩ := hspec
      rw [henter]
      exact iff_of_true ⟨p, rfl⟩ (.inr hfit)

/-- A panicking `add` leaves a poisoned mutex. -/
theorem poisoned_of_error {n : Int} (hm : Exact m n) (h : op.isAdd = true) {p : Panic}
    (herr : (op.enter overflowChecks m).2 = .error p) : (op.enter overflowChecks m).1.poisoned = true := by
  by_cases hp : m.poisoned = true
  · rw [enter_of_poisoned overflowChecks hp]
    exact hp
  · have hspec := enter_add overflowChecks hm (Bool.not_eq_true _ ▸ hp) h
    split at hspec
    · obtain ⟨m', woken, henter, -⟩ := hspec
      rw [henter] at herr
      cases herr
    · obtain ⟨m', p', henter⟩ := hspec
      rw [henter]

/-- **Nobody sees a poisoned counter**: every further call panics before its section. -/
theorem poisoned_forever (hp : m.poisoned = true) (ops : List GroupOp) :
    GroupOp.run overflowChecks m ops = m ∧
      outcomes overflowChecks m ops = ops.map fun _ => .error .poisoned := by
  induction ops with
  | nil => exact ⟨rfl, rfl⟩
  | cons op ops ih =>
    obtain ⟨hrun, hout⟩ := ih
    refine ⟨?_, ?_⟩
    · show GroupOp.run overflowChecks (op.enter overflowChecks m).1 ops = m
      rw [enter_of_poisoned overflowChecks hp]
      exact hrun
    · rw [outcomes, enter_of_poisoned overflowChecks hp, hout, List.map_cons]

end GroupOp

/-- **The counter is exact**, with overflow checks or without, after any calls by any tasks.  While
    the mutex is not poisoned the counter is the sum of all deltas and lies in the range of an `i32`
    from zero on; an `add` panics exactly if the mutex is poisoned or the sum leaves this range; and
    after a panicking `add` no section of any call starts. -/
theorem counter_exact (overflowChecks : Bool) (ops : List GroupOp) :
    let m := GroupOp.run overflowChecks .new ops
    (m.poisoned = false →
      m.val.counter.toInt = GroupOp.sum ops ∧ 0 ≤ GroupOp.sum ops ∧ GroupOp.sum ops ≤ 2 ^ 31 - 1) ∧
    ∀ op : GroupOp, op.isAdd = true →
      ((∃ p, (op.enter overflowChecks m).2 = .error p) ↔
        m.poisoned = true ∨ ¬ (0 ≤ GroupOp.sum (ops ++ [op]) ∧ GroupOp.sum (ops ++ [op]) ≤ 2 ^ 31 - 1)) ∧
      ((∃ p, (op.enter overflowChecks m).2 = .error p) → ∀ ops',
        GroupOp.run overflowChecks (op.enter overflowChecks m).1 ops' = (op.enter overflowChecks m).1 ∧
        GroupOp.outcomes overflowChecks (op.enter overflowChecks m).1 ops'
          = ops'.map fun _ => .error .poisoned) := by
  intro m
  have hm : GroupOp.Exact m (GroupOp.sum ops) := by
    have h := GroupOp.exact_new.run overflowChecks ops
    rwa [Int.zero_add] at h
  refine ⟨fun hp => ?_, fun op hadd => ⟨?_, fun ⟨p, herr⟩ ops' => ?_⟩⟩
  · obtain ⟨hc, h0, hlt⟩ := hm hp
    exact ⟨hc, h0, Int.le_sub_one_of_lt hlt⟩
  · have hsum : GroupOp.sum (ops ++ [op]) = GroupOp.sum ops + op.delta.toInt := by
      simp [GroupOp.sum]
    rw [GroupOp.enter_error_iff overflowChecks hm hadd, hsum, Int.le_sub_one_iff]
  · exact GroupOp.poisoned_forever overflowChecks
      (GroupOp.poisoned_of_error overflowChecks hm hadd herr) ops'

end MyGoroutine
