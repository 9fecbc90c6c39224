import MyGoroutine.Lib.Network
import Mathlib.Algebra.Group.Pi.Lemmas
import Mathlib.Algebra.Order.BigOperators.Group.Finset
import Mathlib.Algebra.Order.Group.Int
import Mathlib.Algebra.Ring.Int.Defs
import Mathlib.Algebra.Order.Pi

/-!
# Networks whose counters count debts

How a wait group is meant to be used: whoever adds to a counter takes up a debt, which it keeps
or passes on to a process that it creates, and which a negative `add` pays.  Then a counter is
what is still owed, whatever the interleaving: no `add` makes it negative, and at zero nobody owes
anything.

* `ledger` — a sum over the processes, and how it changes when one moves or is created;
* `Config.Places`, `step_travels`, `run_places` — where the processes are, place by place;
* `Debts`, `Config.Accounts` — what each place of the code owes, and the counters are what is owed;
* `Accounts.covered`, `Accounts.paid`, `Accounts.debtor` — what this means for `add` and `wait`;
* `Stock`, `Quota` — what the processes never get more of, and what they may still add;
* `Gate`, `Gate.closed` — who waits comes after everybody who adds;
* `Config.Settled`, `Travels.settled` — a counter to which nobody adds stays at zero.
-/

namespace Network

universe u v w

variable {σ : Type u} {κ : Type v} {V : Type w}

/-! ### Sums over processes

Processes are numbered in the order of their creation, so a sum over them is a sum over the numbers
given out so far.
-/

/-- The sum of `w` over the places of the processes below `n`; `none` is no process. -/
def ledger (w : σ → Int) (pos : Nat → Option σ) (n : Nat) : Int :=
  ∑ i ∈ Finset.range n, (pos i).elim 0 w

section Ledger

variable {w w' : σ → Int} {pos : Nat → Option σ} {n i : Nat}

/-- One process moves. -/
theorem ledger_update (hi : i < n) (q : Option σ) :
    ledger w (Function.update pos i q) n = ledger w pos n - (pos i).elim 0 w + q.elim 0 w := by
  have hmem : i ∈ Finset.range n := Finset.mem_range.mpr hi
  have hnew := Finset.add_sum_erase _ (fun j => (Function.update pos i q j).elim 0 w) hmem
  have hold := Finset.add_sum_erase _ (fun j => (pos j).elim 0 w) hmem
  have hsame : ∑ j ∈ (Finset.range n).erase i, (Function.update pos i q j).elim 0 w
      = ∑ j ∈ (Finset.range n).erase i, (pos j).elim 0 w :=
    Finset.sum_congr rfl fun j hj => by rw [Function.update_of_ne (Finset.ne_of_mem_erase hj)]
  simp only [Function.update_self] at hnew
  unfold ledger
  omega

/-- A process is created. -/
theorem ledger_birth (f : σ) : ledger w (Function.update pos n (some f)) (n + 1)
    = ledger w pos n + w f := by
  unfold ledger
  rw [Finset.sum_range_succ, Function.update_self]
  refine congrArg (· + w f) (Finset.sum_congr rfl fun j hj => ?_)
  rw [Function.update_of_ne (Finset.mem_range.mp hj).ne]

/-- A ledger of weights that are not negative is not negative. -/
theorem ledger_nonneg (h : ∀ x, 0 ≤ w x) : 0 ≤ ledger w pos n := by
  refine Finset.sum_nonneg fun i _ => ?_
  cases pos i with
  | none => exact le_rfl
  | some x => exact h x

/-- One process has no more than all, and two have not. -/
theorem le_ledger (h : ∀ x, 0 ≤ w x) (hi : i < n) {x : σ} (hx : pos i = some x) :
    w x ≤ ledger w pos n := by
  have hrest : 0 ≤ ledger w (Function.update pos i none) n := ledger_nonneg h
  rw [ledger_update hi, hx, Option.elim_some, Option.elim_none] at hrest
  omega

/-- Two places contribute both to the ledger. -/
theorem add_le_ledger (h : ∀ x, 0 ≤ w x) {j : Nat} (hi : i < n) (hj : j < n) (hij : i ≠ j)
    {x y : σ} (hx : pos i = some x) (hy : pos j = some y) : w x + w y ≤ ledger w pos n := by
  have hy' : Function.update pos i none j = some y := by
    rw [Function.update_of_ne hij.symm]
    exact hy
  have hrest := le_ledger h hj hy'
  rw [ledger_update hi, hx, Option.elim_some, Option.elim_none] at hrest
  omega

/-- At zero no process has anything in the ledger. -/
theorem eq_zero_of_ledger (h : ∀ x, 0 ≤ w x) (h0 : ledger w pos n = 0) (hi : i < n) {x : σ}
    (hx : pos i = some x) : w x = 0 := by
  have hterm := (Finset.sum_eq_zero_iff_of_nonneg fun j _ => ?_).mp h0 i (Finset.mem_range.mpr hi)
  · rwa [hx] at hterm
  · cases pos j with
    | none => exact le_rfl
    | some x => exact h x

/-- Above zero some process has. -/
theorem exists_of_ledger (h0 : 0 < ledger w pos n) : ∃ i x, i < n ∧ pos i = some x ∧ 0 < w x := by
  obtain ⟨i, hi, hpos⟩ := Finset.exists_lt_of_sum_lt
    (s := Finset.range n) (f := fun _ => 0) (g := fun i => (pos i).elim 0 w)
    (by rw [Finset.sum_const_zero]; exact h0)
  cases hx : pos i with
  | none =>
    rw [hx] at hpos
    exact absurd hpos (lt_irrefl 0)
  | some x =>
    rw [hx] at hpos
    exact ⟨i, x, Finset.mem_range.mp hi, hx, hpos⟩

end Ledger

/-! ### Places

A place of the code is what a process goes on with. A step moves one process, or two that meet, from
place to place, or creates one.
-/

/-- The processes of `a` are at the places `pos` of their code. -/
structure Config.Places (code : Nat → σ → Cmd σ κ V) (a : Config σ κ V) (pos : Nat → Option σ) :
    Prop where
  live : ∀ {i x}, pos i = some x → a.proc i = .live (code i x)
  gone : ∀ {i x}, pos i = none → a.proc i ≠ .live x
  unborn : ∀ i, a.next ≤ i → a.proc i = .unborn

/-- Where a command leads that is no `fork` and no `add`. -/
inductive Cmd.Goes : Cmd σ κ V → Option σ → Prop where
  /-- A step. -/
  | step {k} : Goes (.step k) (some k)
  /-- The value is accepted. -/
  | send {c v k} : Goes (.send c v k) (some k)
  /-- The process gets `o`, whatever it is. -/
  | recv {c k} (o) : Goes (.recv c k) (some (k o))
  /-- The channel is closed. -/
  | close {c k} : Goes (.close c k) (some k)
  /-- The counter is zero. -/
  | wait {g k} : Goes (.wait g k) (some k)
  /-- The process is no longer anywhere. -/
  | halt : Goes .halt none

section Places

variable {code : Nat → σ → Cmd σ κ V} {a t : Config σ κ V} {pos : Nat → Option σ} {i : Nat} {x : σ}
  {y : Cmd σ κ V}

namespace Config.Places

/-- A process that exists has a number that was given out. -/
theorem lt_next (h : a.Places code pos) (hx : pos i = some x) : i < a.next := by
  by_contra hi
  have hlive := h.live hx
  rw [h.unborn i (Nat.le_of_not_lt hi)] at hlive
  cases hlive

/-- A live process is at some place. -/
theorem exists_pos (h : a.Places code pos) (hy : a.proc i = .live y) :
    ∃ x, pos i = some x ∧ y = code i x := by
  cases hx : pos i with
  | none => exact absurd hy (h.gone hx)
  | some x =>
    rw [h.live hx] at hy
    cases hy
    exact ⟨x, rfl, rfl⟩

/-- The process `i` moves, and nothing else about the processes changes. -/
theorem move (h : a.Places code pos) (hx : pos i = some x) {q : Option σ} {p : Proc σ κ V}
    (hq : p = q.elim .halted fun k => .live (code i k))
    (hproc : t.proc = Function.update a.proc i p) (hn : t.next = a.next) :
    t.Places code (Function.update pos i q) := by
  refine ⟨fun {j z} hz => ?_, fun {j z} hz => ?_, fun j hj => ?_⟩
  · rw [hproc]
    by_cases hji : j = i
    · subst hji
      rw [Function.update_self] at hz ⊢
      rw [hq, hz]
      rfl
    · rw [Function.update_of_ne hji] at hz ⊢
      exact h.live hz
  · rw [hproc]
    by_cases hji : j = i
    · subst hji
      rw [Function.update_self] at hz ⊢
      rw [hq, hz]
      simp
    · rw [Function.update_of_ne hji] at hz ⊢
      exact h.gone hz
  · rw [hn] at hj
    rw [hproc, Function.update_of_ne ((h.lt_next hx).trans_le hj).ne']
    exact h.unborn j hj

/-- A process is created. -/
theorem birth (h : a.Places code pos) (f : σ)
    (hproc : t.proc = Function.update a.proc a.next (.live (code a.next f)))
    (hn : t.next = a.next + 1) : t.Places code (Function.update pos a.next (some f)) := by
  refine ⟨fun {j z} hz => ?_, fun {j z} hz => ?_, fun j hj => ?_⟩
  · rw [hproc]
    by_cases hji : j = a.next
    · subst hji
      rw [Function.update_self] at hz ⊢
      cases hz
      rfl
    · rw [Function.update_of_ne hji] at hz ⊢
      exact h.live hz
  · rw [hproc]
    by_cases hji : j = a.next
    · subst hji
      rw [Function.update_self] at hz
      cases hz
    · rw [Function.update_of_ne hji] at hz ⊢
      exact h.gone hz
  · rw [hn] at hj
    rw [hproc, Function.update_of_ne (Nat.lt_of_succ_le hj).ne']
    exact h.unborn j (Nat.le_of_succ_le hj)

end Config.Places

end Places

section Steps

variable [DecidableEq κ] {code : Nat → σ → Cmd σ κ V} {a t : Config σ κ V} {pos : Nat → Option σ}

/-- What a step of the network does to the places. -/
inductive Travels (code : Nat → σ → Cmd σ κ V) (a t : Config σ κ V) (pos pos' : Nat → Option σ) :
    Prop where
  /-- A pending process starts. -/
  | start {f rest} (hf : a.pending = f :: rest)
      (hpos : pos' = Function.update pos a.next (some f)) (hn : t.next = a.next + 1)
      (hr : t.pending = rest) (hc : t.counter = a.counter)
  /-- One process goes on. -/
  | goes {i x q} (hx : pos i = some x) (hq : (code i x).Goes q)
      (hpos : pos' = Function.update pos i q) (hn : t.next = a.next) (hr : t.pending = a.pending)
      (hc : t.counter = a.counter)
  /-- One process starts another. -/
  | forks {i x f k} (hx : pos i = some x) (hq : code i x = .fork f k)
      (hpos : pos' = Function.update (Function.update pos a.next (some f)) i (some k))
      (hn : t.next = a.next + 1) (hr : t.pending = a.pending) (hc : t.counter = a.counter)
  /-- One process adds to a counter. -/
  | adds {i x g d k n} (hx : pos i = some x) (hq : code i x = .add g d k)
      (hpos : pos' = Function.update pos i (some k)) (hn : t.next = a.next)
      (hr : t.pending = a.pending) (hg : a.counter g = some n)
      (hc : t.counter = Function.update a.counter g (some (n + d)))
  /-- Two processes meet at a channel, and both go on. -/
  | meets {i j x y q q'} (hij : i ≠ j) (hx : pos i = some x) (hy : pos j = some y)
      (hq : (code i x).Goes q) (hq' : (code j y).Goes q')
      (hpos : pos' = Function.update (Function.update pos i q) j q') (hn : t.next = a.next)
      (hr : t.pending = a.pending) (hc : t.counter = a.counter)

/-- Where the command of a process leads that acts on its own. -/
theorem goes_of_effect {i : Nat} {y : Cmd σ κ V} {chan ch : κ → Option (Chan V)} {p : Proc σ κ V}
    (h : y.effect code i chan = some (p, ch)) :
    ∃ q, y.Goes q ∧ p = q.elim .halted fun k => .live (code i k) := by
  cases y with
  | fork | add | wait => cases h
  | step k =>
    cases h
    exact ⟨some k, .step, rfl⟩
  | halt =>
    cases h
    exact ⟨none, .halt, rfl⟩
  | send c v k =>
    obtain ⟨b, b', -, hf, -⟩ := on_eq_some h
    obtain ⟨_, -, heq⟩ := Option.map_eq_some_iff.mp hf
    cases heq
    exact ⟨some k, .send, rfl⟩
  | recv c k =>
    obtain ⟨b, b', -, hf, -⟩ := on_eq_some h
    obtain ⟨r, -, heq⟩ := Option.map_eq_some_iff.mp hf
    cases heq
    exact ⟨some (k r.1), .recv r.1, rfl⟩
  | close c k =>
    obtain ⟨b, b', -, hf, -⟩ := on_eq_some h
    obtain ⟨_, -, heq⟩ := Option.map_eq_some_iff.mp hf
    cases heq
    exact ⟨some k, .close, rfl⟩

/-- **A step of the network, place by place.** -/
theorem step_travels (h : a.Places code pos) {l : Label} (hs : step code l a = some t) :
    ∃ pos', t.Places code pos' ∧ Travels code a t pos pos' := by
  cases l with
  | start =>
    obtain ⟨f, rest, hf, rfl⟩ := start_inv hs
    exact ⟨_, h.birth f rfl rfl, .start hf rfl rfl rfl rfl⟩
  | act i =>
    simp only [step] at hs
    split at hs
    · next y hy =>
      obtain ⟨x, hx, rfl⟩ := h.exists_pos hy
      generalize hc : code i x = y at hs
      cases y with
      | fork f k =>
        cases hs
        -- the child comes first, and then the process moves
        have hx' : Function.update pos a.next (some f) i = some x := by
          rw [Function.update_of_ne (h.lt_next hx).ne]
          exact hx
        exact ⟨_, (h.birth (t := a.birth code f) f rfl rfl).move hx' (q := some k) rfl rfl rfl,
          .forks hx hc rfl rfl rfl rfl⟩
      | add g d k =>
        obtain ⟨n, hn, hs⟩ := Option.bind_eq_some_iff.mp hs
        split at hs
        · cases hs
          exact ⟨_, h.move hx (q := some k) rfl rfl rfl, .adds hx hc rfl rfl rfl hn rfl⟩
        · cases hs
      | wait g k =>
        obtain ⟨n, hn, hs⟩ := Option.bind_eq_some_iff.mp hs
        split at hs
        · cases hs
          exact ⟨_, h.move hx (q := some k) rfl rfl rfl, .goes hx (hc ▸ .wait) rfl rfl rfl rfl⟩
        · cases hs
      | _ =>
        simp only [Config.act] at hs
        obtain ⟨r, hr, rfl⟩ := Option.map_eq_some_iff.mp hs
        obtain ⟨q, hq, hp⟩ := goes_of_effect hr
        exact ⟨_, h.move hx hp rfl rfl, .goes hx (hc ▸ hq) rfl rfl rfl rfl⟩
    · cases hs
  | meet i j =>
    obtain ⟨c, v, k, k', b, b', hi, hj, -, -, rfl⟩ := meet_inv hs
    have hij : i ≠ j := by
      rintro rfl
      rw [hi] at hj
      cases hj
    obtain ⟨x, hx, hcx⟩ := h.exists_pos hi
    obtain ⟨y, hy, hcy⟩ := h.exists_pos hj
    have hy' : Function.update pos i (some k) j = some y := by
      rw [Function.update_of_ne hij.symm]
      exact hy
    exact ⟨_, (h.move (t := { a with proc := Function.update a.proc i (.live (code i k)) }) hx
        (q := some k) rfl rfl rfl).move hy' (q := some (k' (some v))) rfl rfl rfl,
      .meets hij hx hy (hcx ▸ .send) (hcy ▸ .recv (some v)) rfl rfl rfl rfl⟩

variable {I : Config σ κ V → (Nat → Option σ) → Prop}

/-- **Invariant rule for configurations with places**: from one configuration on. -/
theorem run_places (hI : ∀ {a t pos pos'}, a.Places code pos → I a pos → t.Places code pos' →
      Travels code a t pos pos' → I t pos')
    {caps : κ → Option Nat} {ns : κ → Option Int} {fs : List σ} {ls : List Label}
    (h : a.Places code pos) (hi : I a pos) (hr : (network code caps ns fs).run ls a = some t) :
    ∃ pos', t.Places code pos' ∧ I t pos' := by
  refine System.run_invariant (M := network code caps ns fs)
    (I := fun t => ∃ pos', t.Places code pos' ∧ I t pos') ?_ hr ⟨pos, h, hi⟩
  rintro l a t hs ⟨pos, h, hi⟩
  obtain ⟨pos', hp, ht⟩ := step_travels h hs
  exact ⟨pos', hp, hI h hi hp ht⟩

/-- The same from the start. -/
theorem reach_places (hI : ∀ {a t pos pos'}, a.Places code pos → I a pos → t.Places code pos' →
      Travels code a t pos pos' → I t pos')
    {caps : κ → Option Nat} {ns : κ → Option Int} {fs : List σ}
    (h0 : I (.initial caps ns fs) fun _ => none)
    (hr : (network code caps ns fs).Reachable a) : ∃ pos, a.Places code pos ∧ I a pos := by
  refine hr.invariant (I := fun a => ∃ pos, a.Places code pos ∧ I a pos) ?_ ?_
  · rintro a rfl
    exact ⟨fun _ => none, ⟨fun h => (by cases h), fun _ h => (by cases h), fun _ _ => rfl⟩, h0⟩
  · rintro a t l - ⟨pos, h, hi⟩ hs
    obtain ⟨pos', hp, ht⟩ := step_travels h hs
    exact ⟨pos', hp, hI h hi hp ht⟩

end Steps

/-! ### Debts

A debt is a promise to make calls of `add` that sum up to its negative. If the processes keep track
of their debts in their code, then the counter is what they owe in all, and its sign follows from
the signs of the debts.
-/

section Code

variable [DecidableEq κ]

/-- A command of a process that owes `d`: what the process owes where it goes on.  The child of a
    `fork` takes over a part. -/
def Cmd.Follows (owes : σ → κ → Int) (d : κ → Int) : Cmd σ κ V → Prop
  | .step k => owes k = d
  | .fork f k => owes k + owes f = d
  | .send _ _ k => owes k = d
  | .recv _ k => ∀ o, owes (k o) = d
  | .close _ k => owes k = d
  | .add g n k => owes k = d + Pi.single g n
  | .wait _ k => owes k = d
  | .halt => d = 0

/-- The command waits for no other process. -/
def Cmd.Prompt : Cmd σ κ V → Prop
  | .send _ _ _ => False
  | .recv _ _ => False
  | .close _ _ => False
  | .wait _ _ => False
  | _ => True

/-- What a process owes to each counter, at each place of its code. -/
structure Debts (code : Nat → σ → Cmd σ κ V) where
  owes : σ → κ → Int
  nonneg : ∀ x, 0 ≤ owes x
  follows : ∀ i x, (code i x).Follows owes (owes x)

variable {code : Nat → σ → Cmd σ κ V}

/-- Whoever owes something waits for nobody. -/
def Debts.Prompt (D : Debts code) : Prop := ∀ i x g, 0 < D.owes x g → (code i x).Prompt

/-- The command tells what is owed. -/
theorem Cmd.Follows.unique {owes : σ → κ → Int} {d d' : κ → Int} {x : Cmd σ κ V}
    (h : x.Follows owes d) (h' : x.Follows owes d') : d = d' := by
  cases x with
  | step | fork | send | close | wait => exact h.symm.trans h'
  | recv => exact (h none).symm.trans (h' none)
  | add => exact add_right_cancel (h.symm.trans h')
  | halt => exact Eq.trans h (Eq.symm h')

/-- After its command a process owes what the command leaves of its debts. -/
theorem Cmd.Goes.follows {owes : σ → κ → Int} {d : κ → Int} {y : Cmd σ κ V} {q : Option σ}
    (hq : y.Goes q) (h : y.Follows owes d) (g : κ) : q.elim 0 (owes · g) = d g := by
  cases hq with
  | step | send | close | wait => exact congrFun h g
  | recv o => exact congrFun (h o) g
  | halt =>
    rw [show d = 0 from h]
    rfl

/-- The processes are at the places `pos` of their code, and the counters are what they owe. -/
structure Config.Accounts (D : Debts code) (a : Config σ κ V) (pos : Nat → Option σ) : Prop
    extends a.Places code pos where
  pending : ∀ f ∈ a.pending, D.owes f = 0
  counter : ∀ {g n}, a.counter g = some n → n = ledger (D.owes · g) pos a.next

section Accounts

variable {D : Debts code} {a t : Config σ κ V} {pos pos' : Nat → Option σ} {i : Nat} {x : σ} {g : κ}
  {n d : Int}

/-- **A step keeps the accounts.** -/
theorem Travels.accounts (h : a.Accounts D pos) (ht : Travels code a t pos pos')
    (hp : t.Places code pos') : t.Accounts D pos' := by
  cases ht with
  -- a new process owes nothing
  | @start f rest hf hpos hn hr hc =>
    refine ⟨hp, fun f' hf' => ?_, fun {g n} hg => ?_⟩
    · rw [hr] at hf'
      exact h.pending f' (hf ▸ List.mem_cons_of_mem _ hf')
    · have hzero : D.owes f g = 0 := congrFun (h.pending f (hf ▸ List.mem_cons_self)) g
      rw [hc] at hg
      rw [hpos, hn, ledger_birth, ← h.counter hg]
      omega
  | @goes i x q hx hq hpos hn hr hc =>
    refine ⟨hp, hr ▸ h.pending, fun {g n} hg => ?_⟩
    have hsame := hq.follows (D.follows i x) g
    rw [hc] at hg
    rw [hpos, hn, ledger_update (h.lt_next hx), hx, Option.elim_some, ← h.counter hg, hsame]
    omega
  -- what the parent owes is divided between it and its child
  | @forks i x f k hx hq hpos hn hr hc =>
    refine ⟨hp, hr ▸ h.pending, fun {g n} hg => ?_⟩
    have hsplit := D.follows i x
    rw [hq] at hsplit
    have hsplit := congrFun hsplit g
    have hlt := h.lt_next hx
    rw [hc] at hg
    rw [hpos, hn, ledger_update (Nat.lt_succ_of_lt hlt), ledger_birth, ← h.counter hg,
      Function.update_of_ne hlt.ne, hx, Option.elim_some, Option.elim_some]
    simp only [Pi.add_apply] at hsplit
    omega
  -- an `add` moves the debt and the counter by the same amount
  | @adds i x g d k n hx hq hpos hn hr hg hc =>
    refine ⟨hp, hr ▸ h.pending, fun {g' n'} hg' => ?_⟩
    have hpay := D.follows i x
    rw [hq] at hpay
    have hpay := congrFun hpay g'
    rw [hc] at hg'
    rw [hpos, hn, ledger_update (h.lt_next hx), hx, Option.elim_some, Option.elim_some]
    simp only [Pi.add_apply] at hpay
    by_cases hgg : g' = g
    · subst hgg
      rw [Function.update_self] at hg'
      rw [Pi.single_eq_same] at hpay
      cases hg'
      have := h.counter hg
      omega
    · rw [Function.update_of_ne hgg] at hg'
      rw [Pi.single_eq_of_ne hgg] at hpay
      have := h.counter hg'
      omega
  | @meets i j x y q q' hij hx hy hq hq' hpos hn hr hc =>
    refine ⟨hp, hr ▸ h.pending, fun {g n} hg => ?_⟩
    have hi := hq.follows (D.follows i x) g
    have hj := hq'.follows (D.follows j y) g
    rw [hc] at hg
    rw [hpos, hn, ledger_update (h.lt_next hy), ledger_update (h.lt_next hx),
      Function.update_of_ne hij.symm, hx, hy, Option.elim_some, Option.elim_some,
      ← h.counter hg, hi, hj]
    omega

namespace Config.Accounts

/-- **No `add` makes a counter negative.** -/
theorem covered (h : a.Accounts D pos) {k : σ} (hp : a.proc i = .live (.add g d k))
    (hn : a.counter g = some n) : 0 ≤ n + d := by
  obtain ⟨x, hx, hc⟩ := h.exists_pos hp
  have hpay := D.follows i x
  rw [← hc] at hpay
  have hpay := congrFun hpay g
  simp only [Pi.add_apply, Pi.single_eq_same] at hpay
  -- what is owed after the `add`
  have hledger : 0 ≤ ledger (D.owes · g) (Function.update pos i (some k)) a.next :=
    ledger_nonneg fun x => D.nonneg x g
  rw [ledger_update (h.lt_next hx), hx, Option.elim_some, Option.elim_some, ← h.counter hn]
    at hledger
  omega

/-- **At zero nobody owes anything.** -/
theorem paid (h : a.Accounts D pos) (hn : a.counter g = some 0) (hx : pos i = some x) :
    D.owes x g = 0 :=
  eq_zero_of_ledger (fun x => D.nonneg x g) (h.counter hn).symm (h.lt_next hx) hx

/-- **Above zero somebody does.** -/
theorem debtor (h : a.Accounts D pos) (hn : a.counter g = some n) (h0 : n ≠ 0) :
    ∃ i x, pos i = some x ∧ 0 < D.owes x g := by
  have hledger : 0 ≤ ledger (D.owes · g) pos a.next := ledger_nonneg fun x => D.nonneg x g
  have hcount := h.counter hn
  have hsome : 0 < ledger (D.owes · g) pos a.next := by omega
  obtain ⟨i, x, -, hx, hpos⟩ := exists_of_ledger hsome
  exact ⟨i, x, hx, hpos⟩

/-- A counter at zero or above. -/
theorem counter_nonneg (h : a.Accounts D pos) (hn : a.counter g = some n) : 0 ≤ n :=
  (h.counter hn).symm ▸ ledger_nonneg fun x => D.nonneg x g

end Config.Accounts

/-- At first nobody owes anything. -/
theorem accounts_initial (D : Debts code) {caps : κ → Option Nat} {ns : κ → Option Int}
    {fs : List σ} (hns : ∀ {g n}, ns g = some n → n = 0) (hfs : ∀ f ∈ fs, D.owes f = 0) :
    (Config.initial caps ns fs : Config σ κ V).Accounts D fun _ => none :=
  ⟨⟨fun h => (by cases h), fun _ h => (by cases h), fun _ _ => rfl⟩, hfs, fun hg => hns hg⟩

end Accounts

/-! ### Stocks

A stock is something that processes hold, use up and hand on, but never get more of. What may still
be added to a counter is a stock, and so are the tokens of a gate.
-/

/-- A command of a process that holds `b`: what the process holds where it goes on.  The child of a
    `fork` gets a part, and an `add` of `n` costs `c n`. -/
def Cmd.Spends (c : Int → Int) (holds : σ → κ → Int) (b : κ → Int) : Cmd σ κ V → Prop
  | .step k => holds k ≤ b
  | .fork f k => holds k + holds f ≤ b
  | .send _ _ k => holds k ≤ b
  | .recv _ k => ∀ o, holds (k o) ≤ b
  | .close _ k => holds k ≤ b
  | .add g n k => holds k + Pi.single g (c n) ≤ b
  | .wait _ k => holds k ≤ b
  | .halt => True

/-- What a process holds for each counter, and never gets more of. -/
structure Stock (code : Nat → σ → Cmd σ κ V) (c : Int → Int) where
  holds : σ → κ → Int
  nonneg : ∀ x, 0 ≤ holds x
  spends : ∀ i x, (code i x).Spends c holds (holds x)

/-- What a process may still add to each counter, with all that it creates. -/
abbrev Quota (code : Nat → σ → Cmd σ κ V) := Stock code (max 0)

section Stocks

variable {c : Int → Int} {S : Stock code c} {a t : Config σ κ V} {pos pos' : Nat → Option σ}
  {i : Nat} {x : σ} {g : κ} {n b : Int}

/-- After its command a process holds no more than the command leaves it. -/
theorem Cmd.Goes.spends {holds : σ → κ → Int} {b : κ → Int} {y : Cmd σ κ V} {q : Option σ}
    (hq : y.Goes q) (h : y.Spends c holds b) (hb : 0 ≤ b) (g : κ) :
    q.elim 0 (holds · g) ≤ b g := by
  cases hq with
  | step | send | close | wait => exact h g
  | recv o => exact h o g
  | halt => exact hb g

/-- What the processes hold for the counter `g`, with those that are still to be created. -/
def Config.stock (S : Stock code c) (a : Config σ κ V) (pos : Nat → Option σ) (g : κ) : Int :=
  ledger (S.holds · g) pos a.next + (a.pending.map (S.holds · g)).sum

/-- What the processes to come hold is not negative. -/
theorem pending_nonneg (S : Stock code c) (fs : List σ) (g : κ) :
    0 ≤ (fs.map (S.holds · g)).sum :=
  List.sum_nonneg fun y hy => by
    obtain ⟨f, -, rfl⟩ := List.mem_map.mp hy
    exact S.nonneg f g

/-- The stock is not negative. -/
theorem stock_nonneg : 0 ≤ a.stock S pos g :=
  add_nonneg (ledger_nonneg fun x => S.nonneg x g) (pending_nonneg S a.pending g)

/-- No process holds more than the stock. -/
theorem holds_le_stock (h : a.Places code pos) (hx : pos i = some x) :
    S.holds x g ≤ a.stock S pos g := by
  have hle := le_ledger (fun x => S.nonneg x g) (h.lt_next hx) hx
  have hpend := pending_nonneg S a.pending g
  unfold Config.stock
  omega

/-- **What a step does to a stock**, and to the counter: the stock does not grow, and an `add`
    takes its costs from it. -/
theorem Travels.stock (S : Stock code c) (hp : a.Places code pos) (ht : Travels code a t pos pos')
    (g : κ) :
    t.counter g = a.counter g ∧ t.stock S pos' g ≤ a.stock S pos g ∨
      ∃ n d, a.counter g = some n ∧ t.counter g = some (n + d) ∧
        t.stock S pos' g + c d ≤ a.stock S pos g := by
  unfold Config.stock
  cases ht with
  | @start f rest hf hpos hn hr hc =>
    refine .inl ⟨congrFun hc g, ?_⟩
    rw [hpos, hn, hr, hf, ledger_birth, List.map_cons, List.sum_cons]
    omega
  | @goes i x q hx hq hpos hn hr hc =>
    refine .inl ⟨congrFun hc g, ?_⟩
    have hle := hq.spends (S.spends i x) (S.nonneg x) g
    rw [hpos, hn, hr, ledger_update (hp.lt_next hx), hx, Option.elim_some]
    omega
  | @forks i x f k hx hq hpos hn hr hc =>
    refine .inl ⟨congrFun hc g, ?_⟩
    have hle := S.spends i x
    rw [hq] at hle
    have hle := hle g
    have hlt := hp.lt_next hx
    simp only [Pi.add_apply] at hle
    rw [hpos, hn, hr, ledger_update (Nat.lt_succ_of_lt hlt), ledger_birth,
      Function.update_of_ne hlt.ne, hx, Option.elim_some, Option.elim_some]
    omega
  | @adds i x g' d k n hx hq hpos hn hr hg hc =>
    have hle := S.spends i x
    rw [hq] at hle
    have hle : S.holds k g + (Pi.single g' (c d) : κ → Int) g ≤ S.holds x g := hle g
    rw [hpos, hn, hr, ledger_update (hp.lt_next hx), hx, Option.elim_some, Option.elim_some, hc]
    by_cases hgg : g = g'
    · subst hgg
      rw [Pi.single_eq_same] at hle
      exact .inr ⟨n, d, hg, Function.update_self _ _ _, by omega⟩
    · rw [Pi.single_eq_of_ne hgg] at hle
      exact .inl ⟨Function.update_of_ne hgg _ _, by omega⟩
  | @meets i j x y q q' hij hx hy hq hq' hpos hn hr hc =>
    refine .inl ⟨congrFun hc g, ?_⟩
    have hi := hq.spends (S.spends i x) (S.nonneg x) g
    have hj := hq'.spends (S.spends j y) (S.nonneg y) g
    rw [hpos, hn, hr, ledger_update (hp.lt_next hy), ledger_update (hp.lt_next hx),
      Function.update_of_ne hij.symm, hx, hy, Option.elim_some, Option.elim_some]
    omega

/-- A stock does not grow. -/
theorem Travels.stock_le (hc : ∀ d, 0 ≤ c d) (hp : a.Places code pos)
    (ht : Travels code a t pos pos') (g : κ) : t.stock S pos' g ≤ a.stock S pos g := by
  rcases ht.stock S hp g with ⟨-, hle⟩ | ⟨n, d, -, -, hle⟩
  · exact hle
  · exact le_trans (le_add_of_nonneg_right (hc d)) hle

/-- A counter and what may still be added to it. -/
def Config.Within (Q : Quota code) (a : Config σ κ V) (pos : Nat → Option σ) (total : κ → Int) :
    Prop := ∀ g n, a.counter g = some n → n + a.stock Q pos g ≤ total g

/-- The counter stays below the total. -/
theorem Config.Within.le_total {Q : Quota code} {total : κ → Int} (h : a.Within Q pos total)
    (hn : a.counter g = some n) : n ≤ total g :=
  le_trans (le_add_of_nonneg_right stock_nonneg) (h g n hn)

/-- A step that follows the commands stays within the quota. -/
theorem Travels.within {Q : Quota code} {total : κ → Int} (h : a.Within Q pos total)
    (hp : a.Places code pos) (ht : Travels code a t pos pos') : t.Within Q pos' total := by
  intro g n hn
  rcases ht.stock Q hp g with ⟨hsame, hle⟩ | ⟨m, d, hm, hsame, hle⟩
  · have := h g n (hsame ▸ hn)
    omega
  · rw [hsame] at hn
    cases hn
    have := h g m hm
    omega

/-- The counter is at zero and nobody may add to it any more. -/
def Config.Settled (Q : Quota code) (a : Config σ κ V) (pos : Nat → Option σ) (g : κ) : Prop :=
  a.stock Q pos g = 0 ∧ a.counter g = some 0

/-- **A counter to which nobody adds stays at zero.** -/
theorem Travels.settled {Q : Quota code} {D : Debts code} (h : a.Settled Q pos g)
    (hp : a.Places code pos) (hacc : t.Accounts D pos') (ht : Travels code a t pos pos') :
    t.Settled Q pos' g := by
  obtain ⟨hstock, hzero⟩ := h
  have hpos : 0 ≤ t.stock Q pos' g := stock_nonneg
  rcases ht.stock Q hp g with ⟨hsame, hle⟩ | ⟨m, d, hm, hsame, hle⟩
  · exact ⟨by omega, hsame.trans hzero⟩
  · cases hzero.symm.trans hm
    have hnonneg := hacc.counter_nonneg hsame
    obtain rfl : d = 0 := by omega
    exact ⟨by omega, hsame⟩

end Stocks

/-- **The counters are what the processes owe**, in every configuration reached, and with what may
    still be added they are no more than what could be added at first. -/
theorem reach_accounts (D : Debts code) {caps : κ → Option Nat} {ns : κ → Option Int} {fs : List σ}
    (hns : ∀ {g n}, ns g = some n → n = 0) (hfs : ∀ f ∈ fs, D.owes f = 0) {a : Config σ κ V}
    (hr : (network code caps ns fs).Reachable a) :
    ∃ pos, a.Accounts D pos ∧
      ∀ Q : Quota code, a.Within Q pos fun g => (fs.map (Q.holds · g)).sum := by
  have hstart : ∀ Q : Quota code,
      (Config.initial caps ns fs : Config σ κ V).Within Q (fun _ => none)
        fun g => (fs.map (Q.holds · g)).sum := by
    intro Q g n hn
    obtain rfl := hns hn
    show 0 + (ledger _ _ 0 + _) ≤ _
    rw [ledger, Finset.sum_range_zero, zero_add, zero_add]
    exact le_rfl
  obtain ⟨pos, -, h⟩ := reach_places (I := fun a pos => a.Accounts D pos ∧
    ∀ Q : Quota code, a.Within Q pos fun g => (fs.map (Q.holds · g)).sum)
    (fun hp h ht hs => ⟨hs.accounts h.1 ht, fun Q => hs.within (h.2 Q) hp⟩)
    ⟨accounts_initial D hns hfs, hstart⟩ hr
  exact ⟨pos, h⟩

/-! ### Gates

Whoever may still add holds all the tokens and whoever waits holds one, so there is nobody of the
one kind while there is somebody of the other.
-/

/-- An order between those who add to a counter and those who wait for it: both hold tokens of the
    gate, and one who may still add holds all there are. -/
structure Gate (Q : Quota code) where
  tokens : Stock code fun _ => 0
  total : κ → Int
  adder : ∀ x g, 0 < Q.holds x g → total g ≤ tokens.holds x g
  waiter : ∀ i x g k, code i x = .wait g k → 0 < tokens.holds x g ∧ Q.holds x g = 0

/-- **While somebody waits, nobody may add.** -/
theorem Gate.closed {Q : Quota code} (G : Gate Q) {a : Config σ κ V} {pos : Nat → Option σ}
    {i : Nat} {g : κ} {k : σ} (hp : a.Places code pos) (hle : a.stock G.tokens pos g ≤ G.total g)
    (hi : a.proc i = .live (.wait g k)) : a.stock Q pos g = 0 := by
  obtain ⟨x, hx, hw⟩ := hp.exists_pos hi
  obtain ⟨htoken, hquota⟩ := G.waiter i x g k hw.symm
  have hnonneg : ∀ x, 0 ≤ G.tokens.holds x g := fun x => G.tokens.nonneg x g
  have hpend := pending_nonneg G.tokens a.pending g
  unfold Config.stock at hle ⊢
  -- neither a process may add nor one that is still to be created
  have hledger : ledger (Q.holds · g) pos a.next = 0 := by
    by_contra hne
    have hpos : 0 ≤ ledger (Q.holds · g) pos a.next := ledger_nonneg fun x => Q.nonneg x g
    have hsome : 0 < ledger (Q.holds · g) pos a.next := by omega
    obtain ⟨j, y, hj, hy, hadd⟩ := exists_of_ledger hsome
    have hij : i ≠ j := by
      rintro rfl
      cases hx.symm.trans hy
      omega
    have htwo := add_le_ledger hnonneg (hp.lt_next hx) hj hij hx hy
    have hall := G.adder y g hadd
    omega
  have hsum : (a.pending.map (Q.holds · g)).sum = 0 := by
    by_contra hne
    have hone := le_ledger hnonneg (hp.lt_next hx) hx
    obtain ⟨f, hf, hadd⟩ : ∃ f ∈ a.pending, 0 < Q.holds f g := by
      by_contra hno
      push Not at hno
      refine hne (List.sum_eq_zero fun y hy => ?_)
      obtain ⟨f, hf, rfl⟩ := List.mem_map.mp hy
      exact le_antisymm (hno f hf) (Q.nonneg f g)
    have hall := G.adder f g hadd
    have hmem : G.tokens.holds f g ≤ (a.pending.map (G.tokens.holds · g)).sum :=
      List.single_le_sum (fun y hy => by
        obtain ⟨f, -, rfl⟩ := List.mem_map.mp hy
        exact hnonneg f) _ (List.mem_map_of_mem hf)
    omega
  rw [hledger, hsum, add_zero]

/-- The accounts of processes that pass a gate: to the counters in `shut` nobody may add any more,
    and those in `settled` are at zero besides. -/
structure Config.Gated {Q : Quota code} (D : Debts code) (G : Gate Q) (shut settled : κ → Prop)
    (a : Config σ κ V) (pos : Nat → Option σ) : Prop extends a.Accounts D pos where
  tokens : ∀ g, a.stock G.tokens pos g ≤ G.total g
  shut : ∀ g, shut g → a.stock Q pos g = 0
  settled : ∀ g, settled g → a.Settled Q pos g

section Gated

variable {Q : Quota code} {D : Debts code} {G : Gate Q} {shut settled : κ → Prop}
  {a t : Config σ κ V} {pos pos' : Nat → Option σ} {caps : κ → Option Nat} {ns : κ → Option Int}
  {fs : List σ}

/-- A step that follows the commands keeps the gates. -/
theorem Travels.gated (h : a.Gated D G shut settled pos) (hp : t.Places code pos')
    (ht : Travels code a t pos pos') : t.Gated D G shut settled pos' where
  toAccounts := ht.accounts h.toAccounts hp
  tokens g := (ht.stock_le (fun _ => le_rfl) h.toPlaces g).trans (h.tokens g)
  shut g hg := by
    have hle := ht.stock_le (S := Q) (fun d => le_max_left 0 d) h.toPlaces g
    exact le_antisymm (hle.trans (h.shut g hg).le) stock_nonneg
  settled g hg := ht.settled (h.settled g hg) h.toPlaces (ht.accounts h.toAccounts hp)

/-- **A run keeps the accounts and the gates.** -/
theorem Config.Gated.run (h : a.Gated D G shut settled pos) {ls : List Label}
    (hr : (network code caps ns fs).run ls a = some t) :
    ∃ pos', t.Gated D G shut settled pos' := by
  obtain ⟨pos', -, h'⟩ := run_places (I := fun a pos => a.Gated D G shut settled pos)
    (fun _ h ht hs => hs.gated h ht) h.toPlaces h hr
  exact ⟨pos', h'⟩

/-- The gates are kept at the start, when nobody owes anything yet. -/
theorem gated_initial (D : Debts code) (G : Gate Q) (hns : ∀ {g n}, ns g = some n → n = 0)
    (hfs : ∀ f ∈ fs, D.owes f = 0) (hG : ∀ g, (fs.map (G.tokens.holds · g)).sum ≤ G.total g) :
    (Config.initial caps ns fs : Config σ κ V).Gated D G (fun _ => False) (fun _ => False)
      fun _ => none where
  toAccounts := accounts_initial D hns hfs
  tokens g := by
    show ledger _ _ 0 + _ ≤ _
    rw [ledger, Finset.sum_range_zero, zero_add]
    exact hG g
  shut _ h := h.elim
  settled _ h := h.elim

end Gated

/-- Where nothing may be added, no process is at an `add` of more than zero. -/
theorem Cmd.Spends.add_nonpos {Q : Quota code} {b : κ → Int} {g : κ} {n : Int} {k : σ}
    (h : (Cmd.add g n k : Cmd σ κ V).Spends (max 0) Q.holds b) (hb : b g ≤ 0) : n ≤ 0 := by
  have hle : Q.holds k g + (Pi.single g (max 0 n) : κ → Int) g ≤ b g := h g
  have hnonneg : 0 ≤ Q.holds k g := Q.nonneg k g
  rw [Pi.single_eq_same] at hle
  omega

end Code

end Network
