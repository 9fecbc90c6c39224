import MyGoroutine.Lib.Transition
import Mathlib.Logic.Function.Basic

/-!
# Networks — processes that communicate over bounded channels and counters

What channels and wait groups are for, without anything that implements them: a network is a set
of sequential processes, a set of bounded buffers and a set of counters.  A process sends when
there is room, receives when there is a value or the channel is closed and empty, meets its
partner when there is no buffer, and passes a counter that is zero.  Nobody waits in a queue and
nobody is woken: a step that is not possible is not taken.

* `Cmd` — what a process does next;
* `Chan.offer`, `Chan.pull`, `Chan.shut`, `Chan.pass` — what happens at a channel;
* `Cmd.effect`, `Cmd.meet` — the step of one process at a channel, and the one that two processes
  take together;
* `network` — the transition system of the processes with the code `code`;
* `run_handOver`, `run_refill` — a value that two processes move together;
* `run_pass` — the processes that wait for a counter pass it.

Processes are numbered in the order in which they are created.
-/

namespace Network

universe u v w

/-- What a process does next; `k` is where it goes on. -/
inductive Cmd (σ : Type u) (κ : Type v) (V : Type w) where
  /-- A step of the process's own. -/
  | step (k : σ)
  /-- The process starts another one at `f`. -/
  | fork (f k : σ)
  /-- It sends `v`, -/
  | send (c : κ) (v : V) (k : σ)
  /-- receives a value, or learns that none will come, -/
  | recv (c : κ) (k : Option V → σ)
  /-- or closes the channel. -/
  | close (c : κ) (k : σ)
  /-- It adds `d` to a counter, -/
  | add (g : κ) (d : Int) (k : σ)
  /-- or waits until the counter is zero. -/
  | wait (g : κ) (k : σ)
  /-- It is done. -/
  | halt

/-- A channel: the values received from it, oldest first, and those it holds. -/
structure Chan (V : Type w) where
  /-- What has been taken out, in order. -/
  taken : List V
  /-- What is still in it. -/
  buf : List V
  /-- How much it holds. -/
  cap : Nat
  /-- It is closed. -/
  closed : Bool

namespace Chan

variable {V : Type w}

/-- A value is put in the buffer. -/
def offer (v : V) (b : Chan V) : Option (Chan V) :=
  if b.closed = false ∧ b.buf.length < b.cap then some { b with buf := b.buf ++ [v] } else none

/-- A value is taken out; a closed channel without values gives `none`. -/
def pull (b : Chan V) : Option (Option V × Chan V) :=
  match b.buf with
  | v :: buf => some (some v, { b with buf, taken := b.taken ++ [v] })
  | [] => if b.closed then some (none, b) else none

/-- The channel is closed, if it was open. -/
def shut (b : Chan V) : Option (Chan V) :=
  if b.closed then none else some { b with closed := true }

/-- A value is handed over, on a channel without a buffer. -/
def pass (v : V) (b : Chan V) : Option (Chan V) :=
  if b.closed = false ∧ b.cap = 0 ∧ b.buf = [] then some { b with taken := b.taken ++ [v] }
  else none

end Chan

/-- Where a process is. -/
inductive Proc (σ : Type u) (κ : Type v) (V : Type w) where
  | unborn
  | live (x : Cmd σ κ V)
  | halted

/-- The processes, the channels, the counters, the number of processes so far, and those that
    the environment has still to create. -/
structure Config (σ : Type u) (κ : Type v) (V : Type w) where
  /-- Where each process is. -/
  proc : Nat → Proc σ κ V
  /-- The channels. -/
  chan : κ → Option (Chan V)
  /-- The counters. -/
  counter : κ → Option Int
  /-- The next process. -/
  next : Nat
  /-- The processes that are still to be started from outside. -/
  pending : List σ

/-- Who takes a step. -/
inductive Label where
  /-- The environment creates a process. -/
  | start
  | act (i : Nat)
  /-- `i` hands a value to `j`. -/
  | meet (i j : Nat)
deriving DecidableEq

section Steps

variable {σ : Type u} {κ : Type v} {V : Type w} [DecidableEq κ]

/-- What an operation on the channel `c` does to the channels. -/
def on {α : Type*} (c : κ) (f : Chan V → Option (α × Chan V)) (chan : κ → Option (Chan V)) :
    Option (α × (κ → Option (Chan V))) :=
  ((chan c).bind f).map fun r => (r.1, Function.update chan c (some r.2))

variable (code : Nat → σ → Cmd σ κ V)

/-- What the process `i` does on its own: where it goes on, and the channels after it.
    Creating a process and the counters are left to `act`. -/
def Cmd.effect (i : Nat) (chan : κ → Option (Chan V)) :
    Cmd σ κ V → Option (Proc σ κ V × (κ → Option (Chan V)))
  | .step k => some (.live (code i k), chan)
  | .fork _ _ => none
  | .send c v k => on c (fun b => (b.offer v).map fun b => (.live (code i k), b)) chan
  | .recv c k => on c (fun b => b.pull.map fun r => (.live (code i (k r.1)), r.2)) chan
  | .close c k => on c (fun b => b.shut.map fun b => (.live (code i k), b)) chan
  | .add _ _ _ => none
  | .wait _ _ => none
  | .halt => some (.halted, chan)

/-- What `i` and `j` do together: where they go on, and the channels after it. -/
def Cmd.meet (i j : Nat) (chan : κ → Option (Chan V)) :
    Cmd σ κ V → Cmd σ κ V → Option ((Proc σ κ V × Proc σ κ V) × (κ → Option (Chan V)))
  | .send c v k, .recv c' k' =>
    if c = c' then
      on c (fun b => (b.pass v).map fun b =>
        ((.live (code i k), .live (code j (k' (some v)))), b)) chan
    else none
  | _, _ => none

namespace Config

variable (a : Config σ κ V)

omit [DecidableEq κ] in
/-- A process is created, under the next number. -/
def birth (f : σ) : Config σ κ V :=
  { a with proc := Function.update a.proc a.next (.live (code a.next f)), next := a.next + 1 }

/-- The process `i` takes a step on its own. -/
def act (i : Nat) : Cmd σ κ V → Option (Config σ κ V)
  | .fork f k =>
    let b := a.birth code f
    some { b with proc := Function.update b.proc i (.live (code i k)) }
  | .add g d k => (a.counter g).bind fun n =>
    if 0 ≤ n + d then
      some { a with
        proc := Function.update a.proc i (.live (code i k))
        counter := Function.update a.counter g (some (n + d)) }
    else none
  | .wait g k => (a.counter g).bind fun n =>
    if n = 0 then some { a with proc := Function.update a.proc i (.live (code i k)) } else none
  | x => (x.effect code i a.chan).map fun r =>
      { a with proc := Function.update a.proc i r.1, chan := r.2 }

/-- The processes `i` and `j` take a step together. -/
def join (i j : Nat) (x y : Cmd σ κ V) : Option (Config σ κ V) :=
  (x.meet code i j a.chan y).map fun r =>
    { a with proc := Function.update (Function.update a.proc i r.1.1) j r.1.2, chan := r.2 }

end Config

/-- One step of the network. -/
def step : Label → Config σ κ V → Option (Config σ κ V)
  | .start, a =>
    match a.pending with
    | [] => none
    | f :: rest => some { a.birth code f with pending := rest }
  | .act i, a =>
    match a.proc i with
    | .live x => a.act code i x
    | _ => none
  | .meet i j, a =>
    match a.proc i, a.proc j with
    | .live x, .live y => a.join code i j x y
    | _, _ => none

section Lemmas

variable {code : Nat → σ → Cmd σ κ V} {chan : κ → Option (Chan V)} {a : Config σ κ V} {c : κ}
  {b b' : Chan V} {i j : Nat} {v : V}

/-- A `send` on its own puts the value into the channel. -/
theorem effect_send {k : σ} (hc : chan c = some b) (hb : b.offer v = some b') :
    (Cmd.send c v k).effect code i chan
      = some (.live (code i k), Function.update chan c (some b')) := by
  simp [Cmd.effect, on, hc, hb]

/-- A `recv` on its own takes a value out, or learns that there will be none. -/
theorem effect_recv {k : Option V → σ} {o : Option V} (hc : chan c = some b)
    (hb : b.pull = some (o, b')) :
    (Cmd.recv c k).effect code i chan
      = some (.live (code i (k o)), Function.update chan c (some b')) := by
  simp [Cmd.effect, on, hc, hb]

/-- A `close` shuts the channel. -/
theorem effect_close {k : σ} (hc : chan c = some b) (hb : b.shut = some b') :
    (Cmd.close c k).effect code i chan
      = some (.live (code i k), Function.update chan c (some b')) := by
  simp [Cmd.effect, on, hc, hb]

/-- A process takes a step on its own. -/
theorem step_act {x : Cmd σ κ V} {p : Proc σ κ V} {ch : κ → Option (Chan V)}
    (hp : a.proc i = .live x) (he : x.effect code i a.chan = some (p, ch)) :
    step code (.act i) a
      = some { a with proc := Function.update a.proc i p, chan := ch } := by
  cases x with
  | fork | add | wait => cases he
  | _ => simp [step, hp, Config.act, he]

/-- A process creates another one. -/
theorem step_fork {f k : σ} (hp : a.proc i = .live (.fork f k)) :
    step code (.act i) a
      = some { a with
          proc := Function.update (Function.update a.proc a.next (.live (code a.next f))) i
            (.live (code i k))
          next := a.next + 1 } := by
  simp [step, hp, Config.act, Config.birth]

/-- A process changes a counter. -/
theorem step_add {g : κ} {d n : Int} {k : σ} (hp : a.proc i = .live (.add g d k))
    (hn : a.counter g = some n) (h0 : 0 ≤ n + d) :
    step code (.act i) a
      = some { a with
          proc := Function.update a.proc i (.live (code i k))
          counter := Function.update a.counter g (some (n + d)) } := by
  simp [step, hp, Config.act, hn, h0]

/-- A process passes a counter. -/
theorem step_wait {g : κ} {k : σ} (hp : a.proc i = .live (.wait g k))
    (hn : a.counter g = some 0) :
    step code (.act i) a
      = some { a with proc := Function.update a.proc i (.live (code i k)) } := by
  simp [step, hp, Config.act, hn]

/-- Two processes take a step together. -/
theorem step_meet {k : σ} {k' : Option V → σ} (hi : a.proc i = .live (.send c v k))
    (hj : a.proc j = .live (.recv c k')) (hc : a.chan c = some b) (hb : b.pass v = some b') :
    step code (.meet i j) a
      = some { a with
          proc := Function.update (Function.update a.proc i (.live (code i k))) j
            (.live (code j (k' (some v))))
          chan := Function.update a.chan c (some b') } := by
  simp [step, hi, hj, Config.join, Cmd.meet, on, hc, hb]

end Lemmas

section Inversion

variable {code : Nat → σ → Cmd σ κ V} {a t : Config σ κ V} {i j : Nat} {α : Type*} {c : κ}
  {f : Chan V → Option (α × Chan V)} {chan ch : κ → Option (Chan V)} {x : α}

/-- An operation on a channel that has gone through. -/
theorem on_eq_some (h : on c f chan = some (x, ch)) :
    ∃ b b₁, chan c = some b ∧ f b = some (x, b₁) ∧ ch = Function.update chan c (some b₁) := by
  obtain ⟨r, hr, heq⟩ := Option.map_eq_some_iff.mp h
  obtain ⟨b, hb, hf⟩ := Option.bind_eq_some_iff.mp hr
  cases heq
  exact ⟨b, r.2, hb, hf, rfl⟩

/-- An operation on a channel goes through when the channel lets it. -/
theorem on_of_some {b b₁ : Chan V} (hb : chan c = some b) (hf : f b = some (x, b₁)) :
    on c f chan = some (x, Function.update chan c (some b₁)) := by
  simp [on, hb, hf]

/-- The next process starts. -/
theorem start_inv (h : step code .start a = some t) :
    ∃ f rest, a.pending = f :: rest ∧ t = { a.birth code f with pending := rest } := by
  simp only [step] at h
  split at h
  · cases h
  · next f rest hp => exact ⟨f, rest, hp, (Option.some.inj h).symm⟩

/-- A value goes from a sender to a receiver, past an empty buffer. -/
theorem meet_inv (h : step code (.meet i j) a = some t) :
    ∃ c v k k' b b', a.proc i = .live (.send c v k) ∧ a.proc j = .live (.recv c k') ∧
      a.chan c = some b ∧ b.pass v = some b' ∧
      t = { a with
        proc := Function.update (Function.update a.proc i (.live (code i k))) j
          (.live (code j (k' (some v))))
        chan := Function.update a.chan c (some b') } := by
  simp only [step] at h
  split at h
  · next x y hx hy =>
    obtain ⟨r, hr, rfl⟩ := Option.map_eq_some_iff.mp h
    unfold Cmd.meet at hr
    split at hr
    · split at hr
      · next c v k c' k' hc =>
        subst hc
        obtain ⟨b, b₁, hb, hf, hch⟩ := on_eq_some hr
        obtain ⟨b', hpass, heq⟩ := Option.map_eq_some_iff.mp hf
        obtain ⟨hfst, rfl⟩ := Prod.mk.inj heq
        refine ⟨c, v, k, k', b, b', hx, hy, hb, hpass, ?_⟩
        rw [hch, ← hfst]
      · cases hr
    · cases hr
  · cases h

end Inversion

omit [DecidableEq κ] in
/-- No process exists yet; the channels are empty, and `pending` are to be created. -/
def Config.initial (caps : κ → Option Nat) (counter : κ → Option Int) (pending : List σ) :
    Config σ κ V where
  proc := fun _ => .unborn
  chan := fun c => (caps c).map fun cap => { taken := [], buf := [], cap, closed := false }
  counter
  next := 0
  pending

/-- The network with the channels `caps` and the counters `counter`, whose environment creates the
    processes `pending`. -/
def network (caps : κ → Option Nat) (counter : κ → Option Int) (pending : List σ) :
    System (Config σ κ V) Label where
  init a := a = .initial caps counter pending
  next := step code

section Runs

variable (code : Nat → σ → Cmd σ κ V) (caps : κ → Option Nat) (ns : κ → Option Int)
  (fs : List σ) {a : Config σ κ V} {c : κ} {b : Chan V} {i j : Nat} {v : V} {k : σ}
  {k' : Option V → σ}

/-- **A value goes from a sender to a receiver** that find an empty channel: through the buffer
    when there is one, else from hand to hand. -/
theorem run_handOver (hi : a.proc i = .live (.send c v k)) (hj : a.proc j = .live (.recv c k'))
    (hc : a.chan c = some b) (hop : b.closed = false) (hb : b.buf = []) :
    ∃ ls, (network code caps ns fs).run ls a = some { a with
      proc := Function.update (Function.update a.proc i (.live (code i k))) j
        (.live (code j (k' (some v))))
      chan := Function.update a.chan c (some { b with taken := b.taken ++ [v] }) } := by
  have hne : j ≠ i := by
    rintro rfl
    rw [hi] at hj
    cases hj
  by_cases hcap : b.cap = 0
  · refine ⟨[.meet i j], System.run_one (step_meet hi hj hc ?_)⟩
    rw [Chan.pass, if_pos ⟨hop, hcap, hb⟩]
  · have hpush : b.offer v = some { b with buf := [v] } := by
      rw [Chan.offer, if_pos ⟨hop, by rw [hb]; exact Nat.pos_of_ne_zero hcap⟩, hb]
      rfl
    have hpull : ({ b with buf := [v] } : Chan V).pull
        = some (some v, { b with buf := [], taken := b.taken ++ [v] }) := rfl
    refine ⟨[.act i, .act j], System.run_two (step_act hi (effect_send hc hpush)) ?_⟩
    refine (step_act ((Function.update_of_ne hne _ _).trans hj)
      (effect_recv (Function.update_self _ _ _) hpull)).trans ?_
    simp only [Function.update_idem, hb]

/-- **A receiver takes the oldest value of a full buffer**, and a sender puts its own in. -/
theorem run_refill {d : V} {buf : List V} (hi : a.proc i = .live (.send c v k))
    (hj : a.proc j = .live (.recv c k')) (hc : a.chan c = some b) (hop : b.closed = false)
    (hb : b.buf = d :: buf) (hfull : b.buf.length ≤ b.cap) :
    (network code caps ns fs).run [.act j, .act i] a = some { a with
      proc := Function.update (Function.update a.proc j (.live (code j (k' (some d))))) i
        (.live (code i k))
      chan := Function.update a.chan c
        (some { b with taken := b.taken ++ [d], buf := buf ++ [v] }) } := by
  have hne : i ≠ j := by
    rintro rfl
    rw [hi] at hj
    cases hj
  have hpull : b.pull = some (some d, { b with buf, taken := b.taken ++ [d] }) := by
    simp [Chan.pull, hb]
  have hpush : ({ b with buf, taken := b.taken ++ [d] } : Chan V).offer v
      = some { b with taken := b.taken ++ [d], buf := buf ++ [v] } := by
    rw [hb, List.length_cons] at hfull
    rw [Chan.offer, if_pos ⟨hop, hfull⟩]
  refine System.run_two (step_act hj (effect_recv hc hpull)) ?_
  refine (step_act ((Function.update_of_ne hne _ _).trans hi)
    (effect_send (Function.update_self _ _ _) hpush)).trans ?_
  simp only [Function.update_idem]

/-- **The processes that wait for a counter pass it** when it is zero, one after another. -/
theorem run_pass {g : κ} (js : List Nat) (hn : a.counter g = some 0)
    (hjs : ∀ j ∈ js, ∃ k, a.proc j = .live (.wait g k)) (hnd : js.Nodup) :
    ∃ a', (network code caps ns fs).run (js.map .act) a = some a' ∧
      (∀ j ∈ js, ∀ k, a.proc j = .live (.wait g k) → a'.proc j = .live (code j k)) ∧
      (∀ j, j ∉ js → a'.proc j = a.proc j) ∧ a'.chan = a.chan ∧ a'.counter = a.counter ∧
      a'.next = a.next ∧ a'.pending = a.pending := by
  induction js generalizing a with
  | nil => exact ⟨a, rfl, by simp, fun _ _ => rfl, rfl, rfl, rfl, rfl⟩
  | cons j js ih =>
    obtain ⟨hj, hnd⟩ := List.nodup_cons.mp hnd
    obtain ⟨k, hk⟩ := hjs j List.mem_cons_self
    -- the first one passes, and the others still wait
    have hothers : ∀ i, i ≠ j → Function.update a.proc j (.live (code j k)) i = a.proc i :=
      fun i hi => Function.update_of_ne hi _ _
    have hne : ∀ i ∈ js, i ≠ j := fun i hi h => hj (h ▸ hi)
    obtain ⟨a', hrun, hpassed, hrest, hframe⟩ := ih
      (a := { a with proc := Function.update a.proc j (.live (code j k)) }) hn
      (fun i hi => (hjs i (List.mem_cons_of_mem _ hi)).imp fun _ hi' =>
        (hothers i (hne i hi)).trans hi') hnd
    refine ⟨a', ?_, fun i hi k' hk' => ?_, fun i hi => ?_, hframe⟩
    · rw [List.map_cons, System.run_cons, show (network code caps ns fs).next (.act j) a = _ from
        step_wait hk hn]
      exact hrun
    · rcases List.mem_cons.mp hi with rfl | hi
      · rw [hk] at hk'
        cases hk'
        exact (hrest i hj).trans (Function.update_self _ _ _)
      · exact hpassed i hi k' ((hothers i (hne i hi)).trans hk')
    · rw [List.mem_cons, not_or] at hi
      exact (hrest i hi.2).trans (hothers i hi.1)

end Runs

end Steps

end Network
