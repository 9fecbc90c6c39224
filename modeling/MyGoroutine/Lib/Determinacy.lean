import MyGoroutine.Lib.Network

/-!
# Determinacy — networks in which every channel has one writer and one reader

When each channel is written and closed by one process and read by one process, and processes
create no others, the order of the steps makes no difference: two steps that are possible in one
configuration commute.  So if some schedule brings the network to rest, every schedule ends in the
same configuration, after the same number of steps.

* `System.comes_to_rest` — the general argument: steps that commute, and a run that stops;
* `Cmd.Within`, `Ownership` — who may use which channel, and the programs that comply;
* `Config.Obeys` — the configurations of such a program;
* `step_diamond` — two steps commute;
* `network_determinate` — all runs that come to rest end alike;
* `Config.Misused`, `misused_at_rest` — and so does every misuse of a closed channel.
-/

universe u v w

namespace System

variable {S : Type u} {A : Type v} {M : System S A}

/-- No step is possible. -/
def AtRest (M : System S A) (s : S) : Prop := ∀ a, M.next a s = none

/-- Two possible steps lead to the same state, or each can be followed by the other. -/
def Diamond (M : System S A) (I : S → Prop) : Prop :=
  ∀ s a b t t', I s → M.next a s = some t → M.next b s = some t' →
    t = t' ∨ ∃ t'', M.next b t = some t'' ∧ M.next a t' = some t''

variable {I : S → Prop}

/-- A step on the way to rest brings the state one step nearer. -/
theorem rest_of_step (hI : ∀ a s s', M.next a s = some s' → I s → I s') (hd : M.Diamond I)
    {as : List A} {s r : S} (hs : I s) (hrun : M.run as s = some r) (hr : M.AtRest r) {b : A}
    {t : S} (ht : M.next b s = some t) :
    ∃ bs, M.run bs t = some r ∧ bs.length + 1 = as.length := by
  induction as generalizing s b t with
  | nil =>
    cases hrun
    rw [hr b] at ht
    cases ht
  | cons a as ih =>
    obtain ⟨t', ht', hrun⟩ := Option.bind_eq_some_iff.mp hrun
    rcases hd s a b t' t hs ht' ht with rfl | ⟨t'', hb, ha⟩
    · exact ⟨as, hrun, rfl⟩
    · -- after `a` the step `b` is still possible, and then `a` after `b`
      obtain ⟨bs, hbs, hlen⟩ := ih (hI a s t' ht' hs) hrun hb
      refine ⟨a :: bs, ?_, by rw [List.length_cons, List.length_cons, hlen]⟩
      rw [run_cons, ha]
      exact hbs

/-- **If one run comes to rest, every run can be continued to the same rest**, and in all it is as
    long. -/
theorem comes_to_rest (hI : ∀ a s s', M.next a s = some s' → I s → I s') (hd : M.Diamond I)
    {as bs : List A} {s r t : S} (hs : I s) (hrun : M.run as s = some r) (hr : M.AtRest r)
    (hrun' : M.run bs s = some t) :
    ∃ cs, M.run cs t = some r ∧ bs.length + cs.length = as.length := by
  induction bs generalizing as s with
  | nil =>
    cases hrun'
    exact ⟨as, hrun, by simp⟩
  | cons b bs ih =>
    obtain ⟨t', ht', hrun'⟩ := Option.bind_eq_some_iff.mp hrun'
    obtain ⟨ds, hds, hlen⟩ := rest_of_step hI hd hs hrun hr ht'
    obtain ⟨cs, hcs, hlen'⟩ := ih (hI b s t' ht' hs) hds hrun'
    exact ⟨cs, hcs, by rw [List.length_cons]; omega⟩

/-- **Rest is unique.** -/
theorem rest_unique (hI : ∀ a s s', M.next a s = some s' → I s → I s') (hd : M.Diamond I)
    {as bs : List A} {s r r' : S} (hs : I s) (hrun : M.run as s = some r) (hr : M.AtRest r)
    (hrun' : M.run bs s = some r') (hr' : M.AtRest r') : r = r' ∧ as.length = bs.length := by
  obtain ⟨cs, hcs, hlen⟩ := comes_to_rest hI hd hs hrun hr hrun'
  cases cs with
  | nil =>
    cases hcs
    exact ⟨rfl, by simpa using hlen.symm⟩
  | cons c cs =>
    obtain ⟨t, ht, -⟩ := Option.bind_eq_some_iff.mp hcs
    rw [hr' c] at ht
    cases ht

end System

namespace Network

variable {σ : Type u} {κ : Type v} {V : Type w} [DecidableEq κ]

/-! ### Channels

The operations on one channel are partial functions of its contents. Those of the sender and those
of the receiver commute where both are possible, since they work at different ends.
-/

namespace Chan

variable {b b₁ b₂ : Chan V} {v : V} {o : Option V}

/-- Sending and receiving commute. -/
theorem offer_pull (h₁ : b.offer v = some b₁) (h₂ : b.pull = some (o, b₂)) :
    ∃ d, b₁.pull = some (o, d) ∧ b₂.offer v = some d := by
  unfold offer at h₁
  split at h₁
  · next hop =>
    cases h₁
    unfold pull at h₂
    split at h₂
    · next x buf hb =>
      cases h₂
      refine ⟨{ b with buf := buf ++ [v], taken := b.taken ++ [x] }, ?_, ?_⟩
      · simp [pull, hb]
      · have hlen := hop.2
        rw [hb, List.length_cons] at hlen
        rw [offer, if_pos ⟨hop.1, Nat.lt_of_succ_lt hlen⟩]
    · rw [hop.1] at h₂
      cases h₂
  · cases h₁

/-- Closing and receiving commute. -/
theorem shut_pull (h₁ : b.shut = some b₁) (h₂ : b.pull = some (o, b₂)) :
    ∃ d, b₁.pull = some (o, d) ∧ b₂.shut = some d := by
  unfold shut at h₁
  split at h₁
  · cases h₁
  · next hop =>
    cases h₁
    unfold pull at h₂
    split at h₂
    · next x buf hb =>
      cases h₂
      exact ⟨{ b with buf, taken := b.taken ++ [x], closed := true }, by simp [pull, hb],
        by simp [shut, hop]⟩
    · rw [if_neg hop] at h₂
      cases h₂

/-- A channel without a buffer on which a value can be handed over gives and takes nothing by
    itself. -/
theorem pass_stuck (h : b.pass v = some b₁) : (∀ v', b.offer v' = none) ∧ b.pull = none := by
  unfold pass at h
  split at h
  · next hb =>
    obtain ⟨hop, hcap, hbuf⟩ := hb
    exact ⟨fun v' => by simp [offer, hcap], by simp [pull, hbuf, hop]⟩
  · cases h

end Chan

section On

variable {α β : Type*} {f : Chan V → Option (α × Chan V)} {g : Chan V → Option (β × Chan V)}
  {chan ch₁ ch₂ : κ → Option (Chan V)} {x : α} {y : β} {c d : κ}

/-- Operations on different channels commute. -/
theorem on_comm_of_ne (hne : c ≠ d) (h₁ : on c f chan = some (x, ch₁))
    (h₂ : on d g chan = some (y, ch₂)) :
    ∃ ch, on d g ch₁ = some (y, ch) ∧ on c f ch₂ = some (x, ch) := by
  obtain ⟨b, b₁, hb, hf, rfl⟩ := on_eq_some h₁
  obtain ⟨b', b₂, hb', hg, rfl⟩ := on_eq_some h₂
  refine ⟨_, on_of_some ((Function.update_of_ne hne.symm _ _).trans hb') hg, ?_⟩
  rw [Function.update_comm hne]
  exact on_of_some ((Function.update_of_ne hne _ _).trans hb) hf

/-- Operations that commute on every channel commute. -/
theorem on_comm (hfg : ∀ b b₁ b₂, f b = some (x, b₁) → g b = some (y, b₂) →
      ∃ b', g b₁ = some (y, b') ∧ f b₂ = some (x, b'))
    (h₁ : on c f chan = some (x, ch₁)) (h₂ : on d g chan = some (y, ch₂)) :
    ∃ ch, on d g ch₁ = some (y, ch) ∧ on c f ch₂ = some (x, ch) := by
  by_cases hne : c = d
  · subst hne
    obtain ⟨b, b₁, hb, hf, rfl⟩ := on_eq_some h₁
    obtain ⟨b', b₂, hb', hg, rfl⟩ := on_eq_some h₂
    rw [hb] at hb'
    cases hb'
    obtain ⟨b', hg', hf'⟩ := hfg b b₁ b₂ hf hg
    have h : on c g (Function.update chan c (some b₁)) = _ :=
      on_of_some (Function.update_self _ _ _) hg'
    have h' : on c f (Function.update chan c (some b₂)) = _ :=
      on_of_some (Function.update_self _ _ _) hf'
    rw [Function.update_idem] at h h'
    exact ⟨_, h, h'⟩
  · exact on_comm_of_ne hne h₁ h₂

end On

/-! ### Ownership

With one writer and one reader for each channel, two processes never make the same kind of operation
on one channel.
-/

/-- The command of the process `i` uses only the channels that `i` owns and no counter, creates no
    process, and goes on at points of `p`. -/
def Cmd.Within (writer reader : κ → Nat) (i : Nat) (p : σ → Prop) : Cmd σ κ V → Prop
  | .step k => p k
  | .fork _ _ => False
  | .send c _ k => writer c = i ∧ p k
  | .recv c k => reader c = i ∧ ∀ o, p (k o)
  | .close c k => writer c = i ∧ p k
  | .add _ _ _ => False
  | .wait _ _ => False
  | .halt => True

/-- Every channel has one process that sends and closes and one that receives; `pts i` are the
    points of the code of the process `i`. -/
structure Ownership (code : Nat → σ → Cmd σ κ V) where
  writer : κ → Nat
  reader : κ → Nat
  pts : Nat → σ → Prop
  within : ∀ i x, pts i x → (code i x).Within writer reader i (pts i)

section Effects

variable {code : Nat → σ → Cmd σ κ V} {O : Ownership code} {chan ch₁ ch₂ : κ → Option (Chan V)}
  {i j : Nat} {x y : Cmd σ κ V} {p q : Proc σ κ V} {c d : κ}

/-- Writing and receiving commute, also on one channel. -/
theorem write_recv {f : Chan V → Option (Chan V)} {k : Option V → Proc σ κ V} {z : Proc σ κ V}
    (hf : ∀ b b₁ o b₂, f b = some b₁ → b.pull = some (o, b₂) →
      ∃ b', b₁.pull = some (o, b') ∧ f b₂ = some b')
    (h₁ : on c (fun b => (f b).map fun b => (z, b)) chan = some (p, ch₁))
    (h₂ : on d (fun b => b.pull.map fun r => (k r.1, r.2)) chan = some (q, ch₂)) :
    ∃ ch, on d (fun b => b.pull.map fun r => (k r.1, r.2)) ch₁ = some (q, ch) ∧
      on c (fun b => (f b).map fun b => (z, b)) ch₂ = some (p, ch) := by
  refine on_comm (fun b b₁ b₂ hb₁ hb₂ => ?_) h₁ h₂
  obtain ⟨d₁, hd₁, heq⟩ := Option.map_eq_some_iff.mp hb₁
  cases heq
  obtain ⟨⟨o, d₂⟩, hd₂, heq⟩ := Option.map_eq_some_iff.mp hb₂
  cases heq
  obtain ⟨b', hpull, hwrite⟩ := hf b _ o _ hd₁ hd₂
  exact ⟨b', by rw [hpull]; rfl, by rw [hwrite]; rfl⟩

/-- **The effects of two processes commute.** -/
theorem effect_comm (hij : i ≠ j) (hx : x.Within O.writer O.reader i (O.pts i))
    (hy : y.Within O.writer O.reader j (O.pts j)) (h₁ : x.effect code i chan = some (p, ch₁))
    (h₂ : y.effect code j chan = some (q, ch₂)) :
    ∃ ch, y.effect code j ch₁ = some (q, ch) ∧ x.effect code i ch₂ = some (p, ch) := by
  -- a channel has one writer and one reader
  have hwrite : ∀ {c d}, O.writer c = i → O.writer d = j → c ≠ d := fun hc hd h =>
    hij (by rw [← hc, ← hd, h])
  have hread : ∀ {c d}, O.reader c = i → O.reader d = j → c ≠ d := fun hc hd h =>
    hij (by rw [← hc, ← hd, h])
  cases x with
  | fork | add | wait => exact hx.elim
  | step k => cases h₁; exact ⟨ch₂, h₂, rfl⟩
  | halt => cases h₁; exact ⟨ch₂, h₂, rfl⟩
  | send c v k =>
    cases y with
    | fork | add | wait => exact hy.elim
    | step k => cases h₂; exact ⟨ch₁, rfl, h₁⟩
    | halt => cases h₂; exact ⟨ch₁, rfl, h₁⟩
    | send d w k' => exact on_comm_of_ne (hwrite hx.1 hy.1) h₁ h₂
    | close d k' => exact on_comm_of_ne (hwrite hx.1 hy.1) h₁ h₂
    | recv d k' =>
      exact write_recv (k := fun o => .live (code j (k' o))) (fun _ _ _ _ => Chan.offer_pull) h₁ h₂
  | close c k =>
    cases y with
    | fork | add | wait => exact hy.elim
    | step k => cases h₂; exact ⟨ch₁, rfl, h₁⟩
    | halt => cases h₂; exact ⟨ch₁, rfl, h₁⟩
    | send d w k' => exact on_comm_of_ne (hwrite hx.1 hy.1) h₁ h₂
    | close d k' => exact on_comm_of_ne (hwrite hx.1 hy.1) h₁ h₂
    | recv d k' =>
      exact write_recv (k := fun o => .live (code j (k' o))) (fun _ _ _ _ => Chan.shut_pull) h₁ h₂
  | recv c k =>
    cases y with
    | fork | add | wait => exact hy.elim
    | step k => cases h₂; exact ⟨ch₁, rfl, h₁⟩
    | halt => cases h₂; exact ⟨ch₁, rfl, h₁⟩
    | recv d k' => exact on_comm_of_ne (hread hx.1 hy.1) h₁ h₂
    | send d w k' =>
      obtain ⟨ch, h, h'⟩ := write_recv (k := fun o => .live (code i (k o)))
        (fun _ _ _ _ => Chan.offer_pull) h₂ h₁
      exact ⟨ch, h', h⟩
    | close d k' =>
      obtain ⟨ch, h, h'⟩ := write_recv (k := fun o => .live (code i (k o)))
        (fun _ _ _ _ => Chan.shut_pull) h₂ h₁
      exact ⟨ch, h', h⟩

/-- Where a process goes on, it complies. -/
theorem effect_within (hx : x.Within O.writer O.reader i (O.pts i))
    (h : x.effect code i chan = some (p, ch₁)) :
    ∀ z, p = .live z → z.Within O.writer O.reader i (O.pts i) := by
  intro z hz
  subst hz
  cases x with
  | fork | add | wait => exact hx.elim
  | step k => cases h; exact O.within i k hx
  | halt => cases h
  | send c v k =>
    obtain ⟨b, b₁, -, hf, -⟩ := on_eq_some h
    obtain ⟨b', -, heq⟩ := Option.map_eq_some_iff.mp hf
    cases heq
    exact O.within i k hx.2
  | close c k =>
    obtain ⟨b, b₁, -, hf, -⟩ := on_eq_some h
    obtain ⟨b', -, heq⟩ := Option.map_eq_some_iff.mp hf
    cases heq
    exact O.within i k hx.2
  | recv c k =>
    obtain ⟨b, b₁, -, hf, -⟩ := on_eq_some h
    obtain ⟨r, -, heq⟩ := Option.map_eq_some_iff.mp hf
    cases heq
    exact O.within i _ (hx.2 r.1)

end Effects

/-! ### Steps of a network with owners

The diamond, case by case: each of the two steps is a process that starts, one that acts on its own,
or two that meet, and the processes of the two steps are different.
-/

/-- The configuration complies: so do the processes that exist, and those that are to be
    created. -/
structure Config.Obeys {code : Nat → σ → Cmd σ κ V} (O : Ownership code) (a : Config σ κ V) :
    Prop where
  live : ∀ i x, a.proc i = .live x → x.Within O.writer O.reader i (O.pts i)
  pending : ∀ k f, a.pending[k]? = some f → O.pts (a.next + k) f
  unborn : ∀ i, a.next ≤ i → a.proc i = .unborn

section Steps

variable {code : Nat → σ → Cmd σ κ V} {O : Ownership code} {a t t' : Config σ κ V} {i j i' j' : Nat}

/-- A process of a network with owners creates no others. -/
theorem act_inv (ha : a.Obeys O) (h : step code (.act i) a = some t) :
    ∃ x p ch, a.proc i = .live x ∧ x.effect code i a.chan = some (p, ch) ∧
      t = { a with proc := Function.update a.proc i p, chan := ch } := by
  simp only [step] at h
  split at h
  · next x hx =>
    have hin := ha.live i x hx
    cases x with
    | fork | add | wait => exact hin.elim
    | _ =>
      simp only [Config.act] at h
      obtain ⟨r, hr, rfl⟩ := Option.map_eq_some_iff.mp h
      exact ⟨_, r.1, r.2, hx, hr, rfl⟩
  · cases h

/-- **The owners stay the owners**: a step takes no process to a command on somebody else's
    channel. -/
theorem obeys_step {l : Label} (ha : a.Obeys O) (h : step code l a = some t) : t.Obeys O := by
  cases l with
  | start =>
    obtain ⟨f, rest, hp, rfl⟩ := start_inv h
    refine ⟨fun i x hx => ?_, fun k g hg => ?_, fun i hi => ?_⟩
    · by_cases hi : i = a.next
      · subst hi
        cases (Function.update_self _ _ _).symm.trans hx
        exact O.within _ f (ha.pending 0 f (by rw [hp]; rfl))
      · exact ha.live i x ((Function.update_of_ne hi _ _).symm.trans hx)
    · have := ha.pending (k + 1) g (by rw [hp]; exact hg)
      rwa [← Nat.add_assoc, Nat.add_right_comm] at this
    · have hi : a.next < i := hi
      exact (Function.update_of_ne (Nat.ne_of_gt hi) _ _).trans (ha.unborn i (Nat.le_of_lt hi))
  | act i =>
    obtain ⟨x, p, ch, hx, he, rfl⟩ := act_inv ha h
    refine ⟨fun j y hy => ?_, ha.pending, fun j hj => ?_⟩
    · by_cases hj : j = i
      · subst hj
        exact effect_within (ha.live j x hx) he y ((Function.update_self j _ _).symm.trans hy)
      · exact ha.live j y ((Function.update_of_ne hj _ _).symm.trans hy)
    · refine (Function.update_of_ne ?_ _ _).trans (ha.unborn j hj)
      rintro rfl
      rw [ha.unborn j hj] at hx
      cases hx
  | meet i j =>
    obtain ⟨c, v, k, k', b, b', hi, hj, -, -, rfl⟩ := meet_inv h
    refine ⟨fun n y hy => ?_, ha.pending, fun n hn => ?_⟩
    · by_cases hnj : n = j
      · subst hnj
        cases (Function.update_self _ _ _).symm.trans hy
        exact O.within n _ ((ha.live n _ hj).2 _)
      · have hy := (Function.update_of_ne hnj _ _).symm.trans hy
        by_cases hni : n = i
        · subst hni
          cases (Function.update_self _ _ _).symm.trans hy
          exact O.within n k (ha.live n _ hi).2
        · exact ha.live n y ((Function.update_of_ne hni _ _).symm.trans hy)
    · have hold := ha.unborn n hn
      refine (Function.update_of_ne ?_ _ _).trans ((Function.update_of_ne ?_ _ _).trans hold)
      · rintro rfl
        rw [hold] at hj
        cases hj
      · rintro rfl
        rw [hold] at hi
        cases hi

/-- A process that takes a step on its own is no party of a possible meeting. -/
theorem act_meet_ne {x : Cmd σ κ V} {p : Proc σ κ V} {ch : κ → Option (Chan V)} {c : κ} {v : V}
    {k : σ} {k' : Option V → σ} {b b' : Chan V} (hx : a.proc i = .live x)
    (he : x.effect code i a.chan = some (p, ch)) (hi : a.proc i' = .live (.send c v k))
    (hj : a.proc j' = .live (.recv c k')) (hb : a.chan c = some b) (hpass : b.pass v = some b') :
    i ≠ i' ∧ i ≠ j' := by
  obtain ⟨hoffer, hpull⟩ := Chan.pass_stuck hpass
  constructor
  · rintro rfl
    rw [hi] at hx
    cases hx
    simp [Cmd.effect, on, hb, hoffer] at he
  · rintro rfl
    rw [hj] at hx
    cases hx
    simp [Cmd.effect, on, hb, hpull] at he

/-- The effect of a process leaves the channel of two others alone. -/
theorem effect_away {x : Cmd σ κ V} {p : Proc σ κ V} {chan ch : κ → Option (Chan V)} {c : κ}
    (hx : x.Within O.writer O.reader i (O.pts i)) (hw : O.writer c ≠ i) (hr : O.reader c ≠ i)
    (he : x.effect code i chan = some (p, ch)) (o : Option (Chan V)) :
    ch c = chan c ∧ x.effect code i (Function.update chan c o)
      = some (p, Function.update ch c o) := by
  have haway : ∀ {d} {f : Chan V → Option (Proc σ κ V × Chan V)}, c ≠ d →
      on d f chan = some (p, ch) →
      ch c = chan c ∧ on d f (Function.update chan c o) = some (p, Function.update ch c o) := by
    intro d f hcd h
    obtain ⟨b, b₁, hb, hf, rfl⟩ := on_eq_some h
    refine ⟨Function.update_of_ne hcd _ _, ?_⟩
    rw [Function.update_comm hcd.symm]
    exact on_of_some ((Function.update_of_ne hcd.symm _ _).trans hb) hf
  cases x with
  | fork | add | wait => exact hx.elim
  | step k => cases he; exact ⟨rfl, rfl⟩
  | halt => cases he; exact ⟨rfl, rfl⟩
  | send d v k => exact haway (fun h => hw (h ▸ hx.1)) he
  | close d k => exact haway (fun h => hw (h ▸ hx.1)) he
  | recv d k => exact haway (fun h => hr (h ▸ hx.1)) he

/-- Steps of two processes. -/
theorem act_act (ha : a.Obeys O) (hij : i ≠ j) (h : step code (.act i) a = some t)
    (h' : step code (.act j) a = some t') :
    ∃ t'', step code (.act j) t = some t'' ∧ step code (.act i) t' = some t'' := by
  obtain ⟨x, p, ch₁, hx, he, rfl⟩ := act_inv ha h
  obtain ⟨y, q, ch₂, hy, he', rfl⟩ := act_inv ha h'
  obtain ⟨ch, h₁, h₂⟩ := effect_comm hij (ha.live i x hx) (ha.live j y hy) he he'
  refine ⟨_, step_act ((Function.update_of_ne hij.symm _ _).trans hy) h₁, ?_⟩
  rw [step_act ((Function.update_of_ne hij _ _).trans hx) h₂]
  simp only [Function.update_comm hij]

/-- A step of one process and one of two others. -/
theorem act_meet (ha : a.Obeys O) (h : step code (.act i) a = some t)
    (h' : step code (.meet i' j') a = some t') :
    ∃ t'', step code (.meet i' j') t = some t'' ∧ step code (.act i) t' = some t'' := by
  obtain ⟨x, p, ch, hx, he, rfl⟩ := act_inv ha h
  obtain ⟨c, v, k, k', b, b', hi, hj, hb, hpass, rfl⟩ := meet_inv h'
  obtain ⟨hne, hne'⟩ := act_meet_ne hx he hi hj hb hpass
  have hw : O.writer c ≠ i := (ha.live i' _ hi).1.trans_ne hne.symm
  have hr : O.reader c ≠ i := (ha.live j' _ hj).1.trans_ne hne'.symm
  obtain ⟨hsame, hlater⟩ := effect_away (ha.live i x hx) hw hr he (some b')
  refine ⟨_, step_meet ((Function.update_of_ne hne.symm _ _).trans hi)
    ((Function.update_of_ne hne'.symm _ _).trans hj) (hsame.trans hb) hpass, ?_⟩
  rw [step_act ((Function.update_of_ne hne' _ _).trans
    ((Function.update_of_ne hne _ _).trans hx)) hlater]
  simp only [Function.update_comm hne, Function.update_comm hne']

/-- Steps of two pairs. -/
theorem meet_meet (ha : a.Obeys O) (hne : Label.meet i j ≠ .meet i' j')
    (h : step code (.meet i j) a = some t) (h' : step code (.meet i' j') a = some t') :
    ∃ t'', step code (.meet i' j') t = some t'' ∧ step code (.meet i j) t' = some t'' := by
  obtain ⟨c, v, k, m, b, b₁, hi, hj, hb, hpass, rfl⟩ := meet_inv h
  obtain ⟨d, w, k', m', d', d₁, hi', hj', hd, hpass', rfl⟩ := meet_inv h'
  have hw := (ha.live i _ hi).1
  have hr := (ha.live j _ hj).1
  have hw' := (ha.live i' _ hi').1
  have hr' := (ha.live j' _ hj').1
  -- the owners of one channel are one pair
  have hcd : c ≠ d := by
    rintro rfl
    exact hne (by rw [← hw, ← hr, ← hw', ← hr'])
  have hii : i ≠ i' := by
    rintro rfl
    rw [hi] at hi'
    cases hi'
    exact hcd rfl
  have hjj : j ≠ j' := by
    rintro rfl
    rw [hj] at hj'
    cases hj'
    exact hcd rfl
  have hij : i ≠ j' := by
    rintro rfl
    rw [hi] at hj'
    cases hj'
  have hji : j ≠ i' := by
    rintro rfl
    rw [hj] at hi'
    cases hi'
  refine ⟨_, step_meet (((Function.update_of_ne hji.symm _ _).trans
      (Function.update_of_ne hii.symm _ _)).trans hi')
    (((Function.update_of_ne hjj.symm _ _).trans (Function.update_of_ne hij.symm _ _)).trans hj')
    ((Function.update_of_ne hcd.symm _ _).trans hd) hpass', ?_⟩
  rw [step_meet (((Function.update_of_ne hij _ _).trans (Function.update_of_ne hii _ _)).trans hi)
    (((Function.update_of_ne hjj _ _).trans (Function.update_of_ne hji _ _)).trans hj)
    ((Function.update_of_ne hcd _ _).trans hb) hpass]
  rw [Function.update_comm hcd, Function.update_comm hji, Function.update_comm hii,
    Function.update_comm hjj, Function.update_comm hij]

/-- A new process and a step of those that exist. -/
theorem start_act (ha : a.Obeys O) (h : step code .start a = some t)
    (h' : step code (.act i) a = some t') :
    ∃ t'', step code (.act i) t = some t'' ∧ step code .start t' = some t'' := by
  obtain ⟨f, rest, hp, rfl⟩ := start_inv h
  obtain ⟨x, p, ch, hx, he, rfl⟩ := act_inv ha h'
  have hi : i ≠ a.next := by
    rintro rfl
    rw [ha.unborn _ (Nat.le_refl _)] at hx
    cases hx
  refine ⟨_, step_act ((Function.update_of_ne hi _ _).trans hx) he, ?_⟩
  simp only [step, hp, Config.birth, Function.update_comm hi]

/-- A process that starts and two others that meet do not get in each other's way. -/
theorem start_meet (ha : a.Obeys O) (h : step code .start a = some t)
    (h' : step code (.meet i j) a = some t') :
    ∃ t'', step code (.meet i j) t = some t'' ∧ step code .start t' = some t'' := by
  obtain ⟨f, rest, hp, rfl⟩ := start_inv h
  obtain ⟨c, v, k, k', b, b', hi, hj, hb, hpass, rfl⟩ := meet_inv h'
  have hne : ∀ {n x}, a.proc n = .live x → n ≠ a.next := by
    rintro n x hx rfl
    rw [ha.unborn _ (Nat.le_refl _)] at hx
    cases hx
  refine ⟨_, step_meet ((Function.update_of_ne (hne hi) _ _).trans hi)
    ((Function.update_of_ne (hne hj) _ _).trans hj) hb hpass, ?_⟩
  simp only [step, hp, Config.birth, Function.update_comm (hne hi), Function.update_comm (hne hj)]

/-- **Two steps of a network with owners commute.** -/
theorem step_diamond (O : Ownership code) (caps : κ → Option Nat) (ns : κ → Option Int)
    (fs : List σ) :
    (network code caps ns fs).Diamond (Config.Obeys O) := by
  intro a l l' t t' ha h h'
  by_cases hl : l = l'
  · subst hl
    exact .inl (Option.some.inj (h.symm.trans h'))
  right
  cases l with
  | start =>
    cases l' with
    | start => exact absurd rfl hl
    | act i => exact start_act ha h h'
    | meet i j => exact start_meet ha h h'
  | act i =>
    cases l' with
    | start =>
      obtain ⟨t'', h₁, h₂⟩ := start_act ha h' h
      exact ⟨t'', h₂, h₁⟩
    | act j => exact act_act ha (fun hij => hl (congrArg _ hij)) h h'
    | meet i' j' => exact act_meet ha h h'
  | meet i j =>
    cases l' with
    | start =>
      obtain ⟨t'', h₁, h₂⟩ := start_meet ha h' h
      exact ⟨t'', h₂, h₁⟩
    | act i' =>
      obtain ⟨t'', h₁, h₂⟩ := act_meet ha h' h
      exact ⟨t'', h₂, h₁⟩
    | meet i' j' => exact meet_meet ha hl h h'

end Steps

/-! ### Misuse of a closed channel

A process that is at a `send` or a `close` of a closed channel cannot go on, and nobody can help it.
So a misuse that one run reaches is still there where any run comes to rest.
-/

/-- The command needs the channel `c` to be open. -/
def Cmd.NeedsOpen (c : κ) : Cmd σ κ V → Prop
  | .send d _ _ => d = c
  | .close d _ => d = c
  | _ => False

/-- The process `i` is at the command `x`, which needs a channel open that is closed. -/
structure Config.Misused (a : Config σ κ V) (i : Nat) (x : Cmd σ κ V) : Prop where
  proc : a.proc i = .live x
  closed : ∃ c b, x.NeedsOpen c ∧ a.chan c = some b ∧ b.closed = true

section Misuse

variable {code : Nat → σ → Cmd σ κ V} {O : Ownership code} {a t : Config σ κ V} {i j : Nat}
  {x y : Cmd σ κ V} {p : Proc σ κ V} {chan ch : κ → Option (Chan V)} {c d : κ} {b : Chan V}

/-- An operation that leaves closed channels closed. -/
theorem on_closed {α : Type*} {f : Chan V → Option (α × Chan V)} {r : α}
    (hf : ∀ b b' r, f b = some (r, b') → b.closed = true → b'.closed = true)
    (h : on d f chan = some (r, ch)) (hc : chan c = some b) (hcl : b.closed = true) :
    ∃ b', ch c = some b' ∧ b'.closed = true := by
  obtain ⟨b₀, b₁, hb, hr, rfl⟩ := on_eq_some h
  by_cases hcd : c = d
  · subst hcd
    rw [hc] at hb
    cases hb
    exact ⟨b₁, Function.update_self _ _ _, hf _ _ _ hr hcl⟩
  · exact ⟨b, (Function.update_of_ne hcd _ _).trans hc, hcl⟩

/-- Closed channels stay closed. -/
theorem effect_closed (h : y.effect code j chan = some (p, ch)) (hc : chan c = some b)
    (hcl : b.closed = true) : ∃ b', ch c = some b' ∧ b'.closed = true := by
  cases y with
  | fork | add | wait => cases h
  | step | halt => cases h; exact ⟨b, hc, hcl⟩
  | send d v k =>
    refine on_closed (fun b b' r hr hcl => ?_) h hc hcl
    simp [Chan.offer, hcl] at hr
  | close d k =>
    refine on_closed (fun b b' r hr hcl => ?_) h hc hcl
    simp [Chan.shut, hcl] at hr
  | recv d k =>
    refine on_closed (fun b b' r hr hcl => ?_) h hc hcl
    obtain ⟨⟨o, b''⟩, hpull, heq⟩ := Option.map_eq_some_iff.mp hr
    cases heq
    unfold Chan.pull at hpull
    split at hpull
    · cases hpull
      exact hcl
    · rw [if_pos hcl] at hpull
      cases hpull
      exact hcl

/-- A command that needs a closed channel open has no effect. -/
theorem effect_needsOpen (h : x.NeedsOpen c) (hc : chan c = some b) (hcl : b.closed = true) :
    x.effect code i chan = none := by
  cases x with
  | send d v k => cases h; simp [Cmd.effect, on, hc, Chan.offer, hcl]
  | close d k => cases h; simp [Cmd.effect, on, hc, Chan.shut, hcl]
  | _ => exact h.elim

/-- **A process that misuses a channel is stuck for good.** -/
theorem misused_step (ha : a.Obeys O) (h : a.Misused i x) {l : Label}
    (hs : step code l a = some t) : t.Misused i x := by
  obtain ⟨c, b, hx, hc, hcl⟩ := h.closed
  cases l with
  | start =>
    obtain ⟨f, rest, -, rfl⟩ := start_inv hs
    refine ⟨(Function.update_of_ne ?_ _ _).trans h.proc, c, b, hx, hc, hcl⟩
    rintro rfl
    have hproc := h.proc
    rw [ha.unborn _ (Nat.le_refl _)] at hproc
    cases hproc
  | act j =>
    obtain ⟨y, p, ch, hy, he, rfl⟩ := act_inv ha hs
    have hij : i ≠ j := by
      rintro rfl
      rw [h.proc] at hy
      cases hy
      rw [effect_needsOpen hx hc hcl] at he
      cases he
    obtain ⟨b', hc', hcl'⟩ := effect_closed he hc hcl
    exact ⟨(Function.update_of_ne hij _ _).trans h.proc, c, b', hx, hc', hcl'⟩
  | meet j j' =>
    obtain ⟨d, v, k, k', b₀, b', hj, hj', hd, hpass, rfl⟩ := meet_inv hs
    -- the channel on which the two meet is open
    have hop : b₀.closed = false := by
      unfold Chan.pass at hpass
      split at hpass
      · next hop => exact hop.1
      · cases hpass
    have hcd : c ≠ d := by
      rintro rfl
      rw [hc] at hd
      cases hd
      rw [hop] at hcl
      cases hcl
    have hproc := h.proc
    refine ⟨(Function.update_of_ne ?_ _ _).trans ((Function.update_of_ne ?_ _ _).trans hproc),
      c, b, hx, (Function.update_of_ne hcd _ _).trans hc, hcl⟩
    · rintro rfl
      rw [hproc] at hj'
      cases hj'
      exact hx.elim
    · rintro rfl
      rw [hproc] at hj
      cases hj
      exact hcd hx.symm

end Misuse

section Runs

variable {code : Nat → σ → Cmd σ κ V} {caps : κ → Option Nat} {ns : κ → Option Int} {fs : List σ}

omit [DecidableEq κ] in
/-- The owners are kept at the start, when no process exists yet. -/
theorem obeys_initial (O : Ownership code) (hfs : ∀ i f, fs[i]? = some f → O.pts i f) :
    (Config.initial caps ns fs).Obeys O :=
  ⟨fun _ _ h => (by cases h), fun k f hf => (Nat.zero_add k).symm ▸ hfs k f hf,
    fun _ _ => rfl⟩

/-- Every configuration that is reached complies. -/
theorem reach_obeys (O : Ownership code) (hfs : ∀ i f, fs[i]? = some f → O.pts i f)
    {a : Config σ κ V} (ha : (network code caps ns fs).Reachable a) : a.Obeys O := by
  refine ha.invariant (I := fun a => a.Obeys O) ?_ fun a t l _ h hs => obeys_step h hs
  rintro a rfl
  exact obeys_initial O hfs

/-- **Determinacy.** All runs of a network with owners that come to rest end in the same
    configuration. -/
theorem network_determinate (O : Ownership code) (hfs : ∀ i f, fs[i]? = some f → O.pts i f)
    {r r' : Config σ κ V} (hr : (network code caps ns fs).Reachable r)
    (hrest : (network code caps ns fs).AtRest r) (hr' : (network code caps ns fs).Reachable r')
    (hrest' : (network code caps ns fs).AtRest r') : r = r' := by
  obtain ⟨_, as, rfl, hrun⟩ := hr.exists_schedule
  obtain ⟨_, bs, rfl, hrun'⟩ := hr'.exists_schedule
  exact (System.rest_unique (fun _ _ _ h ha => obeys_step ha h) (step_diamond O caps ns fs)
    (obeys_initial O hfs) hrun hrest hrun' hrest').1

/-- **If some run comes to rest, the misuse of any run is in it.** -/
theorem misused_at_rest (O : Ownership code) (hfs : ∀ i f, fs[i]? = some f → O.pts i f)
    {r a : Config σ κ V} (hr : (network code caps ns fs).Reachable r)
    (hrest : (network code caps ns fs).AtRest r) (ha : (network code caps ns fs).Reachable a) {i : Nat}
    {x : Cmd σ κ V} (h : a.Misused i x) : r.Misused i x := by
  have hkeep : ∀ l a t, (network code caps ns fs).next l a = some t → a.Obeys O → t.Obeys O :=
    fun _ _ _ h ha => obeys_step ha h
  obtain ⟨_, as, rfl, hrun⟩ := hr.exists_schedule
  have hobeys := reach_obeys O hfs ha
  obtain ⟨_, bs, rfl, hrun'⟩ := ha.exists_schedule
  obtain ⟨cs, hcs, -⟩ := System.comes_to_rest hkeep (step_diamond O caps ns fs)
    (obeys_initial O hfs) hrun hrest hrun'
  exact (System.run_invariant (I := fun a => a.Obeys O ∧ a.Misused i x)
    (fun l a t hs h => ⟨obeys_step h.1 hs, misused_step h.1 h.2 hs⟩) hcs ⟨hobeys, h⟩).2

end Runs

end Network
