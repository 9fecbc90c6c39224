import MyGoroutine.Group.Wait
import MyGoroutine.Refine.Debts
import MyGoroutine.Sched.Permit
import MyGoroutine.Workers.Attend

namespace MyGoroutine

/-!
# What a task may rely on when its `wait` has returned

A wait group is for good at zero when a `wait` has returned, if the tasks that add to it come
before those that wait.  Such an order is a gate of the network of the program: who may still add
holds all the tokens of the gate, and who waits holds one.

* `Shared.Passed`, `State.Mirrors.next_passed` — the steps that let a `wait` pass;
* `reach_gated` — a group that was passed is at zero, and nobody may add to it;
* `wait_barrier` — what this means for the runs;
* `stalled_of_asleep` — when all workers sleep, all tasks wait for one another;
* `ForkJoin.gate`, `fork_join` — the example of the documentation.
-/

open Network (Cmd Config Debts Stock Quota Gate)

variable {σ V : Type}

/-- A `wait` for the group has found it at zero: it has returned, or its waiter was taken out. -/
def Shared.Passed (sh : Shared σ V) (g : GroupId) : Prop :=
  ∃ i, (∃ why, sh.status i = .released (.waiters g) why) ∨ .returned i (.wait g) ∈ sh.log

section Steps

/-- A step releases queued tasks only. -/
theorem WakeStep.released {variant : Variant} {sh sh' : Shared σ V} {pc pc' : Pc σ V} {i : TaskId}
    {src : Source} {why : Why V} (hs : WakeStep variant sh pc sh' pc')
    (hst : sh'.status i = .released src why) :
    sh.status i = .released src why ∨ sh.status i = .queued src := by
  have hsame : sh'.status i = sh.status i →
      sh.status i = .released src why ∨ sh.status i = .queued src := fun h => .inl (h ▸ hst)
  cases hs with
  | quiet hs | settleNet _ _ hs => exact hsame (hs.status i)
  -- the status of its own task is another one after the step
  | @enqueue _ t _ _ _ _ _ _ _ hq hother | @settle _ t _ _ _ _ _ _ hq hother
  | @abort _ t _ _ _ _ hq hother =>
    by_cases hi : i = t.id
    · subst hi
      rw [hst] at hq
      cases hq
    · exact hsame (hother i hi)
  | release rs _ _ hrel hother =>
    by_cases hmem : i ∈ rs
    · obtain ⟨src', why', hq, hr⟩ := hrel i hmem
      rw [hst] at hr
      cases hr
      exact .inr hq
    · exact hsame (hother i hmem)
  | goready _ _ _ h => exact hsame (h i)
  | create =>
    exact hsame (status_of_neutral [.created _] rfl (by simp [Event.neutral, Event.update]) i)
  | die => exact hsame (status_of_neutral [.died _] rfl (by simp [Event.neutral, Event.update]) i)
  | dispatch _ _ _ _ _ _ h => exact hsame (h i)
  | yield | parkOut | drop | requeue => exact hsame rfl
  | park => exact hsame (status_parkTask i)

variable {P : Program σ V} {s s' : State σ V} {act : Act} {a : Config σ ChanId V} {g : GroupId}
  {i : TaskId}

/-- A task is released by a step that finds it queued. -/
theorem next_released (hP : P.Grouped) (hr : (runtime P).Reachable s)
    (hn : (runtime P).next act s = some s') {src : Source} {why : Why V}
    (hst : s'.sh.status i = .released src why) :
    s.sh.status i = .released src why ∨ s.sh.status i = .queued src := by
  obtain ⟨ha, hn⟩ := next_inv hn
  rcases hn.cases with ⟨w, ch, pc, e, -, hw, hs, hmove⟩ | ⟨ho, -⟩
  · rw [hmove.sh] at hst
    exact (hs.wakes_grouped hP hr ha hw).released hst
  · refine .inl (Eq.trans ?_ hst)
    cases ho with
    | go hsh => rw [hsh]; rfl
    | push hsh =>
      rw [hsh]
      exact (status_of_neutral [.created _] rfl (by simp [Event.neutral, Event.update]) i).symm
    | same hsh => exact (status_of_log hsh.log i).symm

/-- **The steps that let a `wait` pass**: the counter is at zero after them, and some process was at
    its `wait` before. -/
theorem State.Mirrors.next_passed (h : s.Mirrors P a) (hP : P.Grouped)
    (hr : (runtime P).Reachable s) (hn : (runtime P).next act s = some s')
    (hpass : s'.sh.Passed g) :
    s.sh.Passed g ∨ (∃ i k, a.proc i = .live (.wait g k)) ∧ s'.sh.tally g = some 0 := by
  have ha := (next_inv hn).1
  have hd := reach_disciplined_grouped hP hr
  have hsh := reach_shaped hr
  obtain ⟨es, hl⟩ := next_log hn
  have hzero : ∀ {m' : WaitGroup}, s'.sh.groups[g]? = some m' → m'.val.counter = 0 →
      s'.sh.tally g = some 0 := fun hm' h0 => by
    rw [tally_eq hm', h0]
    rfl
  obtain ⟨i, ⟨why, hst⟩ | hret⟩ := hpass
  · rcases next_released hP hr hn hst with hold | hq
    · exact .inl ⟨i, .inl ⟨why, hold⟩⟩
    -- an `add` has taken the waiters out, so it has come to zero
    · obtain ⟨m, hm, hmem⟩ := hd.sources.mem_waiters hq
      obtain ⟨k, hk⟩ := (h.reflects hd hsh ha).waiters hm hmem
      obtain ⟨m', u, hm', heff⟩ := next_group hn hm
      refine .inr ⟨⟨i, k, hk⟩, hzero hm' ?_⟩
      obtain ⟨e, he, hrel⟩ : ∃ e ∈ es, e.releases i (.waiters g) why := by
        rw [Shared.status, hl, statusOf_append] at hst
        refine releases_of_foldl hst ?_
        rw [show statusOf i s.sh.log = .queued (.waiters g) from hq]
        simp
      obtain ⟨g', v, d, woken, rfl⟩ : ∃ g' v d woken, e = .added g' v d woken := by
        cases e with
        | added g' v d woken => exact ⟨g', v, d, woken, rfl⟩
        | sent c t d o | received c t o => cases o <;> first | exact hrel.elim | cases hrel.2.1
        | closed => rcases hrel.2 with ⟨-, h⟩ | ⟨-, -, h⟩ <;> cases h
        | timerPop | reported => cases hrel.2.1
        | _ => exact hrel.elim
      obtain ⟨hmem, hg, -⟩ := hrel
      cases hg
      cases heff with
      | same _ hl' =>
        obtain ⟨es', hl', hes'⟩ := hl'
        obtain rfl := List.append_cancel_left (hl.symm.trans hl')
        exact absurd rfl (hes' _ he)
      | move hmv hl' =>
        obtain rfl := List.append_cancel_left (hl.symm.trans hl')
        obtain ⟨hadd, -⟩ := hmv.of_added he
        by_contra hne
        rw [((WaitGroupInner.add_ok hadd).2 hne).1] at hmem
        cases hmem
  · rw [hl] at hret
    rcases List.mem_append.mp hret with hret | hret
    · exact .inl ⟨i, .inr hret⟩
    obtain ⟨w, t, hw, rfl, hcode⟩ := next_wait_returned hP hr hn hl hret
    have hlive : s.Live t := .inr ⟨_, List.mem_of_getElem? hw, rfl,
      (hsh.workers _ (List.mem_of_getElem? hw)).run⟩
    rcases hcode with ⟨x, k, hd', m, hc, hx, hm, h0⟩ | ⟨k, hc⟩
    -- the `wait` has found the counter at zero
    · obtain ⟨m', u, hm', heff⟩ := next_group hn hm
      refine .inr ⟨⟨t.id, k, (h.tasks t hlive).of_user hc hx⟩, hzero hm' ?_⟩
      cases heff with
      | same hv => rwa [hv]
      | move hmv hl' =>
        obtain rfl := List.append_cancel_left (hl.symm.trans hl')
        generalize m'.val = v at hmv ⊢
        cases hmv with
        | add _ hes =>
          rcases List.mem_cons.mp hret with hret | hret
          · cases hret
          · cases hes _ hret
        | zero => exact h0
        | join | panic => cases List.mem_singleton.mp hret
    -- its waiter was taken out before
    · obtain ⟨src, hwait, hsrc⟩ : (Code.parked (.wait g k)).agrees (s.sh.status t.id) :=
        hc ▸ hd.agree ha t hlive
      have hq := hd.queue?_of_settles hsh (reach_placed hr) hw rfl (by rw [hc]; rfl)
      cases src <;> cases hwait
      cases hst : s.sh.status t.id with
      | idle =>
        rw [hst] at hsrc
        cases hsrc
      | queued =>
        rw [hst] at hq
        cases hq
      | released src' why =>
        rw [hst] at hsrc
        cases hsrc
        exact .inl ⟨t.id, .inl ⟨why, hst⟩⟩

end Steps

section Runs

variable {P : Program σ V} {caps : List Nat} {groups : Nat} {calls : List (MainOp σ)}
  {s : State σ V} {a : Config σ ChanId V} {g : GroupId}

/-- **A group that was passed is at zero, and nobody may add to it**, in every state reached. -/
theorem reach_gated (hP : P.Grouped) (hB : P.Bare) (D : Debts P.cmd) {Q : Quota P.cmd}
    (G : Gate Q) (hcalls : ∀ f ∈ calls.filterMap MainOp.go?, D.owes f = 0)
    (hG : ∀ g, ((calls.filterMap MainOp.go?).map (G.tokens.holds · g)).sum ≤ G.total g)
    (hr : ((runtime P).startingAt (.initial caps groups calls)).Reachable s)
    (ha : s.sh.aborted = none) :
    ∃ a pos, s.Mirrors P a ∧ a.Gated D G (fun _ => False) s.sh.Passed pos := by
  have hinit : (runtime P).init (.initial caps groups calls) := ⟨caps, groups, calls, rfl⟩
  revert ha
  refine hr.invariant (I := fun s => s.sh.aborted = none →
    ∃ a pos, s.Mirrors P a ∧ a.Gated D G (fun _ => False) s.sh.Passed pos) ?_ ?_
  · rintro s rfl -
    have h0 : (Config.initial (caps[·]?) (newCounters groups) (calls.filterMap MainOp.go?) :
        Config σ ChanId V).Gated D G (fun _ => False) (fun _ => False) fun _ => none :=
      Network.gated_initial D G newCounters_eq hcalls hG
    refine ⟨_, _, mirrors_initial, h0.toAccounts, h0.tokens, h0.shut, ?_⟩
    rintro g ⟨i, ⟨why, hst⟩ | hret⟩
    · cases hst
    · cases hret
  · intro s s' act hr ih hn ha'
    have hback := System.startingAt_reach hinit hr
    obtain ⟨a, pos, h, hgate⟩ := ih (next_inv hn).1
    obtain ⟨ls, a', hrun, h'⟩ : ∃ ls a', (P.network caps groups calls).run ls a = some a' ∧
        s'.Mirrors P a' :=
      h.follow hP.structured hB (reach_freshPolls_grouped hP hback)
        (freshPolls_of_fds (reach_waitingFds hP hback) act) hn ha'
    -- whoever waits before the step has shut the gate
    have hshut : a.Gated D G (fun g => ∃ i k, a.proc i = .live (.wait g k)) s.sh.Passed pos := by
      refine ⟨hgate.toAccounts, hgate.tokens, ?_, hgate.settled⟩
      rintro g ⟨i, k, hi⟩
      exact G.closed hgate.toPlaces (hgate.tokens g) hi
    obtain ⟨pos', hgate'⟩ := hshut.run hrun
    refine ⟨a', pos', h', hgate'.toAccounts, hgate'.tokens, fun _ h => h.elim, fun g hg => ?_⟩
    rcases h.next_passed hP hback hn hg with hold | ⟨hwait, hzero⟩
    · exact hgate'.settled g hold
    · exact ⟨hgate'.shut g hwait, h'.counter ▸ hzero⟩

/-- What holds when a group was passed. -/
theorem State.Mirrors.barrier (h : s.Mirrors P a) {D : Debts P.cmd} {Q : Quota P.cmd} {G : Gate Q}
    {shut : GroupId → Prop} {pos : Nat → Option σ} (hgate : a.Gated D G shut s.sh.Passed pos)
    (hpass : s.sh.Passed g) :
    (∃ m, s.sh.groups[g]? = some m ∧ m.val.counter = 0) ∧
      ∀ t, s.Live t → ∀ x, t.code.GoesOn (s.sh.status t.id) x →
        D.owes x g = 0 ∧ ∀ d k h, P.code x = .add g d k h → d = 0 := by
  obtain ⟨hstock, hzero⟩ := hgate.settled g hpass
  obtain ⟨m, hm, hn⟩ : ∃ m, s.sh.groups[g]? = some m ∧ m.val.counter.toInt = 0 :=
    Option.map_eq_some_iff.mp ((congrFun h.counter g).symm.trans hzero)
  have h0 : m.val.counter = 0 := Int32.toInt_inj.mp hn
  refine ⟨⟨m, hm, h0⟩, fun t ht x hx => ?_⟩
  have howes := h.paid hgate.toAccounts hm h0 ht hx
  refine ⟨howes, fun d k hd hcode => Int32.toInt_inj.mp ?_⟩
  obtain ⟨j, y, hy, hat⟩ := (h.tasks t ht).place hx hgate.toPlaces
  have hadd : P.cmd j x = .add g d.toInt k := by rw [Program.cmd, hcode]; rfl
  have hyzero : Q.holds y g ≤ 0 := (Network.holds_le_stock hgate.toPlaces hy).trans hstock.le
  -- a debt cannot be negative, and nobody may add
  have hlow : 0 ≤ d.toInt := by
    have hpay := D.follows j x
    rw [hadd] at hpay
    have hpay := congrFun hpay g
    rw [Pi.add_apply, Pi.single_eq_same, howes, zero_add] at hpay
    exact hpay ▸ D.nonneg k g
  have hhigh : d.toInt ≤ 0 := by
    rcases hat with hsame | hgoes
    · have hspend := Q.spends j y
      rw [hsame, hadd] at hspend
      exact hspend.add_nonpos hyzero
    · have hspend := Q.spends j x
      rw [hadd] at hspend
      exact hspend.add_nonpos ((hgoes.spends (Q.spends j y) (Q.nonneg y) g).trans hyzero)
  exact le_antisymm hhigh hlow

end Runs

/-! ### The example of the documentation

The loop holds the token of the gate until its last `add`, and hands it on to the task that waits.
-/

namespace ForkJoin

variable (n : Nat) (duration : Nat → Nat) (overflowChecks : Bool)

/-- The task with the loop holds the token of the gate, and passes it on to the one that waits. -/
def token : ForkJoin → Int
  | add _ => 1
  | spawn _ => 1
  | work _ => 0
  | pay => 0
  | join => 1
  | finish => 0

/-- No point of the example holds a negative token. -/
theorem token_nonneg (x : ForkJoin) : 0 ≤ x.token := by
  cases x with
  | add | spawn | join => exact Int.one_nonneg
  | work | pay | finish => exact le_rfl

/-- The gate of the example has one token. -/
def gate : Gate (quotas n duration overflowChecks) where
  tokens :=
    stock n duration overflowChecks token token_nonneg (fun _ _ => le_rfl) (fun _ _ => le_rfl)
      (fun _ => le_rfl) (fun _ => le_rfl) le_rfl Int.one_nonneg
  total := fun _ => 1
  adder x g hpos := by
    have hpos : 0 < (Pi.single 0 (x.quota n) : GroupId → Int) g := hpos
    show 1 ≤ (Pi.single 0 x.token : GroupId → Int) g
    obtain rfl : g = 0 := by
      by_contra hg
      rw [Pi.single_eq_of_ne hg] at hpos
      exact absurd hpos (lt_irrefl 0)
    rw [Pi.single_eq_same] at hpos ⊢
    cases x with
    | add | spawn => exact le_rfl
    | work | pay | join | finish => exact absurd hpos (lt_irrefl 0)
  waiter i x g k hw := by
    cases x with
    | add j =>
      have hw : Op.cmd i (if j < n then _ else _) = _ := hw
      split at hw <;> cases hw
    | join =>
      cases hw
      exact ⟨Int.one_pos, rfl⟩
    | spawn | work | pay | finish => cases hw

variable {n duration overflowChecks}

/-- There is one token at first. -/
theorem gate_fits {workers : Nat} (g : GroupId) :
    ((([.go (.add 0), .startRuntime workers] : List (MainOp ForkJoin)).filterMap MainOp.go?).map
      ((gate n duration overflowChecks).tokens.holds · g)).sum ≤ 1 := by
  show (Pi.single 0 1 : GroupId → Int) g + 0 ≤ 1
  by_cases hg : g = 0
  · subst hg
    rw [Pi.single_eq_same]
    exact le_rfl
  · rw [Pi.single_eq_of_ne hg]
    exact Int.one_nonneg

end ForkJoin

/-! ### The runs

Whatever the network rules out, the runtime rules out as well: the state is the picture of a
configuration that keeps the gate.
-/

section Barrier

variable {P : Program σ V} {caps : List Nat} {groups : Nat} {calls : List (MainOp σ)}
  {s : State σ V}

/-- **A `wait` is a barrier.**  For a program that uses wait groups only, whose `add` calls are
    debts that are paid and come before the calls of `wait` through a gate, every number of workers
    and every interleaving: from the return of a `wait` on, the counter is at zero, no task owes the
    group anything, wherever it is, and none is about to change the counter again. -/
theorem wait_barrier (hP : P.Grouped) (hB : P.Bare) (D : Debts P.cmd) (Q : Quota P.cmd)
    (G : Gate Q) (hcalls : ∀ f ∈ calls.filterMap MainOp.go?, D.owes f = 0)
    (hG : ∀ g, ((calls.filterMap MainOp.go?).map (G.tokens.holds · g)).sum ≤ G.total g)
    (hr : ((runtime P).startingAt (.initial caps groups calls)).Reachable s)
    (ha : s.sh.aborted = none) {i : TaskId} {g : GroupId}
    (hret : .returned i (.wait g) ∈ s.sh.log) :
    (∃ m, s.sh.groups[g]? = some m ∧ m.val.counter = 0) ∧
      ∀ t, s.Live t → ∀ x, t.code.GoesOn (s.sh.status t.id) x →
        D.owes x g = 0 ∧ ∀ d k h, P.code x = .add g d k h → d = 0 := by
  obtain ⟨a, pos, h, hgate⟩ := reach_gated hP hB D G hcalls hG hr ha
  exact h.barrier hgate ⟨i, .inr hret⟩

end Barrier

/-- The `wait` of the example has returned, and the task has called `done`. -/
theorem wait_barrier_returned :
    ∃ s m, (runtime (forkJoinProgram 1 (fun _ => 5) true)).run
        (List.replicate 5 (.main {}) ++ List.replicate 25 (.worker 0 {}) ++ [.tick 5] ++
          List.replicate 13 (.worker 0 { peek := ⟨5, 1⟩ }))
        (State.initial [] 1 [.go (.add 0), .startRuntime 1]) = some s ∧
      .returned 2 (.wait 0) ∈ s.sh.log ∧ .died 2 ∉ s.sh.log ∧ s.sh.groups[0]? = some m ∧
      m.val.counter = 0 := by
  have h : ((runtime (forkJoinProgram 1 (fun _ => 5) true)).run
      (List.replicate 5 (Act.main {}) ++ List.replicate 25 (Act.worker 0 {}) ++ [.tick 5] ++
        List.replicate 13 (Act.worker 0 { peek := ⟨5, 1⟩ }))
      (State.initial [] 1 [.go (.add 0), .startRuntime 1])).map (fun s =>
        (s.sh.aborted, s.sh.log.getLast?, s.sh.log.any (·.isDied 2)))
      = some (none, some (.returned 2 (.wait 0)), false) := by rfl
  obtain ⟨s, hs, h⟩ := Option.map_eq_some_iff.mp h
  simp only [Prod.mk.injEq] at h
  obtain ⟨ha, hlast, hdied⟩ := h
  have hret := List.mem_of_getLast? hlast
  obtain ⟨⟨m, hm, h0⟩, -⟩ := wait_barrier ForkJoin.program_grouped ForkJoin.program_bare
    (ForkJoin.debts _ _ _) (ForkJoin.quotas _ _ _) (ForkJoin.gate _ _ _) ForkJoin.debts_start
    ForkJoin.gate_fits (System.startingAt_run hs) ha hret
  refine ⟨s, m, hs, hret, fun hmem => ?_, hm, h0⟩
  rw [List.any_eq_false] at hdied
  exact hdied _ hmem (isDied_iff.mpr rfl)

/-! ### All workers asleep

That all tasks wait for one another is a statement about tasks. A process that does not get on any
more is one whose workers are asleep: for these two to be the same, no runnable task and no timer
may be left to sleepers, and the second needs runs that poll in time.
-/

/-- A task of a program with wait groups only waits for no fd. -/
theorem Code.isFd_of_grouped {c : Code σ V} {src : Source} (hg : c.grouped = true)
    (h : c.agrees (.queued src)) : src.isFd = false := by
  cases c with
  | park p | parked p =>
    obtain ⟨src', hw, hs⟩ := h
    cases hs
    cases p with
    | sleep | wait => cases src <;> first | rfl | cases hw
    | _ => cases hg
  | unregister =>
    obtain ⟨why, hs⟩ := h
    cases hs
  | _ => cases h

/-- **When all workers sleep, all tasks wait for one another**, in runs in which nobody leaves the
    polling to a worker that looks too early: no task is runnable, no timer is left in the heap, and
    no token and no `goready` is on its way. -/
theorem stalled_of_asleep {P : Program σ V} (hP : P.Grouped) {caps : List Nat} {groups : Nat}
    (gos : List σ) (ns : List Nat) {s : State σ V}
    (hr : ((runtime P).startingAt (.initial caps groups (launch gos ns))).Reach PollsInTime s)
    (ha : s.sh.aborted = none) (hws : s.workers ≠ [])
    (hall : ∀ pc ∈ s.workers, pc = .blocked ∨ pc = .exited) : s.Stalled := by
  have hpolls : (runtime P).Reach PollsInTime s := System.startingAt_reach
    (show (runtime P).init (.initial caps groups (launch gos ns)) from ⟨caps, groups, _, rfl⟩) hr
  have hr' : (runtime P).Reachable s := hpolls.mono fun _ _ _ => trivial
  have hsh := reach_shaped hr'
  have hd := reach_disciplined_grouped hP hr'
  have hrun : s.sh.queue.runnable = [] := by
    by_contra hne
    obtain ⟨pc₀, hpc₀⟩ := List.exists_mem_of_ne_nil _ hws
    rcases reach_attended hr hne with ⟨pc, hpc, hatt⟩ | hstart
    · rcases hall pc hpc with rfl | rfl <;> cases hatt
    · obtain ⟨id, rfl⟩ := hstart pc₀ hpc₀
      rcases hall _ hpc₀ with h | h <;> cases h
  have hheap : s.sh.timerHeap = [] := by
    by_contra hne
    obtain ⟨pc, hpc, hpoll⟩ := reach_watched hpolls
      (by simp [Shared.pending, Shared.hasTimers, hne])
    rcases hall pc hpc with rfl | rfl <;> cases hpoll
  obtain ⟨hmain, hrest⟩ : s.main.pc.pushes = none ∧ ∀ f, .go f ∉ s.main.rest := by
    cases reach_launched hr with
    | pushing hw | goPush hw => exact absurd hw hws
    | started _ hm hrest => exact ⟨hm, hrest⟩
  refine ⟨hmain, hrest, fun t ht => ?_⟩
  -- the task is stored in `waiting`
  obtain ⟨i, hi⟩ : ∃ i, s.sh.queue.waiting.lookup i = some t := by
    rcases ht with (hmem | hi) | ⟨pc, hpc, htask, -⟩
    · rw [hrun] at hmem
      cases hmem
    · exact hi
    · rcases hall pc hpc with rfl | rfl <;> cases htask
  obtain rfl := (hsh.queue.waiting i t hi).1
  have howed : s.total (Pc.owed t.id) = 0 := Slots.sum_map_eq_zero fun pc hpc => by
    rcases hall pc hpc with rfl | rfl <;> rfl
  have hpermits := reach_permits hr'
  obtain ⟨src, hq⟩ := hd.queued_of_inactive ht (by
    rintro (⟨u, -, hid, hpark⟩ | hpos | htoken)
    · exact hpark (.inr ⟨t, hi⟩)
    · omega
    · rw [hpermits.waiting _ ((hpermits.token _).mp htoken)] at hi
      cases hi)
  refine ⟨src, hq, ?_⟩
  cases src with
  | timer wake =>
    -- its entry would be in the heap
    have hent := hd.sources.entries (.timer wake) t.id rfl
    rw [hq, Shared.entries, hheap] at hent
    exact absurd hent (by simp [Status.queue?])
  | fd x =>
    have hag := hd.agree ha t ht
    rw [hq] at hag
    cases Code.isFd_of_grouped (reach_grouped hP hr' t (.inl (.inr ⟨_, hi⟩))) hag
  | recvq | sendq | waiters => rfl

namespace ForkJoin

variable {n : Nat} {duration : Nat → Nat} {overflowChecks : Bool}

/-- The calls of `done` that are still to come. -/
def left (n : Nat) (x : ForkJoin) : Int := x.debt + x.quota n

/-- The sleeps of the example end before the clock does. -/
theorem sleeps_fit {now : Instant} (h : ∀ i, now + duration i ≤ Instant.last)
    (x : ForkJoin) (d k hd)
    (hx : (forkJoinProgram n duration overflowChecks).code x = .sleep d k hd) :
    now + d ≤ Instant.last := by
  cases x with
  | work i =>
    cases hx
    exact h i
  | add i =>
    have hx : (if i < n then _ else _ : Op ForkJoin Unit) = .sleep d k hd := hx
    split at hx <;> cases hx
  | spawn | pay | join | finish => cases hx

/-- **The example of the documentation.**  For every number of tasks below `2 ^ 31`, every number of
    workers and every interleaving, as long as the clock leaves room for the sleeps: the process
    does not abort; when all tasks wait for one another, they have all finished; in runs that poll
    in time they have also finished when all workers are asleep or have left; and when `wait` has
    returned, all calls of `done` have been made. -/
theorem fork_join (hn : n < 2 ^ 31) {workers : Nat} {s : State ForkJoin Unit}
    (hr : ((runtime (forkJoinProgram n duration overflowChecks)).startingAt
      (.initial [] 1 [.go (.add 0), .startRuntime workers])).Reachable s)
    (hroom : ∀ i, s.sh.clock + duration i ≤ Instant.last) :
    s.sh.aborted = none ∧ (s.Stalled → ∀ i < s.sh.nextTaskId, .died i ∈ s.sh.log) ∧
      (((runtime (forkJoinProgram n duration overflowChecks)).startingAt
          (.initial [] 1 [.go (.add 0), .startRuntime workers])).Reach PollsInTime s →
        s.workers ≠ [] → (∀ pc ∈ s.workers, pc = .blocked ∨ pc = .exited) →
        ∀ i < s.sh.nextTaskId, .died i ∈ s.sh.log) ∧
      ∀ i, .returned i (.wait 0) ∈ s.sh.log →
        ∀ t, s.Live t → ∀ x, t.code.GoesOn (s.sh.status t.id) x → x.left n = 0 := by
  obtain ⟨habort, hfinished⟩ := reach_paid program_grouped program_bare (debts _ _ _)
    (quotas _ _ _) debts_prompt debts_start (quotas_fit hn) hr
  have ha := habort (sleeps_fit hroom)
  refine ⟨ha, hfinished, fun hpolls hws hall => hfinished ?_, fun i hret t ht x hx => ?_⟩
  · exact stalled_of_asleep program_grouped [.add 0] [workers] hpolls ha hws hall
  obtain ⟨a, pos, h, hgate⟩ := reach_gated program_grouped program_bare (debts _ _ _)
    (gate _ _ _) debts_start gate_fits hr ha
  obtain ⟨-, hbarrier⟩ := h.barrier hgate ⟨i, .inr hret⟩
  obtain ⟨howes, hadd⟩ := hbarrier t ht x hx
  have howes : (Pi.single 0 x.debt : GroupId → Int) 0 = 0 := howes
  rw [Pi.single_eq_same] at howes
  cases x with
  | spawn | work | pay => cases howes
  | join | finish => rfl
  | add j =>
    -- the loop is over, since the next `add` would be one more
    have hj : n ≤ j := by
      by_contra hj
      have hcode : (forkJoinProgram n duration overflowChecks).code (.add j)
          = .add 0 1 (.spawn j) none := if_pos (Nat.lt_of_not_le hj)
      exact absurd (hadd 1 _ _ hcode) (by decide)
    simp [left, debt, quota, hj]

/-- One task sleeps for 5 while the other waits for it, and when the only worker has left, all tasks
    have finished. -/
theorem fork_join_one :
    ∃ s, (((runtime (forkJoinProgram 1 (fun _ => 5) true)).startingAt
        (.initial [] 1 [.go (.add 0), .startRuntime 1])).guard fun a s => !missesPoll? a s).run
        (List.replicate 5 (.main {}) ++ List.replicate 25 (.worker 0 {}) ++ [.tick 5] ++
          List.replicate 23 (.worker 0 { peek := ⟨5, 1⟩ }))
        (.initial [] 1 [.go (.add 0), .startRuntime 1]) = some s ∧
      s.sh.nextTaskId = 3 ∧ s.workers = [.exited] ∧ s.sh.aborted = none ∧
      ∀ i < s.sh.nextTaskId, .died i ∈ s.sh.log := by
  have h : ((((runtime (forkJoinProgram 1 (fun _ => 5) true)).startingAt
      (.initial [] 1 [.go (.add 0), .startRuntime 1])).guard fun a s => !missesPoll? a s).run
      (List.replicate 5 (Act.main {}) ++ List.replicate 25 (Act.worker 0 {}) ++ [.tick 5] ++
        List.replicate 23 (Act.worker 0 { peek := ⟨5, 1⟩ }))
      (.initial [] 1 [.go (.add 0), .startRuntime 1])).map (fun s =>
        (s.sh.nextTaskId, s.workers, s.sh.clock)) = some (3, [.exited], 5) := by rfl
  obtain ⟨s, hs, h⟩ := Option.map_eq_some_iff.mp h
  simp only [Prod.mk.injEq] at h
  obtain ⟨hnext, hworkers, hclock⟩ := h
  have hr : ((runtime (forkJoinProgram 1 (fun _ => 5) true)).startingAt
      (.initial [] 1 [.go (.add 0), .startRuntime 1])).Reach PollsInTime s :=
    System.run_guard_reach (fun a s h => by simpa [PollsInTime] using h) rfl hs
  obtain ⟨ha, -, hdone, -⟩ := fork_join (by decide) (hr.mono fun _ _ _ => trivial) (fun _ => by
    rw [hclock]
    decide)
  refine ⟨s, hs, hnext, hworkers, ha, hdone hr ?_ fun pc hpc => ?_⟩
  · rw [hworkers]
    exact List.cons_ne_nil _ _
  · rw [hworkers] at hpc
    exact .inr (List.mem_singleton.mp hpc)

end ForkJoin

end MyGoroutine
