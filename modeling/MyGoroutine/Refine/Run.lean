import MyGoroutine.Refine.Step

namespace MyGoroutine

/-!
# The network follows the runtime

As long as the process runs, every state of the runtime is the picture of a configuration that the
network of the program can reach as well: the channels hold the same values and have given out the
same values, and each task stands at its process.  The workers, the queues of parked tasks, the
tokens and the `goready` calls are not to be seen.

* `State.Mirrors` — the state is the picture of a configuration;
* `State.Mirrors.run`, `other`, `outer`, `follow` — the network follows every step;
* `reach_mirrors` — every state reached is a picture.
-/

open Network (Cmd Proc Config network)

variable {σ V : Type}

/-- The closure of a `go`. -/
def MainOp.go? : MainOp σ → Option σ
  | .go f => some f
  | .startRuntime _ => none

/-- **The state is the picture of the configuration.** -/
structure State.Mirrors (P : Program σ V) (s : State σ V) (a : Config σ ChanId V) : Prop where
  /-- The channels have the same contents, and the same values were received from them. -/
  chan : a.chan = s.sh.view
  counter : a.counter = s.sh.tally
  next : a.next = s.sh.nextTaskId
  /-- Each live task stands at its process. -/
  tasks : ∀ t, s.Live t → t.code.Stands P s.sh a.proc t.id
  /-- A task that the main thread is about to queue exists already. -/
  main : ∀ id f, s.main.pc = .goPush id f → a.proc id = .live (P.cmd id f)
  died : ∀ i, .died i ∈ s.sh.log → a.proc i = .halted
  unborn : ∀ i, s.sh.nextTaskId ≤ i → a.proc i = .unborn
  /-- The tasks that the main thread has still to create. -/
  pending : a.pending = s.main.rest.filterMap MainOp.go?

/-- A worker that runs no task gives out no id. -/
theorem SchedStep.nextTaskId {variant : Variant} {sh sh' : Shared σ V} {pc pc' : Pc σ V}
    (hs : SchedStep variant sh pc sh' pc') (hpc : ∀ t, pc ≠ .run t) :
    sh'.nextTaskId = sh.nextTaskId := by
  cases hs with
  | quiet _ hn | goready _ hn | dispatch _ _ _ _ _ hn => exact hn
  | entry h | alloc h | create h | yield h | parkOut h | die h => exact absurd h (hpc _)
  | park => exact parkTask_nextTaskId
  | drop | requeue => rfl

section Places

variable {P : Program σ V} {s : State σ V} {a : Config σ ChanId V}

/-- The child of a `go` in progress has not been queued. -/
theorem not_created_of_goPush (hsh : s.Shaped) (hp : s.Placed) {t : Task σ V} (ht : s.Live t)
    {id : TaskId} {f k : σ} (hc : t.code = .goPush id f k) : .created id ∉ s.sh.log := by
  -- such a task is running: it is at no point at which it could have been switched out
  rcases ht with (ht | ⟨i, ht⟩) | ⟨pc, hpc, ht, hd⟩
  · have := (hsh.queue.runnable t ht).2
    rw [hc] at this
    cases this
  · have := (hsh.queue.waiting i t ht).2.2
    rw [hc] at this
    cases this
  · have hshape := hsh.workers pc hpc
    cases pc with
    | run u =>
      cases ht
      obtain ⟨w, hw⟩ := List.mem_iff_getElem?.mp hpc
      exact not_created_of_births hp hw hc
    | switched u =>
      cases ht
      rcases hshape with h | ⟨-, h⟩ | ⟨-, h⟩
      · exact absurd h hd
      · rw [hc] at h
        cases h
      · rw [hc] at h
        cases h
    | _ => cases ht

/-- What the state and the configuration have in common, channel by channel. -/
theorem State.Mirrors.reflects (h : s.Mirrors P a) (hd : s.Disciplined) (hsh : s.Shaped)
    (ha : s.sh.aborted = none) : s.sh.Reflects a := by
  refine ⟨h.chan, h.counter, h.next, h.unborn, fun {c m w} hm hw => ?_, fun {c m r} hm hr => ?_,
    fun {g m i} hm hi => ?_⟩
  · have hq : s.sh.status w.taskId = .queued (.sendq c) :=
      hd.sources.queued_of_entries rfl (by
        rw [entries_sendq hm]
        exact List.count_pos_iff.mpr (List.mem_map.mpr ⟨w, hw, rfl⟩))
    obtain ⟨t, ht, hid⟩ := hd.exists_live hsh hq
    have hag := hd.agree ha t ht
    have hst := h.tasks t ht
    rw [hid] at hag hst
    obtain ⟨p, hc, hwait⟩ := Code.park_of_source? hag (by rw [hq]; rfl) rfl
    have hpark := hst.of_park hc
    generalize hx : a.proc w.taskId = x at hpark
    cases hpark with
    | sending hq' hm' hmem =>
      cases hwait
      rw [hm] at hm'
      cases hm'
      -- a sender waits once
      have hnd := (List.nodup_append.mp (hd.sources.nodup_waiters hm)).2.1
      have := List.inj_on_of_nodup_map hnd hw hmem rfl
      exact ⟨_, by rw [this]⟩
    | refused hr | accepted hr => rw [hq] at hr; cases hr
    | _ => cases hwait
  · have hq : s.sh.status r = .queued (.recvq c) :=
      hd.sources.queued_of_entries rfl (by
        rw [entries_recvq hm]
        exact List.count_pos_iff.mpr hr)
    obtain ⟨t, ht, rfl⟩ := hd.exists_live hsh hq
    have hst := h.tasks t ht
    obtain ⟨k, hh, hc⟩ := Code.recv_of_source? (c := c) (hd.agree ha t ht) (by rw [hq]; rfl)
    have hpark := hst.of_park hc
    generalize a.proc t.id = x at hpark ⊢
    cases hpark with
    | receiving => exact ⟨k, rfl⟩
    | dismissed hr | given hr => rw [hq] at hr; cases hr
  · have hq : s.sh.status i = .queued (.waiters g) :=
      hd.sources.queued_of_entries rfl (by
        rw [entries_waiters hm]
        exact List.count_pos_iff.mpr hi)
    obtain ⟨t, ht, rfl⟩ := hd.exists_live hsh hq
    obtain ⟨p, hc, hwait⟩ := Code.park_of_source? (hd.agree ha t ht) (by rw [hq]; rfl) rfl
    have hpark := (h.tasks t ht).of_park hc
    generalize a.proc t.id = x at hpark ⊢
    cases hpark with
    | joined =>
      cases hwait
      exact ⟨_, rfl⟩
    | counted hr => rw [hq] at hr; cases hr
    | _ => cases hwait

end Places

section Steps

variable {P : Program σ V} {ch : Choice} {s s' : State σ V} {w : Nat} {pc : Pc σ V}
  {e : Effect σ V} {caps : ChanId → Option Nat} {ns : GroupId → Option Int} {fs : List σ}
  {a : Config σ ChanId V} {act : Act}

namespace State.Mirrors

/-- **A step of a worker that runs no task** is not to be seen. -/
theorem other (h : s.Mirrors P a) (hd : s.Disciplined) (hsh : s.Shaped) (hp : s.Placed)
    (ha : s.sh.aborted = none) (hw : s.workers[w]? = some pc) (hpc : ∀ t, pc ≠ .run t)
    (hs : WorkerStep P ch (queueFree s.workers) s.sh pc e)
    (hev : ∀ i, Evolves (s.sh.status i) (e.sh.status i)) (hn : e.sh.nextTaskId = s.sh.nextTaskId)
    (hmove : WorkerMove s s' w pc e) : s'.Mirrors P a := by
  have hsame := hs.sameChans hpc
  have hgroups := hs.groups hpc
  obtain ⟨es, hl, hes⟩ := hsame.log
  rw [← hmove.sh] at hsame hgroups hl hev hn
  refine ⟨?_, h.counter.trans (tally_congr hgroups).symm, h.next.trans hn.symm, fun t ht => ?_,
    fun id f hm => h.main id f (hmove.main ▸ hm),
    fun i hi => ?_, fun i hi => h.unborn i (hn ▸ hi), by rw [hmove.main]; exact h.pending⟩
  · rw [h.chan]
    refine (view_same es hsame.chans hl fun c ev hmem => ?_).symm
    exact (contributes_nothing (by rw [chan?_of_ofWorker (hes ev hmem)]; simp)).2.1
  · refine ht.worker (I := fun i code => code.Stands P s.sh a.proc i ∧ code.agrees (s.sh.status i))
      (J := fun i code => code.Stands P s'.sh a.proc i) hsh hp hw hs hmove
      (fun t ht => ⟨h.tasks t ht, hd.agree ha t ht⟩) (fun u hu => ?_) (fun i code _ hi => ?_)
      fun i f _ _ hrun => ?_
    · obtain ⟨t, ht⟩ := hu
      exact absurd ht (hpc t)
    · refine hi.1.moved hi.2 (hsame.keeps i) (fun _ _ _ _ => rfl) ?_
      rcases hev i with hst | ⟨src, why, hq, hr⟩
      · exact .same rfl hst
      · refine .elsewhere rfl hq hr fun c => ?_
        -- the worker has popped a timer, or a poll has reported an fd
        have hr' := hr
        rw [Shared.status, hl, statusOf_append] at hr'
        obtain ⟨ev, hmem, hrel⟩ := releases_of_foldl hr' (by
          rw [show statusOf i s.sh.log = .queued src from hq]
          simp)
        have hev := hes ev hmem
        cases ev with
        | timerPop | reported =>
          obtain ⟨-, rfl, -⟩ := hrel
          simp
        | dispatched | goready | wake => exact hrel.elim
        | _ => cases hev
    · obtain ⟨t, k, ht, -⟩ := hrun
      exact absurd ht (hpc t)
  · rw [hl] at hi
    rcases List.mem_append.mp hi with hi | hi
    · exact h.died i hi
    · cases hes _ hi

/-- **The step of a task.** -/
theorem run {t : Task σ V} {a' : Config σ ChanId V} (h : s.Mirrors P a) (hd : s.Disciplined)
    (hsh : s.Shaped) (hp : s.Placed) (ha : s.sh.aborted = none)
    (hinv : ∀ (c : ChanId) (m : Chan V), s.sh.chans[c]? = some m → m.val.Inv)
    (hw : s.workers[w]? = some (.run t)) (hs : TaskStep P ch (queueFree s.workers) s.sh t e)
    (hmove : WorkerMove s s' w (.run t) e) (hsim : Simulated P s.sh t e a a') :
    s'.Mirrors P a' := by
  have hlive : s.Live t :=
    .inr ⟨_, List.mem_of_getElem? hw, rfl, (hsh.workers _ (List.mem_of_getElem? hw)).run⟩
  have hrefl := h.reflects hd hsh ha
  obtain ⟨hcreated, halive⟩ := not_died_of_live hsh hp hlive
  -- a process that is not waiting stays where it is
  have hfix : ∀ i, i ≠ t.id → i < s.sh.nextTaskId → (s.sh.status i).queue? = none →
      a'.proc i = a.proc i := fun i hi hlt hq => by
    cases hsim.others i hi hlt with
    | same hp => exact hp
    | drained _ _ _ hq' | accepted hq' | given hq' | counted hq' | elsewhere _ hq' =>
      rw [hq'] at hq
      cases hq
  have hchild : ∀ {id x}, .created id ∉ s.sh.log → a.proc id = .live x → a'.proc id = .live x :=
    fun {id x} hid hx => (hfix id (fun h => hid (h ▸ hcreated)) (hrefl.lt_of_live hx)
      (by rw [hd.unborn id hid]; rfl)).trans hx
  refine ⟨hmove.sh ▸ hsim.chan, hmove.sh ▸ hsim.counter, hmove.sh ▸ hsim.next, fun u hu => ?_,
    fun id f hm => ?_,
    fun i hi => ?_, fun i hi => hsim.unborn i (hmove.sh ▸ hi),
    by rw [hmove.main, hsim.pending]; exact h.pending⟩
  · refine hu.worker (I := fun i code => code.Stands P s.sh a.proc i ∧
        code.agrees (s.sh.status i) ∧
        ∀ id f k, code = .goPush id f k → .created id ∉ s.sh.log)
      (J := fun i code => code.Stands P s'.sh a'.proc i) hsh hp hw (.run hs) hmove
      (fun u hu => ⟨h.tasks u hu, hd.agree ha u hu,
        fun id f k hc => not_created_of_goPush hsh hp hu hc⟩)
      (fun u _ hu hdead => ?_) (fun i code hi hI => ?_) fun i f hid _ hrun => ?_
    · rw [hmove.sh]
      rw [hs.sched.run_id hu]
      exact hsim.own u hu hdead
    · obtain ⟨hst, hag, hnew⟩ := hI
      obtain ⟨x, hx⟩ := hst.live
      rw [hmove.sh]
      refine hst.moved hag (hs.keeps hinv (Ne.symm (hi t rfl))) (fun id f k hc => ?_)
        (hsim.others i (Ne.symm (hi t rfl)) (hrefl.lt_of_live hx))
      subst hc
      cases hst with
      | goPush _ hf => rw [hchild (hnew _ _ _ rfl) hf, hf]
    · obtain ⟨u, k, hu, hc⟩ := hrun
      cases hu
      have hst := h.tasks t hlive
      rw [hc] at hst
      cases hst with
      | goPush _ hf => exact .entry (hchild hid hf)
  · exact hchild (not_created_of_main hp (hmove.main ▸ hm)) (h.main id f (hmove.main ▸ hm))
  · rw [hmove.sh] at hi
    rcases hsim.died i hi with hi | ⟨-, hi⟩
    · have hhalt := h.died i hi
      rw [hfix i (fun h => halive (h ▸ hi)) ?_ ?_, hhalt]
      · by_contra hlt
        rw [h.unborn i (Nat.le_of_not_lt hlt)] at hhalt
        cases hhalt
      · cases hq : s.sh.status i with
        | queued src =>
          obtain ⟨u, hu, rfl⟩ := hd.exists_live hsh hq
          exact absurd hi (not_died_of_live hsh hp hu).2
        | idle | released => rfl
    · exact hi

/-- **A step of the main thread or of the environment.** -/
theorem outer (h : s.Mirrors P a) (hd : s.Disciplined)
    (ha : s.sh.aborted = none) (hn : Next P s act s') (hact : ∀ w ch, act ≠ .worker w ch)
    (ho : OuterStep s s') (hmove : OuterMove s s') :
    ∃ ls a', (network P.cmd caps ns fs).run ls a = some a' ∧ s'.Mirrors P a' := by
  -- no task moves, as long as the existing processes stay
  have hkeep : ∀ a' : Config σ ChanId V, (∀ i < s.sh.nextTaskId, a'.proc i = a.proc i) →
      (∀ i, s'.sh.status i = s.sh.status i) → s'.sh.chans = s.sh.chans →
      ∀ t, s'.Live t → t.code.Stands P s'.sh a'.proc t.id := by
    intro a' hproc hst hchans t ht
    have hlt : ∀ {i x}, a.proc i = .live x → i < s.sh.nextTaskId := fun {i x} hx => by
      by_contra hi
      rw [h.unborn i (Nat.le_of_not_lt hi)] at hx
      cases hx
    refine ht.outer (I := fun i code => code.Stands P s.sh a.proc i ∧ code.agrees (s.sh.status i))
      (J := fun i code => code.Stands P s'.sh a'.proc i) ho hmove
      (fun t ht => ⟨h.tasks t ht, hd.agree ha t ht⟩) (fun i code hI => ?_) fun i f hm => ?_
    · obtain ⟨hstands, hag⟩ := hI
      obtain ⟨x, hx⟩ := hstands.live
      refine hstands.moved hag (fun c m hm => ⟨m, by rw [hchans]; exact hm,
        fun hcl => ⟨hcl, id⟩, fun d hmem _ => hmem⟩) (fun id f k hc => ?_)
        (.same (hproc i (hlt hx)) (hst i))
      subst hc
      cases hstands with
      | goPush _ hf => exact hproc _ (hlt hf)
    · have hf := h.main i f hm
      exact .entry ((hproc i (hlt hf)).trans hf)
  -- a step that changes neither the tasks nor the channels
  have hquiet : s'.sh.log = s.sh.log → s'.sh.chans = s.sh.chans → s'.sh.groups = s.sh.groups →
      s'.sh.nextTaskId = s.sh.nextTaskId → (∀ id f, s'.main.pc ≠ .goPush id f ∨ s'.main = s.main) →
      s'.main.rest.filterMap MainOp.go? = s.main.rest.filterMap MainOp.go? →
      ∃ ls a', (network P.cmd caps ns fs).run ls a = some a' ∧ s'.Mirrors P a' := by
    intro hl hc hg hnext hm hrest
    refine ⟨[], a, rfl, ?_, h.counter.trans (tally_congr hg).symm, h.next.trans hnext.symm,
      hkeep a (fun _ _ => rfl) (fun i => status_of_log hl i) hc, fun id f hpc => ?_, fun i hi => ?_,
      fun i hi => h.unborn i (hnext ▸ hi), h.pending.trans hrest.symm⟩
    · rw [h.chan]
      exact (view_same [] hc (by rw [hl, List.append_nil]) (by simp)).symm
    · rcases hm id f with hne | heq
      · exact absurd hpc hne
      · exact h.main id f (heq ▸ hpc)
    · rw [hl] at hi
      exact h.died i hi
  cases hn with
  | worker => exact absurd rfl (hact _ _)
  | spurious | tick | setReadable => exact hquiet rfl rfl rfl rfl (fun _ _ => .inr rfl) rfl
  | main hs =>
    cases hs with
    | start hm =>
      exact hquiet rfl rfl rfl rfl (fun _ _ => .inl fun h => by cases h) (by rw [hm]; rfl)
    | spawned hm | spawn hm | joined hm | join hm =>
      exact hquiet rfl rfl rfl rfl (fun _ _ => .inl fun h => by cases h) (by rw [hm])
    | @goPush id f rest ws hm =>
      have hlog : (s.sh.pushNew id f).1.log = s.sh.log ++ [.created id] := rfl
      refine ⟨[], a, rfl, ?_, h.counter, h.next, hkeep a (fun _ _ => rfl)
        (fun i => status_of_neutral [.created id] hlog (by simp [Event.neutral, Event.update]) i)
        rfl, fun id f hpc => (by cases hpc), fun i hi => ?_, h.unborn, ?_⟩
      · have hview : (s.sh.pushNew id f).1.view = s.sh.view :=
          view_same [.created id] rfl hlog (by simp [Event.matches])
        exact h.chan.trans hview.symm
      · refine h.died i ?_
        simpa [Shared.pushNew, Shared.record, Shared.withQueue] using hi
      · rw [h.pending, hm]
    | @go f rest hm =>
      have hpend : a.pending = f :: rest.filterMap MainOp.go? := by
        rw [h.pending, hm]
        rfl
      -- the processes that exist stay
      have hold : ∀ i, i ≠ s.sh.nextTaskId →
          (a.birth P.cmd f).proc i = a.proc i := fun i hi => by
        rw [Config.birth, h.next]
        exact Function.update_of_ne hi _ _
      refine ⟨[.start], { a.birth P.cmd f with pending := rest.filterMap MainOp.go? },
        System.run_one (by simp [network, Network.step, hpend]), h.chan, h.counter,
        congrArg (· + 1) h.next, hkeep _ (fun i hi => hold i hi.ne) (fun _ => rfl) rfl,
        fun id g hpc => ?_, fun i hi => ?_, fun i hi => ?_, rfl⟩
      · cases hpc
        show (a.birth P.cmd f).proc s.sh.nextTaskId = _
        rw [Config.birth, h.next]
        exact Function.update_self _ _ _
      · have hhalt := h.died i hi
        refine (hold i ?_).trans hhalt
        rintro rfl
        rw [h.unborn _ le_rfl] at hhalt
        cases hhalt
      · have hi : s.sh.nextTaskId < i := hi
        exact (hold i hi.ne').trans (h.unborn i hi.le)

end State.Mirrors

end Steps

/-- **No wait group is poisoned and no counter negative while the process runs.** -/
theorem reach_counts {P : Program σ V} (hB : P.Bare) {ok : Act → State σ V → Prop}
    {s : State σ V} (hr : (runtime P).Reach ok s) (ha : s.sh.aborted = none) : s.sh.Counts := by
  revert ha
  refine hr.invariant (I := fun s => s.sh.aborted = none → s.sh.Counts) ?_ ?_
  · rintro s ⟨caps, groups, calls, rfl⟩ - g m hm
    simp only [State.initial, List.getElem?_replicate] at hm
    split at hm
    · cases hm
      exact ⟨rfl, le_rfl⟩
    · cases hm
  · intro s s' act _ ih _ hn ha'
    obtain ⟨ha, hn⟩ := next_inv hn
    rcases hn.cases with ⟨w, ch, pc, e, -, hw, hs, hmove⟩ | ⟨ho, -⟩
    · rw [hmove.sh] at ha' ⊢
      rcases hs.task_or with ⟨t, rfl, htask⟩ | hpc
      · exact htask.counts hB (ih ha) ha'
      · intro g m hm
        exact ih ha g m (hs.groups hpc ▸ hm)
    · cases ho with
      | go hsh | push hsh =>
        rw [hsh]
        exact ih ha
      | same hsh =>
        intro g m hm
        exact ih ha g m (hsh.groups ▸ hm)

/-- The counters of new wait groups. -/
def newCounters (groups : Nat) (g : GroupId) : Option Int := if g < groups then some 0 else none

/-- The network of the program, with its channels and its wait groups, in which the environment
    creates the tasks that the main thread passes to `go`. -/
abbrev Program.network (P : Program σ V) (caps : List Nat) (groups : Nat)
    (calls : List (MainOp σ)) : System (Config σ ChanId V) Network.Label :=
  Network.network P.cmd (caps[·]?) (newCounters groups) (calls.filterMap MainOp.go?)

/-- **The network follows each step of the runtime** that does not abort the process. -/
theorem State.Mirrors.follow {P : Program σ V} {caps : ChanId → Option Nat}
    {ns : GroupId → Option Int} {fs : List σ} {a : Config σ ChanId V} {act : Act} {s s' : State σ V}
    (h : s.Mirrors P a) (hP : P.Structured) (hB : P.Bare) (hr : (runtime P).Reach FreshPolls s)
    (hok : FreshPolls act s) (hn : (runtime P).next act s = some s') (ha' : s'.sh.aborted = none) :
    ∃ ls a', (network P.cmd caps ns fs).run ls a = some a' ∧ s'.Mirrors P a' := by
  obtain ⟨ha, hn⟩ := next_inv hn
  have hd := reach_disciplined hP (fun _ _ h => h) hr
  have hsh := reach_shaped hr
  have hp := reach_placed hr
  have hinv : ∀ (c : ChanId) (m : Chan V), s.sh.chans[c]? = some m → m.val.Inv :=
    fun c m hm => reach_chanInv hr hm
  by_cases hact : ∃ w ch, act = .worker w ch
  · obtain ⟨w, ch, rfl⟩ := hact
    obtain ⟨pc, e, hw, hs, hmove⟩ := hn.worker_move
    have hwake := (hd.wakes hsh hp hw hP hs hinv (hok w ch pc rfl hw) ha).1
    rcases hs.task_or with ⟨t, rfl, htask⟩ | hpc
    · have hmem : s.Holds t := .inr ⟨_, List.mem_of_getElem? hw, rfl⟩
      have hlive : s.Live t := .inr ⟨_, List.mem_of_getElem? hw, rfl,
        (hsh.workers _ (List.mem_of_getElem? hw)).run⟩
      obtain ⟨ls, a', hrun, hsim⟩ : ∃ ls a', (network P.cmd caps ns fs).run ls a = some a' ∧
          Simulated P s.sh t e a a' :=
        htask.simulated hP hB (reach_uncaught hB.uncaught hr t hmem) hd.sources hinv
          (reach_counts hB hr ha) (reach_unpoisoned hB.uncaught hr ha)
          (reach_delivers hP hB.uncaught hr) (hd.agree ha t hlive)
          (fun hc => hd.queue?_of_settles hsh hp hw rfl hc)
          (fun i hi => hwake.evolves fun u hu => by cases hu; exact Ne.symm hi)
          (h.reflects hd hsh ha) (h.tasks t hlive) (hmove.sh ▸ ha')
      exact ⟨ls, a', hrun, h.run hd hsh hp ha hinv hw htask hmove hsim⟩
    · refine ⟨[], a, rfl, h.other hd hsh hp ha hw hpc hs
        (fun i => hwake.evolves fun t ht => absurd ht (hpc t)) ?_ hmove⟩
      exact hs.sched.nextTaskId hpc
  · rcases hn.cases with ⟨w, ch, -, -, h, -⟩ | ⟨ho, hmove⟩
    · exact absurd ⟨w, ch, h⟩ hact
    · exact h.outer hd ha hn (fun w ch h => hact ⟨w, ch, h⟩) ho hmove

/-- The network starts as the runtime does. -/
theorem mirrors_initial {P : Program σ V} {caps : List Nat} {groups : Nat}
    {calls : List (MainOp σ)} : (State.initial caps groups calls).Mirrors P
      (.initial (caps[·]?) (newCounters groups) (calls.filterMap MainOp.go?)) := by
  refine ⟨?_, ?_, rfl, fun t ht => ?_, fun id f hm => (by cases hm), fun i hi => (by cases hi),
    fun _ _ => rfl, rfl⟩
  · funext c
    simp only [Shared.view, State.initial, List.getElem?_map, Config.initial, Option.map_map]
    rfl
  · funext g
    simp only [Shared.tally, State.initial, List.getElem?_replicate, Config.initial, newCounters]
    split <;> rfl
  · rcases ht with (ht | ⟨i, ht⟩) | ⟨pc, hpc, -⟩
    · cases ht
    · simp [State.initial, GlobalQueue.new] at ht
    · cases hpc

/-- **Every state is the picture of a configuration** that the network reaches, as long as the
    process has not aborted. -/
theorem reach_mirrors {P : Program σ V} (hP : P.Structured) (hB : P.Bare)
    {caps : List Nat} {groups : Nat} {calls : List (MainOp σ)} {s : State σ V}
    (hr : ((runtime P).startingAt (.initial caps groups calls)).Reach FreshPolls s)
    (ha : s.sh.aborted = none) :
    ∃ a, (P.network caps groups calls).Reachable a ∧ s.Mirrors P a := by
  have hback : ∀ {s}, ((runtime P).startingAt (.initial caps groups calls)).Reach FreshPolls s →
      (runtime P).Reach FreshPolls s :=
    fun hr => System.startingAt_reach (show (runtime P).init _ from ⟨caps, groups, calls, rfl⟩) hr
  revert ha
  refine hr.invariant (I := fun s => s.sh.aborted = none →
    ∃ a, (P.network caps groups calls).Reachable a ∧ s.Mirrors P a) ?_ ?_
  · rintro s rfl -
    exact ⟨_, .init rfl, mirrors_initial⟩
  · intro s s' act hr ih hok hn ha'
    obtain ⟨a, hreach, h⟩ := ih (next_inv hn).1
    obtain ⟨ls, a', hrun, h'⟩ := h.follow hP hB (hback hr) hok hn ha'
    exact ⟨a', hreach.run hrun, h'⟩

/-- Every run of a basic program has fresh polls. -/
theorem reach_mirrors_basic {P : Program σ V} (hP : P.Basic) (hB : P.Bare)
    {caps : List Nat} {groups : Nat} {calls : List (MainOp σ)} {s : State σ V}
    (hr : ((runtime P).startingAt (.initial caps groups calls)).Reachable s)
    (ha : s.sh.aborted = none) :
    ∃ a, (P.network caps groups calls).Reachable a ∧ s.Mirrors P a :=
  reach_mirrors hP.structured hB
    (startingAt_freshPolls hP (.init ⟨caps, groups, calls, rfl⟩) hr) ha

end MyGoroutine
