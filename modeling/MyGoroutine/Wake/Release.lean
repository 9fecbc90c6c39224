import MyGoroutine.Lib.History
import MyGoroutine.Wake.Discipline

namespace MyGoroutine

/-!
# Releases — who took out an entry, and when

The status of a task says that its entry was taken out; the history says by which event.  An
entry is taken out only from where its task is queued, and a timer only when it is due.

* `Event.releases` — the event takes out the entry of a task;
* `Event.Lawful` — it does so rightly, given the history before it;
* `reach_lawful` — every history is lawful;
* `TakenOut`, `released_by` — the event that released a task.
-/

open History

variable {σ V : Type}

/-- The event takes out the entry of the task `i`. -/
def Event.releases (i : TaskId) (src : Source) (why : Why V) : Event V → Prop
  | .timerPop t w now => t = i ∧ src = .timer w ∧ why = .fired now
  | .sent c _ data (.delivered r) => r = i ∧ src = .recvq c ∧ why = .delivered data
  | .received c _ (.fromSender w _) => w.taskId = i ∧ src = .sendq c ∧ why = .taken
  | .closed c _ receivers senders =>
    why = .drained ∧ (i ∈ receivers ∧ src = .recvq c ∨
      i ∉ receivers ∧ i ∈ senders.map (·.taskId) ∧ src = .sendq c)
  | .added g _ _ woken => i ∈ woken ∧ src = .waiters g ∧ why = .counted
  | .reported t fd => t = i ∧ src = .fd fd ∧ why = .reported
  | _ => False

/-- The event takes out entries of queued tasks only, and due timers only. -/
structure Event.Lawful (before : List (Event V)) (e : Event V) : Prop where
  queued : ∀ i src why, e.releases i src why → statusOf i before = .queued src
  due : ∀ i w now, e = .timerPop i w now → w ≤ now

/-- The event takes out no entry. -/
def Event.inert : Event V → Bool
  | .timerPop _ _ _ => false
  | .sent _ _ _ (.delivered _) => false
  | .received _ _ (.fromSender _ _) => false
  | .closed _ _ _ _ => false
  | .added _ _ _ _ => false
  | .reported _ _ => false
  | _ => true

/-- The law says nothing about an inert event. -/
theorem Event.Lawful.of_inert {before : List (Event V)} {e : Event V} (h : e.inert = true) :
    e.Lawful before := by
  refine ⟨fun i src why hr => ?_, fun i w now he => by rw [he] at h; cases h⟩
  cases e with
  | sent c t d o | received c t o => cases o <;> first | exact False.elim hr | cases h
  | _ => first | exact False.elim hr | cases h

/-- A status that the event leaves a task in was there before, or the event releases the task. -/
theorem releases_of_update {e : Event V} {i : TaskId} {st : Status V} {src : Source} {why : Why V}
    (h : e.update i st = .released src why) (hne : st ≠ .released src why) :
    e.releases i src why := by
  cases e with
  | sent c t d o | received c t o =>
    cases o <;> simp only [Event.update] at h <;>
      first
      | exact absurd h hne
      | (split at h
         · cases h; exact ⟨‹_›, rfl, rfl⟩
         · exact absurd h hne)
      | (split at h
         · cases h
         · exact absurd h hne)
  -- `close` releases receivers and senders, for different reasons
  | closed c t receivers senders =>
    simp only [Event.update] at h
    split at h
    · cases h; exact ⟨rfl, .inl ⟨‹_›, rfl⟩⟩
    · split at h
      · cases h; exact ⟨rfl, .inr ⟨‹_›, ‹_›, rfl⟩⟩
      · exact absurd h hne
  | timerPop | added | reported =>
    simp only [Event.update] at h
    split at h
    · cases h; exact ⟨‹_›, rfl, rfl⟩
    · exact absurd h hne
  -- these leave a task queued or idle
  | timerPush | joined | registered | returned | panicked =>
    simp only [Event.update] at h
    split at h
    · cases h
    · exact absurd h hne
  | created | dispatched | entered | died | goready | wake => exact absurd h hne

/-- A status that some events leave a task in was there before, or one of them releases the
    task. -/
theorem releases_of_foldl {es : List (Event V)} {i : TaskId} {st : Status V} {src : Source}
    {why : Why V} (h : es.foldl (Event.update i) st = .released src why)
    (hne : st ≠ .released src why) : ∃ e ∈ es, e.releases i src why := by
  induction es generalizing st with
  | nil => exact absurd h hne
  | cons e es ih =>
    by_cases he : e.update i st = .released src why
    · exact ⟨e, by simp, releases_of_update he hne⟩
    · obtain ⟨x, hx, hr⟩ := ih h he
      exact ⟨x, List.mem_cons_of_mem _ hx, hr⟩

/-- A receiver is taken out by a `send` that delivers to it, or by `close`. -/
theorem Event.releases.recvq {e : Event V} {i : TaskId} {c : ChanId} {why : Why V}
    (h : e.releases i (.recvq c) why) :
    (∃ t data, e = .sent c t data (.delivered i) ∧ why = .delivered data) ∨
      ∃ t receivers senders, e = .closed c t receivers senders ∧ i ∈ receivers ∧
        why = .drained := by
  cases e with
  | timerPop | added | reported => cases h.2.1
  | sent c' t d o =>
    cases o <;> first | exact h.elim | skip
    obtain ⟨rfl, hc, hwhy⟩ := h
    cases hc
    exact .inl ⟨t, d, rfl, hwhy⟩
  | received c' t o => cases o <;> first | exact h.elim | cases h.2.1
  | closed c' t receivers senders =>
    obtain ⟨hwhy, ⟨hi, hc⟩ | ⟨-, -, hc⟩⟩ := h <;> cases hc
    exact .inr ⟨t, receivers, senders, rfl, hi, hwhy⟩
  | _ => exact h.elim

/-- A sender is taken out by a `recv`, or by `close`. -/
theorem Event.releases.sendq {e : Event V} {i : TaskId} {c : ChanId} {why : Why V}
    (h : e.releases i (.sendq c) why) :
    (∃ t w d, e = .received c t (.fromSender w d) ∧ w.taskId = i ∧ why = .taken) ∨
      ∃ t receivers senders, e = .closed c t receivers senders ∧ i ∈ senders.map (·.taskId) ∧
        why = .drained := by
  cases e with
  | timerPop | added | reported => cases h.2.1
  | sent c' t d o => cases o <;> first | exact h.elim | cases h.2.1
  | received c' t o =>
    cases o <;> first | exact h.elim | skip
    obtain ⟨hi, hc, hwhy⟩ := h
    cases hc
    exact .inl ⟨t, _, _, rfl, hi, hwhy⟩
  | closed c' t receivers senders =>
    obtain ⟨hwhy, ⟨-, hc⟩ | ⟨-, hi, hc⟩⟩ := h <;> cases hc
    exact .inr ⟨t, receivers, senders, rfl, hi, hwhy⟩
  | _ => exact h.elim

/-- An event that releases a task decides its status. -/
theorem update_of_releases {e : Event V} {i : TaskId} {src : Source} {why : Why V}
    (h : e.releases i src why) (st : Status V) : e.update i st = .released src why := by
  cases e with
  | timerPop | added | reported =>
    obtain ⟨h1, rfl, rfl⟩ := h
    exact if_pos h1
  | sent c t d o | received c t o =>
    cases o <;> first | exact h.elim | (obtain ⟨h1, rfl, rfl⟩ := h; exact if_pos h1)
  | closed c t receivers senders =>
    obtain ⟨rfl, ⟨hi, rfl⟩ | ⟨hr, hi, rfl⟩⟩ := h
    · exact if_pos hi
    · exact (if_neg hr).trans (if_pos hi)
  | _ => exact h.elim

/-! ### Lawful histories

Each event that takes an entry out is justified by the history before it: the task was queued there,
and a timer was due. The law is a property of the history, so nothing that happens later can break
it.
-/

section Steps

variable {P : Program σ V} {ch : Choice} {free : Bool} {sh sh' : Shared σ V} {t : Task σ V}
  {pc : Pc σ V} {e : Effect σ V}

/-- Inert events extend a lawful history. -/
private theorem lawful_inert {es : List (Event V)} (h : Each Event.Lawful sh.log)
    (hl : sh'.log = sh.log ++ es) (hes : ∀ e ∈ es, e.inert = true) :
    Each Event.Lawful sh'.log := by
  rw [hl]
  exact h.append fun l e he => .of_inert (hes e he)

/-- So does one event that takes out entries of queued tasks, with inert events after it. -/
private theorem lawful_release {ev : Event V} {es : List (Event V)}
    (h : Each Event.Lawful sh.log) (hl : sh'.log = sh.log ++ ev :: es) (hev : ev.Lawful sh.log)
    (hes : ∀ e ∈ es, e.inert = true) : Each Event.Lawful sh'.log := by
  rw [hl, List.append_cons]
  exact (h.concat hev).append fun l e he => .of_inert (hes e he)

/-- `goready` logs a lawful event. -/
private theorem lawful_goready {waker : Waker} {id : TaskId} (h : Each Event.Lawful sh.log) :
    Each Event.Lawful (sh.goready waker id).1.log := by
  unfold Shared.goready
  split <;> exact lawful_inert h rfl (by simp [Event.inert])

/-- A dispatch is lawful. -/
private theorem lawful_tryPop {otherwise : Pc σ V} (h : Each Event.Lawful sh.log)
    (hl : sh'.log = sh.log) : Each Event.Lawful (tryPop sh' otherwise).sh.log := by
  unfold tryPop
  split
  · exact hl ▸ h
  · exact lawful_inert h (congrArg (· ++ [_]) hl) (by simp [Event.inert])

/-- The head of a `recvq` is queued there. -/
theorem queued_of_recvq {c : ChanId} {m : Chan V} {i : TaskId} (hsrc : sh.Sources)
    (hm : sh.chans[c]? = some m) (hi : i ∈ m.val.recvq) : sh.status i = .queued (.recvq c) :=
  hsrc.queued_of_entries rfl (by rw [entries_recvq hm]; exact List.count_pos_iff.mpr hi)

/-- A task in the `sendq` waits to send. -/
theorem queued_of_sendq {c : ChanId} {m : Chan V} {i : TaskId} (hsrc : sh.Sources)
    (hm : sh.chans[c]? = some m) (hi : i ∈ m.val.sendq.map (·.taskId)) :
    sh.status i = .queued (.sendq c) :=
  hsrc.queued_of_entries rfl (by rw [entries_sendq hm]; exact List.count_pos_iff.mpr hi)

/-- A `recv` takes a value from a task that waits to send. -/
private theorem lawful_received {c : ChanId} {m : Chan V} {i : TaskId} {w : SendWaiter V} {d : V}
    (hsrc : sh.Sources) (hm : sh.chans[c]? = some m) (hw : w ∈ m.val.sendq) :
    (Event.received c i (.fromSender w d)).Lawful sh.log := by
  refine ⟨?_, by simp⟩
  rintro j src why ⟨rfl, rfl, -⟩
  exact queued_of_sendq hsrc hm (List.mem_map_of_mem hw)

/-- A step of a task extends a lawful history. -/
theorem TaskStep.lawful (hs : TaskStep P ch free sh t e) (hsrc : sh.Sources)
    (h : Each Event.Lawful sh.log) : Each Event.Lawful e.sh.log := by
  cases hs with
  | chanPoisoned | chanClosed | recvUnwrap | groupPanic | sleepOverflow | netFail =>
    exact lawful_inert h (raise_log _ _) (by simp [Event.inert])
  | @sendDelivered x c data k hd m r recvq hc hx hm hp hcl hq =>
    refine lawful_release h (show _ = _ ++ [_] from rfl) ⟨?_, by simp⟩ (by simp)
    rintro i src why ⟨rfl, rfl, -⟩
    exact queued_of_recvq hsrc hm (by simp [hq])
  | recvTake hc hx hm hp hq =>
    exact lawful_release h (show _ = _ ++ [_] from rfl) (lawful_received hsrc hm (by simp [hq]))
      (by simp)
  | recvRefill hc hx hm hp hq =>
    exact lawful_release h (show _ = _ ++ [_] from rfl) (lawful_received hsrc hm (by simp [hq]))
      (by simp)
  | close hc hx hm hp hcl =>
    rw [finish_sh, Shared.record_record]
    refine lawful_release h rfl ⟨?_, by simp⟩ ?_
    · rintro i src why ⟨-, ⟨hi, rfl⟩ | ⟨-, hi, rfl⟩⟩
      · exact queued_of_recvq hsrc hm hi
      · exact queued_of_sendq hsrc hm hi
    · split <;> simp [Event.inert]
  | @add x g d k hd m woken inner hc hx hm hp ha hw =>
    rw [finish_sh, Shared.record_record]
    refine lawful_release h rfl ⟨?_, by simp⟩ ?_
    · rintro i src why ⟨hi, rfl, -⟩
      refine hsrc.queued_of_entries rfl ?_
      rw [entries_waiters hm, ← hw.1]
      exact List.count_pos_iff.mpr (List.mem_append_left _ hi)
    · split <;> simp [Event.inert]
  | goready | wakeMore => exact lawful_goready h
  | wakeLast => exact lawful_inert (lawful_goready h) rfl (by simp [Event.inert])
  | go | gosched | currentTaskId | sleep | netAdd | ioSpawn | ioBlock | gopark | wakeNil
  | spawnWorker | threadSpawn | blocking | park | resumeNet | resumeGopark => exact h
  | entry | done | goPush | sleepPush | sendBuffered | sendEnqueued | recvClosed | recvBuf
  | recvEnqueued | waitZero | waitJoin | registerRead | unregister | resumeSleep | resumeSend
  | resumeRecv | resumeWait => exact lawful_inert h rfl (by simp [Event.inert])

/-- The reports of a poll, for different tasks that wait for the fds. -/
theorem lawful_reports {found : List (RawFd × TaskId)} {log : List (Event V)}
    (h : Each Event.Lawful log) (hnd : (found.map (·.2)).Nodup)
    (hq : ∀ x ∈ found, statusOf x.2 log = .queued (.fd x.1)) :
    Each Event.Lawful (log ++ found.map fun x => .reported x.2 x.1) := by
  induction found generalizing log with
  | nil => simpa using h
  | cons x found ih =>
    obtain ⟨hx, hnd⟩ := List.nodup_cons.mp hnd
    rw [List.map_cons, List.append_cons]
    refine ih (h.concat ⟨?_, by simp⟩) hnd fun y hy => ?_
    · rintro i src why ⟨rfl, rfl, -⟩
      exact hq x List.mem_cons_self
    · have hne : x.2 ≠ y.2 := fun he => hx (List.mem_map.mpr ⟨y, hy, he.symm⟩)
      rw [statusOf_append]
      exact (if_neg hne).trans (hq y (List.mem_cons_of_mem _ hy))

/-- **A step of a worker extends a lawful history.** -/
theorem WorkerStep.lawful (hs : WorkerStep P ch free sh pc e) (hsrc : sh.Sources)
    (hev : pc.Events) (hfresh : sh.FreshReports pc) (h : Each Event.Lawful sh.log) :
    Each Event.Lawful e.sh.log := by
  cases hs with
  | run hs => exact hs.lawful hsrc h
  | timersReady | wakeReady => exact lawful_goready h
  | lookup =>
    have hq := hfresh _ rfl
    exact lawful_reports h (nodup_lookup hev hq) hq
  | timersPop hh hw =>
    refine lawful_release h (show _ = _ ++ [_] from rfl) ⟨?_, ?_⟩ (by simp)
    · rintro i src why ⟨rfl, rfl, -⟩
      refine hsrc.queued_of_entries rfl (List.count_pos_iff.mpr ?_)
      simp only [TimerEntry.isPeek, Bool.and_eq_true, decide_eq_true_eq] at hh
      exact hh.1
    · rintro i w now he
      cases he
      exact hw
  | top | termNetYes | termStay => exact lawful_tryPop h rfl
  | notified =>
    simp only [wakeStep]
    split
    · exact h
    · exact lawful_tryPop h rfl
  | goIdle =>
    simp only [idleStep]
    split <;> exact h
  | park =>
    unfold Shared.parkTask
    split
    · exact lawful_inert h rfl (by simp [Event.inert])
    · exact h
  | _ => exact h

end Steps

/-- **Every history is lawful**, as long as polls report fresh registrations only. -/
theorem reach_lawful {P : Program σ V} (hP : P.Structured) {ok : Act → State σ V → Prop}
    (hok : ∀ a s, ok a s → FreshPolls a s) {s : State σ V} (hr : (runtime P).Reach ok s) :
    Each Event.Lawful s.sh.log := by
  refine hr.invariant (I := fun s => Each Event.Lawful s.sh.log) ?_ ?_
  · rintro s ⟨caps, groups, calls, rfl⟩
    exact .nil _
  · intro s s' a hr h hok' hn
    have hd := reach_disciplined hP hok hr
    rcases (next_inv hn).2.cases with ⟨w, ch, pc, e, rfl, hw, hs, hmove⟩ | ⟨ho, -⟩
    · rw [hmove.sh]
      exact hs.lawful hd.sources (hd.events _ (List.mem_of_getElem? hw))
        (hok _ _ hok' w ch pc rfl hw) h
    · cases ho with
      | go hsh => rw [hsh]; exact h
      | push hsh => rw [hsh]; exact lawful_inert h rfl (by simp [Event.inert])
      | same hsh => rw [hsh.log]; exact h

/-- The event `e` of the history took the entry of the task `i` out of `src`, where the task was
    queued, and no event has changed the task's status since. -/
def TakenOut (i : TaskId) (src : Source) (why : Why V) (e : Event V) (log : List (Event V)) :
    Prop :=
  ∃ before after, log = before ++ e :: after ∧ e.releases i src why ∧
    statusOf i before = .queued src ∧
    ∀ x ∈ after, x.update i (.released src why) = .released src why

/-- A task that has been taken out is released. -/
theorem TakenOut.status {i : TaskId} {src : Source} {why : Why V} {e : Event V}
    {log : List (Event V)} (h : TakenOut i src why e log) :
    statusOf i log = .released src why := by
  obtain ⟨before, after, rfl, hr, -, hafter⟩ := h
  rw [statusOf_append, List.foldl_cons, update_of_releases hr]
  induction after with
  | nil => rfl
  | cons x after ih =>
    rw [List.foldl_cons, hafter x (by simp)]
    exact ih fun y hy => hafter y (by simp [hy])

/-- The event that has taken it out is in the history. -/
theorem TakenOut.mem {i : TaskId} {src : Source} {why : Why V} {e : Event V}
    {log : List (Event V)} (h : TakenOut i src why e log) : e ∈ log := by
  obtain ⟨before, after, rfl, -⟩ := h
  simp

/-- The event that has taken it out has released it. -/
theorem TakenOut.releases {i : TaskId} {src : Source} {why : Why V} {e : Event V}
    {log : List (Event V)} (h : TakenOut i src why e log) : e.releases i src why := by
  obtain ⟨before, after, -, hr, -⟩ := h
  exact hr

/-- **The event that released a task.** -/
theorem released_by {log : List (Event V)} (h : Each Event.Lawful log) {i : TaskId} {src : Source}
    {why : Why V} (hst : statusOf i log = .released src why) : ∃ e, TakenOut i src why e log := by
  induction log using List.reverseRecOn with
  | nil => cases hst
  | append_singleton log x ih =>
    have hx : x.update i (statusOf i log) = .released src why := by
      rw [statusOf_append] at hst
      exact hst
    by_cases hold : statusOf i log = .released src why
    · obtain ⟨e, before, after, rfl, he, hq, hafter⟩ := ih h.init hold
      refine ⟨e, before, after ++ [x], by simp, he, hq, fun y hy => ?_⟩
      rcases List.mem_append.mp hy with hy | hy
      · exact hafter y hy
      · rw [List.mem_singleton.mp hy, ← hold, hx, hold]
    · have he := releases_of_update hx hold
      exact ⟨x, log, [], rfl, he, (h log x [] rfl).queued _ _ _ he, by simp⟩

/-- A timer is taken out by `check_timers` only, when it is due. -/
theorem TakenOut.timer {log : List (Event V)} (h : Each Event.Lawful log) {i : TaskId}
    {w : Instant} {why : Why V} {e : Event V} (he : TakenOut i (.timer w) why e log) :
    ∃ now, e = .timerPop i w now ∧ w ≤ now := by
  obtain ⟨before, after, hlog, hr, -, -⟩ := he
  cases e with
  | timerPop t w' now =>
    obtain ⟨rfl, hw, -⟩ := hr
    cases hw
    exact ⟨now, rfl, (h before _ after hlog).due _ _ _ rfl⟩
  | sent c t d o | received c t o => cases o <;> first | exact hr.elim | cases hr.2.1
  | closed => rcases hr.2 with ⟨-, h⟩ | ⟨-, -, h⟩ <;> cases h
  | added | reported => cases hr.2.1
  | _ => exact hr.elim

end MyGoroutine
