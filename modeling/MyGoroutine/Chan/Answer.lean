import MyGoroutine.Chan.Delivered

namespace MyGoroutine

/-!
# What each `recv` returns

What a `recv` returns is decided in one section: its own, or, once it has parked, the section of
the `send` that delivers to it or of the `close` that dismisses it.  The task learns of it later.
Its calls return what was decided for them, in the same order, and at most one decision of a task
is waiting to be returned.

* `Event.decides`, `Event.answers` — what an event decides, and what it returns;
* `Code.outcome` — the decision that waits for a task, by the point of its code;
* `AnswerStep`, `TaskStep.answered` — a step of a task, seen from a channel's receivers;
* `State.Answered`, `reach_answered` — decisions and returns match, in every state reached.
-/

variable {σ V : Type}

/-- What an event decides about the calls of `recv` on `c`: whose call, and what it returns. -/
def Event.decides (c : ChanId) : Event V → List (TaskId × Option V)
  | .sent c' _ data (.delivered r) => if c' = c then [(r, some data)] else []
  | .received c' t (.fromSender _ data) => if c' = c then [(t, some data)] else []
  | .received c' t (.fromBuf data) => if c' = c then [(t, some data)] else []
  | .received c' t .closed => if c' = c then [(t, none)] else []
  | .closed c' _ receivers _ => if c' = c then receivers.map (·, none) else []
  | _ => []

/-- The call of `recv` on `c` that returns, with what it returns. -/
def Event.answers (c : ChanId) : Event V → List (TaskId × Option V)
  | .returned t (.recv c' o) => if c' = c then [(t, o)] else []
  | _ => []

/-- The decisions about the calls of `recv` on `c`, in order. -/
abbrev decided (c : ChanId) (log : List (Event V)) : List (TaskId × Option V) :=
  gather (Event.decides c) log

/-- The calls of `recv` on `c` that have returned, in order. -/
abbrev answered (c : ChanId) (log : List (Event V)) : List (TaskId × Option V) :=
  gather (Event.answers c) log

/-- The values of a list of shares that are for the task `i`. -/
def shareOf {V : Type} (i : TaskId) (xs : List (TaskId × V)) : List V :=
  (xs.filter fun x => x.1 = i).map (·.2)

/-- The event neither decides nor ends a `recv` on `c`. -/
def Event.still (c : ChanId) (e : Event V) : Prop := e.decides c = [] ∧ e.answers c = []

/-- What a parked receiver that was taken out of the `recvq` returns. -/
def Why.answer : Why V → Option V
  | .delivered data => some data
  | _ => none

/-- The decision about a parked receiver of `c`, until it goes on. -/
def Status.outcome (c : ChanId) : Status V → List (Option V)
  | .released (.recvq c') why => if c' = c then [why.answer] else []
  | _ => []

/-- The decision that a task has still to return, by the point of its code: it owes `goready`
    calls before it returns, or it has parked. -/
def Code.outcome (c : ChanId) (st : Status V) : Code σ V → List (Option V)
  | .wake (_ :: _) (.recv c' o) _ => if c' = c then [o] else []
  | .park (.recv _ _ _) => st.outcome c
  | .parked (.recv _ _ _) => st.outcome c
  | _ => []

/-- The events of a step of the task `t`, with the decision that waits for it before and after
    the step. -/
inductive AnswerStep (c : ChanId) (sh : Shared σ V) (t : TaskId) :
    List (Option V) → List (Option V) → List (Event V) → Prop where
  | still {a es} (hes : ∀ e ∈ es, e.still c) : AnswerStep c sh t a a es
  /-- Its own section decides the call, which owes a `goready` first. -/
  | take {o e} (hd : e.decides c = [(t, o)]) (ha : e.answers c = []) :
      AnswerStep c sh t [] [o] [e]
  /-- Its own section decides the call, which returns. -/
  | direct {o e} (hd : e.decides c = [(t, o)]) (ha : e.answers c = []) :
      AnswerStep c sh t [] [] [e, .returned t (.recv c o)]
  | finish {o es} (hes : ∀ e ∈ es, e.still c) :
      AnswerStep c sh t [o] [] (es ++ [.returned t (.recv c o)])
  /-- The calls of parked receivers are decided. -/
  | others {e es} (ha : e.answers c = []) (hnd : ((e.decides c).map (·.1)).Nodup)
      (hd : ∀ x ∈ e.decides c, x.1 ≠ t ∧ sh.status x.1 = .queued (.recvq c) ∧
        ∃ why : Why V, why.answer = x.2 ∧ e.releases x.1 (.recvq c) why)
      (hes : es = [] ∨ es = [.returned t (.close c)]) : AnswerStep c sh t [] [] (e :: es)

/-! ### Histories

Everything here is read off the history, event by event. A step of a task appends some events, and
changes what it has still to return; the balance of the two is the account of the task, and
`account_append` is all that the steps below need to know about it.
-/

section Histories

variable {c : ChanId} {i : TaskId} {log es : List (Event V)} {e : Event V}

/-- A return decides nothing. -/
@[simp] theorem decides_returned (c : ChanId) (t : TaskId) (r : Ret V) :
    (Event.returned t r).decides c = [] := rfl

/-- The return of a `recv` answers its call. -/
@[simp] theorem answers_returned_recv (c : ChanId) (t : TaskId) (o : Option V) :
    (Event.returned t (.recv c o)).answers c = [(t, o)] := if_pos rfl

/-- The share of a task grows with the list. -/
theorem shareOf_append (xs ys : List (TaskId × V)) :
    shareOf i (xs ++ ys) = shareOf i xs ++ shareOf i ys := by
  simp [shareOf]

/-- A single entry is the share of its task. -/
theorem shareOf_single (i j : TaskId) (v : V) :
    shareOf i [(j, v)] = if j = i then [v] else [] := by
  by_cases hj : j = i <;> simp [shareOf, hj]

/-- A list without entries of the task has no share for it. -/
theorem shareOf_eq_nil {xs : List (TaskId × V)} (h : ∀ x ∈ xs, x.1 ≠ i) : shareOf i xs = [] := by
  rw [shareOf, List.filter_eq_nil_iff.mpr (by simpa using h), List.map_nil]

/-- When no task occurs twice, an entry is the whole share of its task. -/
theorem shareOf_of_nodup {xs : List (TaskId × V)} (hnd : (xs.map (·.1)).Nodup) {v : V}
    (h : (i, v) ∈ xs) : shareOf i xs = [v] := by
  induction xs with
  | nil => cases h
  | cons x xs ih =>
    obtain ⟨hx, hnd⟩ := List.nodup_cons.mp hnd
    rw [← List.singleton_append, shareOf_append]
    rcases List.mem_cons.mp h with rfl | h
    · rw [shareOf_single, if_pos rfl, shareOf_eq_nil fun y hy hyi => hx ?_, List.append_nil]
      exact List.mem_map.mpr ⟨y, hy, hyi⟩
    · rw [ih hnd h, shareOf_single, if_neg ?_, List.nil_append]
      rintro rfl
      exact hx (List.mem_map.mpr ⟨_, h, rfl⟩)

/-- An event about another channel decides nothing about this one. -/
theorem decides_of_chan? (h : e.chan? ≠ some c) : e.decides c = [] := by
  cases e with
  | sent c' t d o | received c' t o =>
    cases o <;> first | rfl | exact if_neg fun hc => h (by rw [hc]; rfl)
  | closed c' => exact if_neg fun hc => h (by rw [hc]; rfl)
  | _ => rfl

/-- An event of a section answers no call. -/
theorem answers_of_chan? {c' : ChanId} (h : e.chan? = some c') : e.answers c = [] := by
  cases e <;> first | rfl | cases h

/-- What a worker logs is no matter of a channel. -/
theorem still_of_ofWorker (h : e.ofWorker = true) : e.still c := by
  cases e <;> first | exact ⟨rfl, rfl⟩ | cases h

/-- An event that releases a parked receiver decides its call. -/
theorem mem_decides_of_releases {why : Why V} (h : e.releases i (.recvq c) why) :
    (i, why.answer) ∈ e.decides c := by
  rcases h.recvq with ⟨t, d, rfl, rfl⟩ | ⟨t, rs, ss, rfl, hi, rfl⟩
  · simp [Event.decides, Why.answer]
  · simp [Event.decides, Why.answer, hi]

/-- Without a decision about it a parked receiver keeps its outcome. -/
theorem outcome_of_evolves {sh sh' : Shared σ V} (hl : sh'.log = sh.log ++ es)
    (hev : Evolves (sh.status i) (sh'.status i)) (hes : shareOf i (decided c es) = []) :
    (sh'.status i).outcome c = (sh.status i).outcome c := by
  rcases hev with hst | ⟨src, why, hq, hst⟩
  · rw [hst]
  · rw [hst, hq]
    cases src with
    | recvq c' =>
      refine if_neg ?_
      rintro rfl
      rw [Shared.status, hl, statusOf_append] at hst
      obtain ⟨e, he, hr⟩ := releases_of_foldl hst (by
        rw [show statusOf i sh.log = .queued (.recvq c') from hq]
        simp)
      have hmem : (i, why.answer) ∈ decided c' es :=
        List.mem_flatMap.mpr ⟨e, he, mem_decides_of_releases hr⟩
      have : why.answer ∈ shareOf i (decided c' es) :=
        List.mem_map.mpr ⟨_, List.mem_filter.mpr ⟨hmem, by simp⟩, rfl⟩
      rw [hes] at this
      cases this
    | _ => rfl

/-- The outcome of a call depends on the status only through its outcome. -/
theorem Code.outcome_congr {code : Code σ V} {st st' : Status V}
    (h : st'.outcome c = st.outcome c) : code.outcome c st' = code.outcome c st := by
  cases code with
  | park p | parked p => cases p <;> first | rfl | exact h
  | wake ids ret k => cases ids <;> cases ret <;> rfl
  | _ => rfl

/-- At most one outcome waits for a task. -/
theorem Status.outcome_length (st : Status V) : (st.outcome c).length ≤ 1 := by
  unfold Status.outcome
  split
  · split <;> simp
  · simp

/-- At most one decision waits for a task. -/
theorem Code.outcome_length (code : Code σ V) (st : Status V) : (code.outcome c st).length ≤ 1 := by
  unfold Code.outcome
  split
  · split <;> simp
  · exact st.outcome_length
  · exact st.outcome_length
  · simp

/-- **The account of a task** moves with the events `es`: `a` was decided for it and not returned,
    and then `a'` is. -/
theorem account_append {log log' : List (Event V)} {a a' : List (Option V)} (hl : log' = log ++ es)
    (h : shareOf i (decided c log) = shareOf i (answered c log) ++ a)
    (hes : a ++ shareOf i (decided c es) = shareOf i (answered c es) ++ a') :
    shareOf i (decided c log') = shareOf i (answered c log') ++ a' := by
  rw [hl, decided, answered, gather_append, gather_append, shareOf_append, shareOf_append]
  calc shareOf i (decided c log) ++ shareOf i (decided c es)
      = shareOf i (answered c log) ++ (a ++ shareOf i (decided c es)) := by
        rw [h, List.append_assoc]
    _ = shareOf i (answered c log) ++ shareOf i (answered c es) ++ a' := by
        rw [hes, List.append_assoc]

end Histories

namespace AnswerStep

variable {c : ChanId} {sh sh' : Shared σ V} {t j : TaskId} {a a' : List (Option V)}
  {es : List (Event V)} (h : AnswerStep c sh t a a' es)
include h

/-- The account of the task of the step. -/
theorem own : a ++ shareOf t (decided c es) = shareOf t (answered c es) ++ a' := by
  have hstill : ∀ {es : List (Event V)}, (∀ e ∈ es, e.still c) →
      decided c es = [] ∧ answered c es = [] := fun hes =>
    ⟨List.flatMap_eq_nil_iff.mpr fun e he => (hes e he).1,
      List.flatMap_eq_nil_iff.mpr fun e he => (hes e he).2⟩
  cases h with
  | still hes =>
    obtain ⟨hd, ha⟩ := hstill hes
    rw [hd, ha]
    exact List.append_nil _
  | take hd ha => simp [hd, ha, shareOf]
  | direct hd ha => simp [hd, ha, shareOf]
  | finish hes =>
    obtain ⟨hd, ha⟩ := hstill hes
    simp [hd, ha, shareOf]
  | @others e es ha hnd hd hes =>
    have hrest : decided c es = [] ∧ answered c es = [] := by
      rcases hes with rfl | rfl <;> exact ⟨rfl, rfl⟩
    simp only [gather_cons, hrest.1, hrest.2, ha, List.append_nil]
    exact shareOf_eq_nil fun x hx => (hd x hx).1

/-- No call of another task returns; such a call is decided only while it is parked. -/
theorem other (hj : j ≠ t) : shareOf j (answered c es) = [] ∧
    (shareOf j (decided c es) = [] ∨ sh.status j = .queued (.recvq c) ∧
      ∃ why : Why V, shareOf j (decided c es) = [why.answer] ∧
        ∀ st, es.foldl (Event.update j) st = .released (.recvq c) why) := by
  have hstill : ∀ {es : List (Event V)}, (∀ e ∈ es, e.still c) →
      shareOf j (answered c es) = [] ∧ shareOf j (decided c es) = [] := fun hes => by
    rw [decided, answered, gather, gather, List.flatMap_eq_nil_iff.mpr fun e he => (hes e he).1,
      List.flatMap_eq_nil_iff.mpr fun e he => (hes e he).2]
    exact ⟨rfl, rfl⟩
  cases h with
  | still hes => exact ⟨(hstill hes).1, .inl (hstill hes).2⟩
  | take hd ha => exact ⟨by simp [ha, shareOf], .inl (by simp [hd, shareOf, Ne.symm hj])⟩
  | direct hd ha =>
    exact ⟨by simp [ha, shareOf, Ne.symm hj], .inl (by simp [hd, shareOf, Ne.symm hj])⟩
  | finish hes =>
    simp only [gather_append, shareOf_append, (hstill hes).1, (hstill hes).2]
    exact ⟨by simp [shareOf, Ne.symm hj], .inl rfl⟩
  | @others e es ha hnd hd hes =>
    have hrest : decided c es = [] ∧ answered c es = [] := by
      rcases hes with rfl | rfl <;> exact ⟨rfl, rfl⟩
    simp only [gather_cons, hrest.1, hrest.2, ha, List.append_nil]
    refine ⟨rfl, ?_⟩
    -- either the event decides the call of `j`, or it says nothing of `j`
    by_cases hmem : ∃ x ∈ e.decides c, x.1 = j
    · obtain ⟨x, hx, rfl⟩ := hmem
      obtain ⟨-, hq, why, hwhy, hrel⟩ := hd x hx
      refine .inr ⟨hq, why, by rw [hwhy]; exact shareOf_of_nodup hnd hx, fun st => ?_⟩
      rw [List.foldl_cons, update_of_releases hrel]
      rcases hes with rfl | rfl
      · rfl
      · exact if_neg (Ne.symm hj)
    · exact .inl (shareOf_eq_nil fun x hx hxj => hmem ⟨x, hx, hxj⟩)

/-- A step leaves at most one decision pending. -/
theorem length_le (ha : a.length ≤ 1) : a'.length ≤ 1 := by
  cases h with
  | still => exact ha
  | _ => simp

/-- The account of another live task. -/
theorem fits {code : Code σ V} {log : List (Event V)} (hj : j ≠ t)
    (hl : sh'.log = sh.log ++ es) (hev : Evolves (sh.status j) (sh'.status j))
    (hag : code.agrees (sh.status j))
    (hfit : shareOf j (decided c log) = shareOf j (answered c log) ++ code.outcome c (sh.status j)) :
    shareOf j (decided c (log ++ es))
      = shareOf j (answered c (log ++ es)) ++ code.outcome c (sh'.status j) := by
  obtain ⟨hans, hdec⟩ := h.other hj
  refine account_append rfl hfit ?_
  rcases hdec with hdec | ⟨hq, why, hdec, hst⟩
  · rw [hans, hdec, List.append_nil, Code.outcome_congr (outcome_of_evolves hl hev hdec)]
    rfl
  · -- the call is decided while its task is parked
    have hst' : sh'.status j = .released (.recvq c) why := by
      rw [Shared.status, hl, statusOf_append]
      exact hst _
    rw [hq] at hag
    rw [hans, hdec, hst', hq]
    obtain ⟨k, hd, rfl | rfl⟩ := Code.recv_of_source? (c := c) hag rfl <;>
      simp [Code.outcome, Status.outcome]

end AnswerStep

/-! ### Steps

A task decides its own call in the section of `recv`, unless it parks; a parked call is decided by
the `send` or the `close` of another task, and returned by the step after `gopark`. So the steps
fall into those that decide at once, those that decide for others, and those that return.
-/

section Steps

variable {P : Program σ V} {ch : Choice} {free : Bool} {sh sh' : Shared σ V} {t : Task σ V}
  {e : Effect σ V} {c : ChanId}

/-- The step of a task seen from the receivers of the channel `c`. -/
def TaskStep.Answered (c : ChanId) (sh : Shared σ V) (t : Task σ V) (e : Effect σ V) : Prop :=
  ∃ es a, e.sh.log = sh.log ++ es ∧
    AnswerStep c sh t.id (t.code.outcome c (sh.status t.id)) a es ∧
    (e.sh.aborted = none →
      ∀ u, e.pc.task? = some u → u.id = t.id ∧ u.code.outcome c (e.sh.status t.id) = a) ∧
    ∀ j, .died j ∈ es → j = t.id ∧ a = [] ∧ e.sh.status j = .idle

/-- A step that neither decides nor ends a call. -/
private theorem answered_still {code : Code σ V} (es : List (Event V))
    (hl : sh'.log = sh.log ++ es) (hes : ∀ e ∈ es, e.still c) (hd : ∀ j, .died j ∉ es)
    (hcode : code.outcome c (sh'.status t.id) = t.code.outcome c (sh.status t.id)) {n : Notify}
    {sp : Option Nat} :
    TaskStep.Answered c sh t { sh := sh', pc := .run (t.goto code), notify := n, spawn := sp } := by
  refine ⟨es, _, hl, .still hes, fun _ u hu => ?_, fun j hj => absurd hj (hd j)⟩
  cases hu
  exact ⟨rfl, hcode⟩

/-- A panic that no closure catches. -/
private theorem answered_raise {p : Panic} (hl : sh'.log = sh.log) :
    TaskStep.Answered c sh t (t.raise sh' p none) := by
  refine ⟨[.panicked t.id p], _, by rw [raise_log, hl], .still (by simp [Event.still, Event.decides,
    Event.answers]), fun ha => ?_, by simp⟩
  rw [raise_sh] at ha
  cases ha

/-- A section of `recv` that decides its own call, which owes a `goready` first. -/
private theorem answered_take {c' : ChanId} {o : Option V} {ev : Event V} {w : TaskId} {k : σ}
    (hc : t.code.outcome c (sh.status t.id) = []) (hl : sh'.log = sh.log ++ [ev])
    (hd : ev.decides c' = [(t.id, o)]) (hch : ev.chan? = some c') :
    TaskStep.Answered c sh t { sh := sh', pc := .run (t.goto (.wake [w] (.recv c' o) k)) } := by
  have hans := answers_of_chan? (c := c) hch
  have hdied : ∀ j, .died j ∉ [ev] := by
    intro j hj
    rw [← List.mem_singleton.mp hj] at hch
    cases hch
  by_cases hcc : c' = c
  · subst hcc
    refine ⟨_, [o], hl, ?_, fun _ u hu => ?_, fun j hj => absurd hj (hdied j)⟩
    · rw [hc]
      exact .take hd hans
    · cases hu
      exact ⟨rfl, if_pos rfl⟩
  · refine answered_still [ev] hl ?_ hdied (by rw [hc]; exact if_neg hcc)
    intro e he
    rw [List.mem_singleton.mp he]
    exact ⟨decides_of_chan? (by rw [hch]; simpa using hcc), hans⟩

/-- A section of `recv` that decides its own call, which returns. -/
private theorem answered_direct {c' : ChanId} {o : Option V} {ev : Event V} {k : σ}
    (hc : t.code.outcome c (sh.status t.id) = [])
    (hl : sh'.log = sh.log ++ [ev, .returned t.id (.recv c' o)])
    (hd : ev.decides c' = [(t.id, o)]) (hch : ev.chan? = some c') :
    TaskStep.Answered c sh t { sh := sh', pc := .run (t.goto (.user k)) } := by
  have hans := answers_of_chan? (c := c) hch
  have hdied : ∀ j, .died j ∉ [ev, .returned t.id (.recv c' o)] := by
    intro j hj
    simp only [List.mem_cons, List.not_mem_nil, or_false, reduceCtorEq] at hj
    rw [← hj] at hch
    cases hch
  by_cases hcc : c' = c
  · subst hcc
    refine ⟨_, [], hl, ?_, fun _ u hu => ?_, fun j hj => absurd hj (hdied j)⟩
    · rw [hc]
      exact .direct hd hans
    · cases hu
      exact ⟨rfl, rfl⟩
  · refine answered_still _ hl ?_ hdied (by rw [hc]; rfl)
    intro e he
    rcases List.mem_cons.mp he with rfl | he
    · exact ⟨decides_of_chan? (by rw [hch]; simpa using hcc), hans⟩
    · rw [List.mem_singleton.mp he]
      exact ⟨rfl, if_neg hcc⟩

/-- `close` decides the calls of the parked receivers. -/
private theorem answered_close {c' : ChanId} {m : Chan V} {k : σ} (hsrc : sh.Sources)
    (hm : sh.chans[c']? = some m) (hidle : sh.status t.id = .idle)
    (hc : t.code.outcome c (sh.status t.id) = []) :
    TaskStep.Answered c sh t (t.finish
      ((sh.setChan c' { m with
          val := { m.val with closed := true, recvq := [], sendq := [] } }).record
        [.closed c' t.id m.val.recvq m.val.sendq])
      (m.val.recvq ++ m.val.sendq.map (·.taskId)) (.close c') k) := by
  -- the receivers are parked, each once, and the task that closes is none of them
  have hrecvq : ∀ r ∈ m.val.recvq, r ≠ t.id ∧ sh.status r = .queued (.recvq c') := by
    intro r hr
    have hst := queued_of_recvq hsrc hm hr
    refine ⟨?_, hst⟩
    rintro rfl
    rw [hidle] at hst
    cases hst
  have hnd : m.val.recvq.Nodup := (List.nodup_append.mp (hsrc.nodup_waiters hm)).1
  have hstep : ∀ es, es = [] ∨ es = [.returned t.id (.close c')] →
      AnswerStep c sh t.id [] [] (.closed c' t.id m.val.recvq m.val.sendq :: es) := by
    intro es hes
    by_cases hcc : c' = c
    · subst hcc
      refine .others rfl ?_ (fun x hx => ?_) hes
      · simpa [Event.decides, Function.comp_def] using hnd
      · obtain ⟨r, hr, rfl⟩ : ∃ r ∈ m.val.recvq, (r, none) = x := by
          simpa [Event.decides] using hx
        exact ⟨(hrecvq r hr).1, (hrecvq r hr).2, .drained, rfl, rfl, .inl ⟨hr, rfl⟩⟩
    · refine .still fun e he => ?_
      rcases List.mem_cons.mp he with rfl | he
      · exact ⟨if_neg hcc, rfl⟩
      · rcases hes with rfl | rfl
        · cases he
        · rw [List.mem_singleton.mp he]
          exact ⟨rfl, rfl⟩
  generalize m.val.recvq ++ m.val.sendq.map (·.taskId) = ids
  cases ids with
  | nil =>
    refine ⟨[.closed c' t.id m.val.recvq m.val.sendq, .returned t.id (.close c')], [],
      List.append_assoc _ _ _, ?_, fun _ u hu => ?_, by simp⟩
    · rw [hc]
      exact hstep _ (.inr rfl)
    · cases hu
      exact ⟨rfl, rfl⟩
  | cons id ids =>
    refine ⟨[_], [], rfl, ?_, fun _ u hu => ?_, by simp⟩
    · rw [hc]
      exact hstep _ (.inl rfl)
    · cases hu
      exact ⟨rfl, rfl⟩

/-- The last `goready` of a call, which then returns `ret`. -/
private theorem answered_wakeLast {id : TaskId} {ret : Ret V} {k : σ} {n : Notify}
    (hc : t.code = .wake [id] ret k) :
    TaskStep.Answered c sh t
      { sh := (sh.goready (.task t.id) id).1.record [.returned t.id ret]
        pc := .run (t.goto (.user k)), notify := n } := by
  obtain ⟨es, hl, hes⟩ := goready_ofWorker sh (.task t.id) id
  have hlog : ((sh.goready (.task t.id) id).1.record [.returned t.id ret]).log
      = sh.log ++ (es ++ [.returned t.id ret]) := by
    rw [Shared.record, hl, List.append_assoc]
  have hstill : ∀ ev ∈ es, ev.still c := fun ev hev => still_of_ofWorker (hes ev hev)
  have hdied : ∀ j, .died j ∉ es ++ [.returned t.id ret] := by
    intro j hj
    rcases List.mem_append.mp hj with hj | hj
    · cases hes _ hj
    · simp at hj
  -- only the return of a `recv` on `c` is an answer
  by_cases hret : ∃ o, ret = .recv c o
  · obtain ⟨o, rfl⟩ := hret
    refine ⟨_, [], hlog, ?_, fun _ u hu => ?_, fun j hj => absurd hj (hdied j)⟩
    · rw [hc, Code.outcome, if_pos rfl]
      exact .finish hstill
    · cases hu
      exact ⟨rfl, rfl⟩
  · refine answered_still _ hlog (fun ev hev => ?_) hdied ?_
    · rcases List.mem_append.mp hev with hev | hev
      · exact hstill ev hev
      · rw [List.mem_singleton.mp hev]
        cases ret <;> first | exact ⟨rfl, rfl⟩ | exact ⟨rfl, if_neg fun h => hret ⟨_, by rw [h]⟩⟩
    · rw [hc]
      cases ret <;> first | rfl | exact (if_neg fun h => hret ⟨_, by rw [h]⟩).symm

/-- The status of a task in a call of `recv` is about the channel of the call. -/
theorem outcome_ne {c' : ChanId} {k : Option V → σ} {h : Handler σ} {st : Status V}
    (hag : (Code.parked (.recv c' k h) : Code σ V).agrees st) (hc : c' ≠ c) :
    st.outcome c = [] := by
  obtain ⟨src, hw, hsrc⟩ := hag
  cases st with
  | released src' why =>
    cases hsrc
    cases src <;> first | rfl | cases hw
    exact if_neg hc
  | _ => rfl

/-- The section of a `send`, a `recv` or a `close`. -/
private theorem answered_channel (hU : P.Uncaught) (hs : TaskStep P ch free sh t e)
    (hk : P.kind t.code = .channel) (huncaught : t.code.uncaught = true) (hsrc : sh.Sources)
    (hag : t.code.agrees (sh.status t.id)) (c : ChanId) : TaskStep.Answered c sh t e := by
  have hquiet : ∀ {x : σ}, t.code = .user x → t.code.outcome c (sh.status t.id) = [] :=
    fun hc => by rw [hc]; rfl
  cases hs with
  -- nobody catches the panic, so no account is kept any more
  | chanPoisoned hs | chanClosed hs =>
    rw [hs.handler_none hU huncaught]
    exact answered_raise rfl
  | recvUnwrap hc hx =>
    rw [ChanCall.handler_none hU huncaught (.recv hc hx)]
    exact answered_raise rfl
  | @sendDelivered x c' data k h m r recvq hc hx hm hp hcl hq =>
    by_cases hcc : c' = c
    · subst hcc
      -- the receiver at the front is parked, so it is not the sender
      have hr := queued_of_recvq hsrc hm (show r ∈ m.val.recvq by simp [hq])
      rw [hc] at hag
      refine ⟨[_], [], rfl, ?_, fun _ u hu => ?_, by simp⟩
      · rw [hquiet hc]
        refine .others rfl (by simp [Event.decides]) (fun x hx => ?_) (.inl rfl)
        obtain rfl : x = (r, some data) := by simpa [Event.decides] using hx
        refine ⟨?_, hr, .delivered data, rfl, rfl, rfl, rfl⟩
        rintro rfl
        rw [show sh.status t.id = .idle from hag] at hr
        cases hr
      · cases hu
        exact ⟨rfl, rfl⟩
    · exact answered_still [_] rfl (by simp [Event.still, Event.decides, Event.answers, hcc])
        (by simp) (by rw [hc]; rfl)
  | sendBuffered hc | sendEnqueued hc =>
    exact answered_still _ rfl (by simp [Event.still, Event.decides, Event.answers]) (by simp)
      (by rw [hc]; rfl)
  | recvClosed hc | recvBuf hc => exact answered_direct (hquiet hc) rfl (if_pos rfl) rfl
  | recvTake hc | recvRefill hc => exact answered_take (hquiet hc) rfl (if_pos rfl) rfl
  | @recvEnqueued x c' k h m hc =>
    refine answered_still [_] rfl (by simp [Event.still, Event.decides, Event.answers]) (by simp) ?_
    rw [hc, Shared.status, Shared.record, statusOf_append]
    simp [Code.outcome, Event.update, Status.outcome]
  | close hc hx hm =>
    rw [hc] at hag
    exact answered_close hsrc hm hag (hquiet hc)
  | groupPanic hc hx =>
    rcases hx with ⟨d, hx⟩ | hx <;> cases (Program.kind_user hc hx).symm.trans hk
  | _ =>
    rw [‹t.code = _›] at hk
    first | cases hk | cases (congrArg Op.kind ‹P.code _ = _›).symm.trans hk

/-- The first step of another call, and the end of the closure: nothing is decided. -/
private theorem answered_call (hP : P.Basic) (hs : TaskStep P ch free sh t e)
    (hk : P.kind t.code = .call) (hag : t.code.agrees (sh.status t.id)) (c : ChanId) :
    TaskStep.Answered c sh t e := by
  have hop : ∀ {x op}, P.code x = op → op.basic = true := fun {x op} hx => hx ▸ hP x
  cases hs with
  | netFail _ hx | netAdd _ hx | ioSpawn _ _ hx | ioBlock _ _ hx | gopark _ hx | goready _ _ hx =>
    cases hop hx
  -- this panic may be caught, and is no matter of a channel
  | @sleepOverflow x d k h hc =>
    cases h with
    | none => exact answered_raise rfl
    | some f =>
      exact answered_still [_] rfl (by simp [Event.still, Event.decides, Event.answers]) (by simp)
        (by rw [hc]; rfl)
  | go hc | currentTaskId hc | sleep hc =>
    exact answered_still [] (by simp) (by simp) (by simp) (by rw [hc]; rfl)
  | gosched hc =>
    refine ⟨[], _, by simp, .still (by simp), fun _ u hu => ?_, by simp⟩
    cases hu
    rw [hc]
    exact ⟨rfl, rfl⟩
  | done hc =>
    refine ⟨[.died t.id], _, rfl, .still (by simp [Event.still, Event.decides, Event.answers]),
      fun _ u hu => ?_, fun j hj => ?_⟩
    · cases hu
      exact ⟨rfl, by rw [Task.withState_code, hc]; rfl⟩
    · obtain rfl : j = t.id := by simpa using hj
      rw [hc] at hag ⊢
      refine ⟨rfl, rfl, ?_⟩
      rw [← show sh.status t.id = .idle from hag]
      exact status_of_neutral [.died t.id] rfl (by simp [Event.neutral, Event.update]) _
  | chanPoisoned hs | chanClosed hs => rcases hs.kind with hc | hc <;> cases hc.symm.trans hk
  | groupPanic hc hx =>
    rcases hx with ⟨d, hx⟩ | hx <;> cases (Program.kind_user hc hx).symm.trans hk
  | _ =>
    rw [‹t.code = _›] at hk
    first | cases hk | cases (congrArg Op.kind ‹P.code _ = _›).symm.trans hk

/-- A later step of a call: only the last `goready` of a `recv` is followed by its return. -/
private theorem answered_inside (hs : TaskStep P ch free sh t e) (hk : P.kind t.code = .inside)
    (hbasic : t.code.basic = true) (c : ChanId) : TaskStep.Answered c sh t e := by
  cases hs with
  | registerRead h | unregister h | spawnWorker _ h | threadSpawn h | blocking h =>
    rw [h] at hbasic
    cases hbasic
  | entry hc | goPush _ hc | sleepPush hc =>
    exact answered_still [_] rfl (by simp [Event.still, Event.decides, Event.answers]) (by simp)
      (by rw [hc]; rfl)
  | @park p hc =>
    refine ⟨[], _, by simp, .still (by simp), fun _ u hu => ?_, by simp⟩
    cases hu
    rw [hc]
    exact ⟨rfl, by cases p <;> rfl⟩
  | wakeNil hc =>
    exact answered_still [] (by simp) (by simp) (by simp) (by rw [hc]; rfl)
  | @wakeMore id id' ids ret k _ hc =>
    obtain ⟨es, hl, hes⟩ := goready_ofWorker sh (.task t.id) id
    refine answered_still es hl (fun ev hev => still_of_ofWorker (hes ev hev)) (fun j hj => ?_) ?_
    · cases hes _ hj
    · rw [hc]
      cases ret <;> rfl
  | wakeLast _ hc => exact answered_wakeLast hc
  | chanPoisoned hs | chanClosed hs => rcases hs.kind with hc | hc <;> cases hc.symm.trans hk
  | groupPanic hc hx =>
    rcases hx with ⟨d, hx⟩ | hx <;> cases (Program.kind_user hc hx).symm.trans hk
  | _ =>
    rw [‹t.code = _›] at hk
    first | cases hk | cases (congrArg Op.kind ‹P.code _ = _›).symm.trans hk

/-- The step after `gopark`: a `recv` returns what its release has left for it. -/
private theorem answered_resume (hU : P.Uncaught) (hs : TaskStep P ch free sh t e)
    (hk : P.kind t.code = .resume) (hbasic : t.code.basic = true)
    (huncaught : t.code.uncaught = true) (hag : t.code.agrees (sh.status t.id))
    (hq : t.code.settles = true → (sh.status t.id).queue? = none) (hdel : sh.Delivers)
    (c : ChanId) : TaskStep.Answered c sh t e := by
  cases hs with
  | chanPoisoned hs | chanClosed hs =>
    rw [hs.handler_none hU huncaught]
    exact answered_raise rfl
  | resumeWait h | resumeNet h | resumeGopark h =>
    rw [h] at hbasic
    cases hbasic
  | resumeSleep hc | resumeSend hc =>
    exact answered_still [_] rfl (by simp [Event.still, Event.decides, Event.answers]) (by simp)
      (by rw [hc]; rfl)
  | @resumeRecv c' k h m hc hm =>
    by_cases hcc : c' = c
    · subst hcc
      refine ⟨[_], [], rfl, ?_, fun _ u hu => ?_, by simp⟩
      · -- what is collected is what the release has left
        rw [hdel c' m hm]
        have hq := hq (by rw [hc]; rfl)
        rw [hc] at hag ⊢
        obtain ⟨src, why, hw, hst⟩ := Code.released_of_parked hag hq
        cases src <;> cases hw
        have hout : (Code.parked (.recv c' k h) : Code σ V).outcome c' (sh.status t.id)
            = [(sh.status t.id).delivered? c'] := by
          rw [hst]
          show (if c' = c' then [why.answer] else []) = _
          cases why <;> simp [Why.answer, Status.delivered?]
        rw [hout]
        have hnone : ∀ ev ∈ ([] : List (Event V)), ev.still c' := by simp
        exact .finish hnone
      · cases hu
        exact ⟨rfl, rfl⟩
    · refine answered_still [_] rfl (by simp [Event.still, Event.decides, Event.answers, hcc])
        (by simp) ?_
      rw [hc] at hag ⊢
      exact (outcome_ne hag hcc).symm
  | groupPanic hc hx =>
    rcases hx with ⟨d, hx⟩ | hx <;> cases (Program.kind_user hc hx).symm.trans hk
  | _ =>
    rw [‹t.code = _›] at hk
    first | cases hk | cases (congrArg Op.kind ‹P.code _ = _›).symm.trans hk

/-- **The step of a task seen from the receivers of a channel.** -/
theorem TaskStep.answered (hP : P.Basic) (hU : P.Uncaught) (hs : TaskStep P ch free sh t e)
    (hbasic : t.code.basic = true) (huncaught : t.code.uncaught = true) (hsrc : sh.Sources)
    (hag : t.code.agrees (sh.status t.id))
    (hq : t.code.settles = true → (sh.status t.id).queue? = none) (hdel : sh.Delivers)
    (c : ChanId) : TaskStep.Answered c sh t e := by
  cases hk : P.kind t.code with
  | channel => exact answered_channel hU hs hk huncaught hsrc hag c
  | group => exact absurd hk (hP.kind_ne_group _)
  | call => exact answered_call hP hs hk hag c
  | inside => exact answered_inside hs hk hbasic c
  | resume => exact answered_resume hU hs hk hbasic huncaught hag hq hdel c

end Steps

/-! ### Runs

The account of the task that moves is in `TaskStep.answered`. For all the others the step is an
event that either leaves their calls alone, or decides the call they are parked in.
-/

/-- Decisions and returns of the calls of `recv` on `c`, in a state. -/
structure State.Answered (c : ChanId) (s : State σ V) : Prop where
  /-- What waits for a live task follows from the point of its code. -/
  fits : s.sh.aborted = none → ∀ t, s.Live t → shareOf t.id (decided c s.sh.log)
    = shareOf t.id (answered c s.sh.log) ++ t.code.outcome c (s.sh.status t.id)
  /-- At most one decision waits for a task, and only for a live one. -/
  alive : ∀ i, ∃ a, shareOf i (decided c s.sh.log) = shareOf i (answered c s.sh.log) ++ a ∧
    a.length ≤ 1 ∧ (a ≠ [] → .created i ∈ s.sh.log ∧ .died i ∉ s.sh.log)
  dead : ∀ i, .died i ∈ s.sh.log → s.sh.status i = .idle

section Runs

variable {P : Program σ V} {ch : Choice} {s s' : State σ V} {w : Nat} {pc : Pc σ V}
  {e : Effect σ V} {c : ChanId}

namespace State.Answered

variable (h : s.Answered c)
include h

/-- The step rule: the account of the worker's own task, and an `AnswerStep` for the others. -/
private theorem of_step (hP : P.Basic) (hr : (runtime P).Reachable s)
    (hw : s.workers[w]? = some pc) (hs : WorkerStep P ch (queueFree s.workers) s.sh pc e)
    (ha : s.sh.aborted = none) (hmove : WorkerMove s s' w pc e)
    (hown : ∀ t, pc = .run t → ∃ a, shareOf t.id (decided c s'.sh.log)
        = shareOf t.id (answered c s'.sh.log) ++ a ∧ a.length ≤ 1 ∧
      (s'.sh.aborted = none → ∀ u, e.pc.task? = some u →
        u.id = t.id ∧ u.code.outcome c (s'.sh.status t.id) = a) ∧
      (.died t.id ∈ s'.sh.log → a = [] ∧ s'.sh.status t.id = .idle))
    (hothers : ∀ i, (∀ t, pc = .run t → t.id ≠ i) → ∃ tid a a' es, i ≠ tid ∧
      s'.sh.log = s.sh.log ++ es ∧ AnswerStep c s.sh tid a a' es ∧ .died i ∉ es) :
    s'.Answered c := by
  have hd := reach_disciplined_basic hP hr
  have hsh := reach_shaped hr
  have hp := reach_placed hr
  have hwake := (hd.wakes hsh hp hw hP.structured hs (fun c m hm => reach_chanInv hr hm)
    ((reach_basic hP hr).freshPolls (.worker w ch) w ch pc rfl hw) ha).1
  rw [← hmove.sh] at hwake
  refine ⟨fun ha' t ht => ?_, fun i => ?_, fun i hi => ?_⟩
  · -- the live tasks: the worker's own, the others, and one that is created
    refine ht.worker (I := fun i code => code.agrees (s.sh.status i) ∧
        shareOf i (decided c s.sh.log)
          = shareOf i (answered c s.sh.log) ++ code.outcome c (s.sh.status i))
      (J := fun i code => shareOf i (decided c s'.sh.log)
        = shareOf i (answered c s'.sh.log) ++ code.outcome c (s'.sh.status i)) hsh hp hw hs hmove
      (fun t ht => ⟨hd.agree ha t ht, h.fits ha t ht⟩) (fun u hrun hu _ => ?_)
      (fun i code hi hc => ?_) fun i f hi hne _ => ?_
    · obtain ⟨t, rfl⟩ := hrun
      obtain ⟨a, hacc, -, hcode, -⟩ := hown t rfl
      obtain ⟨hid, hout⟩ := hcode ha' u hu
      rw [hid, hout, hacc]
    · obtain ⟨tid, a, a', es, hne, hl, hstep, -⟩ := hothers i hi
      have := hstep.fits hne hl (hwake.evolves hi) hc.1 hc.2
      rwa [← hl] at this
    · obtain ⟨tid, a, a', es, hne', hl, hstep, -⟩ := hothers i hne
      obtain ⟨hans, hdec | ⟨hq, -⟩⟩ := hstep.other hne'
      · obtain ⟨b, hacc, -, hb⟩ := h.alive i
        obtain rfl : b = [] := by
          by_contra hne
          exact hi (hb hne).1
        exact account_append hl hacc (by rw [hans, hdec]; rfl)
      · rw [hd.unborn i hi] at hq
        cases hq
  · by_cases hrun : ∃ t, pc = .run t ∧ t.id = i
    · obtain ⟨t, rfl, rfl⟩ := hrun
      obtain ⟨a, hacc, hlen, -, hdied⟩ := hown t rfl
      refine ⟨a, hacc, hlen, fun hne => ⟨?_, fun hmem => hne (hdied hmem).1⟩⟩
      obtain ⟨es, hl⟩ := hs.sched.log_append
      rw [hmove.sh, hl]
      exact List.mem_append_left _
        (created_of_worker hp hw rfl (hsh.workers _ (List.mem_of_getElem? hw)).run)
    · have hi : ∀ t, pc = .run t → t.id ≠ i := fun t ht hid => hrun ⟨t, ht, hid⟩
      obtain ⟨tid, a, a', es, hne, hl, hstep, hdied⟩ := hothers i hi
      obtain ⟨b, hacc, hlen, hb⟩ := h.alive i
      have hstays : ∀ j, j = i → .created j ∈ s.sh.log ∧ .died j ∉ s.sh.log →
          .created j ∈ s'.sh.log ∧ .died j ∉ s'.sh.log := by
        rintro j rfl ⟨hc, hd⟩
        rw [hl]
        refine ⟨List.mem_append_left _ hc, fun hmem => ?_⟩
        rcases List.mem_append.mp hmem with hmem | hmem
        · exact hd hmem
        · exact hdied hmem
      obtain ⟨hans, hdec | ⟨hq, why, hdec, -⟩⟩ := hstep.other hne
      · exact ⟨b, account_append hl hacc (by rw [hans, hdec, List.append_nil]; rfl), hlen,
          fun hne => hstays i rfl (hb hne)⟩
      · -- a parked receiver is decided: nothing was waiting for it
        obtain ⟨t, ht, rfl⟩ := hd.exists_live hsh hq
        refine ⟨[why.answer], ?_, le_rfl, fun _ => hstays _ rfl (not_died_of_live hsh hp ht)⟩
        have hag := hd.agree ha t ht
        have hfit := h.fits ha t ht
        rw [hq] at hag hfit
        refine account_append hl hfit ?_
        rw [hans, hdec]
        obtain ⟨k, hh, hc | hc⟩ := Code.recv_of_source? (c := c) hag rfl <;>
          simp [hc, Code.outcome, Status.outcome]
  · by_cases hrun : ∃ t, pc = .run t ∧ t.id = i
    · obtain ⟨t, rfl, rfl⟩ := hrun
      obtain ⟨a, -, -, -, hdied⟩ := hown t rfl
      exact (hdied hi).2
    · have hne : ∀ t, pc = .run t → t.id ≠ i := fun t ht hid => hrun ⟨t, ht, hid⟩
      obtain ⟨tid, a, a', es, -, hl, -, hdied⟩ := hothers i hne
      rw [hl] at hi
      have hidle := h.dead i ((List.mem_append.mp hi).resolve_right hdied)
      rcases hwake.evolves hne with hst | ⟨src, why, hst, -⟩
      · rw [hst, hidle]
      · rw [hidle] at hst
        cases hst

/-- **A step of a worker keeps the account.** -/
theorem worker (hP : P.Basic) (hU : P.Uncaught) (hr : (runtime P).Reachable s)
    (hw : s.workers[w]? = some pc) (hs : WorkerStep P ch (queueFree s.workers) s.sh pc e)
    (ha : s.sh.aborted = none) (hmove : WorkerMove s s' w pc e) : s'.Answered c := by
  have hd := reach_disciplined_basic hP hr
  have hsh := reach_shaped hr
  have hp := reach_placed hr
  have hmem := List.mem_of_getElem? hw
  rcases hs.task_or with ⟨t, rfl, htask⟩ | hpc
  · have hlive : s.Live t := .inr ⟨_, hmem, rfl, (hsh.workers _ hmem).run⟩
    obtain ⟨es, a, hl, hstep, hcode, hdied⟩ := htask.answered hP hU
      ((reach_basic hP hr).codes t (.inr ⟨_, hmem, rfl⟩))
      (reach_uncaught hU hr t (.inr ⟨_, hmem, rfl⟩)) hd.sources (hd.agree ha t hlive)
      (fun hc => hd.queue?_of_settles hsh hp hw rfl hc) (reach_delivered hP hU hr) c
    rw [← hmove.sh] at hl hcode
    refine h.of_step hP hr hw (.run htask) ha hmove ?_ fun i hi =>
      ⟨t.id, _, a, es, (hi t rfl).symm, hl, hstep, fun hmem => hi t rfl (hdied i hmem).1.symm⟩
    rintro u ⟨⟩
    refine ⟨a, ?_, ?_, hcode, fun hmem => ?_⟩
    · exact account_append hl (h.fits ha t hlive) hstep.own
    · exact hstep.length_le (Code.outcome_length _ _)
    · rw [hl] at hmem
      rcases List.mem_append.mp hmem with hmem | hmem
      · exact absurd hmem (not_died_of_live hsh hp hlive).2
      · rw [hmove.sh]
        exact (hdied _ hmem).2
  · obtain ⟨es, hl, hes⟩ := (hs.sameChans hpc).log
    rw [← hmove.sh] at hl
    exact h.of_step hP hr hw hs ha hmove (fun t ht => absurd ht (hpc t)) fun i _ =>
      ⟨i + 1, [], [], es, (Nat.lt_succ_self i).ne, hl,
        .still fun e he => still_of_ofWorker (hes e he), fun hmem => by cases hes _ hmem⟩

/-- The main thread and the environment keep the account. -/
theorem outer (hp : s.Placed) (ho : OuterStep s s') (hmove : OuterMove s s') :
    s'.Answered c := by
  obtain ⟨es, hl, hes, hdied⟩ : ∃ es, s'.sh.log = s.sh.log ++ es ∧
      (∀ e ∈ es, e.still c ∧ e.neutral) ∧ ∀ i, .died i ∉ es := by
    cases ho with
    | go hsh => exact ⟨[], by rw [hsh, List.append_nil], by simp, by simp⟩
    | push hsh =>
      exact ⟨[_], by rw [hsh]; rfl,
        by simp [Event.still, Event.decides, Event.answers, Event.neutral, Event.update], by simp⟩
    | same hsh => exact ⟨[], by rw [hsh.log, List.append_nil], by simp, by simp⟩
  have hdec : decided c s'.sh.log = decided c s.sh.log := by
    rw [hl]
    exact gather_quiet fun e he => (hes e he).1.1
  have hans : answered c s'.sh.log = answered c s.sh.log := by
    rw [hl]
    exact gather_quiet fun e he => (hes e he).1.2
  have hst := status_of_neutral es hl fun e he => (hes e he).2
  refine ⟨fun ha t ht => ?_, fun i => ?_, fun i hi => ?_⟩
  · refine ht.outer (I := fun i code => shareOf i (decided c s.sh.log)
        = shareOf i (answered c s.sh.log) ++ code.outcome c (s.sh.status i))
      (J := fun i code => shareOf i (decided c s'.sh.log)
        = shareOf i (answered c s'.sh.log) ++ code.outcome c (s'.sh.status i)) ho hmove
      (h.fits (ho.aborted.symm.trans ha)) (fun i code hc => by rw [hdec, hans, hst]; exact hc)
      fun i f hpc => ?_
    obtain ⟨a, hacc, -, ha⟩ := h.alive i
    obtain rfl : a = [] := by
      by_contra hne
      exact not_created_of_main hp hpc (ha hne).1
    rw [hdec, hans, hacc]
    rfl
  · obtain ⟨a, hacc, hlen, ha⟩ := h.alive i
    refine ⟨a, by rw [hdec, hans, hacc], hlen, fun hne => ?_⟩
    rw [hl]
    refine ⟨List.mem_append_left _ (ha hne).1, fun hmem => ?_⟩
    rcases List.mem_append.mp hmem with hmem | hmem
    · exact (ha hne).2 hmem
    · exact hdied i hmem
  · rw [hl] at hi
    rw [hst]
    exact h.dead i ((List.mem_append.mp hi).resolve_right (hdied i))

end State.Answered

end Runs

/-- **Each call of `recv` returns what was decided for it**, in every state reached by a program
    that uses `go`, `gosched`, `sleep` and channels and catches no panic. -/
theorem reach_answered {P : Program σ V} (hP : P.Basic) (hU : P.Uncaught)
    {ok : Act → State σ V → Prop} {s : State σ V} (hr : (runtime P).Reach ok s) (c : ChanId) :
    s.Answered c := by
  refine hr.invariant ?_ ?_
  · rintro s ⟨caps, groups, calls, rfl⟩
    refine ⟨fun _ t ht => ?_, fun i => ⟨[], rfl, by simp, fun h => absurd rfl h⟩,
      fun _ h => by cases h⟩
    rcases ht with (ht | ⟨i, ht⟩) | ⟨pc, hpc, -⟩
    · cases ht
    · simp [State.initial, GlobalQueue.new] at ht
    · cases hpc
  · intro s s' a hr h _ hn
    obtain ⟨ha, hn⟩ := next_inv hn
    rcases hn.cases with ⟨w, ch, pc, e, rfl, hw, hs, hmove⟩ | ⟨ho, hmove⟩
    · exact h.worker hP hU hr.reachable hw hs ha hmove
    · exact h.outer (reach_placed hr) ho hmove

end MyGoroutine
