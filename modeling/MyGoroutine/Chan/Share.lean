import MyGoroutine.Chan.Answer
import Mathlib.Data.List.ReduceOption

namespace MyGoroutine

/-!
# Which receiver gets which value

The values taken out of a channel are taken for particular receivers.  Each receiver returns the
values taken for it, in the order in which they were taken, one at a time.

* `Event.shares` — the values taken from a channel, with the receivers they were taken for;
* `receivedBy` — the values that a receiver has returned;
* `reach_received` — they are its share, except for one that it may still have to return.
-/

variable {σ V : Type}

/-- The value taken from the channel `c`, with its receiver. -/
def Event.shares (c : ChanId) : Event V → List (TaskId × V)
  | .sent c' _ data (.delivered r) => if c' = c then [(r, data)] else []
  | .received c' t (.fromSender _ data) => if c' = c then [(t, data)] else []
  | .received c' t (.fromBuf data) => if c' = c then [(t, data)] else []
  | _ => []

/-- The value that the task `i` returns from a `recv` on `c`. -/
def Event.yields (c : ChanId) (i : TaskId) : Event V → List V
  | .returned t (.recv c' o) => if c' = c ∧ t = i then o.toList else []
  | _ => []

/-- The values taken from the channel `c`, in order, with their receivers. -/
abbrev shared (c : ChanId) (log : List (Event V)) : List (TaskId × V) :=
  gather (Event.shares c) log

/-- The values that the task `i` has received from the channel `c`. -/
abbrev receivedBy (c : ChanId) (i : TaskId) (log : List (Event V)) : List V :=
  gather (Event.yields c i) log

section Values

variable {c : ChanId} {i : TaskId}

/-- The values taken are those taken for somebody. -/
theorem map_snd_shared (c : ChanId) (log : List (Event V)) :
    (shared c log).map (·.2) = matched c log := by
  induction log with
  | nil => rfl
  | cons e log ih =>
    show (e.shares c ++ shared c log).map (·.2) = e.matches c ++ matched c log
    rw [List.map_append, ih]
    congr 1
    cases e with
    | sent c' t d o | received c' t o =>
      cases o <;>
        first | rfl | (simp only [Event.shares, Event.matches]; split <;> rfl)
    | _ => rfl

/-- A call that has returned `None` adds no value to the share of its task. -/
theorem reduceOption_shareOf_single (i j : TaskId) (o : Option V) :
    (shareOf i [(j, o)]).reduceOption = if j = i then o.toList else [] := by
  by_cases hj : j = i
  · cases o <;> simp [shareOf, hj]
  · simp [shareOf, hj]

/-- The values taken for a receiver are the values among the decisions about its calls. -/
theorem shareOf_shared (c : ChanId) (i : TaskId) (log : List (Event V)) :
    shareOf i (shared c log) = (shareOf i (decided c log)).reduceOption := by
  induction log with
  | nil => rfl
  | cons e log ih =>
    simp only [gather_cons, shareOf_append, List.reduceOption_append, ih]
    congr 1
    -- an event that gives one value to one receiver
    have hone : ∀ {c' : ChanId} {j : TaskId} {d : V}, shareOf i (if c' = c then [(j, d)] else [])
        = (shareOf i (if c' = c then [(j, some d)] else [])).reduceOption := by
      intro c' j d
      by_cases hc : c' = c
      · rw [if_pos hc, if_pos hc, reduceOption_shareOf_single, shareOf_single]
        rfl
      · rw [if_neg hc, if_neg hc]
        rfl
    cases e with
    | sent c' t d o => cases o <;> first | rfl | exact hone
    | received c' t o =>
      cases o with
      | closed =>
        simp only [Event.shares, Event.decides]
        split
        · rw [reduceOption_shareOf_single]
          simp [shareOf]
        · rfl
      | fromSender w d => exact hone
      | fromBuf d => exact hone
      | enqueued => rfl
    | closed c' t rs ss =>
      simp only [Event.shares, Event.decides]
      split
      · -- `close` decides for its receivers, but gives them nothing
        symm
        apply List.eq_nil_iff_forall_not_mem.mpr
        intro v hv
        obtain ⟨x, hx, hxv⟩ := List.mem_map.mp (List.reduceOption_mem_iff.mp hv)
        obtain ⟨r, -, rfl⟩ := List.mem_map.mp (List.mem_filter.mp hx).1
        cases hxv
      · rfl
    | _ => rfl

/-- The values that a receiver has received are those that its calls have returned. -/
theorem receivedBy_eq (c : ChanId) (i : TaskId) (log : List (Event V)) :
    receivedBy c i log = (shareOf i (answered c log)).reduceOption := by
  induction log with
  | nil => rfl
  | cons e log ih =>
    simp only [gather_cons, shareOf_append, List.reduceOption_append, ih]
    congr 1
    cases e with
    | returned t r =>
      cases r with
      | recv c' o =>
        simp only [Event.yields, Event.answers]
        by_cases hc : c' = c
        · rw [if_pos hc, reduceOption_shareOf_single]
          exact if_congr (by simp [hc]) rfl rfl
        · rw [if_neg hc, if_neg fun h => hc h.1]
          rfl
      | _ => rfl
    | _ => rfl

end Values

/-- **What a receiver has returned is its share**, except for one value that it may still have to
    return, in every state reached by a program that uses `go`, `gosched`, `sleep` and channels and
    catches no panic. -/
theorem reach_received {P : Program σ V} (hP : P.Basic) (hU : P.Uncaught)
    {ok : Act → State σ V → Prop} {s : State σ V} (hr : (runtime P).Reach ok s) (c : ChanId)
    (i : TaskId) : ∃ f, receivedBy c i s.sh.log ++ f = shareOf i (shared c s.sh.log) ∧
      (f ≠ [] → .created i ∈ s.sh.log ∧ .died i ∉ s.sh.log) := by
  obtain ⟨a, hacc, -, ha⟩ := (reach_answered hP hU hr c).alive i
  refine ⟨a.reduceOption, ?_, fun hne => ha ?_⟩
  · rw [receivedBy_eq, shareOf_shared, hacc, List.reduceOption_append]
  · rintro rfl
    exact hne rfl

end MyGoroutine
