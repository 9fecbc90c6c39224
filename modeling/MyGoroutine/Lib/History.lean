import Mathlib.Data.List.DropRight

/-!
# Histories — the events since a marker, and laws about single events

A history is the list of the events of a run, the newest last.

* `History.since p l` — the events of `l` after the last one that satisfies `p`;
* `History.Each Q l` — every event of `l` satisfies `Q`, which sees the history before it;
* `History.queue_order` — what comes out of a queue after an element went in;
* `History.Passed` — what has come out of a queue between two moments, and `Passed.turn`, by which
  an element comes out when its turn is;
* `History.countP_le_countP` — causes that are not shared are at least as many as effects.
-/

namespace History

variable {α : Type*} {p q : α → Bool} {l es : List α} {e : α}

/-- The events of `l` after the last one that satisfies `p`. -/
def since (p : α → Bool) (l : List α) : List α := l.rtakeWhile (fun e => !p e)

@[simp] theorem since_nil (p : α → Bool) : since p [] = [] := List.rtakeWhile_nil _

/-- A marker starts the count afresh. -/
theorem since_concat_of_marker (l : List α) (h : p e = true) : since p (l ++ [e]) = [] :=
  List.rtakeWhile_concat_neg _ _ _ (by simp [h])

/-- Any other event is counted. -/
theorem since_concat (l : List α) (h : p e = false) : since p (l ++ [e]) = since p l ++ [e] :=
  List.rtakeWhile_concat_pos _ _ _ (by simp [h])

/-- Events that are no markers extend the current interval. -/
theorem since_append (l : List α) (h : ∀ e ∈ es, p e = false) :
    since p (l ++ es) = since p l ++ es := by
  induction es using List.reverseRecOn with
  | nil => simp
  | append_singleton es e ih =>
    rw [← List.append_assoc, since_concat _ (h e (by simp)),
      ih (fun e' he => h e' (List.mem_append_left _ he)), List.append_assoc]

/-- An event of the current interval was in the interval before, or is new. -/
theorem mem_since_append (h : e ∈ since p (l ++ es)) : e ∈ since p l ∨ e ∈ es := by
  induction es using List.reverseRecOn with
  | nil => exact .inl (by simpa using h)
  | append_singleton es x ih =>
    rw [← List.append_assoc] at h
    cases hx : p x with
    | true => rw [since_concat_of_marker _ hx] at h; cases h
    | false =>
      rw [since_concat _ hx, List.mem_append] at h
      rcases h with h | h
      · exact (ih h).imp_right fun h => List.mem_append_left _ h
      · exact .inr (List.mem_append_right _ h)

/-- What came since the last marker is the end of the history. -/
theorem since_suffix (p : α → Bool) (l : List α) : since p l <:+ l := List.rtakeWhile_suffix _ _

/-- An event since the last `p` is an event since the last `p` or `q`, or some `q` has
    happened after it. -/
theorem mem_since_or (h : e ∈ since p l) (he : q e = false) :
    e ∈ since (fun x => p x || q x) l ∨
      ∃ before m after, l = before ++ m :: after ∧ e ∈ before ∧ q m = true := by
  induction l using List.reverseRecOn with
  | nil => simp at h
  | append_singleton l x ih =>
    cases hp : p x with
    | true => rw [since_concat_of_marker l hp] at h; cases h
    | false =>
      rw [since_concat l hp] at h
      rcases List.mem_append.mp h with h | h
      · cases hq : q x with
        | true => exact .inr ⟨l, x, [], rfl, (since_suffix p l).mem h, hq⟩
        | false =>
          rw [since_concat l (by simp [hp, hq])]
          rcases ih h with h | ⟨before, m, after, rfl, hb, hm⟩
          · exact .inl (List.mem_append_left _ h)
          · exact .inr ⟨before, m, after ++ [x], by simp, hb, hm⟩
      · obtain rfl := List.mem_singleton.mp h
        rw [since_concat l (by simp [hp, he])]
        exact .inl (by simp)

/-- An event of a history that is not among its newest events splits the older ones. -/
theorem append_eq_of_not_mem {l es before after : List α} {e : α}
    (h : l ++ es = before ++ e :: after) (he : e ∉ es) :
    ∃ after', l = before ++ e :: after' ∧ after = after' ++ es := by
  rcases List.append_eq_append_iff.mp h with ⟨xs, -, hes⟩ | ⟨xs, hl, hes⟩
  · exact absurd (by rw [hes]; simp) he
  · cases xs with
    | nil =>
      rw [List.nil_append] at hes
      exact absurd (by rw [← hes]; simp) he
    | cons x xs =>
      obtain ⟨rfl, rfl⟩ := List.cons.inj hes
      exact ⟨xs, hl, rfl⟩

/-- **Order of a queue.**  What has come out and what is inside make up what was ahead of `a`, then
    `a`, then what came in later.  So up to `a` only what was ahead of it comes out, in order; when
    `a` has come out, all that was ahead of it has come out before; and from an empty queue `a` has
    come out. -/
theorem queue_order {a : α} {out inside ahead later : List α}
    (h : out ++ inside = ahead ++ a :: later) (ha : a ∉ ahead) :
    (a ∉ out → out <+: ahead) ∧ (a ∈ out → ahead ++ [a] <+: out) ∧ (inside = [] → a ∈ out) := by
  have hout : out <+: ahead ++ a :: later := ⟨inside, h⟩
  have ha' : ahead ++ [a] <+: ahead ++ a :: later := ⟨later, by simp⟩
  refine ⟨fun hno => ?_, fun hin => ?_, fun hempty => ?_⟩
  · rcases List.prefix_or_prefix_of_prefix hout ha' with hle | hle
    · rcases List.prefix_concat_iff.mp hle with heq | hle
      · exact absurd (by rw [heq]; simp) hno
      · exact hle
    · exact absurd (hle.subset (by simp)) hno
  · rcases List.prefix_or_prefix_of_prefix hout ha' with hle | hle
    · rcases List.prefix_concat_iff.mp hle with heq | hle
      · exact heq ▸ List.prefix_rfl
      · exact absurd (hle.subset hin) ha
    · exact hle
  · rw [hempty, List.append_nil] at h
    rw [h]
    simp

/-- From `inside` to `inside'` the queue has given out `out`; what came in came in at the end. -/
def Passed (inside out inside' : List α) : Prop := ∃ later, inside ++ later = out ++ inside'

/-- Nobody has passed. -/
theorem Passed.refl (inside : List α) : Passed inside [] inside := ⟨[], by simp⟩

/-- Somebody new enters at the back. -/
theorem Passed.push (inside : List α) (a : α) : Passed inside [] (inside ++ [a]) := ⟨[a], rfl⟩

/-- The one at the front leaves. -/
theorem Passed.pop (a : α) (inside : List α) : Passed (a :: inside) [a] inside := ⟨[], by simp⟩

/-- What has passed in two stretches has passed in order. -/
theorem Passed.trans {inside out mid out' inside' : List α} (h : Passed inside out mid)
    (h' : Passed mid out' inside') : Passed inside (out ++ out') inside' := by
  obtain ⟨later, hl⟩ := h
  obtain ⟨later', hl'⟩ := h'
  refine ⟨later ++ later', ?_⟩
  rw [← List.append_assoc, hl, List.append_assoc, hl', List.append_assoc]

/-- **An element comes out when its turn is**: behind `n` others it is the one to come out after
    `n`, and until then each one that comes out brings it one place forward. -/
theorem Passed.turn {inside out inside' : List α} {a : α} {n : Nat} (h : Passed inside out inside')
    (ha : inside[n]? = some a) :
    if n < out.length then out[n]? = some a else inside'[n - out.length]? = some a := by
  obtain ⟨later, hl⟩ := h
  have hall : (out ++ inside')[n]? = some a := by
    rw [← hl, List.getElem?_append_left (List.getElem?_eq_some_iff.mp ha).1, ha]
  split
  · rwa [List.getElem?_append_left ‹_›] at hall
  · rwa [List.getElem?_append_right (Nat.not_lt.mp ‹_›)] at hall

/-- Every event satisfies `Q`, given the history before it. -/
def Each (Q : List α → α → Prop) (l : List α) : Prop :=
  ∀ before e after, l = before ++ e :: after → Q before e

/-- The empty history is lawful. -/
theorem Each.nil (Q : List α → α → Prop) : Each Q [] := by
  intro before e after h
  simp at h

/-- **Extension rule.**  A law about single events is checked event by event. -/
theorem Each.concat {Q : List α → α → Prop} (h : Each Q l) (he : Q l e) : Each Q (l ++ [e]) := by
  intro before x after hl
  rcases List.eq_nil_or_concat after with rfl | ⟨after, y, rfl⟩
  · obtain ⟨rfl, hx⟩ := List.append_inj' hl rfl
    obtain rfl : e = x := by simpa using hx
    exact he
  · rw [List.concat_eq_append, ← List.cons_append, ← List.append_assoc] at hl
    obtain ⟨hl, -⟩ := List.append_inj' hl rfl
    exact h before x after hl

/-- Events that satisfy `Q` whatever came before extend a lawful history. -/
theorem Each.append {Q : List α → α → Prop} (h : Each Q l) (hes : ∀ l, ∀ e ∈ es, Q l e) :
    Each Q (l ++ es) := by
  induction es using List.reverseRecOn with
  | nil => simpa using h
  | append_singleton es e ih =>
    rw [← List.append_assoc]
    exact (ih fun l e' he => hes l e' (List.mem_append_left _ he)).concat (hes _ e (by simp))

/-- A beginning of a lawful history is lawful. -/
theorem Each.init {Q : List α → α → Prop} (h : Each Q (l ++ es)) : Each Q l := by
  intro before e after hl
  exact h before e (after ++ es) (by simp [hl])

/-- **Counting rule.**  When every `p` has some `q` since the `p` before it, no `q` accounts
    for two of them: there are at most as many `p` as `q`, one fewer while a `q` is unused. -/
theorem countP_le_countP (hpq : ∀ e, q e = true → p e = false)
    (h : Each (fun before e => p e = true → (since p before).any q = true) l) :
    l.countP p + (if (since p l).any q then 1 else 0) ≤ l.countP q := by
  induction l using List.reverseRecOn with
  | nil => simp
  | append_singleton l e ih =>
    have ih := ih h.init
    simp only [List.countP_append, List.countP_singleton]
    cases hp : p e with
    | true =>
      have hany := h l e [] rfl hp
      have hq : q e = false := by
        cases hq : q e with
        | false => rfl
        | true => rw [hpq e hq] at hp; cases hp
      simp only [hany, if_true] at ih
      simp only [since_concat_of_marker l hp, List.any_nil, hq, Bool.false_eq_true, if_true,
        if_false]
      omega
    | false =>
      cases hq : q e <;> simp [since_concat l hp, hq] at ih ⊢ <;> omega

end History
