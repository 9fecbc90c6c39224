import MyGoroutine.Step.Sched

namespace MyGoroutine

/-!
# Runs and their histories

A run only adds to the history, so an event of the history at its end was recorded by one step.

* `next_log`, `run_log` — the history only grows;
* `passes_log`, `passes_reach` — a step that a run takes, and its place in the history;
* `passes_of_log` — the step that recorded a given event.
-/

variable {σ V : Type} {P : Program σ V} {a : Act} {as : List Act} {s s' s₁ s₂ : State σ V}

/-- The history only grows. -/
theorem next_log (hn : (runtime P).next a s = some s') : ∃ es, s'.sh.log = s.sh.log ++ es := by
  rcases (next_inv hn).2.cases with ⟨w, ch, pc, e, -, -, hs, hmove⟩ | ⟨ho, -⟩
  · rw [hmove.sh]
    exact hs.sched.log_append
  · cases ho with
    | go hsh => exact ⟨[], by rw [hsh, List.append_nil]⟩
    | push hsh => exact ⟨_, by rw [hsh]; rfl⟩
    | same hsh => exact ⟨[], by rw [hsh.log, List.append_nil]⟩

/-- A run only adds to the history. -/
theorem run_log (hrun : (runtime P).run as s = some s') : ∃ es, s'.sh.log = s.sh.log ++ es := by
  have hgrow : ∀ a t t', (runtime P).next a t = some t' →
      (∃ es, t.sh.log = s.sh.log ++ es) → ∃ es, t'.sh.log = s.sh.log ++ es := by
    rintro a t t' hn ⟨rest, hl⟩
    obtain ⟨es, hes⟩ := next_log hn
    exact ⟨rest ++ es, by rw [hes, hl, List.append_assoc]⟩
  exact System.run_invariant hgrow hrun ⟨[], by simp⟩

/-- In a run the history before a step it takes is a prefix of the history at the end. -/
theorem passes_log (h : (runtime P).Passes as s s' s₁ a s₂) :
    ∃ es rest, s₂.sh.log = s₁.sh.log ++ es ∧ s'.sh.log = s₂.sh.log ++ rest := by
  obtain ⟨before, after, -, -, hn, hrun⟩ := h
  obtain ⟨es, hes⟩ := next_log hn
  obtain ⟨rest, hrest⟩ := run_log hrun
  exact ⟨es, rest, hes, hrest⟩

/-- A step that a run takes is a step between reachable states. -/
theorem passes_reach (h : (runtime P).Passes as s s' s₁ a s₂) (h0 : (runtime P).init s) :
    (runtime P).Reachable s₁ ∧ (runtime P).next a s₁ = some s₂ := by
  obtain ⟨before, after, -, hb, hn, -⟩ := h
  exact ⟨System.run_reachable h0 hb, hn⟩

/-- **The step that recorded an event.** -/
theorem passes_of_log {before after : List (Event V)} {ev : Event V} (h0 : (runtime P).init s)
    (hrun : (runtime P).run as s = some s') (hl : s'.sh.log = before ++ ev :: after) :
    ∃ s₁ a s₂ es es' rest, (runtime P).Passes as s s' s₁ a s₂ ∧ before = s₁.sh.log ++ es ∧
      s₂.sh.log = s₁.sh.log ++ (es ++ ev :: es') ∧ after = es' ++ rest := by
  -- the step in which the history grows beyond `before`
  obtain ⟨s₁, a, s₂, hpass, h1, h2⟩ := System.run_crossing
    (p := fun t => before.length < t.sh.log.length) hrun
    (by obtain ⟨caps, groups, calls, rfl⟩ := h0; simp [State.initial])
    (by rw [hl, List.length_append, List.length_cons]; omega)
  obtain ⟨es₀, rest, hes, hrest⟩ := passes_log hpass
  have hpre : before ++ [ev] <+: s₂.sh.log := by
    refine List.prefix_of_prefix_length_le ⟨after, ?_⟩ ⟨rest, hrest.symm⟩ ?_
    · rw [hl, List.append_assoc]
      rfl
    · rw [List.length_append, List.length_singleton]
      omega
  have hold : s₁.sh.log <+: before := by
    refine List.prefix_of_prefix_length_le ⟨es₀, hes.symm⟩
      ((List.prefix_append _ _).trans hpre) (Nat.not_lt.mp h1)
  obtain ⟨es, rfl⟩ := hold
  obtain ⟨es', hes'⟩ := hpre
  have hlog : s₂.sh.log = s₁.sh.log ++ (es ++ ev :: es') := by
    rw [← hes']
    simp
  refine ⟨s₁, a, s₂, es, es', rest, hpass, rfl, hlog, ?_⟩
  rw [hrest, hlog] at hl
  simpa using hl.symm

end MyGoroutine
