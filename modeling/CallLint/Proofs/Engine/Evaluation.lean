import CallLint.Engine

/-!
# One evaluation

When a rule finds something at a call: its screen matches, what it says is no empty error, and its
fix can be applied to the source.

* `Rule.check_eq_some_iff`, `Engine.vet_eq_ok_iff`: the two halves.
* `Engine.evaluate_eq_some_iff`: when there is a finding, and which.
-/

namespace CallLint

/-- A rule finds something where its screen matches and what it examines comes to that. -/
theorem Rule.check_eq_some_iff {r : Rule} {call : Expr} {env : Environment} {d : Diagnostic} :
    r.check call env = .ok (some d) ↔
      r.screen.accepts call env = true ∧ r.examine call env = .ok d := by
  unfold Rule.check
  split
  · next hscreen => cases r.examine call env <;> simp [hscreen, Except.map]
  · next hscreen => simp [hscreen]

namespace Engine

/-- Whether a finding says something, and its fix, if any, can be applied to a source. -/
structure Sound (source : String) (d : Diagnostic) : Prop where
  speaks : d.isSilent = false
  fixes : ∀ plan, d.fix = some plan → plan.validate source = .ok ()

/-- A sound finding is let through as it is, and no other one is. -/
theorem vet_eq_ok_iff {r : Rule} {source : String} {d d' : Diagnostic} :
    vet r source d = .ok d' ↔ Sound source d ∧ d = d' := by
  unfold vet
  cases hsilent : d.isSilent with
  | true =>
    -- an empty error is refused whatever its fix
    have hvalid : d.validate = .error (.silent d.rule d.span) := if_pos hsilent
    rw [hvalid]
    simp only [bind, Except.bind, reduceCtorEq, false_iff]
    intro h
    rw [h.1.speaks] at hsilent
    cases hsilent
  | false =>
    have hvalid : d.validate = .ok () := if_neg (by simp [hsilent])
    rw [hvalid]
    simp only [bind, Except.bind]
    -- what is said is fine, so all depends on the fix
    cases hfix : d.fix with
    | none =>
      have hsound : Sound source d :=
        ⟨hsilent, fun plan hplan => by rw [hfix] at hplan; cases hplan⟩
      simp [pure, Except.pure, hsound]
    | some plan =>
      cases hplan : plan.validate source with
      | ok =>
        have hsound : Sound source d := by
          refine ⟨hsilent, fun p hp => ?_⟩
          rw [hfix, Option.some_inj] at hp
          rw [← hp]
          exact hplan
        simp [hplan, pure, Except.pure, hsound]
      | error cause =>
        have hunsound : ¬ Sound source d := by
          intro h
          have hvalid := h.fixes plan hfix
          rw [hplan] at hvalid
          cases hvalid
        simp [hplan, throw, throwThe, MonadExceptOf.throw, hunsound]

/-- An evaluation finds something if the rule does and what it finds is sound with the severity that
is configured. -/
theorem evaluate_eq_some_iff {e : Engine} {r : Rule} {call : Expr} {env : Environment}
    {d : Diagnostic} :
    e.evaluate r call env = .ok (some d) ↔
      ∃ found, r.check call env = .ok (some found) ∧ e.adjust r found = d ∧ Sound env.source d := by
  unfold evaluate
  cases hcheck : r.check call env with
  | error cause => simp [bind, Except.bind]
  | ok answer =>
    cases answer with
    | none => simp [bind, Except.bind, pure, Except.pure]
    | some found =>
      simp only [bind, Except.bind, Except.ok.injEq, Option.some.injEq, exists_eq_left']
      cases hvet : vet r env.source (e.adjust r found) with
      | error cause =>
        -- a finding that is refused is not sound
        simp only [reduceCtorEq, false_iff]
        rintro ⟨rfl, hsound⟩
        rw [vet_eq_ok_iff.2 ⟨hsound, rfl⟩] at hvet
        cases hvet
      | ok d' =>
        rcases vet_eq_ok_iff.1 hvet with ⟨hsound, rfl⟩
        simp only [pure, Except.pure, Except.ok.injEq, Option.some.injEq]
        exact ⟨fun h => ⟨h, h ▸ hsound⟩, fun h => h.1⟩

end Engine

end CallLint
