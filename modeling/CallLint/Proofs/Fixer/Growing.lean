import CallLint.Proofs.Fix.Regrouping
import CallLint.Proofs.Fixer.Greedy

/-!
# A plan that grows

A fixer merges the plans of all accepted fixes anew for each fix that it tries. It might as well
keep one plan and let it grow: plans can be merged in any groups, so the plan of all accepted fixes
and one more is that of the kept plan and one more.

* `Fixer.grow`: a pass over fixes that keeps one plan.
* `Fixer.grow_eq_accept`: it accepts and drops the same fixes, for the same reasons.
* `Fixer.applyTo_eq_record_grow`: the plan that has grown is the one that is applied.
* `Fixer.merging_regroups`: the laws of merging, and what they mean for the fixer.
-/

namespace CallLint.Fixer

/-- Goes through fixes with one plan: each fix whose plan can be applied together with it makes it
grow. The list holds the others, with the reasons. -/
def grow (source : String) (grown : FixPlan) : List Fix → FixPlan × List (Fix × EditError)
  | [] => (grown, [])
  | fix :: rest =>
    match (FixPlan.merge [grown, fix.plan]).validate source with
    | .ok () => grow source (FixPlan.merge [grown, fix.plan]) rest
    | .error cause =>
      let (all, rejected) := grow source grown rest
      (all, (fix, cause) :: rejected)

/-- The plan of some fixes. -/
def planOf (fixes : List Fix) : FixPlan := FixPlan.merge (fixes.map (·.plan))

/-- The plan of one more fix is that of the others, grown by its plan. -/
theorem planOf_concat (fixes : List Fix) (fix : Fix) :
    planOf (fixes ++ [fix]) = FixPlan.merge [planOf fixes, fix.plan] := by
  rw [planOf, List.map_append, List.map_singleton, FixPlan.merge_concat]
  rfl

/-- The plan that is kept is that of the accepted fixes, from the first fix to the last. -/
theorem grow_eq_accept (source : String) (before queue : List Fix) :
    grow source (planOf before) queue =
      (planOf (accept source before queue).1, (accept source before queue).2) := by
  -- along the queue, with `planOf before` as what both passes have so far
  induction queue generalizing before with
  | nil => rfl
  | cons fix rest ih =>
    rcases together_or_error source (before ++ [fix]) with h | ⟨cause, h⟩
    · -- it joins, and the plan grows
      have hplan : (FixPlan.merge [planOf before, fix.plan]).validate source = .ok () := by
        rw [← planOf_concat]
        exact h
      rw [accept_cons_of_together rest h, grow, hplan, ← planOf_concat]
      exact ih (before ++ [fix])
    · -- it is dropped for the same reason
      have hplan : (FixPlan.merge [planOf before, fix.plan]).validate source = .error cause := by
        rw [← planOf_concat]
        exact h
      rw [accept_cons_of_error rest h, grow, hplan]
      simp only [ih before]

/-- What is written for a file is what the plan writes that has grown. -/
theorem applyTo_eq_record_grow {f : Fixer} (hmode : f.mode ≠ .showOnly) (file : Path)
    (source : String) (fixes : List Fix) (o : FixOutcome) :
    ∃ new, (grow source .empty (f.queue fixes)).1.apply source = .ok new ∧
      f.applyTo file source fixes o =
        f.record file source new (f.accepted source fixes) (f.sortedOut file source fixes o) := by
  have hgrow : grow source .empty (f.queue fixes) = _ := grow_eq_accept source [] (f.queue fixes)
  rw [hgrow]
  exact applyTo_eq_record hmode file source fixes o

/-- Plans may be merged in any groups, groups without members included, and the empty plan changes
nothing wherever it stands. So a fixer that keeps one plan and lets it grow has the plan of the
accepted fixes at the end, drops the same fixes for the same reasons, and writes the same text. -/
theorem merging_regroups :
    (∀ groups : List (List FixPlan),
        FixPlan.merge (groups.map FixPlan.merge) = FixPlan.merge groups.flatten) ∧
      (∀ before after : List FixPlan,
        FixPlan.merge (before ++ .empty :: after) = FixPlan.merge (before ++ after)) ∧
      (∀ (f : Fixer) (source : String) (fixes : List Fix),
        grow source .empty (f.queue fixes) =
          (FixPlan.merge ((f.accepted source fixes).map (·.plan)), f.dropped source fixes)) ∧
      ∀ (f : Fixer) (file : Path) (source : String) (fixes : List Fix) (o : FixOutcome),
        f.mode ≠ .showOnly →
        ∃ new, (grow source .empty (f.queue fixes)).1.apply source = .ok new ∧
          f.applyTo file source fixes o =
            f.record file source new (f.accepted source fixes)
              (f.sortedOut file source fixes o) := by
  refine ⟨FixPlan.merge_flatten, FixPlan.merge_insert_empty, ?_, ?_⟩
  · intro f source fixes
    exact grow_eq_accept source [] (f.queue fixes)
  · intro f file source fixes o hmode
    exact applyTo_eq_record_grow hmode file source fixes o

/-- The fixes of a variable, of a call and of a part of that call. What is written is what the plan
writes that has grown from them, in the order of the queue. -/
theorem merging_regroups_nested :
    empty.mode ≠ .showOnly ∧
    ∃ new, (grow "x = round(a,b);;" .empty [replacement ⟨0, 1⟩ "z", replacement ⟨4, 16⟩ "b",
        replacement ⟨10, 11⟩ "c"]).1.apply "x = round(a,b);;" = .ok new ∧
      empty.applyTo ⟨"A.java"⟩ "x = round(a,b);;"
          [replacement ⟨4, 16⟩ "b", replacement ⟨10, 11⟩ "c", replacement ⟨0, 1⟩ "z"] .empty =
        empty.record ⟨"A.java"⟩ "x = round(a,b);;" new
          (empty.accepted "x = round(a,b);;"
            [replacement ⟨4, 16⟩ "b", replacement ⟨10, 11⟩ "c", replacement ⟨0, 1⟩ "z"])
          (empty.sortedOut ⟨"A.java"⟩ "x = round(a,b);;"
            [replacement ⟨4, 16⟩ "b", replacement ⟨10, 11⟩ "c", replacement ⟨0, 1⟩ "z"]
            .empty) := by
  have hmode : empty.mode ≠ .showOnly := by decide
  have hwritten := merging_regroups.2.2.2 empty ⟨"A.java"⟩ "x = round(a,b);;"
    [replacement ⟨4, 16⟩ "b", replacement ⟨10, 11⟩ "c", replacement ⟨0, 1⟩ "z"] .empty hmode
  rw [queue_replacements] at hwritten
  exact ⟨hmode, hwritten⟩

end CallLint.Fixer
