import CallLint.Fixer.Basic
import CallLint.Proofs.Fix.Merging

/-!
# Greedy acceptance

The fixes of a file are gone through in order, and each one joins those accepted before if all of
them together can be applied. Because that is a question about pairs, the result is as good as it
looks: what is accepted can be applied, no dropped fix could join it later, and no fix is dropped
that agrees with all before it.

* `together_accept`: what one pass accepts can be applied together.
* `not_together_of_dropped`: a dropped fix does not go together with all that is accepted in the
  end.
* `accept_eq_of_agrees`: a fix that agrees with each fix before it is accepted.
* `greedy_acceptance`: all of it, for the fixes of a file.
-/

namespace CallLint.Fixer

/-- Whether fixes can be applied to a source as one plan. -/
def together (source : String) (fixes : List Fix) : Prop :=
  (FixPlan.merge (fixes.map (·.plan))).validate source = .ok ()

/-- The fixes of a file that are accepted, in order. -/
def accepted (f : Fixer) (source : String) (fixes : List Fix) : List Fix :=
  (accept source [] (f.queue fixes)).1

/-- The applicable fixes of a file that are dropped, with the reasons. -/
def dropped (f : Fixer) (source : String) (fixes : List Fix) : List (Fix × EditError) :=
  (accept source [] (f.queue fixes)).2

/-- How a dropped fix is reported. -/
def rejection (file : Path) (r : Fix × EditError) : FixFailure :=
  .rejected file r.1.location.line r.1.rule r.2

/-- An outcome after the fixes of a file have been sorted out: some are skipped, some are
dropped. -/
def sortedOut (f : Fixer) (file : Path) (source : String) (fixes : List Fix) (o : FixOutcome) :
    FixOutcome :=
  { o with skipped := o.skipped + (fixes.length - (f.queue fixes).length) }.countFailed
    (f.dropped source fixes).length ((f.dropped source fixes).map (rejection file))

@[simp] theorem together_nil (source : String) : together source [] := by
  rw [together, List.map_nil, FixPlan.validate_merge_eq_ok_iff]
  simp

/-- Fixes that go together do so without some of them. -/
theorem together_of_sublist {source : String} {fixes more : List Fix} (h : together source more)
    (hsub : fixes.Sublist more) : together source fixes :=
  FixPlan.validate_merge_of_sublist h (hsub.map _)

/-- Fixes that go together, and one more that is valid and agrees with each of them. -/
theorem together_append_singleton {source : String} {fixes : List Fix} {fix : Fix}
    (h : together source fixes) (hfix : fix.plan.validate source = .ok ())
    (hpairs : ∀ g ∈ fixes, FixPlan.agrees source.toList g.plan fix.plan) :
    together source (fixes ++ [fix]) := by
  rw [together, FixPlan.validate_merge_eq_ok_iff] at h ⊢
  rw [List.map_append, List.pairwise_append]
  refine ⟨?_, h.2, by simp, ?_⟩
  · -- each plan is valid on its own
    intro p hp
    rcases List.mem_append.1 hp with hp | hp
    · exact h.1 p hp
    · rw [List.map_singleton, List.mem_singleton] at hp
      rw [hp]
      exact hfix
  · -- each pair that is new agrees
    intro p hp q hq
    rcases List.mem_map.1 hp with ⟨g, hg, rfl⟩
    rw [List.map_singleton, List.mem_singleton] at hq
    rw [hq]
    exact hpairs g hg

/-! ## Steps of the pass -/

/-- A fix that goes together with those accepted before joins them. -/
theorem accept_cons_of_together {source : String} {before : List Fix} {fix : Fix} (rest : List Fix)
    (h : together source (before ++ [fix])) :
    accept source before (fix :: rest) = accept source (before ++ [fix]) rest := by
  rw [together] at h
  rw [accept, h]

/-- A fix that does not is dropped, with the reason. -/
theorem accept_cons_of_error {source : String} {before : List Fix} {fix : Fix} {cause : EditError}
    (rest : List Fix)
    (h : (FixPlan.merge ((before ++ [fix]).map (·.plan))).validate source = .error cause) :
    accept source before (fix :: rest) =
      ((accept source before rest).1, (fix, cause) :: (accept source before rest).2) := by
  rw [accept, h]

/-- There are no other steps. -/
theorem together_or_error (source : String) (fixes : List Fix) :
    together source fixes ∨
      ∃ cause, (FixPlan.merge (fixes.map (·.plan))).validate source = .error cause := by
  rw [together]
  cases (FixPlan.merge (fixes.map (·.plan))).validate source with
  | ok _ => exact .inl rfl
  | error cause => exact .inr ⟨cause, rfl⟩

/-! ## The whole pass -/

/-- What has been accepted stays accepted, in front of what joins it later. -/
theorem prefix_accept (source : String) (before queue : List Fix) :
    before <+: (accept source before queue).1 := by
  induction queue generalizing before with
  | nil => exact List.prefix_rfl
  | cons fix rest ih =>
    rcases together_or_error source (before ++ [fix]) with h | ⟨cause, h⟩
    · rw [accept_cons_of_together rest h]
      exact (List.prefix_append before [fix]).trans (ih (before ++ [fix]))
    · rw [accept_cons_of_error rest h]
      exact ih before

/-- What a pass accepts can be applied together. -/
theorem together_accept {source : String} {before : List Fix} (queue : List Fix)
    (h : together source before) : together source (accept source before queue).1 := by
  -- a step either keeps what is accepted or adds a fix after having checked it
  induction queue generalizing before with
  | nil => exact h
  | cons fix rest ih =>
    rcases together_or_error source (before ++ [fix]) with hfix | ⟨cause, hfix⟩
    · rw [accept_cons_of_together rest hfix]
      exact ih hfix
    · rw [accept_cons_of_error rest hfix]
      exact ih h

/-- Every fix of the queue is accepted or dropped, and none is both or twice. -/
theorem accept_perm (source : String) (before queue : List Fix) :
    ((accept source before queue).1 ++ (accept source before queue).2.map (·.1)).Perm
      (before ++ queue) := by
  induction queue generalizing before with
  | nil => simp [accept]
  | cons fix rest ih =>
    rcases together_or_error source (before ++ [fix]) with h | ⟨cause, h⟩
    · rw [accept_cons_of_together rest h]
      simpa using ih (before ++ [fix])
    · rw [accept_cons_of_error rest h]
      -- the dropped fix goes to the front on both sides
      calc (accept source before rest).1 ++ fix :: (accept source before rest).2.map (·.1)
          |>.Perm (fix :: ((accept source before rest).1 ++
            (accept source before rest).2.map (·.1))) := List.perm_middle
        _ |>.Perm (fix :: (before ++ rest)) := (ih before).cons fix
        _ |>.Perm (before ++ fix :: rest) := List.perm_middle.symm

/-- A pass over a queue in two parts goes on from what the first part has left. -/
theorem accept_append (source : String) (before queue more : List Fix) :
    (accept source before (queue ++ more)).1 =
      (accept source (accept source before queue).1 more).1 := by
  induction queue generalizing before with
  | nil => rfl
  | cons fix rest ih =>
    rcases together_or_error source (before ++ [fix]) with h | ⟨cause, h⟩
    · rw [List.cons_append, accept_cons_of_together _ h, accept_cons_of_together _ h, ih]
    · rw [List.cons_append, accept_cons_of_error _ h, accept_cons_of_error _ h, ih]

/-- Fixes that all go together are all accepted. -/
theorem accept_of_together {source : String} {before queue : List Fix}
    (h : together source (before ++ queue)) :
    accept source before queue = (before ++ queue, []) := by
  induction queue generalizing before with
  | nil => rw [accept, List.append_nil]
  | cons fix rest ih =>
    rw [List.append_cons] at h ⊢
    have hfix : together source (before ++ [fix]) :=
      together_of_sublist h (List.sublist_append_left _ _)
    rw [accept_cons_of_together rest hfix, ih h]

/-- Where no fix is dropped, all are accepted. -/
theorem accepted_of_dropped_eq_nil {source : String} {before queue : List Fix}
    (h : (accept source before queue).2 = []) :
    (accept source before queue).1 = before ++ queue := by
  induction queue generalizing before with
  | nil => rw [accept, List.append_nil]
  | cons fix rest ih =>
    rcases together_or_error source (before ++ [fix]) with hfix | ⟨cause, hfix⟩
    · rw [accept_cons_of_together rest hfix] at h ⊢
      rw [ih h, List.append_cons before fix rest]
    · rw [accept_cons_of_error rest hfix] at h
      cases h

/-- A dropped fix does not go together with all that is accepted in the end: it did not go together
with a first part of it. -/
theorem not_together_of_dropped {source : String} {before queue : List Fix} {r : Fix × EditError}
    (hr : r ∈ (accept source before queue).2) :
    ¬ together source ((accept source before queue).1 ++ [r.1]) := by
  induction queue generalizing before with
  | nil => simp [accept] at hr
  | cons fix rest ih =>
    rcases together_or_error source (before ++ [fix]) with h | ⟨cause, h⟩
    · rw [accept_cons_of_together rest h] at hr ⊢
      exact ih hr
    · rw [accept_cons_of_error rest h] at hr ⊢
      rcases List.mem_cons.1 hr with rfl | hr
      · -- what was accepted when the fix was dropped is still accepted in the end
        intro hall
        have hpart := together_of_sublist hall
          (List.Sublist.append (prefix_accept source before rest).sublist (List.Sublist.refl [fix]))
        rw [together, h] at hpart
        cases hpart
      · exact ih hr

/-- A fix that is valid and agrees with each fix before it in the queue is accepted when its turn
comes. -/
theorem accept_eq_of_agrees {source : String} {queue : List Fix} {fix : Fix}
    (hfix : fix.plan.validate source = .ok ())
    (hpairs : ∀ g ∈ queue, FixPlan.agrees source.toList g.plan fix.plan) (more : List Fix) :
    (accept source [] (queue ++ fix :: more)).1 =
      (accept source ((accept source [] queue).1 ++ [fix]) more).1 := by
  have hmem : ∀ g ∈ (accept source [] queue).1, g ∈ queue := by
    intro g hg
    have hperm := (accept_perm source [] queue).mem_iff (a := g)
    rw [List.nil_append] at hperm
    exact hperm.1 (List.mem_append_left _ hg)
  have hjoin : together source ((accept source [] queue).1 ++ [fix]) :=
    together_append_singleton (together_accept queue (together_nil source)) hfix
      fun g hg => hpairs g (hmem g hg)
  rw [accept_append, accept_cons_of_together more hjoin]

/-! ## The fixes of a file -/

@[simp] theorem failures_record (f : Fixer) (file : Path) (source new : String) (fixes : List Fix)
    (o : FixOutcome) : (f.record file source new fixes o).failures = o.failures := by
  unfold record
  split <;> rfl

/-- Applying the fixes of a file records what the accepted ones write, after the dropped ones have
been counted: the plan of all accepted fixes never fails. -/
theorem applyTo_eq_record {f : Fixer} (hmode : f.mode ≠ .showOnly) (file : Path) (source : String)
    (fixes : List Fix) (o : FixOutcome) :
    ∃ new, (FixPlan.merge ((f.accepted source fixes).map (·.plan))).apply source = .ok new ∧
      f.applyTo file source fixes o =
        f.record file source new (f.accepted source fixes) (f.sortedOut file source fixes o) := by
  have htogether : together source (f.accepted source fixes) :=
    together_accept (f.queue fixes) (together_nil source)
  rcases FixPlan.validate_eq_ok_iff.1 htogether with ⟨new, hnew⟩
  refine ⟨new, hnew, ?_⟩
  -- so the branch for a plan that fails after all is never taken
  have hpass :
      accept source [] (f.queue fixes) = (f.accepted source fixes, f.dropped source fixes) := rfl
  rw [applyTo, if_neg hmode, hpass]
  dsimp only
  rw [hnew]
  rfl

/-- Greedy acceptance is sound, and drops no fix needlessly. What is accepted can be applied and is
what is written, so the only failures are those of the dropped fixes. No dropped fix goes together
with all that is accepted. And a fix that is valid on its own and together with each fix before it
in the queue is accepted in its turn. -/
theorem greedy_acceptance (f : Fixer) (hmode : f.mode ≠ .showOnly) (file : Path) (source : String)
    (fixes : List Fix) (o : FixOutcome) :
    ((∃ new, (FixPlan.merge ((f.accepted source fixes).map (·.plan))).apply source = .ok new ∧
        f.applyTo file source fixes o =
          f.record file source new (f.accepted source fixes) (f.sortedOut file source fixes o)) ∧
      (f.applyTo file source fixes o).failures =
        o.failures ++ (f.dropped source fixes).map (rejection file)) ∧
    ((f.accepted source fixes ++ (f.dropped source fixes).map (·.1)).Perm (f.queue fixes) ∧
      ∀ r ∈ f.dropped source fixes, ∃ cause,
        (FixPlan.merge ((f.accepted source fixes ++ [r.1]).map (·.plan))).validate source
          = .error cause) ∧
    ∀ before fix more, f.queue fixes = before ++ fix :: more →
      fix.plan.validate source = .ok () →
      (∀ g ∈ before, (FixPlan.merge [g.plan, fix.plan]).validate source = .ok ()) →
      ∃ later, f.accepted source fixes = (accept source [] before).1 ++ fix :: later := by
  rcases applyTo_eq_record hmode file source fixes o with ⟨new, hnew, happly⟩
  refine ⟨⟨⟨new, hnew, happly⟩, ?_⟩, ⟨accept_perm source [] (f.queue fixes), ?_⟩, ?_⟩
  · rw [happly, failures_record]
    rfl
  · intro r hr
    exact (together_or_error source _).resolve_left (not_together_of_dropped hr)
  · intro before fix more hqueue hfix hpairs
    -- a valid merge of two plans makes them agree, whatever else is accepted
    have hagrees : ∀ g ∈ before, FixPlan.agrees source.toList g.plan fix.plan := by
      intro g hg
      have hboth := (FixPlan.validate_merge_eq_ok_iff.1 (hpairs g hg)).2
      exact (List.pairwise_cons.1 hboth).1 fix.plan (by simp)
    rcases prefix_accept source ((accept source [] before).1 ++ [fix]) more with ⟨later, hlater⟩
    refine ⟨later, ?_⟩
    rw [accepted, hqueue, accept_eq_of_agrees hfix hagrees, ← hlater]
    simp

/-- A fix that replaces one span. -/
def replacement (span : Span) (text : String) : Fix :=
  ⟨⟨"A.java"⟩, .nowhere, .replacing span text, "r"⟩

/-- The queue of three such fixes, by the starts of their spans. -/
theorem queue_replacements :
    empty.queue [replacement ⟨4, 16⟩ "b", replacement ⟨10, 11⟩ "c", replacement ⟨0, 1⟩ "z"] =
      [replacement ⟨0, 1⟩ "z", replacement ⟨4, 16⟩ "b", replacement ⟨10, 11⟩ "c"] := by
  have hadmitted :
      [replacement ⟨4, 16⟩ "b", replacement ⟨10, 11⟩ "c", replacement ⟨0, 1⟩ "z"].filter
        empty.admits =
      [replacement ⟨4, 16⟩ "b", replacement ⟨10, 11⟩ "c", replacement ⟨0, 1⟩ "z"] := by
    decide
  rw [queue, hadmitted]
  simp [List.mergeSort, List.MergeSort.Internal.splitInTwo, startsBefore, firstStart?, replacement,
    FixPlan.replacing, FixPlan.replaceSpan, FixPlan.addEdit, FixPlan.empty]

/-- The fix of an outer call is accepted in its turn, and that of a call inside it cannot join. -/
theorem greedy_acceptance_nested :
    empty.mode ≠ .showOnly ∧
    (∃ cause, (FixPlan.merge ((empty.accepted "x = round(a,b);;" [replacement ⟨4, 16⟩ "b",
        replacement ⟨10, 11⟩ "c", replacement ⟨0, 1⟩ "z"] ++ [replacement ⟨10, 11⟩ "c"]).map
          (·.plan))).validate "x = round(a,b);;" = .error cause) ∧
    ∃ later, empty.accepted "x = round(a,b);;" [replacement ⟨4, 16⟩ "b", replacement ⟨10, 11⟩ "c",
        replacement ⟨0, 1⟩ "z"] =
      (accept "x = round(a,b);;" [] [replacement ⟨0, 1⟩ "z"]).1 ++
        replacement ⟨4, 16⟩ "b" :: later := by
  have hmode : empty.mode ≠ .showOnly := by decide
  have hfirst : together "x = round(a,b);;" ([] ++ [replacement ⟨0, 1⟩ "z"]) :=
    FixPlan.validate_eq_ok_iff_fits.2 ⟨by decide, by decide⟩
  have hsecond :
      together "x = round(a,b);;" ([] ++ [replacement ⟨0, 1⟩ "z"] ++ [replacement ⟨4, 16⟩ "b"]) :=
    FixPlan.validate_eq_ok_iff_fits.2 ⟨by decide, by decide⟩
  have hthird :
      ¬ together "x = round(a,b);;" ([] ++ [replacement ⟨0, 1⟩ "z"] ++ [replacement ⟨4, 16⟩ "b"] ++
        [replacement ⟨10, 11⟩ "c"]) :=
    fun h => absurd (FixPlan.validate_eq_ok_iff_fits.1 h).2 (by decide)
  rcases (together_or_error _ _).resolve_left hthird with ⟨cause, hcause⟩
  have hdropped : (replacement ⟨10, 11⟩ "c", cause) ∈ empty.dropped "x = round(a,b);;"
      [replacement ⟨4, 16⟩ "b", replacement ⟨10, 11⟩ "c", replacement ⟨0, 1⟩ "z"] := by
    rw [dropped, queue_replacements, accept_cons_of_together _ hfirst,
      accept_cons_of_together _ hsecond, accept_cons_of_error _ hcause]
    exact List.mem_cons_self
  have hgreedy := greedy_acceptance empty hmode ⟨"A.java"⟩ "x = round(a,b);;"
    [replacement ⟨4, 16⟩ "b", replacement ⟨10, 11⟩ "c", replacement ⟨0, 1⟩ "z"] .empty
  refine ⟨hmode, hgreedy.2.1.2 _ hdropped,
    hgreedy.2.2 [replacement ⟨0, 1⟩ "z"] _ _ queue_replacements ?_ ?_⟩
  · exact FixPlan.validate_eq_ok_iff_fits.2 ⟨by decide, by decide⟩
  · intro g hg
    rw [List.mem_singleton] at hg
    rw [hg]
    exact FixPlan.validate_eq_ok_iff_fits.2 ⟨by decide, by decide⟩

end CallLint.Fixer
