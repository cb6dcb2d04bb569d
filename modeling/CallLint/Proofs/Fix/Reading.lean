import CallLint.Environment
import CallLint.Proofs.Fix.Wrapping

/-!
# Reading and replacing

A rule reads the text of a span from the environment, and writes with a plan that replaces the span.
Reading takes two cuts of the source; replacing checks bounds and boundaries one by one, and then
sorts and weaves. Both go through at the same spans, and what was replaced is read again at the same
place.

* `Environment.sourceFor?_eq_some_iff`: what is read, as one of three parts of the source.
* `FixPlan.validate_replacing_iff`, `FixPlan.apply_replacing`: when a span can be replaced, and what
  this writes.
* `Environment.reads_and_replaces`: the two together.
-/

namespace CallLint

variable {s : Span} {source before inside after : String}

/-- A span that divides a source can be cut out of it. -/
theorem Span.Divides.cutsOut (h : s.Divides source before inside after) :
    s.CutsOut source.toList := by
  have hstart := h.start
  have hstop := h.stop
  rw [Text.size] at hstart
  rw [Text.size, Text.size, ← Text.byteSize_append] at hstop
  -- the source is cut once behind the first part and once behind the second
  have hopens := Text.isBoundary_byteSize_append before.toList (inside.toList ++ after.toList)
  have hcloses := Text.isBoundary_byteSize_append (before.toList ++ inside.toList) after.toList
  rw [List.append_assoc, ← h.toList, hstop] at hcloses
  rw [← h.toList, hstart] at hopens
  refine ⟨?_, Text.le_byteSize_of_isBoundary hcloses, hopens, hcloses⟩
  rw [← hstart, ← hstop, Text.byteSize_append]
  exact Nat.le_add_right _ _

/-- In a source with another text in place of a span, that text has a span that starts where the old
one does. -/
theorem Span.Divides.replace (h : s.Divides source before inside after) (text : String) :
    (⟨s.start, s.start + Text.size text⟩ : Span).Divides (before ++ text ++ after) before text
      after where
  split := rfl
  start := h.start
  stop := by rw [h.start]

/-! ## Reading -/

/-- What is read at a span is the part of the source between the text in front of the span and the
text behind it. -/
theorem Environment.sourceFor?_eq_some_iff {env : Environment} {text : String} :
    env.sourceFor? s = some text ↔ ∃ before after, s.Divides env.source before text after := by
  rw [sourceFor?, Option.map_eq_some_iff]
  simp only [Text.slice?_eq_some_iff]
  -- a slice is said in characters, a division in texts
  constructor
  · rintro ⟨_, ⟨front, back, hsource, hstart, hstop⟩, rfl⟩
    exact ⟨.ofList front, .ofList back, Span.divides_ofList hsource hstart hstop⟩
  · rintro ⟨before, after, hparts⟩
    exact ⟨text.toList,
      ⟨before.toList, after.toList, hparts.toList, hparts.start, hparts.stop_of_start⟩,
      String.ofList_toList⟩

/-- A span can be read if it can be cut out of the source. -/
theorem Environment.isSome_sourceFor?_iff {env : Environment} :
    (env.sourceFor? s).isSome = true ↔ s.CutsOut env.source.toList := by
  simp only [Option.isSome_iff_exists, sourceFor?_eq_some_iff]
  constructor
  · rintro ⟨_, _, _, hparts⟩
    exact hparts.cutsOut
  · intro hcut
    rcases hcut.exists_divides with ⟨before, inside, after, hparts⟩
    exact ⟨inside, before, after, hparts⟩

/-! ## Replacing -/

/-- A span can be replaced if it can be cut out of the source, whatever takes its place: one change
is never in the way of another one. -/
theorem FixPlan.validate_replacing_iff (text : String) :
    (replacing s text).validate source = .ok () ↔ s.CutsOut source.toList := by
  have hedits : (replacing s text).edits = [⟨.instead, s, text⟩] := rfl
  rw [validate_eq_ok_iff_cutsOut rfl, hedits, List.forall_mem_singleton]
  exact and_iff_left (List.pairwise_singleton _ _)

/-- What replaces a span stands between the text in front of the span and the text behind it. -/
theorem FixPlan.apply_replacing (h : s.Divides source before inside after) (text : String) :
    (replacing s text).apply source = .ok (before ++ text ++ after) :=
  apply_of_inPlace h (List.forall_mem_singleton.2 h.cutsOut)
    (changes_of_imports_eq_empty rfl source.toList)

/-! ## Both -/

/-- Reading and replacing go through at the same spans, whatever takes their place. Where a text is
read, writing this text leaves the source as it is. Any other text is written between what stands in
front of the span and what stands behind it, neither of which changes, and is then read at the start
of the span. -/
theorem Environment.reads_and_replaces (env : Environment) (s : Span) :
    (∀ text, (env.sourceFor? s).isSome = true ↔
      (FixPlan.replacing s text).validate env.source = .ok ()) ∧
    ∀ text, env.sourceFor? s = some text →
      (FixPlan.replacing s text).apply env.source = .ok env.source ∧
      ∃ before after, s.Divides env.source before text after ∧
        ∀ other, (FixPlan.replacing s other).apply env.source = .ok (before ++ other ++ after) ∧
          Environment.sourceFor? ⟨before ++ other ++ after, env.knows⟩
            ⟨s.start, s.start + Text.size other⟩ = some other := by
  refine ⟨fun text => ?_, fun text htext => ?_⟩
  · rw [isSome_sourceFor?_iff, FixPlan.validate_replacing_iff]
  · rcases sourceFor?_eq_some_iff.1 htext with ⟨before, after, hparts⟩
    refine ⟨?_, before, after, hparts, fun other => ⟨FixPlan.apply_replacing hparts other, ?_⟩⟩
    · -- what is read is what stands there
      rw [FixPlan.apply_replacing hparts, ← hparts.split]
    · exact sourceFor?_eq_some_iff.2 ⟨before, after, hparts.replace other⟩

/-- A letter of two bytes is read and replaced, and half of it is neither. -/
theorem Environment.reads_and_replaces_accent :
    Environment.sourceFor? ⟨"f(é);", fun _ => false⟩ ⟨2, 4⟩ = some "é" ∧
    (FixPlan.replacing ⟨2, 4⟩ "é").apply "f(é);" = .ok "f(é);" ∧
    (FixPlan.replacing ⟨2, 4⟩ "xyz").apply "f(é);" = .ok "f(xyz);" ∧
    ¬ (FixPlan.replacing ⟨2, 3⟩ "x").validate "f(é);" = .ok () := by
  let env : Environment := ⟨"f(é);", fun _ => false⟩
  have htext : env.sourceFor? ⟨2, 4⟩ = some "é" := by decide +kernel
  have hhalf : env.sourceFor? ⟨2, 3⟩ = none := by decide +kernel
  have hparts : (Span.mk 2 4).Divides "f(é);" "f(" "é" ");" :=
    ⟨by decide +kernel, by decide +kernel, by decide +kernel⟩
  obtain ⟨hsame, before, after, hdivides, hother⟩ := (reads_and_replaces env ⟨2, 4⟩).2 "é" htext
  obtain ⟨rfl, -, rfl⟩ := hdivides.unique hparts
  refine ⟨htext, hsame, (hother "xyz").1, ?_⟩
  rw [← (reads_and_replaces env ⟨2, 3⟩).1 "x", hhalf]
  exact Bool.false_ne_true

end CallLint
