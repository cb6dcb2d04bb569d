import CallLint.Output.Text
import CallLint.Proofs.Fix.Wrapping
import CallLint.Proofs.Rounding.Examining

/-!
# What takes the place of a call with an `int`

The text in place of the call is told three times: by the edits of the fix, which are sorted before
they are written, by the settings for parentheses, and by the report that shows the fix. All three
tell the same text.

* `FixPlan.ShownAs`: what every report that shows fixes says about a plan.
* `RoundRule.apply_removal`: what the fix writes.
* `RoundRule.removal_as_shown`: the fix writes what the report shows.
-/

namespace CallLint

/-! ## Reports that show a fix -/

/-- The line that shows a fix by its description and by what takes the place of the call. -/
def TextReport.fixLine (t : TextReport) (safety : Safety) (description written : String) : String :=
  "   " ++ t.paint (.ofColor .green) "=" ++ " " ++ t.fixMark safety ++ ": " ++ description ++
    " -> " ++ t.paint (.ofColor .green) written ++ "\n"

/-- Whether every report that shows fixes has some lines about each finding with a plan. -/
def FixPlan.ShownAs (p : FixPlan) (lines : TextReport → String) : Prop :=
  ∀ (t : TextReport) (d : Diagnostic), t.showFixes = true → d.fix = some p →
    ∃ above below, t.renderDiagnostic d = above ++ lines t ++ below

/-- A report shows a fix by the texts of its edits and by its imports. -/
theorem FixPlan.shownAs_renderFix (p : FixPlan) : p.ShownAs (·.renderFix p) := by
  intro t d hshow hfix
  simp only [TextReport.renderDiagnostic, hshow, hfix, if_true, Option.map_some, Option.getD_some]
  exact ⟨_, _, String.append_assoc⟩

/-- A plan without imports takes one line. -/
theorem TextReport.renderFix_of_imports_eq_empty (t : TextReport) {p : FixPlan}
    (h : p.imports = ∅) : t.renderFix p = t.fixLine p.safety p.description p.preview := by
  rw [renderFix, h]
  exact String.append_empty

namespace RoundRule

/-! ## The fix for an `int` -/

/-- The text of the argument is written, with a parenthesis before and after it if they are asked
for. -/
theorem edits_removal (s : FixSettings) (call argument : Expr) (text : String) :
    (removal s call argument text).edits =
      if s.parens.requires argument.kind then FixPlan.around call.span "(" text ")"
      else [⟨.instead, call.span, text⟩] := by
  unfold removal
  split <;> rfl

@[simp] theorem preview_removal (s : FixSettings) (call argument : Expr) (text : String) :
    (removal s call argument text).preview = s.parens.wrap argument.kind text := by
  rw [FixPlan.preview, edits_removal, ParenPolicy.wrap]
  split <;> simp [FixPlan.around, String.join]

@[simp] theorem description_removal (s : FixSettings) (call argument : Expr) (text : String) :
    (removal s call argument text).description = "Remove redundant Math.round" := by
  unfold removal
  split <;> rfl

@[simp] theorem imports_removal (s : FixSettings) (call argument : Expr) (text : String) :
    (removal s call argument text).imports = ∅ :=
  Rounding.imports_plan s ⟨call.span, argument.kind, text⟩

/-- A report shows the text that the settings for parentheses tell. -/
theorem renderFix_removal (t : TextReport) (s : FixSettings) (call argument : Expr)
    (text : String) :
    t.renderFix (removal s call argument text) =
      t.fixLine .safe "Remove redundant Math.round" (s.parens.wrap argument.kind text) := by
  have hsafety : (removal s call argument text).safety = .safe :=
    Rounding.isSafe_plan s ⟨call.span, argument.kind, text⟩
  rw [t.renderFix_of_imports_eq_empty (imports_removal s call argument text), hsafety,
    description_removal, preview_removal]

/-- All edits of the fix are about the call. -/
theorem span_of_mem_removal {s : FixSettings} {call argument : Expr} {text : String} {e : Edit}
    (he : e ∈ (removal s call argument text).edits) : e.span = call.span :=
  Rounding.span_of_mem_plan (s := s) (r := ⟨call.span, argument.kind, text⟩) he

/-- The argument, in parentheses if the settings ask for them, is written in place of the call. -/
theorem apply_removal {s : FixSettings} {call argument : Expr}
    {text source before called after : String}
    (hcut : call.span.CutsOut source.toList) (hbytes : call.span.isEmpty = false)
    (hparts : call.span.Divides source before called after) :
    (removal s call argument text).apply source =
      .ok (before ++ s.parens.wrap argument.kind text ++ after) := by
  have hwithin : ∀ e ∈ (removal s call argument text).edits, e.span.CutsOut source.toList := by
    intro e he
    rw [span_of_mem_removal he]
    exact hcut
  have hchanges : (removal s call argument text).changes source.toList =
      (removal s call argument text).edits.map .ofEdit :=
    FixPlan.changes_of_imports_eq_empty (imports_removal s call argument text) source.toList
  rw [edits_removal] at hchanges
  cases hparens : s.parens.requires argument.kind with
  | true =>
    -- three edits, put in order
    rw [hparens, if_pos rfl] at hchanges
    rw [ParenPolicy.wrap, hparens, if_pos rfl]
    exact FixPlan.apply_of_wrapping hparts hbytes hwithin (List.Perm.of_eq hchanges)
  | false =>
    -- one edit
    rw [hparens, if_neg Bool.false_ne_true] at hchanges
    rw [ParenPolicy.wrap, hparens, if_neg Bool.false_ne_true]
    exact FixPlan.apply_of_inPlace hparts hwithin hchanges

/-- A finding about an `int` comes with a fix. If the call can be cut out of the source, the fix
puts the text of the argument in its place, in parentheses if the settings ask for them, and leaves
the rest of the source as it is. A report shows this very text. -/
theorem removal_as_shown {s : FixSettings} {call argument : Expr} {env : Environment}
    {d : Diagnostic} (hrounds : Rounds .int call argument)
    (hfound : (rule s).check call env = .ok (some d))
    (hcut : call.span.CutsOut env.source.toList) (hbytes : call.span.isEmpty = false) :
    ∃ text plan before called after, env.sourceFor? argument.span = some text ∧ d.fix = some plan ∧
      call.span.Divides env.source before called after ∧
      plan.apply env.source = .ok (before ++ s.parens.wrap argument.kind text ++ after) ∧
      plan.preview = s.parens.wrap argument.kind text ∧
      plan.ShownAs fun t =>
        t.fixLine .safe "Remove redundant Math.round" (s.parens.wrap argument.kind text) := by
  rcases exists_rounds_of_check hfound with ⟨f, first, text, hfirst, htext, rfl⟩
  obtain ⟨rfl, rfl⟩ := hrounds.unique hfirst
  rcases hcut.exists_divides with ⟨before, called, after, hparts⟩
  refine ⟨text, removal s call argument text, before, called, after, htext, rfl, hparts,
    apply_removal hcut hbytes hparts, preview_removal s call argument text, ?_⟩
  simp only [← renderFix_removal _ s call argument text]
  exact FixPlan.shownAs_renderFix _

/-- A call that rounds a sum of `int`s. -/
def roundedSum : Expr :=
  .call ⟨4, 21⟩ ⟨.named "java.lang.Math", "round", true⟩
    [(Expr.leaf .binary ⟨15, 20⟩).withType (.primitive .int)]

/-- The sum takes the place of the call in parentheses, and is shown in them. -/
theorem removal_as_shown_roundedSum :
    ∃ d plan,
      (rule default).check roundedSum ⟨"x = Math.round(a + b);", fun _ => false⟩ = .ok (some d) ∧
      d.fix = some plan ∧ plan.apply "x = Math.round(a + b);" = .ok "x = (a + b);" ∧
      plan.preview = "(a + b)" := by
  let env : Environment := ⟨"x = Math.round(a + b);", fun _ => false⟩
  let sum : Expr := (Expr.leaf .binary ⟨15, 20⟩).withType (.primitive .int)
  have hrounds : Rounds .int roundedSum sum := ⟨rfl, rfl, rfl, .primitive .int, by decide, rfl⟩
  have htext : env.sourceFor? sum.span = some "a + b" := by decide +kernel
  have hfound := check_of_rounds hrounds default env
  rw [htext] at hfound
  have hcut : roundedSum.span.CutsOut env.source.toList := by decide +kernel
  have hdivides : roundedSum.span.Divides env.source "x = " "Math.round(a + b)" ";" :=
    ⟨by decide +kernel, by decide +kernel, by decide +kernel⟩
  have hwrap : (default : FixSettings).parens.wrap sum.kind "a + b" = "(a + b)" := by decide +kernel
  obtain ⟨text, plan, before, called, after, hsum, hplan, hparts, happly, hpreview, -⟩ :=
    removal_as_shown hrounds hfound hcut rfl
  obtain rfl : text = "a + b" := Option.some.inj (hsum.symm.trans htext)
  -- the call divides the source in one way only
  rcases hparts.unique hdivides with ⟨rfl, rfl, rfl⟩
  rw [hwrap] at happly hpreview
  exact ⟨_, plan, hfound, hplan, happly, hpreview⟩

end RoundRule

end CallLint
