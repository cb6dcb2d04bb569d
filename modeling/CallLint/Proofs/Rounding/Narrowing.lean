import CallLint.Proofs.Fix.WrappingImports
import CallLint.Proofs.Rounding.Replacing

/-!
# What takes the place of a call with a `long`

The fix for a `long` puts a call of the helper in place of the call, and a line that imports the
helper at the place for imports, unless the helper is imported already. The place for imports is
found in the source whatever the call is, so it may be anywhere: in front of the call, behind it, at
either end of it, or inside of it.

* `RoundRule.narrowed`: the call of the helper.
* `RoundRule.narrowing_as_shown`: what the fix writes, when it is refused, and what the report
  shows.
-/

namespace CallLint.RoundRule

/-- The call of the helper with the text of the argument. -/
def narrowed (s : FixSettings) (text : String) : String :=
  QualifiedName.lastSegment s.helper ++ "." ++ s.method ++ "(" ++ text ++ ")"

section Plan

variable (s : FixSettings) (call : Expr) (text : String)

@[simp] theorem edits_narrowing :
    (narrowing s call text).edits =
      FixPlan.around call.span (QualifiedName.lastSegment s.helper ++ "." ++ s.method ++ "(")
        text ")" :=
  rfl

@[simp] theorem preview_narrowing : (narrowing s call text).preview = narrowed s text := by
  rw [FixPlan.preview, edits_narrowing, narrowed]
  simp [FixPlan.around, String.join]

@[simp] theorem toList_imports_narrowing :
    (narrowing s call text).imports.toList = [s.helper] :=
  rfl

@[simp] theorem mem_imports_narrowing {name : String} :
    name ∈ (narrowing s call text).imports ↔ name = s.helper := by
  rw [SortedSet.mem_def, toList_imports_narrowing, List.mem_singleton]

/-- A line for the helper is needed unless there is one. -/
theorem needsImports_narrowing {source : List Char} :
    (narrowing s call text).needsImports source ↔ imports source s.helper = false := by
  simp only [FixPlan.needsImports, mem_imports_narrowing, exists_eq_left]

/-- The block of lines for the helper. -/
theorem importBlock?_narrowing (source : List Char) :
    importBlock? source (narrowing s call text).imports =
      if imports source s.helper then none
      else some ((importSite source).offset, importText source [s.helper]) := by
  split
  · next himported =>
    apply FixPlan.importBlock?_of_not_needsImports
    rw [needsImports_narrowing, himported]
    nofun
  · next hmissing =>
    rw [Bool.not_eq_true] at hmissing
    have hmissed : missingImports source (narrowing s call text).imports = [s.helper] := by
      rw [missingImports, toList_imports_narrowing, List.filter_singleton, hmissing]
      rfl
    rw [FixPlan.importBlock?_of_needsImports ((needsImports_narrowing s call text).2 hmissing),
      hmissed]

/-- A report shows the call of the helper, and the import that comes with it. -/
theorem renderFix_narrowing (t : TextReport) :
    t.renderFix (narrowing s call text) =
      t.fixLine .risky ("Replace with " ++
        (QualifiedName.lastSegment s.helper ++ "." ++ s.method)) (narrowed s text) ++
      ("   " ++ t.paint (.ofColor .green) "=" ++ " adds: import " ++ s.helper ++ ";\n") := by
  have hlast : ∀ line : String, String.join [line] = line := fun line => String.empty_append
  rw [TextReport.renderFix, toList_imports_narrowing, preview_narrowing, List.map_singleton, hlast]
  rfl

end Plan

section Written

variable {s : FixSettings} {call : Expr} {text source : String}
  (hcut : call.span.CutsOut source.toList) (hbytes : call.span.isEmpty = false)

include hcut hbytes

/-- The fix is refused exactly if the helper is not imported yet and imports belong inside of the
call. -/
theorem apply_narrowing_eq_error_iff :
    (narrowing s call text).apply source =
        .error (.overlap call.span (.point (importSite source.toList).offset)) ↔
      imports source.toList s.helper = false ∧ call.span.start < (importSite source.toList).offset ∧
        (importSite source.toList).offset < call.span.stop := by
  constructor
  · -- anywhere else the block for the helper does not get in the way
    intro hrefused
    by_contra hplaced
    rw [← needsImports_narrowing s call text] at hplaced
    obtain ⟨out, happly, -⟩ :=
      FixPlan.exists_apply_around (edits_narrowing s call text) hcut hbytes hplaced
    rw [hrefused] at happly
    cases happly
  · rintro ⟨hmissing, hstart, hstop⟩
    have hneeds := (needsImports_narrowing s call text).2 hmissing
    exact FixPlan.apply_around_of_inside (edits_narrowing s call text) hcut hbytes hneeds hstart
      hstop

/-- Otherwise it puts the call of the helper in place of the call, and the helper is imported if
imports belong in front of the call. -/
theorem exists_apply_narrowing (hhelper : QualifiedName.isWellFormed s.helper = true)
    (h : ¬ (imports source.toList s.helper = false ∧
      call.span.start < (importSite source.toList).offset ∧
      (importSite source.toList).offset < call.span.stop)) :
    ∃ out, (narrowing s call text).apply source = .ok out ∧
      call.span.Rewrites source (narrowed s text)
        (if imports source.toList s.helper then none
        else some ((importSite source.toList).offset, importText source.toList [s.helper])) out ∧
      ((importSite source.toList).offset ≤ call.span.start →
        imports out.toList s.helper = true) := by
  rw [← needsImports_narrowing s call text] at h
  obtain ⟨out, happly, hwritten⟩ :=
    FixPlan.exists_apply_around (edits_narrowing s call text) hcut hbytes h
  rw [importBlock?_narrowing] at hwritten
  refine ⟨out, happly, hwritten, ?_⟩
  -- if no edit is in front of the place for imports, the new line stays where it is looked for
  intro hle
  have hbehind := FixPlan.editsBehind_around (edits_narrowing s call text) hbytes hle
  have hnames :
      ∀ name ∈ (narrowing s call text).imports, QualifiedName.isWellFormed name = true := by
    intro name hname
    rwa [(mem_imports_narrowing s call text).1 hname]
  have himported := FixPlan.mem_importedNames_of_apply hnames hbehind happly s.helper
    ((mem_imports_narrowing s call text).2 rfl)
  exact imports_iff.2 himported

end Written

/-- A fix for a `long` calls the helper instead. If the call can be cut out of the source, the fix
is refused exactly if the helper is not imported yet and imports belong inside of the call.
Otherwise it writes the call of the helper in place of the call and, if the helper is not imported
yet, a line for it at the place for imports, and leaves the rest of the source as it is; the helper
is imported then if that place is not behind the start of the call. A report shows the call of the
helper as it is written. -/
theorem narrowing_as_shown {s : FixSettings} {call argument : Expr} {env : Environment}
    {d : Diagnostic} {plan : FixPlan} {offset : Nat} (hrounds : Rounds .long call argument)
    (hfound : (rule s).check call env = .ok (some d)) (hfix : d.fix = some plan)
    (hcut : call.span.CutsOut env.source.toList) (hbytes : call.span.isEmpty = false)
    (hoffset : ImportOffset env.source.toList offset) :
    ∃ text, env.sourceFor? argument.span = some text ∧
      (plan.apply env.source = .error (.overlap call.span (.point offset)) ↔
        imports env.source.toList s.helper = false ∧ call.span.start < offset ∧
          offset < call.span.stop) ∧
      (¬ (imports env.source.toList s.helper = false ∧ call.span.start < offset ∧
        offset < call.span.stop) →
        ∃ out, plan.apply env.source = .ok out ∧
          call.span.Rewrites env.source (narrowed s text)
            (if imports env.source.toList s.helper then none
            else some (offset, importText env.source.toList [s.helper])) out ∧
          (offset ≤ call.span.start → imports out.toList s.helper = true)) ∧
      plan.preview = narrowed s text ∧
      plan.ShownAs fun t =>
        t.fixLine .risky ("Replace with " ++
          (QualifiedName.lastSegment s.helper ++ "." ++ s.method)) (narrowed s text) ++
          ("   " ++ t.paint (.ofColor .green) "=" ++ " adds: import " ++ s.helper ++ ";\n") := by
  rcases exists_rounds_of_check hfound with ⟨f, first, text, hfirst, htext, rfl⟩
  obtain ⟨rfl, rfl⟩ := hrounds.unique hfirst
  obtain rfl := importOffset_iff.1 hoffset
  -- there is a fix only if the helper can be used, so its name is well formed
  have hresolves : env.resolves s.helper = true := by
    cases hresolves : env.resolves s.helper with
    | true => rfl
    | false =>
      rw [said_long_of_not_resolves hresolves] at hfix
      cases hfix
  have hhelper : QualifiedName.isWellFormed s.helper = true := (Bool.and_eq_true_iff.1 hresolves).1
  rw [said_long_of_resolves hresolves] at hfix
  obtain rfl : narrowing s call text = plan := Option.some.inj hfix
  refine ⟨text, htext, apply_narrowing_eq_error_iff hcut hbytes,
    exists_apply_narrowing hcut hbytes hhelper, preview_narrowing s call text, ?_⟩
  simp only [← renderFix_narrowing s call text]
  exact FixPlan.shownAs_renderFix _

/-- A `long` with a source text gets a fix where the helper can be used. -/
theorem check_of_resolves {s : FixSettings} {call argument : Expr} {env : Environment}
    {text : String} (hrounds : Rounds .long call argument)
    (htext : env.sourceFor? argument.span = some text) (hresolves : env.resolves s.helper = true) :
    (rule s).check call env = .ok (some ((finding call.span).withFix (narrowing s call text))) := by
  rw [check_of_rounds hrounds s env, htext]
  simp only [said_long_of_resolves hresolves]

/-- A call with a line in it that looks like an import. -/
def crossedCall : Expr :=
  .call ⟨0, 26⟩ ⟨.named "java.lang.Math", "round", true⟩
    [(Expr.leaf .identifier ⟨24, 25⟩).withType (.named "java.lang.Long")]

/-- A call in a unit without imports gives way to one of the helper, which gets a line at the top.
The fix for a call that has such a line inside is refused. -/
theorem narrowing_as_shown_boxedLong :
    (∃ d plan,
      (rule default).check roundedLong ⟨"x = Math.round(n);", fun _ => true⟩ = .ok (some d) ∧
      d.fix = some plan ∧
      plan.apply "x = Math.round(n);" =
        .ok "import com.google.common.primitives.Ints;\n\nx = Ints.saturatedCast(n);") ∧
    ∃ d plan,
      (rule default).check crossedCall ⟨"Math.round(\nimport a.A;\nn)", fun _ => true⟩ =
        .ok (some d) ∧
      d.fix = some plan ∧
      plan.apply "Math.round(\nimport a.A;\nn)" = .error (.overlap ⟨0, 26⟩ (.point 24)) := by
  constructor
  · let env : Environment := ⟨"x = Math.round(n);", fun _ => true⟩
    have hrounds : Rounds .long roundedLong boxedLong :=
      ⟨rfl, rfl, rfl, .named "java.lang.Long", by decide, rfl⟩
    have htext : env.sourceFor? boxedLong.span = some "n" := by decide +kernel
    have hresolves : env.resolves (default : FixSettings).helper = true := by decide +kernel
    have hfound := check_of_resolves hrounds htext hresolves
    have hcut : roundedLong.span.CutsOut env.source.toList := by decide +kernel
    have hdivides : roundedLong.span.Divides env.source "x = " "Math.round(n)" ";" :=
      ⟨by decide +kernel, by decide +kernel, by decide +kernel⟩
    have hplace : ImportOffset env.source.toList 0 := importOffset_iff.2 (by decide +kernel)
    obtain ⟨text, hsum, -, hwritten, -, -⟩ :=
      narrowing_as_shown hrounds hfound rfl hcut rfl hplace
    obtain rfl : text = "n" := Option.some.inj (hsum.symm.trans htext)
    rcases hwritten (fun hinside => Nat.not_lt_zero _ hinside.2.1) with ⟨out, happly, hout, -⟩
    refine ⟨_, _, hfound, rfl, happly.trans (congrArg _ ?_)⟩
    have hmissing : imports env.source.toList (default : FixSettings).helper = false := by
      decide +kernel
    rw [hmissing, if_neg Bool.false_ne_true] at hout
    cases hout with
    | above hparts hsize =>
      -- there is nothing above the place for imports
      rcases hparts.unique hdivides with ⟨hbefore, rfl, rfl⟩
      obtain rfl := String.toList_eq_nil_iff.1 (Text.byteSize_eq_zero_iff.1 hsize)
      rw [String.empty_append] at hbefore
      rw [hbefore]
      decide +kernel
    | below hparts hsize => exact absurd (Nat.eq_zero_of_add_eq_zero_right hsize) (by decide)
  · let env : Environment := ⟨"Math.round(\nimport a.A;\nn)", fun _ => true⟩
    let argument : Expr := (Expr.leaf .identifier ⟨24, 25⟩).withType (.named "java.lang.Long")
    have hrounds : Rounds .long crossedCall argument :=
      ⟨rfl, rfl, rfl, .named "java.lang.Long", by decide, rfl⟩
    have htext : env.sourceFor? argument.span = some "n" := by decide +kernel
    have hresolves : env.resolves (default : FixSettings).helper = true := by decide +kernel
    have hfound := check_of_resolves hrounds htext hresolves
    have hcut : crossedCall.span.CutsOut env.source.toList := by decide +kernel
    have hplace : ImportOffset env.source.toList 24 := importOffset_iff.2 (by decide +kernel)
    have hmissing : imports env.source.toList (default : FixSettings).helper = false := by
      decide +kernel
    rcases narrowing_as_shown hrounds hfound rfl hcut rfl hplace with ⟨text, -, hrefused, -⟩
    exact ⟨_, _, hfound, rfl, hrefused.2 ⟨hmissing, by decide, by decide⟩⟩

end CallLint.RoundRule
