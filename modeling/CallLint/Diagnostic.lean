import CallLint.Fix.Plan
import CallLint.Location
import CallLint.RuleError
import CallLint.Severity

/-!
# Diagnostics

What a rule finds: where, how bad, in which words, and maybe a plan to fix it.

* `Diagnostic.locate` fills in what the source says about the place.
* `Diagnostic.isSilent`: an error that says nothing and offers nothing is not acceptable.
-/

namespace CallLint

/-- A finding of a rule. -/
structure Diagnostic where
  rule : String
  severity : Severity
  message : String
  span : Span
  location : Location
  /-- The line of source that the finding is in. -/
  sourceLine : Option String
  help : Option String
  fix : Option FixPlan
  /-- Whether a person has to look at it, so that its fix is not applied. -/
  requiresReview : Bool
  notes : List String
deriving DecidableEq, Repr

namespace Diagnostic

/-- A finding without help, fix and notes, not yet located. -/
def plain (rule : String) (severity : Severity) (message : String) (span : Span) : Diagnostic :=
  ⟨rule, severity, message, span, .nowhere, none, none, none, false, []⟩

/-- The finding with its location and source line. -/
def locate (d : Diagnostic) (file : Path) (source : String) : Diagnostic :=
  let location := Location.ofSpan file source d.span
  { d with location, sourceLine := location.lineText? source }

/-- The finding with a help text. -/
def withHelp (d : Diagnostic) (help : String) : Diagnostic := { d with help := some help }

/-- The finding with a fix. -/
def withFix (d : Diagnostic) (fix : FixPlan) : Diagnostic := { d with fix := some fix }

/-- The finding with one more note. -/
def withNote (d : Diagnostic) (note : String) : Diagnostic := { d with notes := d.notes ++ [note] }

/-- The finding, left to a person. -/
def forReview (d : Diagnostic) : Diagnostic := { d with requiresReview := true }

/-- Whether there is a fix. -/
def hasFix (d : Diagnostic) : Bool := d.fix.isSome

/-- Whether there is a safe fix. -/
def hasSafeFix (d : Diagnostic) : Bool := d.fix.any (·.isSafe)

/-- Whether the finding is an error. -/
def isError (d : Diagnostic) : Bool := d.severity = .error

/-- Whether the finding is a warning. -/
def isWarning (d : Diagnostic) : Bool := d.severity = .warning

/-- Whether the finding is an error with neither a fix nor a message. -/
def isSilent (d : Diagnostic) : Bool :=
  d.isError && d.fix.isNone && d.message.toList.all Text.isBlank

/-- Refuses a finding that is an error with neither a fix nor a message. -/
def validate (d : Diagnostic) : Except RuleError Unit :=
  if d.isSilent then .error (.silent d.rule d.span) else .ok ()

/-- Only a finding that says nothing is refused, with an error that names its rule and its span. -/
theorem validate_eq_error_iff {d : Diagnostic} {e : RuleError} :
    d.validate = .error e ↔ d.isSilent = true ∧ e = .silent d.rule d.span := by
  cases h : d.isSilent <;> simp [validate, h, eq_comm]

end Diagnostic

end CallLint
