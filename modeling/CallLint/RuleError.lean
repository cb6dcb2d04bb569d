import CallLint.Fix.Edit

/-!
# Defects of rules

A rule that contradicts itself, or reports something that cannot be used, is broken: that is no
finding about the code that it looks at.

* `RuleError.message`: each defect in words.
-/

namespace CallLint

/-- Why the evaluation of a rule failed. -/
inductive RuleError where
  | invariant (rule : String) (span : Span) (message : String)
  | unusableFix (rule : String) (cause : EditError)
  /-- An error was reported with neither a fix nor a message. -/
  | silent (rule : String) (span : Span)
  | missingSource (rule : String) (span : Span)
deriving DecidableEq, Repr

namespace RuleError

/-- A defect in words. -/
def message : RuleError → String
  | .invariant rule span message =>
    s!"Rule '{rule}' violated an internal invariant at {span.render}: {message}"
  | .unusableFix rule cause => s!"Rule '{rule}' produced an unusable fix: {cause.message}"
  | .silent rule span =>
    s!"Rule '{rule}' reported an error at {span.render} with neither a fix nor a message"
  | .missingSource rule span =>
    s!"Rule '{rule}' needs source text for {span.render}, which is not in the unit"

end RuleError

end CallLint
