import CallLint.QualifiedName
import CallLint.Span
import CallLint.Text.Offset

/-!
# Environments

What a rule may ask about the unit around an expression: the source text of a span, and whether a
class of some name can be used there.

* `Environment.resolves_eq_false`: no malformed name resolves, whatever is known.
-/

namespace CallLint

/-- The surroundings of an expression. -/
structure Environment where
  source : String
  /-- Whether there is a class of this name. -/
  knows : String → Bool

namespace Environment

/-- The source text of a span; none if the span does not lie on character boundaries of the
source. -/
def sourceFor? (env : Environment) (span : Span) : Option String :=
  (Text.slice? span.start span.stop env.source.toList).map .ofList

/-- Whether a name is well formed and there is a class of this name. -/
def resolves (env : Environment) (name : String) : Bool :=
  QualifiedName.isWellFormed name && env.knows name

/-- What is not well formed does not resolve, whatever the environment knows. -/
theorem resolves_eq_false {env : Environment} {name : String}
    (h : QualifiedName.isWellFormed name = false) : env.resolves name = false := by
  simp [resolves, h]

end Environment

end CallLint
