import CallLint.Config.Basic
import CallLint.Rule

/-!
# Rounding what is already whole

The rule about calls of `Math.round` with an argument that is an integer. The method takes a `float`
or a `double`, so the argument is converted first. For an `int` the call changes nothing and can go
away. A `long` may lose digits on the way, so a saturating narrowing takes the place of the call, if
a class that offers it can be used; otherwise a person has to decide.

* `RoundRule.family`: whether a call rounds an `int` or a `long`.
* `RoundRule.rule`: the rule for given settings.
-/

namespace CallLint.RoundRule

/-- The identifier of the rule. -/
def ruleId : String := "math-round-int-long"

/-- The types of the size of an `int`. -/
def intTypes : List TypeRef := [.primitive .int, .named "java.lang.Integer"]

/-- The types of the size of a `long`. -/
def longTypes : List TypeRef := [.primitive .long, .named "java.lang.Long"]

/-- Matches the calls of the method. -/
def roundCall : Matcher := .staticCallTo "java.lang.Math" "round"

/-- Matches the calls that the rule applies to. -/
def screen : Matcher :=
  .all [roundCall, .any [.argumentTypeIn 0 intTypes, .argumentTypeIn 0 longTypes]]

/-- Matches the calls with an `int`. -/
def intCall : Matcher := .all [roundCall, .argumentTypeIn 0 intTypes]

/-- Matches the calls with a `long`. -/
def longCall : Matcher := .all [roundCall, .argumentTypeIn 0 longTypes]

/-- The description of the rule. -/
def info : RuleInfo where
  id := ruleId
  name := some "MathRoundIntLong"
  summary := "Math.round(Integer) results in truncation"
  explanation := some ("Math.round() called with an integer or long type results in truncation "
    ++ "because Math.round only accepts floats or doubles and some integers and "
    ++ "longs can't be represented with float.")
  severity := .error
  category := .correctness
  fix := .requiresHumanAttention
  docs := none
  tags := ["numeric"]
  exampleBad := some "long total = Math.round(count);"
  exampleGood := some "long total = count;"

/-- What a call rounds. -/
inductive Family where
  | int
  | long
deriving DecidableEq, Repr

/-- What a call at a span rounds, given whether it takes an `int` and whether it takes a `long`. A
call that the rule applies to takes exactly one of them. -/
def family (isInt isLong : Bool) (span : Span) : Except RuleError Family :=
  match isInt, isLong with
  | true, false => .ok .int
  | false, true => .ok .long
  | _, _ =>
    .error (.invariant ruleId span s!"screened call classified as int={isInt} long={isLong}")

/-- The name of the helper class without its package. -/
def helperName (s : FixSettings) : String := QualifiedName.lastSegment s.helper

/-- A finding of the rule at a span, with the summary for a message. -/
def finding (span : Span) : Diagnostic := .plain ruleId info.severity info.summary span

/-- The fix for an `int`: the argument alone takes the place of the call. -/
def removal (s : FixSettings) (call argument : Expr) (text : String) : FixPlan :=
  let plan := { FixPlan.empty with description := "Remove redundant Math.round" }
  if s.parens.requires argument.kind then
    ((plan.insertBefore call.span "(").replaceSpan call.span text).insertAfter call.span ")"
  else plan.replaceSpan call.span text

/-- The fix for a `long`: a call of the helper takes the place of the call. -/
def narrowing (s : FixSettings) (call : Expr) (text : String) : FixPlan :=
  let helper := helperName s ++ "." ++ s.method
  let plan := { FixPlan.empty with description := "Replace with " ++ helper, safety := .risky }
  (((plan.addImport s.helper).insertBefore call.span (helper ++ "(")).replaceSpan call.span
    text).insertAfter call.span ")"

/-- The message about a `long` when there is no helper. -/
def lossMessage (s : FixSettings) : String :=
  "Calling Math.round() with a long argument can result in a loss of information: "
    ++ "the argument is coerced to a float before being rounded back to an int, so "
    ++ "values outside the float-representable range suffer truncation. Replace "
    ++ s!"Math.round() with {helperName s}.{s.method}() once {s.helper} is available, or narrow "
    ++ "manually with an explicit check; a plain (int) cast silently wraps values outside the int range."

/-- The finding about a call with a `long`. -/
def longFinding (s : FixSettings) (call : Expr) (text : String) (env : Environment) : Diagnostic :=
  if env.resolves s.helper then (finding call.span).withFix (narrowing s call text)
  else (Diagnostic.plain ruleId info.severity (lossMessage s) call.span).withHelp info.summary
    |>.forReview

/-- What the rule says about a call that it applies to. -/
def examine (s : FixSettings) (call : Expr) (env : Environment) : Except RuleError Diagnostic := do
  let family ← family (intCall.accepts call env) (longCall.accepts call env) call.span
  match call.arguments with
  | [] => .error (.invariant ruleId call.span "screened call has no argument")
  | argument :: _ =>
    match env.sourceFor? argument.span with
    | none => .error (.missingSource ruleId argument.span)
    | some text =>
      match family with
      | .int => return (finding call.span).withFix (removal s call argument text)
      | .long => return longFinding s call text env

/-- The rule for given settings. -/
def rule (s : FixSettings) : Rule := ⟨info, screen, examine s⟩

end CallLint.RoundRule
