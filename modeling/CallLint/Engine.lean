import CallLint.Report.Batch
import CallLint.RoundRule
import CallLint.SourceUnit

/-!
# The engine

An engine asks every rule about every call of a unit. A finding is reported only if it says
something and its fix can be applied; anything else that goes wrong is a defect of the rule, and the
other rules and calls are evaluated all the same.

* `Engine.evaluate`: one rule at one call. `Engine.note` takes down what came of it.
* `Engine.checkUnit`: all calls of a unit, `Engine.checkUnits`: all units of a batch.
* `Engine.checkCallSite`: one call on its own, up to the first defect.
-/

namespace CallLint

/-- What came of asking one rule about one call. -/
abbrev Outcome := Except RuleError (Option Diagnostic)

namespace Outcome

/-- The finding, if there is one. -/
def finding? : Outcome → Option Diagnostic
  | .ok d => d
  | .error _ => none

/-- The defect, if there is one. -/
def defect? : Outcome → Option RuleError
  | .ok _ => none
  | .error e => some e

end Outcome

/-- The rules that come with the library, for given settings. -/
def builtinRules (c : Config) : List Rule := [RoundRule.rule c.fix]

/-- The rule with an identifier among those that come with the library. -/
def builtinRule? (c : Config) (id : String) : Option Rule := (builtinRules c).find? (·.id = id)

/-- A configuration and the rules in use. -/
structure Engine where
  config : Config
  rules : List Rule

namespace Engine

/-- An engine with those of some rules that are enabled. -/
def ofRules (c : Config) (rules : List Rule) : Engine := ⟨c, rules.filter fun r => c.isEnabled r.id⟩

/-- An engine with the rules that come with the library. -/
def ofConfig (c : Config) : Engine := ofRules c (builtinRules c)

/-- The engine with one more rule, if that is enabled. -/
def register (e : Engine) (r : Rule) : Engine :=
  if e.config.isEnabled r.id then { e with rules := e.rules ++ [r] } else e

/-- The severity that a rule reports with. -/
def effectiveSeverity (e : Engine) (r : Rule) : Severity :=
  (e.config.severityOf? r.id).getD r.info.severity

/-! ## One rule at one call -/

/-- A finding with the severity that is configured for its rule. -/
def adjust (e : Engine) (r : Rule) (d : Diagnostic) : Diagnostic :=
  { d with severity := (e.config.severityOf? r.id).getD d.severity }

/-- Refuses a finding that says nothing, or whose fix cannot be applied to the source. -/
def vet (r : Rule) (source : String) (d : Diagnostic) : Except RuleError Diagnostic := do
  d.validate
  match d.fix with
  | none => return d
  | some plan =>
    match plan.validate source with
    | .ok () => return d
    | .error cause => throw (.unusableFix r.id cause)

/-- Asks a rule about a call. -/
def evaluate (e : Engine) (r : Rule) (call : Expr) (env : Environment) : Outcome := do
  match ← r.check call env with
  | none => return none
  | some d => return some (← vet r env.source (e.adjust r d))

/-! ## One call -/

/-- What the rules find at a call, or the first defect. -/
def checkCallSite (e : Engine) (call : Expr) (env : Environment) :
    Except RuleError (List Diagnostic) := do
  return (← e.rules.mapM fun r => e.evaluate r call env).filterMap id

/-- The rules that are asked about a call on its own: all up to the first one with a defect. -/
def consulted (e : Engine) (call : Expr) (env : Environment) : List Rule :=
  let fine := e.rules.takeWhile fun r => ((e.evaluate r call env).defect?).isNone
  fine ++ (e.rules[fine.length]?).toList

/-! ## One unit -/

/-- The rules in use for a path. It can be said only where `canChooseRules` holds. -/
def rulesFor (e : Engine) (path : Path) : List Rule :=
  e.rules.filter fun r => !e.config.ignores r.id path

/-- Whether it can be said which rules are in use for a path. Where it cannot, checking a unit
breaks off, and neither `checkUnit` nor `checkUnits` stands for what happens. -/
def canChooseRules (e : Engine) : Bool := e.rules.isEmpty || e.config.patternsAreShallow

/-- The calls of a unit, each with every rule in use there, in the order in which they are asked. -/
def pairs (e : Engine) (u : SourceUnit) : List (Expr × Rule) :=
  let rules := e.rulesFor u.path
  u.callSites.flatMap fun call => rules.map fun r => (call, r)

/-- Whether a finding is listed no later than another one. -/
def listedBefore (a b : Diagnostic) : Bool :=
  ((compare a.span b.span).then (compare a.rule b.rule)).isLE

/-- Counts one evaluation. The engine has no clock, so no time is added. -/
def count (timings : Timings) (r : Rule) (outcome : Outcome) : Timings :=
  let hits := BatchReport.one outcome.finding?.isSome
  timings.alter r.id fun old => (old.getD (.start r.id)).add ⟨r.id, 0, 1, hits⟩

/-- Takes down what came of asking a rule about a call of a unit. -/
def note (u : SourceUnit) (report : UnitReport) (r : Rule) (outcome : Outcome) : UnitReport :=
  let report := { report with timings := count report.timings r outcome }
  match outcome with
  | .ok (some d) => { report with diagnostics := report.diagnostics ++ [d.locate u.path u.source] }
  | .ok none => report
  | .error cause => { report with defects := report.defects ++ [cause] }

/-- Visits a node of a unit: if it is a call, all rules in use are asked about it. -/
def visit (e : Engine) (u : SourceUnit) (rules : List Rule) (report : UnitReport) (node : Expr) :
    UnitReport :=
  if node.kind = .methodCall then
    rules.foldl (fun report r => note u report r (e.evaluate r node u.environment))
      { report with callSites := report.callSites + 1 }
  else report

/-- Visits all nodes of a unit, tree by tree. The findings come in the order of the visits. -/
def walk (e : Engine) (u : SourceUnit) : UnitReport :=
  let rules := e.rulesFor u.path
  u.trees.foldl (fun report tree => tree.descendants.foldl (e.visit u rules) report) (.start u.path)

/-- Checks all calls of a unit, and lists the findings in the order of their spans. This report is
made only where `canChooseRules` holds; otherwise the check breaks off without one. -/
def checkUnit (e : Engine) (u : SourceUnit) : UnitReport :=
  let report := e.walk u
  { report with diagnostics := report.diagnostics.mergeSort listedBefore }

/-- Checks all units of a batch. As for one unit, the report is made only where `canChooseRules`
holds. -/
def checkUnits (e : Engine) (units : List SourceUnit) : BatchReport :=
  units.foldl (fun b u => b.merge (BatchReport.empty.addReport (e.checkUnit u))) .empty

end Engine

end CallLint
