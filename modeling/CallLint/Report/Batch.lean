import CallLint.Diagnostic
import CallLint.Report.Timing

/-!
# Reports

What the evaluation of the rules on one unit, or on many, has come to. The report of a batch counts
as it goes; a batch takes in the report of one unit more, or another batch.

* `BatchReport.addReport`, `BatchReport.merge`: how batches grow.
* `BatchReport.exitCode`: defects weigh more than errors, errors more than warnings.
-/

namespace CallLint

/-- What was found in one unit. -/
structure UnitReport where
  file : Path
  diagnostics : List Diagnostic
  /-- The failed evaluations. -/
  defects : List RuleError
  callSites : Nat
  timings : Timings
deriving DecidableEq, Repr

/-- The report of a unit before any call has been looked at. -/
def UnitReport.start (file : Path) : UnitReport := ⟨file, [], [], 0, ∅⟩

/-- A failed evaluation and the file where it happened. -/
structure Defect where
  file : Path
  error : RuleError
deriving DecidableEq, Repr

/-- What was found in a batch of units. -/
structure BatchReport where
  diagnostics : List Diagnostic
  defects : List Defect
  files : Nat
  filesWithErrors : Nat
  filesWithWarnings : Nat
  callSites : Nat
  errors : Nat
  warnings : Nat
  infos : Nat
  /-- How long it took, in nanoseconds. -/
  nanos : Nat
  timings : Timings
deriving DecidableEq, Repr

namespace BatchReport

/-- The report of no units. -/
def empty : BatchReport := ⟨[], [], 0, 0, 0, 0, 0, 0, 0, 0, ∅⟩

instance : Inhabited BatchReport := ⟨empty⟩

/-- The timings of both, rule by rule. -/
def mergeTimings (s t : Timings) : Timings :=
  s.mergeWith (fun old new => (old.getD (.start new.rule)).add new) t

/-- One if a condition holds, zero otherwise. -/
def one (b : Bool) : Nat := if b then 1 else 0

/-- The batch with one more unit. -/
def addReport (b : BatchReport) (r : UnitReport) : BatchReport :=
  let errors := r.diagnostics.countP (·.isError)
  let warnings := r.diagnostics.countP (·.isWarning)
  { diagnostics := b.diagnostics ++ r.diagnostics
    defects := b.defects ++ r.defects.map (⟨r.file, ·⟩)
    files := b.files + 1
    filesWithErrors := b.filesWithErrors + one (0 < errors)
    filesWithWarnings := b.filesWithWarnings + one (0 < warnings)
    callSites := b.callSites + r.callSites
    errors := b.errors + errors
    warnings := b.warnings + warnings
    infos := b.infos + (r.diagnostics.length - errors - warnings)
    nanos := b.nanos
    timings := mergeTimings b.timings r.timings }

/-- Both batches; the time stays that of the first one. -/
def merge (a b : BatchReport) : BatchReport where
  diagnostics := a.diagnostics ++ b.diagnostics
  defects := a.defects ++ b.defects
  files := a.files + b.files
  filesWithErrors := a.filesWithErrors + b.filesWithErrors
  filesWithWarnings := a.filesWithWarnings + b.filesWithWarnings
  callSites := a.callSites + b.callSites
  errors := a.errors + b.errors
  warnings := a.warnings + b.warnings
  infos := a.infos + b.infos
  nanos := a.nanos
  timings := mergeTimings a.timings b.timings

/-- Whether there are errors. -/
def hasErrors (b : BatchReport) : Bool := 0 < b.errors

/-- Whether there are warnings. -/
def hasWarnings (b : BatchReport) : Bool := 0 < b.warnings

/-- Whether an evaluation failed. -/
def hasDefects (b : BatchReport) : Bool := !b.defects.isEmpty

/-- Whether there are no errors, no warnings and no failed evaluations. -/
def isClean (b : BatchReport) : Bool := b.errors = 0 && b.warnings = 0 && b.defects.isEmpty

/-- The code that a run ends with. -/
def exitCode (b : BatchReport) : Nat :=
  if b.hasDefects then 3 else if b.hasErrors then 2 else if b.hasWarnings then 1 else 0

end BatchReport

end CallLint
