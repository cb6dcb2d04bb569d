import CallLint.Codec.Diagnostic
import CallLint.Config.Basic
import CallLint.Output.Text

/-!
# Reports for machines

A report as a Json value, on one line or on many, and the choice between it and a text report.

* `Reporter.ofSettings`: the kind of report that a configuration asks for.
* `Reporter.render?`: the report.
-/

namespace CallLint

namespace JsonReport

/-- A field that is left out under a condition. -/
def fieldUnless (omitted : Bool) (name : String) (v : Json) : List (String × Json) :=
  if omitted then [] else [(name, v)]

/-- A field that is left out if it has no value. -/
def fieldOf? (name : String) (v : Option Json) : List (String × Json) := (v.map (name, ·)).toList

/-- A fix; an empty set of imports is left out. -/
def ofPlan (p : FixPlan) : Json :=
  .object ([("description", .text p.description), ("safety", p.safety.encode),
    ("edits", .list (p.edits.map Edit.encode))]
      ++ fieldUnless p.imports.isEmpty "imports" (encodeTextSet p.imports))

/-- A finding; what is missing is left out. -/
def ofDiagnostic (d : Diagnostic) : Json :=
  .object ([("rule_id", .text d.rule), ("severity", d.severity.encode),
    ("message", .text d.message),
    ("file", .text d.location.file.text), ("line", .nat d.location.line),
    ("column", .nat d.location.column), ("length", .nat d.location.length),
    ("start", .nat d.span.start), ("end", .nat d.span.stop)]
      ++ fieldOf? "source_line" (d.sourceLine.map .text)
      ++ fieldOf? "help" (d.help.map .text)
      ++ fieldOf? "fix" (d.fix.map ofPlan)
      ++ [("requires_review", .bool d.requiresReview)]
      ++ fieldUnless d.notes.isEmpty "notes" (.list (d.notes.map .text)))

/-- A defect. -/
def ofDefect (d : Defect) : Json :=
  .object [("file", .text d.file.text), ("error", .text d.error.message)]

/-- The nanoseconds of a millisecond. -/
def nanosPerMilli : Nat := 1000000

/-- The numbers of a report. -/
def summary (b : BatchReport) : Json :=
  .object [("files_processed", .nat b.files), ("files_with_errors", .nat b.filesWithErrors),
    ("files_with_warnings", .nat b.filesWithWarnings), ("call_sites", .nat b.callSites),
    ("error_count", .nat b.errors), ("warning_count", .nat b.warnings),
    ("info_count", .nat b.infos),
    ("defect_count", .nat b.defects.length), ("duration_ms", .nat (b.nanos / nanosPerMilli))]

/-- A report. -/
def ofBatch (b : BatchReport) : Json :=
  .object [("diagnostics", .list (b.diagnostics.map ofDiagnostic)),
    ("defects", .list (b.defects.map ofDefect)), ("summary", summary b)]

end JsonReport

/-- A way to write reports. -/
inductive Reporter where
  | text (t : TextReport)
  | json (pretty : Bool)
deriving DecidableEq, Repr

namespace Reporter

/-- The reporter that a configuration asks for. -/
def ofSettings (s : OutputSettings) (colored : Bool) : Reporter :=
  match s.format with
  | .text =>
    .text { TextReport.standard with
      colored, showStatistics := s.statistics, showTimings := s.verbose }
  | .json => .json s.verbose

/-- A value on one line or on many. -/
def write (pretty : Bool) (v : Json) : String := if pretty then v.pretty else v.compact

/-- A report; none if it is a text that cannot be written. -/
def render? (r : Reporter) (b : BatchReport) : Option String :=
  match r with
  | .text t => t.render? b
  | .json pretty => some (write pretty (JsonReport.ofBatch b))

/-- A finding; none if it is a text that cannot be drawn. -/
def renderDiagnostic? (r : Reporter) (d : Diagnostic) : Option String :=
  match r with
  | .text t => if t.hasRoomFor d then some (t.renderDiagnostic d) else none
  | .json pretty => some (write pretty (JsonReport.ofDiagnostic d))

end Reporter

end CallLint
