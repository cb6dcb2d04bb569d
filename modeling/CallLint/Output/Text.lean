import CallLint.Output.Style
import CallLint.Report.Batch

/-!
# Reports for people

A report as text: the findings file by file, each with its line of source and a row of carets under
the place, then the defects, and some numbers.

* `TextReport.renderDiagnostic`: one finding, where `TextReport.hasRoomFor` says that it can be
  drawn.
* `TextReport.render?`: a whole report.
-/

namespace CallLint

/-- What a text report shows. -/
structure TextReport where
  colored : Bool
  showSource : Bool
  showHelp : Bool
  showFixes : Bool
  showStatistics : Bool
  showTimings : Bool
deriving DecidableEq, Repr

namespace TextReport

/-- Everything but timings, in colours. -/
def standard : TextReport := ⟨true, true, true, true, true, false⟩

instance : Inhabited TextReport := ⟨standard⟩

/-- A text in a style, if the report is coloured. -/
def paint (t : TextReport) (s : Style) (text : String) : String := s.paintIf t.colored text

/-- The bar beside a line of source. -/
def bar (t : TextReport) : String := t.paint (.ofColor .blue) "|"

/-- The sign in front of a remark. -/
def sign (t : TextReport) : String := t.paint (.ofColor .blue) "="

/-- The style of a severity. -/
def severityStyle : Severity → Style
  | .error => .boldColor .red
  | .warning => .boldColor .yellow
  | .info => .ofColor .blue

/-! ## Findings -/

/-- The first line of a finding. -/
def renderHead (t : TextReport) (d : Diagnostic) : String :=
  let severity := t.paint (severityStyle d.severity) d.severity.word
  let rule := t.paint (.ofColor .cyan) d.rule
  s!"{d.location.render}: {severity}[{rule}]: {d.message}\n"

/-- The row of carets under the place of a finding. -/
def renderCarets (t : TextReport) (l : Location) : String :=
  let blanks := "".pushn ' ' (l.column - 1)
  let carets := t.paint (.ofColor .red) ("".pushn '^' (max l.length 1))
  s!"     {t.bar} {blanks}{carets}\n"

/-- The line of source of a finding. -/
def renderSource (t : TextReport) (l : Location) (line : String) : String :=
  let number := t.paint (.ofColor .blue) (Text.padLeft 4 (toString l.line))
  s!"     {t.bar}\n{number} {t.bar} {line}\n"
    ++ if 0 < l.column then t.renderCarets l else ""

/-- What a fix is called, by how far it may be trusted. -/
def fixMark (t : TextReport) : Safety → String
  | .safe => t.paint (.ofColor .green) "fix"
  | .risky => t.paint (.ofColor .yellow) "unsafe fix"
  | .displayOnly => t.paint .plain "suggestion"

/-- A fix, with what the call turns into and the imports that come with it. -/
def renderFix (t : TextReport) (fix : FixPlan) : String :=
  let sign := t.paint (.ofColor .green) "="
  let preview := t.paint (.ofColor .green) fix.preview
  let imports := fix.imports.toList.map fun name => s!"   {sign} adds: import {name};\n"
  s!"   {sign} {t.fixMark fix.safety}: {fix.description} -> {preview}\n" ++ .join imports

/-- The remark on a finding that is left to a person. -/
def renderReview (t : TextReport) : String :=
  let remark := t.paint (.ofColor .yellow) "requires review: no automatic fix"
  s!"   {t.sign} {remark}\n"

/-- A finding. -/
def renderDiagnostic (t : TextReport) (d : Diagnostic) : String :=
  let part {α : Type} (shown : Bool) (value : Option α) (render : α → String) : String :=
    if shown then (value.map render).getD "" else ""
  t.renderHead d
    ++ part t.showSource d.sourceLine (t.renderSource d.location)
    ++ part t.showHelp d.help (fun help => s!"   {t.sign} help: {help}\n")
    ++ part t.showFixes d.fix t.renderFix
    ++ (if d.requiresReview then t.renderReview else "")
    ++ .join (d.notes.map fun note => s!"   {t.sign} note: {note}\n")

/-- The most signs that stand next to each other in a row of carets. -/
def maxRow : Nat := Nat.pow 2 63 - 1

/-- Whether a finding can be drawn: neither the blanks nor the carets under its line of source, if
these are shown, are more than a row holds. -/
def hasRoomFor (t : TextReport) (d : Diagnostic) : Bool :=
  let drawn := t.showSource && d.sourceLine.isSome && 0 < d.location.column
  !drawn || (d.location.column - 1 ≤ maxRow && d.location.length ≤ maxRow)

/-! ## Reports -/

/-- Findings by file. -/
def byFile (ds : List Diagnostic) : SortedMap Path (List Diagnostic) :=
  ds.foldl (fun m d => m.alter d.location.file fun found => found.getD [] ++ [d]) ∅

/-- The findings of a file under its name. -/
def renderFile (t : TextReport) (file : Path) (ds : List Diagnostic) : String :=
  t.paint .underline file.text ++ "\n" ++ .join (ds.map fun d => t.renderDiagnostic d ++ "\n") ++
    "\n"

/-- A defect on a line of its own. -/
def renderDefect (t : TextReport) (d : Defect) : String :=
  let title := t.paint (.boldColor .magenta) "engine defect"
  s!"{d.file.text}: {title}: {d.error.message}\n"

/-- A number with a noun. -/
def counted (n : Nat) (one many : String) : String :=
  toString n ++ " " ++ if n = 1 then one else many

/-- A number with a noun in a colour, unless it is zero. -/
def countedIn (t : TextReport) (color : Color) (n : Nat) (one many : String) : List String :=
  if n = 0 then [] else [t.paint (.ofColor color) (counted n one many)]

/-- The numbers of a report. -/
def renderStatistics (t : TextReport) (b : BatchReport) : String :=
  let counts := t.countedIn .red b.errors "error" "errors"
    ++ t.countedIn .yellow b.warnings "warning" "warnings"
    ++ t.countedIn .blue b.infos "info" "infos"
    ++ t.countedIn .magenta b.defects.length "defect" "defects"
  let fixable := b.diagnostics.countP (·.hasFix)
  let review := b.diagnostics.countP (·.requiresReview)
  "\n" ++ counted b.files "unit" "units" ++ " processed, "
    ++ counted b.callSites "call site" "call sites" ++ " evaluated"
    ++ (if counts.isEmpty then "" else ": " ++ ", ".intercalate counts) ++ "\n"
    ++ (if 0 < fixable || 0 < review then s!"{fixable} fixable, {review} need review\n" else "")
    ++ "Finished in " ++ Decimal.twoPlaces (seconds b.nanos) ++ "s\n"

/-- The timings, if they are shown and there are any. -/
def renderTimings? (t : TextReport) (b : BatchReport) : Option String :=
  if t.showTimings && !b.timings.isEmpty then (timingTable? b.timings).map ("\n" ++ ·) else some ""

/-- A report; none if a finding cannot be drawn, or if its timings have no mean. -/
def render? (t : TextReport) (b : BatchReport) : Option String := do
  guard (b.diagnostics.all t.hasRoomFor)
  let files := (byFile b.diagnostics).toList.map fun (file, ds) => t.renderFile file ds
  let timings ← t.renderTimings? b
  return .join files ++ .join (b.defects.map t.renderDefect)
    ++ (if t.showStatistics then t.renderStatistics b else "") ++ timings

end TextReport

end CallLint
