import CallLint.CommandLine.Input
import CallLint.Engine
import CallLint.Fixer.Basic
import CallLint.Output.Json
import CallLint.Output.RuleText

/-!
# Runs

A run checks the units that its arguments name, reports what it finds, and shows or applies fixes.
It does so on files that are given as a value: what it leaves is part of its result.

* `Run.ofArguments`: a run from its arguments to its exit code.
* `Run.perform`: the same once the arguments have been read.
* `Run.writeAll`: the only place where files change.
-/

namespace CallLint

/-- What a run leaves. -/
structure Run where
  code : Nat
  /-- The text for the standard output. -/
  output : String
  /-- The text for the error output. -/
  messages : String
  files : FileSystem
deriving Repr

namespace Run

/-- The name and the version of the program. -/
def versionText : String := "sitefix 0.1.0\n"

/-- How the program is used. -/
def usageText : String :=
  "Usage: sitefix [OPTIONS] [FILES]...\n"

/-- The exit code of a run that cannot go on. -/
def failureCode : Nat := 2

/-- The exit code of a run that breaks off. -/
def abortCode : Nat := 101

/-- Adds the message of a failure, which ends a run. -/
def fail (r : Run) (colored : Bool) (f : RunFailure) : Run :=
  let title := (Style.boldColor .red).paintIf colored "error"
  { r with code := failureCode, messages := r.messages ++ s!"{title}: {f.message}\n" }

/-- Breaks a run off. Nothing more is said, and the words of the system about it are left out. -/
def abort (r : Run) : Run := { r with code := abortCode }

/-- Adds text to the standard output. -/
def print (r : Run) (s : String) : Run := { r with output := r.output ++ s }

/-- Adds a line to the error output. -/
def warn (r : Run) (s : String) : Run := { r with messages := r.messages ++ s ++ "\n" }

/-- Whether the output of a run has colours. -/
def isColored (c : Config) (a : Arguments) (terminal : Bool) : Bool :=
  !a.noColor && match c.output.color with
    | .never => false
    | .always => true
    | .auto => terminal

/-! ## Fixes -/

/-- The fixer that the arguments ask for, with the fixes of some findings. -/
def fixer (a : Arguments) (findings : List Diagnostic) : Fixer :=
  let mode : FixMode := if a.showFixes then .showOnly else if a.diff then .diff else .safeOnly
  ((Fixer.empty.withMode mode).withRisky a.includeRisky).collect findings

/-- Whether the new texts are written. -/
def writes (a : Arguments) : Bool := a.write && !a.diff && !a.showFixes

/-- Writes new texts one after the other, up to the first one that cannot be written. -/
def writeAll (fs : FileSystem) : List (Path × String) → FileSystem × Option RunFailure
  | [] => (fs, none)
  | (path, text) :: rest =>
    match fs.write path text with
    | .ok fs => writeAll fs rest
    | .error cause => (fs, some (.unwritable path cause))

/-- The last lines on fixes: those that were left out, and the findings left to a person. -/
def remarks (o : FixOutcome) : List String :=
  (if 0 < o.skipped then
      [s!"{o.skipped} unsafe fix(es) skipped (use --unsafe-fixes to include)"] else [])
    ++ if 0 < o.needsReview then [s!"{o.needsReview} finding(s) need manual review"] else []

/-- Shows or applies the fixes of some findings. A file that cannot be written ends the run. -/
def applyFixes (r : Run) (a : Arguments) (colored : Bool) (units : List SourceUnit)
    (findings : List Diagnostic) : Except Run Run :=
  let f := fixer a findings
  let o := f.applyAll units
  let title := (Style.boldColor .yellow).paintIf colored "warning"
  let r := o.failures.foldl (fun r failure => r.warn s!"{title}: {failure.message}") r
  let finish := fun (r : Run) => (remarks o).foldl warn r
  let counts := s!"{o.applied} issue(s) in {o.filesModified} file(s)"
  if a.showFixes then .ok (finish (r.print f.renderPending))
  else if a.diff then .ok (finish (r.print o.renderDiffs))
  else if writes a then
    match writeAll r.files o.outputs.toList with
    | (files, none) => .ok (finish ({ r with files }.warn s!"Fixed {counts}"))
    | (files, some failure) => .error ({ r with files }.fail colored failure)
  else .ok (finish (r.warn s!"Would fix {counts} (use --write to apply)"))

/-! ## Rules -/

/-- The rules of an engine as the configuration wants them written. -/
def ruleList (e : Engine) (colored : Bool) : String :=
  match e.config.output.format with
  | .json => (Json.list (e.rules.map (·.info.encode))).pretty ++ "\n"
  | .text => RuleText.renderList colored (e.rules.map fun r => (r.info, e.effectiveSeverity r))

/-! ## Whole runs -/

/-- The exit code that the findings lead to. -/
def exitCode (a : Arguments) (b : BatchReport) : Nat :=
  if a.exitZero && !b.hasDefects then 0 else b.exitCode

/-- What an engine finds, as a text. There is none if it cannot be said which rules are in use, or
if the report has an average that cannot be computed. -/
def report? (e : Engine) (colored : Bool) (b : BatchReport) : Option String :=
  if e.canChooseRules then (Reporter.ofSettings e.config.output colored).render? b else none

/-- Goes on from what has been found to the fixes, and to the exit code. -/
def conclude (r : Run) (a : Arguments) (colored : Bool) (units : List SourceUnit)
    (b : BatchReport) : Run :=
  let fixed := if a.fix || a.diff || a.showFixes then r.applyFixes a colored units b.diagnostics
    else .ok r
  match fixed with
  | .ok r => { r with code := exitCode a b }
  | .error r => r

/-- Checks the units of a run, reports what is found, and goes on to the fixes. -/
def check (r : Run) (a : Arguments) (e : Engine) (colored : Bool) (units : List SourceUnit) : Run :=
  let b := e.checkUnits units
  match report? e colored b with
  | none => r.abort
  | some text => (r.print text).conclude a colored units b

/-- A run with an engine: it describes one rule, or lists all, or checks units. -/
def withEngine (r : Run) (a : Arguments) (e : Engine) (colored : Bool) : Run :=
  match a.explain with
  | some id =>
    match builtinRule? e.config id with
    | some rule => r.print (RuleText.renderDetails colored rule.info)
    | none => r.fail colored (.unknownRule id)
  | none =>
    if a.listRules then r.print (ruleList e colored)
    else match Input.units r.files a with
      | .ok units => r.check a e colored units
      | .error f => r.fail colored f

/-- A run on some files. The last argument says whether the output goes to a terminal. -/
def perform (fs : FileSystem) (a : Arguments) (terminal : Bool) : Run :=
  let r : Run := ⟨0, "", "", fs⟩
  match Input.config fs a with
  | .error f => r.fail (terminal && !a.noColor) f
  | .ok c => r.withEngine a (Engine.ofConfig c) (isColored c a terminal)

/-- A run from its arguments. -/
def ofArguments (fs : FileSystem) (arguments : List String) (terminal : Bool) : Run :=
  match Arguments.parse arguments with
  | .ok a => perform fs a terminal
  | .error .version => ⟨0, versionText, "", fs⟩
  | .error .help => ⟨0, usageText, "", fs⟩
  | .error .usage => ⟨failureCode, "", usageText, fs⟩

end Run

end CallLint
