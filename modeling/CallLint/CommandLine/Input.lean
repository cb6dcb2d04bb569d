import CallLint.Codec.Syntax
import CallLint.CommandLine.Arguments
import CallLint.Config.Load
import CallLint.FilePattern.Expand

/-!
# Input of a run

The configuration of a run and the units that it checks. A unit file holds one unit or a list of
them; a unit without a path has the path of its file, and one without a text has the text of the
file at its path.

* `Input.config`, `Input.units`: what a run starts with.
* `RunFailure.message`: why a run cannot go on, in words.
-/

namespace CallLint

/-- Why a run cannot go on. -/
inductive RunFailure where
  /-- There is no configuration; the path is that of the file asked for. -/
  | config (path : Option Path) (cause : ConfigError)
  | unknownRule (id : String)
  | noPatterns
  | noUnits
  | badPattern (pattern : String) (cause : PatternError)
  | unreadableUnits (path : Path) (cause : AccessError)
  | malformedUnits (path : Path)
  | unreadableSource (path : Path) (cause : AccessError)
  | unwritable (path : Path) (cause : AccessError)
deriving DecidableEq, Repr

namespace RunFailure

/-- A failure and what is behind it. -/
def chain : RunFailure → List String
  | .config none cause => "Failed to load config" :: cause.chain
  | .config (some path) cause => s!"Failed to load config {path.text}" :: cause.chain
  | .unknownRule id => [s!"Rule '{id}' not found (use --list-rules to see all rules)"]
  | .noPatterns => ["No input files given"]
  | .noUnits => ["No compilation units found"]
  | .badPattern pattern cause => [s!"Invalid pattern '{pattern}'", cause.message]
  | .unreadableUnits path cause => [s!"Failed to read {path.text}", cause.message]
  | .malformedUnits path =>
    [s!"Failed to parse compilation unit {path.text}", "neither a unit nor a list of units"]
  | .unreadableSource path cause => [s!"Failed to read source {path.text}", cause.message]
  | .unwritable path cause => [s!"Failed to write {path.text}", cause.message]

/-- A failure in words. -/
def message (f : RunFailure) : String := ": ".intercalate f.chain

end RunFailure

namespace Input

/-- The configuration of a run. -/
def config (fs : FileSystem) (a : Arguments) : Except RunFailure Config := do
  let found := match a.config with
    | some path => Config.load fs path
    | none => Config.loadDefault fs
  match found with
  | .ok c => return c.override a.overrides
  | .error cause => throw (.config a.config cause)

/-- The units that a text holds. -/
def decodeUnits? (text : String) : Option (List SourceUnit) := do
  let v ← Json.ofText? text
  (listOf? SourceUnit.decode? v).or ((SourceUnit.decode? v).map ([·]))

/-- The path of a unit. It is read from the directory of its file, unless the working directory has
it. -/
def placedPath (fs : FileSystem) (file path : Path) : Path :=
  if path.isEmpty then file
  else if !path.isAbsolute && !fs.holds path then (file.parent?.getD ⟨"."⟩).join path
  else path

/-- A unit with its path and its text. -/
def placeUnit (fs : FileSystem) (file : Path) (u : SourceUnit) : Except RunFailure SourceUnit := do
  let path := placedPath fs file u.path
  if !u.source.isEmpty then return { u with path }
  match fs.read path with
  | .ok source => return { u with path, source }
  | .error cause => throw (.unreadableSource path cause)

/-- The units of a file. -/
def unitsOf (fs : FileSystem) (file : Path) : Except RunFailure (List SourceUnit) := do
  match fs.read file with
  | .error cause => throw (.unreadableUnits file cause)
  | .ok text =>
    match decodeUnits? text with
    | none => throw (.malformedUnits file)
    | some units => units.mapM (placeUnit fs file)

/-- A pattern for input files. -/
def pattern (s : String) : Except RunFailure FilePattern :=
  match FilePattern.parse s with
  | .ok p => .ok p
  | .error cause => .error (.badPattern s cause)

/-- The units that a run checks. -/
def units (fs : FileSystem) (a : Arguments) : Except RunFailure (List SourceUnit) := do
  if a.patterns.isEmpty then throw .noPatterns
  let patterns ← a.patterns.mapM pattern
  let units ← (FilePattern.files fs patterns).mapM (unitsOf fs)
  if units.flatten.isEmpty then throw .noUnits
  return units.flatten

end Input

end CallLint
