import CallLint.Codec.Config
import CallLint.FileSystem
import CallLint.Json.Reader
import CallLint.Yaml.Format

/-!
# Configuration files

A configuration is read from a file in one of two formats, which its extension tells. A file may be
based on others: they are read first and merged one after the other, and the file itself comes last.

* `Config.load`: the configuration of a file, with all that it is based on.
* `Config.loadDefault`: that of the first file with a usual name.
-/

namespace CallLint

/-- Why a configuration cannot be had. -/
inductive ConfigError where
  | unreadable (cause : AccessError)
  | malformedYaml
  | malformedJson
  /-- Configurations are based on each other in too long a chain. -/
  | tooDeep
  | unknownFormat (extension : String)
deriving DecidableEq, Repr

namespace ConfigError

/-- A failure in words. -/
def message : ConfigError → String
  | .unreadable cause => s!"IO error: {cause.message}"
  | .malformedYaml => "YAML parse error: not a configuration"
  | .malformedJson => "JSON parse error: not a configuration"
  | .tooDeep => "Invalid configuration: Maximum config inheritance depth exceeded"
  | .unknownFormat extension => s!"Invalid configuration: Unknown config file format: {extension}"

/-- A failure and what is behind it. -/
def chain : ConfigError → List String
  | .unreadable cause => [message (.unreadable cause), cause.message]
  | e => [e.message]

end ConfigError

namespace Config

/-- How many files a chain of configurations may have. -/
def maxChain : Nat := 10

/-- Reads the text of a configuration file in the format that its extension tells. -/
def ofText (extension text : String) : Except ConfigError Config :=
  if extension = "yaml" || extension = "yml" then
    match ((Yaml.Document.parse? text).bind (·.view? outline)).bind decode? with
    | some c => .ok c
    | none => .error .malformedYaml
  else if extension = "json" then
    match (Json.ofTextFor? (.within outline) text).bind decode? with
    | some c => .ok c
    | none => .error .malformedJson
  else .error (.unknownFormat extension)

/-- Reads one configuration file, without those that it is based on. -/
def loadAlone (fs : FileSystem) (path : Path) : Except ConfigError Config := do
  match fs.read path with
  | .error cause => throw (.unreadable cause)
  | .ok text => ofText path.extension text

/-- The path of a file that the configuration at a path is based on. -/
def basePath (path : Path) (base : String) : Path := (path.parent?.getD ⟨"."⟩).join ⟨base⟩

/-- Reads a configuration file in a chain that may have so many more files. -/
def loadWithin (fs : FileSystem) : Nat → Path → Except ConfigError Config
  | 0, _ => .error .tooDeep
  | files + 1, path => do
    let c ← loadAlone fs path
    if c.bases.isEmpty then return c
    let below ← c.bases.mapM fun base => loadWithin fs files (basePath path base)
    return (below.foldl merge standard).merge c

/-- Reads a configuration file and those that it is based on. -/
def load (fs : FileSystem) (path : Path) : Except ConfigError Config := loadWithin fs maxChain path

/-- The usual names of configuration files, the preferred ones first. -/
def usualNames : List String :=
  [".sitefixrc.yaml", ".sitefixrc.yml", ".sitefixrc.json", "sitefix.yaml", "sitefix.yml",
    "sitefix.json"]

/-- The usual places of configuration files: first the working directory, then that of the user. -/
def usualPaths (fs : FileSystem) : List Path :=
  usualNames.map (⟨·⟩)
    ++ fs.home.toList.flatMap fun home => usualNames.map fun name => home.join ⟨name⟩

/-- Reads the first configuration file in a usual place; without any, the standard settings hold. -/
def loadDefault (fs : FileSystem) : Except ConfigError Config :=
  match (usualPaths fs).find? fs.holds with
  | some path => load fs path
  | none => .ok standard

end Config

end CallLint
