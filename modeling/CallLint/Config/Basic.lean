import CallLint.Fix.Parens
import CallLint.Glob.Depth
import CallLint.Path
import CallLint.Severity
import CallLint.Sorted.Map

/-!
# Configurations

What a run is to do: how to work, how to report, which rules to use, and how fixes are written. A
configuration may be based on others, and is then merged into them.

* `Config.merge`: settings that differ from the standard ones win.
* `Config.isEnabled`, `Config.severityOf?`, `Config.ignores`: what a configuration says about one
  rule.
-/

namespace CallLint

/-- How results are written. -/
inductive OutputFormat where
  | text
  | json
deriving DecidableEq, Repr

namespace OutputFormat

instance : Inhabited OutputFormat := ⟨.text⟩

/-- All formats. -/
def all : List OutputFormat := [.text, .json]

/-- The word for a format. -/
def word : OutputFormat → String
  | .text => "text"
  | .json => "json"

/-- The format that a word names, in capitals or small letters. -/
def parse? (s : String) : Option OutputFormat := all.find? (·.word = Text.smallLetters s)

end OutputFormat

/-- When output is coloured. -/
inductive ColorMode where
  | auto
  | always
  | never
deriving DecidableEq, Repr

namespace ColorMode

instance : Inhabited ColorMode := ⟨.auto⟩

/-- All modes. -/
def all : List ColorMode := [.auto, .always, .never]

/-- The word for a mode. -/
def word : ColorMode → String
  | .auto => "auto"
  | .always => "always"
  | .never => "never"

end ColorMode

/-- How a run works. -/
structure EngineSettings where
  parallel : Bool
  /-- How many units are checked at once; zero lets the machine decide. -/
  jobs : Nat
deriving DecidableEq, Repr

/-- How a run reports. -/
structure OutputSettings where
  format : OutputFormat
  color : ColorMode
  verbose : Bool
  statistics : Bool
deriving DecidableEq, Repr

/-- Which rules are used. -/
structure RuleSettings where
  disabled : List String
  /-- The rules in use; all of them if none is named. -/
  enabled : List String
  /-- The severities that rules report with. -/
  severity : SortedMap String Severity
  /-- For patterns of paths the rules that are not used there; `all` stands for every rule. -/
  perFile : SortedMap String (List String)
deriving DecidableEq, Repr

/-- How fixes are written. -/
structure FixSettings where
  /-- The full name of the class that narrows numbers without wrapping around. -/
  helper : String
  /-- The static method of that class. -/
  method : String
  parens : ParenPolicy
deriving DecidableEq, Repr

instance : Inhabited EngineSettings := ⟨⟨true, 0⟩⟩
instance : Inhabited OutputSettings := ⟨⟨.text, .auto, false, true⟩⟩
instance : Inhabited RuleSettings := ⟨⟨[], [], ∅, ∅⟩⟩
instance : Inhabited FixSettings :=
  ⟨⟨"com.google.common.primitives.Ints", "saturatedCast", .standard⟩⟩

/-- A configuration. -/
structure Config where
  /-- The files that the configuration is based on. -/
  bases : List String
  engine : EngineSettings
  output : OutputSettings
  rules : RuleSettings
  fix : FixSettings
deriving DecidableEq, Repr

namespace Config

/-- The configuration that holds when nothing is configured. -/
def standard : Config := ⟨[], default, default, default, default⟩

instance : Inhabited Config := ⟨standard⟩

/-! ## Merging -/

/-- The second value, unless it is the usual one. -/
def orUsual {α : Type} [DecidableEq α] (usual : α) (old new : α) : α :=
  if new = usual then old else new

/-- A configuration on top of another one. Values that are not the standard ones win, disabled rules
and ignored rules add up, and a list of enabled rules replaces the one before. -/
def merge (c d : Config) : Config where
  bases := c.bases
  engine :=
    { parallel := orUsual true c.engine.parallel d.engine.parallel
      jobs := orUsual 0 c.engine.jobs d.engine.jobs }
  output :=
    { format := orUsual .text c.output.format d.output.format
      color := orUsual .auto c.output.color d.output.color
      verbose := orUsual false c.output.verbose d.output.verbose
      statistics := orUsual true c.output.statistics d.output.statistics }
  rules :=
    { disabled := c.rules.disabled ++ d.rules.disabled
      enabled := orUsual [] c.rules.enabled d.rules.enabled
      severity := c.rules.severity.mergeWith (fun _ new => new) d.rules.severity
      perFile := c.rules.perFile.mergeWith (fun old new => old.getD [] ++ new) d.rules.perFile }
  fix :=
    { helper := orUsual (default : FixSettings).helper c.fix.helper d.fix.helper
      method := orUsual (default : FixSettings).method c.fix.method d.fix.method
      parens := orUsual (default : FixSettings).parens c.fix.parens d.fix.parens }

/-- Settings that are given when a run is started. -/
structure Overrides where
  format : Option OutputFormat
  verbose : Option Bool
  jobs : Option Nat
  disabled : Option (List String)
  enabled : Option (List String)
deriving DecidableEq, Repr

/-- The configuration with the settings that are given. Unlike in merging, a given value always
wins. -/
def override (c : Config) (o : Overrides) : Config :=
  { c with
    engine := { c.engine with jobs := o.jobs.getD c.engine.jobs }
    output :=
      { c.output with
        format := o.format.getD c.output.format
        verbose := o.verbose.getD c.output.verbose }
    rules :=
      { c.rules with
        disabled := c.rules.disabled ++ o.disabled.getD []
        enabled := o.enabled.getD c.rules.enabled } }

/-! ## Rules -/

/-- Whether a rule is used at all. -/
def isEnabled (c : Config) (rule : String) : Bool :=
  !c.rules.disabled.contains rule
    && (c.rules.enabled.isEmpty || c.rules.enabled.contains rule)

/-- The severity that a rule is made to report with. -/
def severityOf? (c : Config) (rule : String) : Option Severity := c.rules.severity.get? rule

/-- Whether a pattern fits a path. A malformed pattern fits none. -/
def patternFits (pattern : String) (path : Path) : Bool :=
  (Glob.Pattern.ofString? pattern).any (·.fits path.text)

/-- Whether a rule is not used for a path. It can be said only where `patternsAreShallow` holds: a
pattern that nests too deep has no answer, and what asks for one breaks off. -/
def ignores (c : Config) (rule : String) (path : Path) : Bool :=
  c.rules.perFile.toList.any fun (pattern, rules) =>
    patternFits pattern path && (rules.contains "all" || rules.contains rule)

/-- Whether no pattern nests deeper than patterns may. Only then can it be said which rules are used
for a path. -/
def patternsAreShallow (c : Config) : Bool :=
  c.rules.perFile.keys.all fun pattern => (Glob.Pattern.ofString? pattern).all (·.isShallow)

end Config

end CallLint
