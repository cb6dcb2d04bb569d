import CallLint.Codec.Diagnostic
import CallLint.Config.Basic
import CallLint.Outline

/-!
# Written form of configurations

How a configuration is written as a record, and read from one. Every setting may be left out and has
its standard value then.

* `Config.decode?` reads a configuration from any data format.
* `Config.outline` says what it looks at.
-/

namespace CallLint

variable {ν : Type} [DataFormat ν]

/-- Reads a map whose values are all read in the same way; the last value of a key counts. -/
def mapOf? {α : Type} (decode : ν → Option α) (v : ν) : Option (SortedMap String α) := do
  let entries ← (← DataFormat.entries? v).mapM fun (key, v) => do return (key, ← decode v)
  return .ofList entries

/-- Writes a map. -/
def encodeMap {α : Type} (encode : α → Json) (m : SortedMap String α) : Json :=
  .object (m.toList.map fun (key, a) => (key, encode a))

/-- Reads a list of texts. -/
def texts? (v : ν) : Option (List String) := listOf? DataFormat.text? v

/-- Writes a list of texts. -/
def encodeTexts (l : List String) : Json := .list (l.map .text)

/-- Reads how results are written. -/
def OutputFormat.decode? (v : ν) : Option OutputFormat :=
  caseOf? OutputFormat.all OutputFormat.word v

/-- Reads when output is coloured. -/
def ColorMode.decode? (v : ν) : Option ColorMode := caseOf? ColorMode.all ColorMode.word v

/-- What is looked at for the settings that say how a run works. -/
def EngineSettings.outline : Outline := .record [("parallel", .scalar), ("jobs", .scalar)]

/-- Reads how a run works. -/
def EngineSettings.decode? (v : ν) : Option EngineSettings := do
  let usual : EngineSettings := default
  match ← fields? ["parallel", "jobs"] v with
  | [parallel, jobs] =>
    return {
      parallel := ← parallel.withDefault usual.parallel DataFormat.bool?
      jobs := ← jobs.withDefault usual.jobs DataFormat.nat? }
  | _ => none

/-- Writes how a run works. -/
def EngineSettings.encode (s : EngineSettings) : Json :=
  .object [("parallel", .bool s.parallel), ("jobs", .nat s.jobs)]

/-- What is looked at for the settings that say how a run reports. -/
def OutputSettings.outline : Outline :=
  .record [("format", .scalar), ("color", .scalar), ("verbose", .scalar), ("statistics", .scalar)]

/-- Reads how a run reports. -/
def OutputSettings.decode? (v : ν) : Option OutputSettings := do
  let usual : OutputSettings := default
  match ← fields? ["format", "color", "verbose", "statistics"] v with
  | [format, color, verbose, statistics] =>
    return {
      format := ← format.withDefault usual.format OutputFormat.decode?
      color := ← color.withDefault usual.color ColorMode.decode?
      verbose := ← verbose.withDefault usual.verbose DataFormat.bool?
      statistics := ← statistics.withDefault usual.statistics DataFormat.bool? }
  | _ => none

/-- Writes how a run reports. -/
def OutputSettings.encode (s : OutputSettings) : Json :=
  .object [("format", .text s.format.word), ("color", .text s.color.word),
    ("verbose", .bool s.verbose),
    ("statistics", .bool s.statistics)]

/-- What is looked at for the settings that say which rules are used. -/
def RuleSettings.outline : Outline :=
  .record [("disabled", .list .scalar), ("enabled", .list .scalar), ("severity", .map .scalar),
    ("per_file", .map (.list .scalar))]

/-- Reads which rules are used. -/
def RuleSettings.decode? (v : ν) : Option RuleSettings := do
  match ← fields? ["disabled", "enabled", "severity", "per_file"] v with
  | [disabled, enabled, severity, perFile] =>
    return {
      disabled := ← disabled.withDefault [] texts?
      enabled := ← enabled.withDefault [] texts?
      severity := ← severity.withDefault ∅ (mapOf? Severity.decode?)
      perFile := ← perFile.withDefault ∅ (mapOf? texts?) }
  | _ => none

/-- Writes which rules are used. -/
def RuleSettings.encode (s : RuleSettings) : Json :=
  .object [("disabled", encodeTexts s.disabled), ("enabled", encodeTexts s.enabled),
    ("severity", encodeMap Severity.encode s.severity),
    ("per_file", encodeMap encodeTexts s.perFile)]

/-- What is looked at for the settings that say how fixes are written. -/
def FixSettings.outline : Outline :=
  .record [("saturating_helper", .scalar), ("saturating_method", .scalar),
    ("parenthesize", .list .scalar)]

/-- Reads how fixes are written. -/
def FixSettings.decode? (v : ν) : Option FixSettings := do
  let usual : FixSettings := default
  match ← fields? ["saturating_helper", "saturating_method", "parenthesize"] v with
  | [helper, method, parens] =>
    return {
      helper := ← helper.withDefault usual.helper DataFormat.text?
      method := ← method.withDefault usual.method DataFormat.text?
      parens := ← parens.withDefault usual.parens ParenPolicy.decode? }
  | _ => none

/-- Writes how fixes are written. -/
def FixSettings.encode (s : FixSettings) : Json :=
  .object [("saturating_helper", .text s.helper), ("saturating_method", .text s.method),
    ("parenthesize", s.parens.encode)]

namespace Config

/-- What is looked at in a configuration. -/
def outline : Outline :=
  .record [("extends", .list .scalar), ("engine", EngineSettings.outline),
    ("output", OutputSettings.outline), ("rules", RuleSettings.outline),
    ("fix", FixSettings.outline)]

/-- Reads a configuration. -/
def decode? (v : ν) : Option Config := do
  match ← fields? ["extends", "engine", "output", "rules", "fix"] v with
  | [bases, engine, output, rules, fix] =>
    return {
      bases := ← bases.withDefault [] texts?
      engine := ← engine.withDefault default EngineSettings.decode?
      output := ← output.withDefault default OutputSettings.decode?
      rules := ← rules.withDefault default RuleSettings.decode?
      fix := ← fix.withDefault default FixSettings.decode? }
  | _ => none

/-- Writes a configuration. -/
def encode (c : Config) : Json :=
  .object [("extends", encodeTexts c.bases), ("engine", c.engine.encode),
    ("output", c.output.encode),
    ("rules", c.rules.encode), ("fix", c.fix.encode)]

end Config

end CallLint
