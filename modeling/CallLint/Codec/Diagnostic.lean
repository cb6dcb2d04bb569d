import CallLint.Codec.Fix
import CallLint.Rule

/-!
# Written form of findings and rules

How findings and the descriptions of rules are written as records, and read from them. Every field
is written, a missing value as null.

* `Diagnostic.decode?`: what follows the span may be left out.
-/

namespace CallLint

variable {ν : Type} [DataFormat ν]

/-- Reads a severity. -/
def Severity.decode? (v : ν) : Option Severity := caseOf? Severity.all Severity.word v

/-- Writes a severity. -/
def Severity.encode (s : Severity) : Json := .text s.word

/-- A field with a text that may be absent. -/
def optionalText (slot : Slot ν) : Option (Option String) :=
  slot.withDefault none (Slot.orNull DataFormat.text?)

/-- Writes a text that may be absent. -/
def encodeOptionalText : Option String → Json := .ofOption .text

/-- Reads a location. -/
def Location.decode? (v : ν) : Option Location := do
  match ← fields? ["file", "line", "column", "length"] v with
  | [file, line, column, length] =>
    return {
      file := ← file.required Path.decode?
      line := ← line.required DataFormat.nat?
      column := ← column.required DataFormat.nat?
      length := ← length.required DataFormat.nat? }
  | _ => none

/-- Writes a location. -/
def Location.encode (l : Location) : Json :=
  .object [("file", l.file.encode), ("line", .nat l.line), ("column", .nat l.column),
    ("length", .nat l.length)]

/-- Reads a finding. -/
def Diagnostic.decode? (v : ν) : Option Diagnostic := do
  match ← fields? ["rule_id", "severity", "message", "span", "location", "source_line", "help",
      "fix", "requires_review", "notes"] v with
  | [rule, severity, message, span, location, sourceLine, help, fix, requiresReview, notes] =>
    return {
      rule := ← rule.required DataFormat.text?
      severity := ← severity.required Severity.decode?
      message := ← message.required DataFormat.text?
      span := ← span.required Span.decode?
      location := ← location.withDefault .nowhere Location.decode?
      sourceLine := ← optionalText sourceLine
      help := ← optionalText help
      fix := ← fix.withDefault none (Slot.orNull FixPlan.decode?)
      requiresReview := ← requiresReview.withDefault false DataFormat.bool?
      notes := ← notes.withDefault [] (listOf? DataFormat.text?) }
  | _ => none

/-- Writes a finding. -/
def Diagnostic.encode (d : Diagnostic) : Json :=
  .object [("rule_id", .text d.rule), ("severity", d.severity.encode), ("message", .text d.message),
    ("span", d.span.encode), ("location", d.location.encode),
    ("source_line", encodeOptionalText d.sourceLine), ("help", encodeOptionalText d.help),
    ("fix", .ofOption FixPlan.encode d.fix), ("requires_review", .bool d.requiresReview),
    ("notes", .list (d.notes.map .text))]

/-- Reads the group of a rule. -/
def RuleCategory.decode? (v : ν) : Option RuleCategory :=
  caseOf? RuleCategory.all RuleCategory.word v

/-- Reads what fixes a rule offers. -/
def FixAvailability.decode? (v : ν) : Option FixAvailability :=
  caseOf? FixAvailability.all FixAvailability.word v

/-- Reads the description of a rule. -/
def RuleInfo.decode? (v : ν) : Option RuleInfo := do
  match ← fields? ["id", "name", "summary", "explanation", "severity", "category", "fix", "docs",
      "tags", "example_bad", "example_good"] v with
  | [id, name, summary, explanation, severity, category, fix, docs, tags, exampleBad,
      exampleGood] =>
    return {
      id := ← id.required DataFormat.text?
      name := ← optionalText name
      summary := ← summary.required DataFormat.text?
      explanation := ← optionalText explanation
      severity := ← severity.withDefault default Severity.decode?
      category := ← category.withDefault default RuleCategory.decode?
      fix := ← fix.withDefault default FixAvailability.decode?
      docs := ← optionalText docs
      tags := ← tags.withDefault [] (listOf? DataFormat.text?)
      exampleBad := ← optionalText exampleBad
      exampleGood := ← optionalText exampleGood }
  | _ => none

/-- Writes the description of a rule. -/
def RuleInfo.encode (r : RuleInfo) : Json :=
  .object [("id", .text r.id), ("name", encodeOptionalText r.name), ("summary", .text r.summary),
    ("explanation", encodeOptionalText r.explanation), ("severity", r.severity.encode),
    ("category", .text r.category.word), ("fix", .text r.fix.word),
    ("docs", encodeOptionalText r.docs),
    ("tags", .list (r.tags.map .text)), ("example_bad", encodeOptionalText r.exampleBad),
    ("example_good", encodeOptionalText r.exampleGood)]

end CallLint
