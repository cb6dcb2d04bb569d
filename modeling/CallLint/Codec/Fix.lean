import CallLint.Codec.Syntax
import CallLint.Fix.Parens
import CallLint.Fix.Plan

/-!
# Written form of fixes

How edits, fix plans and the choice of parentheses are written as records, and read from them.

* `Edit.decode?`: the place of an edit is a field among the others, or the first item of a list.
-/

namespace CallLint

variable {ν : Type} [DataFormat ν]

/-- Reads how far a fix may be trusted. -/
def Safety.decode? (v : ν) : Option Safety := caseOf? Safety.all Safety.word v

/-- Writes how far a fix may be trusted. -/
def Safety.encode (s : Safety) : Json := .text s.word

/-- Reads the place of an edit. -/
def EditPlace.decode? (v : ν) : Option EditPlace := do
  let word ← DataFormat.text? v
  EditPlace.all.find? (·.word = word)

/-- Reads an edit. -/
def Edit.decode? (v : ν) : Option Edit := do
  match ← fields? ["kind", "span", "text"] v with
  | [place, span, text] =>
    return {
      place := ← place.required EditPlace.decode?
      span := ← span.required Span.decode?
      text := ← text.required DataFormat.text? }
  | _ => none

/-- Writes an edit. -/
def Edit.encode (e : Edit) : Json :=
  .object [("kind", .text e.place.word), ("span", e.span.encode), ("text", .text e.text)]

/-- Reads a plan. -/
def FixPlan.decode? (v : ν) : Option FixPlan := do
  match ← fields? ["description", "edits", "imports", "safety"] v with
  | [description, edits, imports, safety] =>
    return {
      description := ← description.withDefault "" DataFormat.text?
      edits := ← edits.required (listOf? Edit.decode?)
      imports := ← imports.withDefault ∅ textSet?
      safety := ← safety.withDefault .safe Safety.decode? }
  | _ => none

/-- Writes a plan. -/
def FixPlan.encode (p : FixPlan) : Json :=
  .object [("description", .text p.description), ("edits", .list (p.edits.map Edit.encode)),
    ("imports", encodeTextSet p.imports), ("safety", p.safety.encode)]

/-- Reads the kinds that get parentheses. -/
def ParenPolicy.decode? (v : ν) : Option ParenPolicy :=
  (listOf? NodeKind.decode? v).map ParenPolicy.ofList

/-- Writes the kinds that get parentheses. -/
def ParenPolicy.encode (p : ParenPolicy) : Json := .list (p.kinds.toList.map NodeKind.encode)

end CallLint
