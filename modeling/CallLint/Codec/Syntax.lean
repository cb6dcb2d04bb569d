import CallLint.Json.Format
import CallLint.Json.Reader
import CallLint.SourceUnit

/-!
# Written form of expressions and units

How spans, expressions and units are written as records, and read from them. A reader has no answer
where a field is missing that has no default, or does not hold what it should.

* `Expr.decode?` reads a tree of any depth.
* `Expr.outline`, `SourceUnit.outline` say what the readers look at.
* `Expr.encode` leaves out a missing type, a missing target and an empty list of children.
-/

namespace CallLint

variable {ν : Type} [DataFormat ν]

/-! ## Spans -/

/-- What is looked at in a span. -/
def Span.outline : Outline := .record [("start", .scalar), ("end", .scalar)]

/-- Reads a span. -/
def Span.decode? (v : ν) : Option Span := do
  match ← fields? ["start", "end"] v with
  | [start, stop] =>
    return ⟨← start.required DataFormat.nat?, ← stop.required DataFormat.nat?⟩
  | _ => none

/-- Writes a span. -/
def Span.encode (s : Span) : Json := .object [("start", .nat s.start), ("end", .nat s.stop)]

/-! ## Kinds and types -/

/-- Reads a kind of expression. -/
def NodeKind.decode? (v : ν) : Option NodeKind := caseOf? NodeKind.all NodeKind.word v

/-- Writes a kind of expression. -/
def NodeKind.encode (k : NodeKind) : Json := .text k.word

/-- Reads a type. -/
def TypeRef.decode? (v : ν) : Option TypeRef := do TypeRef.parse? (← DataFormat.text? v)

/-- Writes a type. -/
def TypeRef.encode (t : TypeRef) : Json := .text t.name

/-- What is looked at in the target of a call. -/
def MethodRef.outline : Outline :=
  .record [("owner", .scalar), ("name", .scalar), ("is_static", .scalar)]

/-- Reads the target of a call. -/
def MethodRef.decode? (v : ν) : Option MethodRef := do
  match ← fields? ["owner", "name", "is_static"] v with
  | [owner, name, isStatic] =>
    return {
      owner := ← owner.required TypeRef.decode?
      name := ← name.required DataFormat.text?
      isStatic := ← isStatic.withDefault false DataFormat.bool? }
  | _ => none

/-- Writes the target of a call. -/
def MethodRef.encode (m : MethodRef) : Json :=
  .object [("owner", m.owner.encode), ("name", .text m.name), ("is_static", .bool m.isStatic)]

/-! ## Expressions -/

namespace Expr

/-- What is looked at in an expression that is nested at most so deep. -/
def outlineWithin : Nat → Outline
  | 0 => .scalar
  | levels + 1 =>
    .record [("kind", .scalar), ("span", Span.outline), ("type", .scalar),
      ("target", MethodRef.outline),
      ("children", .list (outlineWithin levels))]

/-- What is looked at in an expression. No text holds one that is nested deeper. -/
def outline : Outline := outlineWithin Json.maxDepth

/-- Reads an expression that is nested at most so deep. -/
def decodeWithin : Nat → Json → Option Expr
  | 0, _ => none
  | levels + 1, v => do
    match ← fields? ["kind", "span", "type", "target", "children"] v with
    | [kind, span, type, target, children] =>
      return {
        kind := ← kind.required NodeKind.decode?
        span := ← span.required Span.decode?
        type := ← type.withDefault none (Slot.orNull TypeRef.decode?)
        target := ← target.withDefault none (Slot.orNull MethodRef.decode?)
        children := ← children.withDefault [] (listOf? (decodeWithin levels)) }
    | _ => none

/-- Reads an expression. A node takes at least one level of the value. -/
def decode? (v : Json) : Option Expr := decodeWithin (v.depth + 1) v

/-- A field that is left out if it has no value. -/
def fieldIfAny (name : String) : Option Json → List (String × Json)
  | none => []
  | some v => [(name, v)]

mutual

/-- Writes an expression. -/
def encode : Expr → Json
  | ⟨kind, span, type, target, children⟩ =>
    .object ([("kind", kind.encode), ("span", span.encode)]
      ++ fieldIfAny "type" (type.map TypeRef.encode)
      ++ fieldIfAny "target" (target.map MethodRef.encode)
      ++ if children.isEmpty then [] else [("children", .list (encodeAll children))])

/-- Writes some expressions. -/
def encodeAll : List Expr → List Json
  | [] => []
  | e :: es => encode e :: encodeAll es

end

end Expr

/-! ## Units -/

/-- Reads a path. -/
def Path.decode? (v : ν) : Option Path := (DataFormat.text? v).map (⟨·⟩)

/-- Writes a path. -/
def Path.encode (p : Path) : Json := .text p.text

/-- Reads a set of texts. -/
def textSet? (v : ν) : Option (SortedSet String) := (listOf? DataFormat.text? v).map .ofList

/-- Writes a set of texts. -/
def encodeTextSet (s : SortedSet String) : Json := .list (s.toList.map .text)

namespace SourceUnit

/-- What is looked at in a unit. -/
def outline : Outline :=
  .record [("path", .scalar), ("source", .scalar), ("symbols", .list .scalar),
    ("trees", .list Expr.outline)]

/-- Reads a unit. -/
def decode? (v : Json) : Option SourceUnit := do
  match ← fields? ["path", "source", "symbols", "trees"] v with
  | [path, source, symbols, trees] =>
    return {
      path := ← path.withDefault ⟨""⟩ Path.decode?
      source := ← source.withDefault "" DataFormat.text?
      symbols := ← symbols.withDefault ∅ textSet?
      trees := ← trees.withDefault [] (listOf? Expr.decode?) }
  | _ => none

/-- Writes a unit. -/
def encode (u : SourceUnit) : Json :=
  .object [("path", u.path.encode), ("source", .text u.source),
    ("symbols", encodeTextSet u.symbols),
    ("trees", .list (u.trees.map Expr.encode))]

end SourceUnit

end CallLint
