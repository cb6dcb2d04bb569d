import CallLint.Path
import CallLint.Span
import CallLint.Text.Line
import CallLint.Text.Offset

/-!
# Locations

A location gives the place of a span as people count: lines and columns from one on, a column being
a number of characters. The length of the span stays in bytes.

* `Location.ofSpan`: where a span of a source starts.
-/

namespace CallLint

/-- A place in a file. -/
structure Location where
  file : Path
  line : Nat
  column : Nat
  /-- The number of bytes of the place. -/
  length : Nat
deriving DecidableEq, Repr

namespace Location

/-- A location that has not been filled in. -/
def nowhere : Location := ⟨⟨""⟩, 0, 0, 0⟩

instance : Inhabited Location := ⟨nowhere⟩

/-- The source text before an offset, none of it if the offset is inside a character. An offset past
the end counts as the end. -/
def textBefore (source : List Char) (offset : Nat) : List Char :=
  ((Text.cut? (min offset (Text.byteSize source)) source).map (·.1)).getD []

/-- The location of a span in a source. -/
def ofSpan (file : Path) (source : String) (span : Span) : Location :=
  let before := textBefore source.toList span.start
  { file
    line := before.count '\n' + 1
    column := (before.reverse.takeWhile (· ≠ '\n')).length + 1
    length := span.length }

/-- The text of the line that a location is in. -/
def lineText? (l : Location) (source : String) : Option String :=
  ((Text.lines source.toList)[l.line - 1]?).map .ofList

/-- A location in words: file, line and column. -/
def render (l : Location) : String := s!"{l.file.text}:{l.line}:{l.column}"

end Location

end CallLint
