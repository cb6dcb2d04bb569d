import CallLint.Sorted.Set
import CallLint.Text.Blank
import CallLint.Text.Line
import CallLint.Text.Offset

/-!
# Import lines

A plan may need classes to be imported. Imports that a source does not have yet are added as one
block: after its last import line, else after its first package line, else at the top.

* `imports` recognises a line that imports a name.
* `importSite` is where a block goes, `importBlock?` is the block.
-/

namespace CallLint

/-- The name that a line imports, if it is an import line and nothing else. -/
def importedName? (line : List Char) : Option (List Char) := do
  let rest ← Text.after? "import " (Text.trimmed line)
  let name ← Text.stripLast? ';' (Text.trimmed rest)
  return Text.trimmed name

/-- Whether some line of a source imports a name. -/
def imports (source : List Char) (name : String) : Bool :=
  (Text.lines source).any fun line => importedName? line = some name.toList

/-- A place for import lines, with what to write before and after them. -/
structure ImportSite where
  offset : Nat
  opening : String
  closing : String
deriving DecidableEq, Repr

/-- Pieces of a text with the offset where each one ends, the first one starting at `start`. -/
def pieceEnds (start : Nat) : List (List Char) → List (List Char × Nat)
  | [] => []
  | piece :: pieces =>
    let stop := start + Text.byteSize piece
    (piece, stop) :: pieceEnds stop pieces

/-- Whether a piece starts with a word, blanks in front aside. -/
def leadsWith (word : String) (piece : List Char) : Bool :=
  Text.startsWith word (Text.trimLeft piece)

/-- What ends the line of a piece that lacks its line feed. -/
def lineEnd (piece : List Char) : String := if piece.getLast? = some '\n' then "" else "\n"

/-- Where new import lines go. -/
def importSite (source : List Char) : ImportSite :=
  let pieces := pieceEnds 0 (Text.pieces source)
  match pieces.reverse.find? (leadsWith "import " ·.1) with
  | some (piece, stop) => ⟨stop, lineEnd piece, ""⟩
  | none =>
    match pieces.find? (leadsWith "package " ·.1) with
    | some (piece, stop) => ⟨stop, lineEnd piece ++ "\n", ""⟩
    | none => ⟨0, "", "\n"⟩

/-- The line that imports a name. -/
def importLine (name : String) : String := "import " ++ name ++ ";\n"

/-- The imports that a source lacks, as a text with the offset where it goes; none if it lacks
none. -/
def importBlock? (source : List Char) (names : SortedSet String) : Option (Nat × String) :=
  let missing := names.toList.filter (!imports source ·)
  if missing.isEmpty then none
  else
    let site := importSite source
    some (site.offset, site.opening ++ .join (missing.map importLine) ++ site.closing)

end CallLint
