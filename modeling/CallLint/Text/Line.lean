/-!
# Lines

Two ways to see a text as lines: pieces that keep their line feed, and lines without their ending.

* `pieces_flatten`: the pieces are the text, nothing is lost.
-/

namespace CallLint.Text

/-- The text cut after each line feed. -/
def pieces : List Char → List (List Char)
  | [] => []
  | c :: cs =>
    if c = '\n' then [c] :: pieces cs
    else match pieces cs with
      | [] => [[c]]
      | p :: ps => (c :: p) :: ps

/-- The pieces of a text are all of it. -/
@[simp] theorem pieces_flatten (cs : List Char) : (pieces cs).flatten = cs := by
  induction cs with
  | nil => rfl
  | cons c cs ih =>
    unfold pieces
    split
    · simp [ih]
    · cases h : pieces cs <;> simp_all

/-- A text without the character `c` at its end, if it is there. -/
def stripLast? (c : Char) (cs : List Char) : Option (List Char) :=
  if cs.getLast? = some c then some cs.dropLast else none

/-- A piece without its line feed, and without one carriage return before that line feed. -/
def chomp (piece : List Char) : List Char :=
  match stripLast? '\n' piece with
  | none => piece
  | some line => (stripLast? '\r' line).getD line

/-- The lines of a text without their endings. A text that ends with a line feed has no line after
it. -/
def lines (cs : List Char) : List (List Char) := (pieces cs).map chomp

/-- The rest of a text after `lead`, if it starts so. -/
def after? (lead : String) (cs : List Char) : Option (List Char) :=
  if lead.toList.isPrefixOf cs then some (cs.drop lead.toList.length) else none

/-- Whether a text starts with `lead`. -/
def startsWith (lead : String) (cs : List Char) : Bool := lead.toList.isPrefixOf cs

end CallLint.Text
