/-!
# Qualified names

Names of classes are segments joined by dots. A segment starts with an ASCII letter, an underscore
or a dollar sign, and goes on with these and digits.

* `QualifiedName.isWellFormed` reads a name from left to right.
* `QualifiedName.lastSegment`: what follows the last dot.
-/

namespace CallLint.QualifiedName

/-- Whether a segment may start with this character. -/
def isLead (c : Char) : Bool := c.isAlpha || c = '_' || c = '$'

/-- Whether a segment may go on with this character. -/
def isPart (c : Char) : Bool := isLead c || c.isDigit

mutual

/-- The rest of a name, at the start of a segment. -/
def startsSegment : List Char → Bool
  | [] => false
  | c :: cs => isLead c && continuesSegment cs

/-- The rest of a name, inside a segment. -/
def continuesSegment : List Char → Bool
  | [] => true
  | c :: cs => if c = '.' then startsSegment cs else isPart c && continuesSegment cs

end

/-- Whether a text is a well-formed name. -/
def isWellFormed (name : String) : Bool := startsSegment name.toList

/-- What follows the last dot of a name, all of it if there is none. -/
def lastSegment (name : String) : String :=
  .ofList (name.toList.reverse.takeWhile (· ≠ '.')).reverse

end CallLint.QualifiedName
