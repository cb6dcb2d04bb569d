/-!
# Places in a Yaml text

A text is read from a cursor, which knows its line and column. Line breaks are brought into one form
first; two more characters separate lines and stay as they are.

* `Yaml.legible`: which texts can be read at all.
* `Yaml.Cursor.next`, `Yaml.Cursor.skip`: one character, or some, further on.
-/

namespace CallLint.Yaml

/-- Whether a character separates lines, once breaks are normal. -/
def isBreak (c : Char) : Bool := c = '\n' || c = '\u2028' || c = '\u2029'

/-- Whether a character is a space or a tab. -/
def isBlank (c : Char) : Bool := c = ' ' || c = '\t'

/-- Whether a character is blank or separates lines. -/
def isWhite (c : Char) : Bool := isBlank c || isBreak c

/-- Whether white characters, or nothing at all, come next. -/
def startsWhite : List Char → Bool
  | [] => true
  | c :: _ => isWhite c

/-- Whether a text starts with a character. -/
def startsWithChar (c : Char) (cs : List Char) : Bool := cs.head? = some c

/-- Every line break as a line feed. -/
def normalBreaks : List Char → List Char
  | '\r' :: '\n' :: cs => '\n' :: normalBreaks cs
  | '\r' :: cs => '\n' :: normalBreaks cs
  | '\u0085' :: cs => '\n' :: normalBreaks cs
  | c :: cs => c :: normalBreaks cs
  | [] => []

/-- Whether a character may occur in a text; most control characters may not. -/
def isPrintable (c : Char) : Bool :=
  c = '\t' || c = '\n' || c = '\r' || (0x20 ≤ c.toNat && c.toNat ≤ 0x7E) || c.toNat = 0x85
    || (0xA0 ≤ c.toNat && c.toNat ≤ 0xFFFD) || 0x10000 ≤ c.toNat

/-- The mark that may start a line, where it says nothing. -/
def byteOrderMark : Char := '\ufeff'

/-- A text with normal breaks; none if it has other characters than may occur. -/
def legible (s : String) : Option (List Char) :=
  if s.toList.all isPrintable then some (normalBreaks s.toList) else none

/-- A place in a text. -/
structure Cursor where
  rest : List Char
  line : Nat
  column : Nat
  /-- How many bytes are before it. -/
  index : Nat

namespace Cursor

/-- The start of a text. -/
def start (cs : List Char) : Cursor := ⟨cs, 0, 0, 0⟩

/-- The place after one character. -/
def next (p : Cursor) : Cursor :=
  match p.rest with
  | [] => p
  | c :: cs =>
    let index := p.index + c.utf8Size
    if isBreak c then ⟨cs, p.line + 1, 0, index⟩ else ⟨cs, p.line, p.column + 1, index⟩

/-- The place after some characters. -/
def skip (p : Cursor) : Nat → Cursor
  | 0 => p
  | n + 1 => p.next.skip n

/-- The place after all characters that come next and have a property. -/
def skipWhile (p : Cursor) (holds : Char → Bool) : Cursor := p.skip (p.rest.takeWhile holds).length

/-- Whether a line starts here with three dashes or dots that stand alone. -/
def atDocumentMark (p : Cursor) : Bool :=
  p.column = 0 && (["---", "..."].any fun mark => mark.toList.isPrefixOf p.rest)
    && startsWhite (p.rest.drop 3)

end Cursor

end CallLint.Yaml
