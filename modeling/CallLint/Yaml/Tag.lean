import CallLint.Text.Offset
import CallLint.Yaml.Scalar

/-!
# Yaml anchors, tags and directives

Names that stand before a node, or before a whole document. A tag is a handle and a suffix; a
directive says what a handle stands for. Percent signs in a tag stand for bytes, so that a tag need
not be a text.

* `Yaml.anchor?`, `Yaml.tag?`, `Yaml.directive?` read one of each, with the place behind it.
-/

namespace CallLint.Yaml

/-- Whether a character may occur in a name. -/
def isNameChar (c : Char) : Bool := c.isAlphanum || c = '_' || c = '-'

/-- Reads the name of an anchor, from its sign on. -/
def anchor? (p : Cursor) : Option (String × Cursor) :=
  let name := (p.rest.drop 1).takeWhile isNameChar
  let q := p.skip (name.length + 1)
  let ends := startsWhite q.rest || q.rest.head?.any ("?:,]\x7d%@\x60".contains ·)
  if name.isEmpty || !ends then none else some (.ofList name, q)

/-! ## Tags -/

/-- Whether a character may occur in a tag; `verbatim` ones have three more. -/
def isTagChar (verbatim : Bool) (c : Char) : Bool :=
  isNameChar c || ";/?:@&=+$.%!~*'()".contains c || (verbatim && ",[]".contains c)

/-- The byte that a percent sign and two hexadecimal digits stand for. -/
def escapedByte? : List Char → Option Nat
  | '%' :: cs => if cs.length < 2 then none else numeral? 16 (cs.take 2)
  | _ => none

/-- How many bytes a character has that begins with a byte. -/
def byteCount? (b : Nat) : Option Nat :=
  if b < 0x80 then some 1
  else if 0xC0 ≤ b ∧ b < 0xE0 then some 2
  else if 0xE0 ≤ b ∧ b < 0xF0 then some 3
  else if 0xF0 ≤ b ∧ b < 0xF8 then some 4
  else none

/-- The further bytes of an escaped character, of which so many are left. -/
def escapedTail? : Nat → List Char → Option (List UInt8)
  | 0, _ => some []
  | count + 1, cs => do
    let b ← escapedByte? cs
    if b < 0x80 ∨ 0xC0 ≤ b then none
    return b.toUInt8 :: (← escapedTail? count (cs.drop 3))

/-- The bytes of the escaped character that comes next. They need not be those of any character:
only the first bits of each are checked. -/
def escapedBytes? (cs : List Char) : Option (List UInt8) := do
  let b ← escapedByte? cs
  let count ← byteCount? b
  return b.toUInt8 :: (← escapedTail? (count - 1) (cs.drop 3))

/-- Reads the characters of a tag in at most so many steps: its bytes, and how many characters they
are written with. -/
def tagBytes? (verbatim : Bool) : Nat → List Char → Option (List UInt8 × Nat)
  | 0, _ => some ([], 0)
  | _ + 1, [] => some ([], 0)
  | steps + 1, c :: cs => do
    if !isTagChar verbatim c then return ([], 0)
    let (bytes, width) ← if c = '%' then (escapedBytes? (c :: cs)).map fun bs => (bs, 3 * bs.length)
      else some (Text.bytes [c], 1)
    let (more, count) ← tagBytes? verbatim steps (cs.drop (width - 1))
    return (bytes ++ more, count + width)

/-- The bytes before the first zero, which ends a tag. -/
def upToZero (bytes : List UInt8) : List UInt8 := bytes.takeWhile (· ≠ 0)

/-- The exclamation mark that comes next, the name behind it, and one more exclamation mark. -/
def handleChars : List Char → List Char
  | '!' :: cs =>
    let name := cs.takeWhile isNameChar
    '!' :: name ++ (if startsWithChar '!' (cs.drop name.length) then ['!'] else [])
  | _ => []

/-- Whether characters are a handle with a name, or the one of the standard tags. -/
def isNamedHandle (cs : List Char) : Bool := 2 ≤ cs.length && cs.getLast? = some '!'

/-- The suffix of a tag in angle brackets, and the length of all that. -/
def verbatimTag? (cs : List Char) : Option (List Char × List UInt8 × Nat) := do
  let (suffix, count) ← tagBytes? true cs.length (cs.drop 2)
  if count = 0 || !startsWithChar '>' (cs.drop (count + 2)) then none
  return ([], upToZero suffix, count + 3)

/-- The handle and the suffix of a tag, and their length. An exclamation mark with nothing behind it
is a suffix. -/
def shortTag? (cs : List Char) : Option (List Char × List UInt8 × Nat) := do
  let head := handleChars cs
  let (found, count) ← tagBytes? false cs.length (cs.drop head.length)
  let width := head.length + count
  if isNamedHandle head then
    if count = 0 then none else return (head, upToZero found, width)
  else
    let suffix := upToZero (Text.bytes (head.drop 1) ++ found)
    if suffix.isEmpty then return ([], Text.bytes ['!'], width)
    return (['!'], suffix, width)

/-- Reads a tag, from its exclamation mark on. -/
def tag? (inFlow : Bool) (p : Cursor) : Option (String × List UInt8 × Cursor) := do
  let (handle, suffix, width) ←
    if startsWithChar '<' (p.rest.drop 1) then verbatimTag? p.rest else shortTag? p.rest
  let q := p.skip width
  if startsWhite q.rest || (inFlow && startsWithChar ',' q.rest) then
    return (.ofList handle, suffix, q)
  else none

/-! ## Directives -/

/-- What stands before a document. -/
inductive Directive where
  | version (major minor : Nat)
  | handle (name : String) (expansion : List UInt8)
deriving DecidableEq, Repr

/-- Reads a number of at most nine digits. -/
def versionPart? (p : Cursor) : Option (Nat × Cursor) := do
  let digits := p.rest.takeWhile Char.isDigit
  if digits.isEmpty || 9 < digits.length then none
  return (← numeral? 10 digits, p.skip digits.length)

/-- Reads the version that a document is written in. -/
def version? (p : Cursor) : Option (Directive × Cursor) := do
  let (major, p) ← versionPart? (p.skipWhile isBlank)
  if !startsWithChar '.' p.rest then none
  let (minor, p) ← versionPart? p.next
  return (.version major minor, p)

/-- Reads what a handle stands for. -/
def handle? (p : Cursor) : Option (Directive × Cursor) := do
  let p := p.skipWhile isBlank
  let head := handleChars p.rest
  if !(isNamedHandle head || head = ['!']) then none
  let p := p.skip head.length
  if !p.rest.head?.any isBlank then none
  let p := p.skipWhile isBlank
  let (expansion, count) ← tagBytes? true p.rest.length p.rest
  let p := p.skip count
  if count = 0 || !startsWhite p.rest then none
  return (.handle (.ofList head) (upToZero expansion), p)

/-- Reads a line with a directive, from its percent sign on. -/
def directive? (p : Cursor) : Option (Directive × Cursor) := do
  let name := (p.rest.drop 1).takeWhile isNameChar
  let p := p.skip (name.length + 1)
  if !startsWhite p.rest then none
  let (directive, p) ←
    if name = "YAML".toList then version? p
    else if name = "TAG".toList then handle? p
    else none
  let p := p.skipWhile isBlank
  let p := if startsWithChar '#' p.rest then p.skipWhile (!isBreak ·) else p
  if p.rest.head?.any (!isBreak ·) then none
  return (directive, p.next)

end CallLint.Yaml
