import CallLint.Json.Basic
import CallLint.Json.Number

/-!
# Json tokens

A text is read into tokens by one pass over its characters. Brackets, commas and colons are marks;
everything between quotes is a text; any other run of characters is a word, which must be one of the
three names or a number. A well-formed text or number that no value can hold is a token too, since
it may stand where nobody looks at it.

* `Token.ofText?` has no answer for a text that holds a malformed token.
-/

namespace CallLint.Json

/-- A token of the Json data format. -/
inductive Token where
  | openList
  | closeList
  | openObject
  | closeObject
  | comma
  | colon
  /-- A value that holds no other value. -/
  | leaf (v : Json)
  /-- A text with half a character. -/
  | brokenText
  /-- A number that cannot be held. -/
  | hugeNumber
deriving Repr

namespace Token

/-- The mark that a character is, if any. -/
def mark? : Char → Option Token
  | '[' => some .openList
  | ']' => some .closeList
  | '\x7b' => some .openObject
  | '\x7d' => some .closeObject
  | ',' => some .comma
  | ':' => some .colon
  | _ => none

/-- The blanks between tokens. -/
def isSpace (c : Char) : Bool := c = ' ' || c = '\t' || c = '\n' || c = '\r'

/-- The token that a number is. -/
def ofNumber (word : List Char) (x : Number) : Token :=
  if word.all Char.isDigit then
    let n := Number.valueOfDigits word
    if n < Number.significandLimit || !x.isHuge then .leaf (.nat n) else .hugeNumber
  else if x.isHuge then .hugeNumber
  else .leaf (.number (.ofList word))

/-- The token that a word is. -/
def ofWord? (word : List Char) : Option Token :=
  if word = "null".toList then some (.leaf .null)
  else if word = "true".toList then some (.leaf (.bool true))
  else if word = "false".toList then some (.leaf (.bool false))
  else (Number.ofChars? word).map (ofNumber word)

/-- The value of a hexadecimal digit. -/
def hexValue? (c : Char) : Option Nat :=
  if c.isDigit then some (c.toNat - '0'.toNat)
  else if 'a' ≤ c && c ≤ 'f' then some (c.toNat - 'a'.toNat + 10)
  else if 'A' ≤ c && c ≤ 'F' then some (c.toNat - 'A'.toNat + 10)
  else none

/-- The character that a one-letter escape stands for. -/
def escaped? : Char → Option Char
  | '"' => some '"'
  | '\\' => some '\\'
  | '/' => some '/'
  | 'b' => some '\x08'
  | 'f' => some '\x0c'
  | 'n' => some '\n'
  | 'r' => some '\r'
  | 't' => some '\t'
  | _ => none

/-- A text whose end has not been read yet. -/
structure Unfinished where
  /-- The characters so far, in reverse. -/
  done : List Char
  /-- The first half of a character that is written as two numbered escapes. -/
  high : Option Nat
  /-- Whether half a character stands alone. -/
  broken : Bool

namespace Unfinished

/-- Nothing of a text. -/
def empty : Unfinished := ⟨[], none, false⟩

/-- The text when something else than a second half follows. -/
def settle (u : Unfinished) : Unfinished :=
  { u with high := none, broken := u.broken || u.high.isSome }

/-- The text with one more character. -/
def push (u : Unfinished) (c : Char) : Unfinished :=
  let u := u.settle
  { u with done := c :: u.done }

/-- The text with a numbered escape: a single character, the first half of one, or its second
half. -/
def pushNumber (u : Unfinished) (value : Nat) : Unfinished :=
  let isHigh := 0xD800 ≤ value && value ≤ 0xDBFF
  let isLow := 0xDC00 ≤ value && value ≤ 0xDFFF
  match u.high with
  | some h =>
    if isLow then
      { u with
        done := Char.ofNat (0x10000 + (h - 0xD800) * 0x400 + (value - 0xDC00)) :: u.done
        high := none }
    else { u with high := if isHigh then some value else none, broken := true }
  | none =>
    if isHigh then { u with high := some value }
    else if isLow then { u with broken := true }
    else { u with done := Char.ofNat value :: u.done }

/-- The token of a text that ends. -/
def token (u : Unfinished) : Token :=
  let u := u.settle
  if u.broken then .brokenText else .leaf (.text (.ofList u.done.reverse))

end Unfinished

/-- Where the reading of tokens stands. The characters of an unfinished word are kept in reverse. -/
inductive Scan where
  | between
  | word (done : List Char)
  | text (u : Unfinished)
  | escape (u : Unfinished)
  | numbered (u : Unfinished) (value digits : Nat)

/-- A character outside texts and words. -/
def startToken (c : Char) : Scan × List Token :=
  if isSpace c then (.between, [])
  else if c = '"' then (.text .empty, [])
  else match mark? c with
    | some t => (.between, [t])
    | none => (.word [c], [])

/-- Reads one character: where the reading stands then, and the tokens that are complete. -/
def scan : Scan → Char → Option (Scan × List Token)
  | .between, c => some (startToken c)
  | .word done, c =>
    if isSpace c || c = '"' || (mark? c).isSome then do
      let t ← ofWord? done.reverse
      let (s, ts) := startToken c
      return (s, t :: ts)
    else some (.word (c :: done), [])
  | .text u, c =>
    if c = '\\' then some (.escape u, [])
    else if c = '"' then some (.between, [u.token])
    else if c.toNat < 0x20 then none
    else some (.text (u.push c), [])
  | .escape u, c =>
    if c = 'u' then some (.numbered u 0 0, [])
    else (escaped? c).map fun e => (.text (u.push e), [])
  | .numbered u value digits, c => do
    let d ← hexValue? c
    if digits = 3 then return (.text (u.pushNumber (16 * value + d)), [])
    else return (.numbered u (16 * value + d) (digits + 1), [])

/-- Reads one character after the tokens so far, which are kept in reverse. -/
def scanOnto (reading : Scan × List Token) (c : Char) : Option (Scan × List Token) :=
  (scan reading.1 c).map fun (s, ts) => (s, ts.reverseAux reading.2)

/-- The tokens of a text; none if one of them is malformed. -/
def ofText? (s : String) : Option (List Token) := do
  match ← s.toList.foldlM scanOnto (.between, []) with
  | (.between, ts) => return ts.reverse
  | (.word done, ts) => return ((← ofWord? done.reverse) :: ts).reverse
  | _ => none

end Token

end CallLint.Json
