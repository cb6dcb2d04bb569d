import CallLint.Glob.Pattern
import CallLint.Text.Offset

/-!
# Matching paths

Whether a pattern fits the whole of a path. Bytes are compared, so a character of two bytes fits two
question marks.

* `Glob.Token.rests`: what may be left of a text after a part has fitted its start.
* `Glob.Pattern.fits`: a pattern fits when nothing has to be left.
-/

namespace CallLint.Glob

/-- The byte ranges that a range of characters stands for. Of a character that takes more bytes
every byte stands alone, except that the range goes from the last byte of its start to the first of
its end. -/
def byteRanges (r : Char × Char) : List (UInt8 × UInt8) :=
  let first := Text.bytes [r.1]
  let last := Text.bytes [r.2]
  let alone := fun b => (b, b)
  if r.1 = r.2 then first.map alone
  else match first.getLast?, last.head? with
    | some a, some b => first.dropLast.map alone ++ [(a, b)] ++ last.tail.map alone
    | _, _ => []

/-- A text and all its endings. -/
def endings : List UInt8 → List (List UInt8)
  | [] => [[]]
  | b :: rest => (b :: rest) :: endings rest

/-- The byte of a slash. -/
def slash : UInt8 := 47

/-- What follows each slash of a text. -/
def afterSlashes : List UInt8 → List (List UInt8)
  | [] => []
  | b :: rest => if b = slash then rest :: afterSlashes rest else afterSlashes rest

mutual

/-- Whether a part stands for no text at all, because all its alternatives are empty. -/
def Token.isVoid : Token → Bool
  | .oneOfPatterns alternatives => areVoid alternatives
  | _ => false

/-- Whether a list of parts stands for no text at all. -/
def isVoid : List Token → Bool
  | [] => true
  | t :: parts => t.isVoid && isVoid parts

/-- Whether all alternatives stand for no text at all. -/
def areVoid : List (List Token) → Bool
  | [] => true
  | parts :: alternatives => isVoid parts && areVoid alternatives

end

mutual

/-- What may be left of a text after a part has fitted its start. An empty alternative counts only
if all are empty. -/
def Token.rests : Token → List UInt8 → List (List UInt8)
  | .literal c, text => if (Text.bytes [c]).isPrefixOf text then [text.drop c.utf8Size] else []
  | .anyByte, text => if text.isEmpty then [] else [text.tail]
  | .anyBytes, text => endings text
  | .oneOf negated ranges, text =>
    match text with
    | [] => []
    | b :: rest =>
      let inside := (ranges.flatMap byteRanges).any fun r => r.1 ≤ b && b ≤ r.2
      if inside != negated then [rest] else []
  | .leadingTree, text => text :: afterSlashes text
  | .innerTree, text =>
    if text.head? = some slash then text.tail :: afterSlashes text.tail else []
  | .trailingTree, text => if text.head? = some slash then endings text.tail else []
  | .oneOfPatterns alternatives, text =>
    if areVoid alternatives then [text] else restsOfAny alternatives text

/-- What may be left after one of some alternatives, empty ones aside. -/
def restsOfAny : List (List Token) → List UInt8 → List (List UInt8)
  | [], _ => []
  | parts :: alternatives, text =>
    (if isVoid parts then [] else restsOfAll parts [text]) ++ restsOfAny alternatives text

/-- What may be left of one of some texts after all parts have fitted one after the other. -/
def restsOfAll : List Token → List (List UInt8) → List (List UInt8)
  | [], texts => texts
  | t :: parts, texts => restsOfAll parts (texts.flatMap fun text => t.rests text).eraseDups

end

/-- Whether a pattern fits a text. Two stars alone fit every text. -/
def Pattern.fits (p : Pattern) (text : String) : Bool :=
  match p.parts with
  | [.leadingTree] => true
  | parts => (restsOfAll parts [Text.bytes text.toList]).contains []

end CallLint.Glob
