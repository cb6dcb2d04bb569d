/-!
# Patterns for paths

A pattern is written with `?` for one byte, `*` for any bytes, `[a-z]` and `[!a-z]` for one byte in
or out of some ranges, `{a,b}` for alternatives, and `\` in front of a character that stands for
itself. Two stars between slashes stand for whole components.

* `Glob.Lexeme.ofChars?` cuts a pattern into its signs.
* `Glob.Pattern.ofString?` reads a pattern; it has no answer for brackets that do not close, ranges
  in the wrong order and a backslash at the end.
-/

namespace CallLint.Glob

/-! ## Signs -/

/-- A sign of a pattern. -/
inductive Lexeme where
  | plain (c : Char)
  | escaped (c : Char)
  | oneOf (negated : Bool) (ranges : List (Char × Char))
  | doubleStar
deriving DecidableEq, Repr

namespace Lexeme

/-- The character that a sign starts with. -/
def firstChar : Lexeme → Char
  | .plain c => c
  | .escaped _ => '\\'
  | .oneOf _ _ => '['
  | .doubleStar => '*'

/-- The character that a sign ends with. -/
def lastChar : Lexeme → Char
  | .plain c => c
  | .escaped c => c
  | .oneOf _ _ => ']'
  | .doubleStar => '*'

/-- Where in a sign the next character stands. -/
inductive Position where
  | outside
  | afterBackslash
  /-- After the opening bracket of ranges. -/
  | afterBracket
  /-- Among ranges, which are kept in reverse; `open` if the last one still lacks its end. -/
  | inRanges (negated : Bool) (ranges : List (Char × Char)) (opened : Bool)

/-- Reads a character among ranges. A closing bracket that comes first stands for itself, and so
does a hyphen at the start or the end; none if a range ends before it starts. -/
def rangeStep (negated : Bool) (ranges : List (Char × Char)) (opened : Bool) (c : Char) :
    Option (Position × List Lexeme) :=
  match ranges, opened with
  | [], _ => some (.inRanges negated [(c, c)] false, [])
  | (first, _) :: others, true =>
    if c = ']' then some (.outside, [.oneOf negated (('-', '-') :: ranges).reverse])
    else if c < first then none
    else some (.inRanges negated ((first, c) :: others) false, [])
  | _, false =>
    if c = ']' then some (.outside, [.oneOf negated ranges.reverse])
    else if c = '-' then some (.inRanges negated ranges true, [])
    else some (.inRanges negated ((c, c) :: ranges) false, [])

/-- Reads a character: the new position, and the sign that is complete now, if any. -/
def step : Position → Char → Option (Position × List Lexeme)
  | .outside, '\\' => some (.afterBackslash, [])
  | .outside, '[' => some (.afterBracket, [])
  | .outside, c => some (.outside, [.plain c])
  | .afterBackslash, c => some (.outside, [.escaped c])
  | .afterBracket, c =>
    if c = '!' || c = '^' then some (.inRanges true [] false, []) else rangeStep false [] false c
  | .inRanges negated ranges opened, c => rangeStep negated ranges opened c

/-- The signs of a text from a position on; none if the last sign is not complete. -/
def read? (position : Position) : List Char → Option (List Lexeme)
  | [] =>
    match position with
    | .outside => some []
    | _ => none
  | c :: cs => do
    let (next, found) ← step position c
    return found ++ (← read? next cs)

/-- Two stars in a row are one sign. -/
def joinStars : List Lexeme → List Lexeme
  | .plain '*' :: .plain '*' :: rest => .doubleStar :: joinStars rest
  | l :: rest => l :: joinStars rest
  | [] => []

/-- The signs of a pattern. -/
def ofChars? (cs : List Char) : Option (List Lexeme) := (read? .outside cs).map joinStars

end Lexeme

/-! ## Patterns -/

/-- A part of a pattern. -/
inductive Token where
  | literal (c : Char)
  /-- Any byte. -/
  | anyByte
  /-- Any bytes. -/
  | anyBytes
  /-- A byte in, or not in, some ranges. -/
  | oneOf (negated : Bool) (ranges : List (Char × Char))
  /-- Any components at the start, with the slash after them. -/
  | leadingTree
  /-- Any components in the middle, with the slashes around them. -/
  | innerTree
  /-- Any components at the end, with the slash before them. -/
  | trailingTree
  | oneOfPatterns (alternatives : List (List Token))
deriving Repr

/-- Alternatives that are still open: what comes before them, and those that are complete, both in
reverse. -/
structure OpenAlternatives where
  before : List Token
  complete : List (List Token)

/-- How far a pattern has been read. -/
structure Progress where
  /-- The character before. -/
  previous : Option Char
  /-- The parts of the innermost alternative so far, in reverse. -/
  parts : List Token
  openGroups : List OpenAlternatives
  /-- Whether a slash that comes now belongs to the part before it. -/
  takesSlash : Bool

namespace Progress

/-- Nothing has been read. -/
def start : Progress := ⟨none, [], [], false⟩

/-- One more part. -/
def push (p : Progress) (t : Token) : Progress := { p with parts := t :: p.parts }

/-- The parts up to two stars in a row, in reverse, and whether a slash after them belongs to them.
They stand for whole components if a slash or an end is on both sides, and otherwise for any bytes.
The slash before them is part of the components. -/
def treeParts (p : Progress) (next : Option Char) : List Token × Bool :=
  let nested := !p.openGroups.isEmpty
  let loose := (.anyBytes :: .anyBytes :: p.parts, false)
  match p.parts with
  | [] => if next = none || next = some '/' then ([.leadingTree], true) else loose
  | last :: others =>
    let begins := p.previous = some '/'
      || (nested && (p.previous = some ',' || p.previous = some '\x7b'))
    let ends := next = none || (nested && (next = some ',' || next = some '\x7d'))
    if !begins then loose
    else if ends || next = some '/' then
      let tree := match last with
        | .leadingTree => .leadingTree
        | .trailingTree => .trailingTree
        | _ => if ends then .trailingTree else .innerTree
      (tree :: others, !ends)
    else loose

/-- Reads a sign, with the first character of the next one in view. -/
def step (p : Progress) (next : Option Char) (l : Lexeme) : Option Progress :=
  let q := { p with previous := some l.lastChar, takesSlash := false }
  match l with
  | .doubleStar =>
    let (parts, takesSlash) := p.treeParts next
    some { q with parts, takesSlash }
  | .oneOf negated ranges => some (q.push (.oneOf negated ranges))
  | .escaped c => some (q.push (.literal c))
  | .plain '?' => some (q.push .anyByte)
  | .plain '*' => some (q.push .anyBytes)
  | .plain '\x7b' => some { q with parts := [], openGroups := ⟨p.parts, []⟩ :: p.openGroups }
  | .plain '\x7d' =>
    match p.openGroups with
    | [] => none
    | g :: groups =>
      let alternatives := (p.parts.reverse :: g.complete).reverse
      some { q with parts := .oneOfPatterns alternatives :: g.before, openGroups := groups }
  | .plain ',' =>
    match p.openGroups with
    | [] => some (q.push (.literal ','))
    | g :: groups =>
      some { q with parts := [], openGroups := ⟨g.before, p.parts.reverse :: g.complete⟩ :: groups }
  | .plain '/' => some (if p.takesSlash then q else q.push (.literal '/'))
  | .plain c => some (q.push (.literal c))

/-- Reads the signs of a pattern. -/
def read? (p : Progress) : List Lexeme → Option (List Token)
  | [] => if p.openGroups.isEmpty then some p.parts.reverse else none
  | l :: rest => do (← p.step (rest.head?.map Lexeme.firstChar) l).read? rest

end Progress

/-- A pattern for paths. -/
structure Pattern where
  parts : List Token
deriving Repr

/-- The pattern that a text stands for. -/
def Pattern.ofString? (s : String) : Option Pattern := do
  return ⟨← Progress.start.read? (← Lexeme.ofChars? s.toList)⟩

end CallLint.Glob
