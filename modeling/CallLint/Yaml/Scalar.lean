import CallLint.Yaml.Cursor

/-!
# Yaml scalars

The three ways to write a text: plain, in quotes, and as a block of indented lines. White space
between the words of a plain or quoted text is folded: one line break is a space, and of more breaks
all but the first remain.

* `Yaml.plain?`, `Yaml.quoted?`, `Yaml.block?` read a text of each kind.
-/

namespace CallLint.Yaml

/-- How a scalar is written. -/
inductive ScalarStyle where
  | plain
  | singleQuoted
  | doubleQuoted
  | literal
  | folded
deriving DecidableEq, Repr

/-! ## Folding -/

/-- What a line break and more breaks after it come to. -/
def foldBreaks (first : Char) (more : List Char) : List Char :=
  if first = '\n' then (if more.isEmpty then [' '] else more) else first :: more

/-- What white space between words comes to. -/
def foldWhite (white : List Char) : List Char :=
  match white.dropWhile (!isBreak ·) with
  | [] => white
  | first :: after => foldBreaks first (after.filter isBreak)

/-! ## Plain scalars -/

/-- Whether a character has a meaning of its own between flow brackets. -/
def isFlowMark (c : Char) : Bool := c = ',' || c = '[' || c = ']' || c = '\x7b' || c = '\x7d'

/-- The next word of a plain scalar. Between flow brackets a colon right before a mark is an
error. -/
def plainWord? (inFlow : Bool) : List Char → Option (List Char)
  | [] => some []
  | c :: cs =>
    if isWhite c then some []
    else if inFlow && c = ':' && cs.head?.any (fun d => isFlowMark d || d = '?') then none
    else if (c = ':' && startsWhite cs) || (inFlow && isFlowMark c) then some []
    else (plainWord? inFlow cs).map (c :: ·)

/-- Whether a tab stands among the first `level` columns of a line. The column is none on the line
where the white space begins. -/
def tabInIndent (level : Nat) (column : Option Nat) : List Char → Bool
  | [] => false
  | c :: cs =>
    if isBreak c then tabInIndent level (some 0) cs
    else match column with
      | none => tabInIndent level none cs
      | some n => (c = '\t' && n < level) || tabInIndent level (some (n + 1)) cs

/-- The words of a plain scalar after `text`, in at most so many steps, with the place behind them
and whether the white space there has a line break. -/
def plainWords? (inFlow : Bool) (level : Nat) :
    Nat → Cursor → List Char → Option (List Char × Cursor × Bool)
  | 0, p, text => some (text, p, false)
  | steps + 1, p, text => do
    let white := p.rest.takeWhile isWhite
    if white.isEmpty then return (text, p, false)
    if tabInIndent level none white then none
    let q := p.skip white.length
    let broken := white.any isBreak
    if (!inFlow && q.column < level) || q.atDocumentMark || startsWithChar '#' q.rest then
      return (text, q, broken)
    let word ← plainWord? inFlow q.rest
    if word.isEmpty then return (text, q, broken)
    plainWords? inFlow level steps (q.skip word.length) (text ++ foldWhite white ++ word)

/-- Reads a plain scalar whose further lines are indented by `level` columns. -/
def plain? (inFlow : Bool) (level : Nat) (p : Cursor) : Option (String × Cursor × Bool) := do
  let word ← plainWord? inFlow p.rest
  let (text, q, broken) ←
    plainWords? inFlow level p.rest.length (p.skip word.length) word
  return (.ofList text, q, broken)

/-! ## Quoted scalars -/

/-- A part of a quoted scalar. -/
inductive QuotedPart where
  | char (c : Char)
  | white (c : Char)
  /-- A line break that is escaped. -/
  | joint

namespace QuotedPart

/-- The white character that a part is, if it is one. -/
def white? : QuotedPart → Option Char
  | .white c => some c
  | _ => none

/-- Whether a part is a character of its own. -/
def isChar : QuotedPart → Bool
  | .char _ => true
  | _ => false

/-- What a character, or white space, or a joint with the white space after it comes to. -/
def foldRun (run : List QuotedPart) : List Char :=
  match run with
  | .char c :: _ => [c]
  | .joint :: after => (after.filterMap white?).filter isBreak
  | run => foldWhite (run.filterMap white?)

/-- The text of a quoted scalar. -/
def fold (parts : List QuotedPart) : List Char :=
  (parts.splitBy fun a b => !a.isChar && b.white?.isSome).flatMap foldRun

end QuotedPart

/-- The character that an escape of one letter stands for. -/
def shortEscape? : Char → Option Char
  | '0' => some '\x00'
  | 'a' => some '\x07'
  | 'b' => some '\x08'
  | 't' => some '\t'
  | '\t' => some '\t'
  | 'n' => some '\n'
  | 'v' => some '\x0b'
  | 'f' => some '\x0c'
  | 'r' => some '\r'
  | 'e' => some '\x1b'
  | ' ' => some ' '
  | '"' => some '"'
  | '/' => some '/'
  | '\\' => some '\\'
  | 'N' => some '\u0085'
  | '_' => some '\u00a0'
  | 'L' => some '\u2028'
  | 'P' => some '\u2029'
  | _ => none

/-- How many hexadecimal digits follow an escape. -/
def longEscape? : Char → Option Nat
  | 'x' => some 2
  | 'u' => some 4
  | 'U' => some 8
  | _ => none

/-- The value of a hexadecimal digit. -/
def hexValue? (c : Char) : Option Nat :=
  if c.isDigit then some (c.toNat - 48)
  else if 'a' ≤ c ∧ c ≤ 'f' then some (c.toNat - 87)
  else if 'A' ≤ c ∧ c ≤ 'F' then some (c.toNat - 55)
  else none

/-- The number that digits stand for in a base; none if one of them is no digit of that base. -/
def numeral? (base : Nat) (digits : List Char) : Option Nat :=
  digits.foldlM (fun n c => do
    let d ← hexValue? c
    if d < base then some (n * base + d) else none) 0

/-- The character with a number, if there is one. -/
def charOf? (n : Nat) : Option Char := if n.isValidChar then some (Char.ofNat n) else none

/-- What a quoted scalar goes on with. -/
inductive QuotedStep where
  /-- The closing quote. -/
  | close
  /-- A part of so many characters. -/
  | part (p : QuotedPart) (width : Nat)

/-- What stands for an escape in double quotes, from the character behind the backslash on. -/
def escape? : List Char → Option QuotedStep
  | [] => none
  | e :: cs =>
    if isBreak e then some (.part .joint 2)
    else match shortEscape? e, longEscape? e with
      | some c, _ => some (.part (.char c) 2)
      | none, some n => do
        if cs.length < n then none
        let c ← charOf? (← numeral? 16 (cs.take n))
        return .part (.char c) (n + 2)
      | none, none => none

/-- What a quoted scalar goes on with at a character, which others follow. -/
def quotedStep? (single : Bool) (c : Char) (cs : List Char) : Option QuotedStep :=
  if isWhite c then some (.part (.white c) 1)
  else if single then
    if c = '\'' then some (if startsWithChar '\'' cs then .part (.char c) 2 else .close)
    else some (.part (.char c) 1)
  else if c = '"' then some .close
  else if c = '\\' then escape? cs
  else some (.part (.char c) 1)

/-- The parts of a quoted scalar up to its closing quote, and the text after that. `lineStart` says
whether a line starts here, where a document mark is an error. -/
def quotedParts? (single lineStart : Bool) : List Char → Option (List QuotedPart × List Char)
  | [] => none
  | c :: cs =>
    if lineStart && (Cursor.start (c :: cs)).atDocumentMark then none
    else match quotedStep? single c cs with
      | none => none
      | some .close => some ([], cs)
      | some (.part part width) =>
        let lineStart := isBreak c || (part matches .joint)
        (quotedParts? single lineStart (cs.drop (width - 1))).map fun (parts, after) =>
          (part :: parts, after)
termination_by cs => cs.length
decreasing_by simp only [List.length_drop, List.length_cons]; omega

/-- Reads a quoted scalar, from its opening quote on. -/
def quoted? (single : Bool) (p : Cursor) : Option (String × Cursor) := do
  let (parts, after) ← quotedParts? single false (p.rest.drop 1)
  return (.ofList (QuotedPart.fold parts), p.skip (p.rest.length - after.length))

/-! ## Block scalars -/

/-- What is done with the line breaks at the end of a block. -/
inductive Chomping where
  | strip
  | clip
  | keep
deriving DecidableEq, Repr

/-- Reads a sign that sets the chomping. -/
def chompingSign? : List Char → Option Chomping
  | '+' :: _ => some .keep
  | '-' :: _ => some .strip
  | _ => none

/-- Reads a digit that sets the indentation, zero if there is none; none if the digit is zero. -/
def indentDigit? : List Char → Option Nat
  | c :: _ => if c = '0' then none else if c.isDigit then some (c.toNat - 48) else some 0
  | [] => some 0

/-- Reads the signs behind the bar or the arrow of a block: the chomping, the indentation if it is
given, and the place of the first line. -/
def blockHead? (p : Cursor) : Option (Chomping × Nat × Cursor) := do
  let early := chompingSign? p.rest
  let p := if early.isSome then p.next else p
  let indent ← indentDigit? p.rest
  let p := if 0 < indent then p.next else p
  let late := if early.isSome then none else chompingSign? p.rest
  let p := if late.isSome then p.next else p
  let p := p.skipWhile isBlank
  let p := if startsWithChar '#' p.rest then p.skipWhile (!isBreak ·) else p
  if p.rest.head?.any (!isBreak ·) then none
  return ((early.or late).getD .clip, indent, p.next)

/-- What stands between two lines of a block. -/
structure BlockGap where
  /-- The breaks of the empty lines. -/
  breaks : List Char
  /-- How many characters there are. -/
  count : Nat
  /-- The widest indentation. -/
  width : Nat
  /-- The indentation of the line after the gap. -/
  column : Nat

/-- Reads empty lines and the indentation after them, from a column on. Only so many columns as
`limit` says count as indentation. A tab is an error there. -/
def blockGap? (limit : Option Nat) (column : Nat) : List Char → Option BlockGap
  | [] => some ⟨[], 0, column, column⟩
  | c :: cs =>
    let inside := limit.all fun n => column < n
    if inside && c = ' ' then
      (blockGap? limit (column + 1) cs).map fun g => { g with count := g.count + 1 }
    else if inside && c = '\t' then none
    else if isBreak c then
      (blockGap? limit 0 cs).map fun g =>
        { g with breaks := c :: g.breaks, count := g.count + 1, width := max column g.width }
    else some ⟨[], 0, column, column⟩

/-- What has been read of a block. -/
structure BlockText where
  text : List Char
  /-- The break at the end of the line before. -/
  lineBreak : List Char
  /-- The breaks of the empty lines after it. -/
  emptyLines : List Char
  /-- Whether the line before starts with a blank. -/
  indented : Bool

/-- Adds a line. In a folded block, the break between two lines that do not start with a blank is a
space, or nothing if empty lines are between them. -/
def BlockText.addLine (b : BlockText) (foldLines : Bool) (line : List Char) : BlockText :=
  let indented := line.head?.any isBlank
  let folded := foldLines && b.lineBreak = ['\n'] && !b.indented && !indented
  let between :=
    if folded then (if b.emptyLines.isEmpty then [' '] else b.emptyLines)
    else b.lineBreak ++ b.emptyLines
  ⟨b.text ++ between ++ line, [], [], indented⟩

/-- Reads the lines of a block that have the right indentation, at most so many. -/
def blockLines? (foldLines : Bool) (indent : Nat) :
    Nat → Cursor → BlockText → Option (BlockText × Cursor)
  | 0, p, b => some (b, p)
  | lines + 1, p, b => do
    if p.rest.isEmpty || p.column ≠ indent then return (b, p)
    let line := p.rest.takeWhile (!isBreak ·)
    let q := p.skip line.length
    let gap ← blockGap? (some indent) 0 (q.rest.drop 1)
    let b := { b.addLine foldLines line with
      lineBreak := q.rest.take 1, emptyLines := gap.breaks }
    blockLines? foldLines indent lines (q.next.skip gap.count) b

/-- Reads a block scalar, from its bar or arrow on, where the lines around it are indented by less
than `level` columns. -/
def block? (foldLines : Bool) (level : Nat) (p : Cursor) : Option (String × Cursor) := do
  let (chomping, given, p) ← blockHead? p.next
  let limit := if given = 0 then none else some (level - 1 + given)
  let gap ← blockGap? limit 0 p.rest
  let indent := limit.getD (max gap.width (max level 1))
  let (b, q) ← blockLines? foldLines indent p.rest.length (p.skip gap.count)
    ⟨[], [], gap.breaks, false⟩
  let tail := match chomping with
    | .strip => []
    | .clip => b.lineBreak
    | .keep => b.lineBreak ++ b.emptyLines
  return (.ofList (b.text ++ tail), q)

end CallLint.Yaml
