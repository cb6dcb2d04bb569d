import CallLint.Yaml.Tag

/-!
# Yaml tokens

A text is cut into tokens. Indentation becomes marks that open and close blocks. A key is recognised
only by the colon behind it, so the mark of a key is put in front of tokens that have been read
already.

* `Yaml.Lexer` is what is known at a place: the open blocks, and the tokens that may turn out to be
  keys.
* `Yaml.tokens?` cuts a whole text.
-/

namespace CallLint.Yaml

/-- A token that only gives structure. -/
inductive Mark where
  | documentStart
  | documentEnd
  | blockSequence
  | blockMapping
  | blockEnd
  | flowSequence
  | flowSequenceEnd
  | flowMapping
  | flowMappingEnd
  | dash
  | comma
  | key
  | value
deriving DecidableEq, Repr

/-- A token of a text. -/
inductive Token where
  | mark (m : Mark)
  | directive (d : Directive)
  | anchor (name : String)
  | reference (name : String)
  | tag (handle : String) (suffix : List UInt8)
  | scalar (style : ScalarStyle) (text : String)
deriving DecidableEq, Repr

/-- A place where a key may begin. -/
structure KeyPlace where
  /-- How many tokens are before it. -/
  count : Nat
  line : Nat
  column : Nat
  index : Nat
  /-- Whether a key has to begin here, since a block with keys has this indentation. -/
  required : Bool

/-- What is known at a place of a text. -/
structure Lexer where
  cursor : Cursor
  /-- The tokens up to here, the last one first. -/
  tokens : List Token
  /-- For each open block, innermost first, the column behind its indentation. -/
  levels : List Nat
  /-- The key that may have begun between the innermost brackets. -/
  pending : Option KeyPlace
  /-- The same between the brackets around those. -/
  outer : List (Option KeyPlace)
  /-- Whether a key may begin here. -/
  keyAllowed : Bool

namespace Lexer

/-- The start of a text. -/
def start (cs : List Char) : Lexer := ⟨.start cs, [], [], none, [], true⟩

/-- Whether the place is between flow brackets. -/
def inFlow (l : Lexer) : Bool := !l.outer.isEmpty

/-- The column behind the indentation of the innermost block, zero outside all blocks. -/
def level (l : Lexer) : Nat := l.levels.headD 0

/-- The place behind some characters. -/
def skip (l : Lexer) (n : Nat) : Lexer := { l with cursor := l.cursor.skip n }

/-- Adds a token. -/
def emit (l : Lexer) (t : Token) : Lexer := { l with tokens := t :: l.tokens }

/-- Adds a token before all but the first `count` ones. -/
def insert (l : Lexer) (count : Nat) (t : Token) : Lexer :=
  let (after, before) := l.tokens.splitAt (l.tokens.length - count)
  { l with tokens := after ++ t :: before }

/-- Opens a block at a column, unless the innermost one is at least as deep. Its mark goes behind
the first `count` tokens. -/
def openBlock (l : Lexer) (m : Mark) (column count : Nat) : Lexer :=
  if l.inFlow || column < l.level then l
  else { l.insert count (.mark m) with levels := (column + 1) :: l.levels }

/-- Closes the blocks that are deeper than a level. -/
def closeBlocks (l : Lexer) (level : Nat) : Lexer :=
  if l.inFlow then l
  else
    let closed := l.levels.takeWhile (level < ·)
    { l with
      tokens := closed.map (fun _ => .mark .blockEnd) ++ l.tokens
      levels := l.levels.drop closed.length }

/-- Gives up a key that may have begun; none if one has to begin there. -/
def dropKey? (l : Lexer) : Option Lexer :=
  if l.pending.any (·.required) then none else some { l with pending := none }

/-- Remembers that a key may begin here. -/
def saveKey? (l : Lexer) : Option Lexer := do
  if !l.keyAllowed then return l
  let p := l.cursor
  let key := ⟨l.tokens.length, p.line, p.column, p.index, !l.inFlow && l.level = p.column + 1⟩
  return { ← l.dropKey? with pending := some key }

/-- A key that may have begun, unless it is too far back: a key is on one line and has at most 1024
bytes. -/
def fresh? (p : Cursor) (key : Option KeyPlace) : Option (Option KeyPlace) :=
  match key with
  | none => some none
  | some k =>
    if p.line ≤ k.line && p.index ≤ k.index + 1024 then some key
    else if k.required then none
    else some none

/-- Forgets the keys that are too far back. -/
def dropStale? (l : Lexer) : Option Lexer := do
  let outer ← l.outer.mapM (fresh? l.cursor)
  return { l with pending := ← fresh? l.cursor l.pending, outer }

/-- Counts the characters before the next token, and says whether a key may begin behind them. In a
block, a line begins with a key and not with a tab. A byte order mark may start a line. -/
def gap (inFlow : Bool) (keyAllowed inComment lineStart : Bool) : List Char → Nat × Bool
  | [] => (0, keyAllowed)
  | c :: cs =>
    if isBreak c then
      let (n, allowed) := gap inFlow (keyAllowed || !inFlow) false true cs
      (n + 1, allowed)
    else if inComment || c = '#' then
      let (n, allowed) := gap inFlow keyAllowed true false cs
      (n + 1, allowed)
    else if c = ' ' || (c = '\t' && (inFlow || !keyAllowed)) ||
      (lineStart && c = byteOrderMark) then
      let (n, allowed) := gap inFlow keyAllowed false false cs
      (n + 1, allowed)
    else (0, keyAllowed)

/-- Goes on to the next token. -/
def skipGap (l : Lexer) : Lexer :=
  let (n, keyAllowed) := gap l.inFlow l.keyAllowed false (l.cursor.column = 0) l.cursor.rest
  { l.skip n with keyAllowed }

/-! ## Tokens of each kind -/

/-- Adds a mark of some characters before which no key can be pending. -/
def mark? (l : Lexer) (m : Mark) (width : Nat) (keyAllowed : Bool) : Option Lexer := do
  return { (← l.dropKey?).emit (.mark m) with keyAllowed }.skip width

/-- Opens flow brackets. -/
def openFlow? (l : Lexer) (m : Mark) : Option Lexer := do
  let l ← l.saveKey?
  return { l.emit (.mark m) with
    pending := none, outer := l.pending :: l.outer, keyAllowed := true }.skip 1

/-- Closes flow brackets. -/
def closeFlow? (l : Lexer) (m : Mark) : Option Lexer := do
  let l ← l.mark? m 1 false
  match l.outer with
  | [] => return l
  | key :: outer => return { l with pending := key, outer }

/-- A dash or a question mark before an entry of a block. -/
def blockMark? (l : Lexer) (m opening : Mark) (keyAllowed : Bool) : Option Lexer := do
  if !l.inFlow && !l.keyAllowed then none
  (l.openBlock opening l.cursor.column l.tokens.length).mark? m 1 keyAllowed

/-- The colon between a key and its value. -/
def colon? (l : Lexer) : Option Lexer :=
  match l.pending with
  | none => l.blockMark? .value .blockMapping (!l.inFlow)
  | some k =>
    let l := (l.insert k.count (.mark .key)).openBlock .blockMapping k.column k.count
    some ({ l.emit (.mark .value) with pending := none, keyAllowed := false }.skip 1)

/-- A line with three dashes or dots, or with a directive. -/
def documentToken? (l : Lexer) (t : Token) (after : Cursor) : Option Lexer := do
  let l ← (l.closeBlocks 0).dropKey?
  return { l.emit t with cursor := after, keyAllowed := false }

/-- Adds a token with which a key may begin. -/
def nodeToken? (l : Lexer) (t : Token) (after : Cursor) (keyAllowed : Bool) : Option Lexer := do
  return { (← l.saveKey?).emit t with cursor := after, keyAllowed }

/-- A block scalar. -/
def blockScalar? (l : Lexer) (style : ScalarStyle) : Option Lexer := do
  let l ← l.dropKey?
  let (text, after) ← block? (style = .folded) l.level l.cursor
  return { l.emit (.scalar style text) with cursor := after, keyAllowed := true }

/-- Whether a plain scalar may begin with a character, which others follow. -/
def startsPlain (inFlow : Bool) (c : Char) (cs : List Char) : Bool :=
  if c = '-' then true
  else if c = '?' || c = ':' then !inFlow && !startsWhite cs
  else !isWhite c && !",[]\x7b\x7d#&*!|>'\"%@\x60".contains c

/-- Adds the token that begins with a character, which others follow. -/
def token? (l : Lexer) (c : Char) (cs : List Char) : Option Lexer :=
  let p := l.cursor
  let indicates := startsWhite cs
  if p.column = 0 && c = '%' then do
    let (d, after) ← directive? p
    l.documentToken? (.directive d) after
  else if p.atDocumentMark then
    l.documentToken? (.mark (if c = '-' then .documentStart else .documentEnd)) (p.skip 3)
  else if c = '[' then l.openFlow? .flowSequence
  else if c = '\x7b' then l.openFlow? .flowMapping
  else if c = ']' then l.closeFlow? .flowSequenceEnd
  else if c = '\x7d' then l.closeFlow? .flowMappingEnd
  else if c = ',' then l.mark? .comma 1 true
  else if c = '-' && indicates then l.blockMark? .dash .blockSequence true
  else if c = '?' && (l.inFlow || indicates) then l.blockMark? .key .blockMapping (!l.inFlow)
  else if c = ':' && (l.inFlow || indicates) then l.colon?
  else if c = '*' || c = '&' then do
    let (name, after) ← anchor? p
    l.nodeToken? (if c = '*' then .reference name else .anchor name) after false
  else if c = '!' then do
    let (handle, suffix, after) ← tag? l.inFlow p
    l.nodeToken? (.tag handle suffix) after false
  else if c = '|' && !l.inFlow then l.blockScalar? .literal
  else if c = '>' && !l.inFlow then l.blockScalar? .folded
  else if c = '\'' || c = '"' then do
    let single := c = '\''
    let (text, after) ← quoted? single p
    l.nodeToken? (.scalar (if single then .singleQuoted else .doubleQuoted) text) after false
  else if startsPlain l.inFlow c cs then do
    let (text, after, broken) ← plain? l.inFlow l.level p
    l.nodeToken? (.scalar .plain text) after broken
  else none

/-- All tokens from a place on, in at most so many steps. -/
def run? : Nat → Lexer → Option (List Token)
  | 0, _ => none
  | steps + 1, l => do
    let l ← l.skipGap.dropStale?
    let l := l.closeBlocks (l.cursor.column + 1)
    match l.cursor.rest with
    | [] => return (← (l.closeBlocks 0).dropKey?).tokens.reverse
    | c :: cs => run? steps (← l.token? c cs)

end Lexer

/-- The tokens of a text; none if it is malformed. -/
def tokens? (s : String) : Option (List Token) := do
  let cs ← legible s
  Lexer.run? (cs.length + 1) (.start cs)

end CallLint.Yaml
