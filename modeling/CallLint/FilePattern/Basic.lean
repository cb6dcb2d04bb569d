import CallLint.Path

/-!
# Patterns for files

A pattern names files component by component. In a component, `?` stands for one character, `*` for
any characters, and `[a-z]` or `[!a-z]` for one character in or out of some ranges. Two stars are a
component of their own and stand for any directories.

* `FilePattern.parse` reads a pattern, or says what is wrong with it and where.
* `FilePattern.Sign.fit`: whether the signs of a component fit a name.
-/

namespace CallLint

/-- What is wrong with a pattern. -/
inductive PatternFault where
  | tooManyStars
  /-- Two stars that are no component of their own. -/
  | starsInComponent
  | badRanges
deriving DecidableEq, Repr

/-- What is wrong with a pattern, and at which character. -/
structure PatternError where
  position : Nat
  fault : PatternFault
deriving DecidableEq, Repr

namespace PatternError

/-- A fault in words. -/
def faultMessage : PatternFault → String
  | .tooManyStars => "wildcards are either regular \x60*\x60 or recursive \x60**\x60"
  | .starsInComponent => "recursive wildcards must form a single path component"
  | .badRanges => "invalid range pattern"

/-- An error in words. -/
def message (e : PatternError) : String :=
  s!"Pattern syntax error near position {e.position}: {faultMessage e.fault}"

end PatternError

namespace FilePattern

/-- A sign of a pattern. -/
inductive Sign where
  | char (c : Char)
  | anyChar
  | anyChars
  | oneOf (negated : Bool) (ranges : List (Char × Char))
  /-- Two stars, with the slash after them. -/
  | everywhere
deriving DecidableEq, Repr

/-! ## Reading -/

/-- The ranges between brackets. A hyphen that does not stand between two characters stands for
itself. -/
def ranges : List Char → List (Char × Char)
  | a :: '-' :: b :: cs => (a, b) :: ranges cs
  | c :: cs => (c, c) :: ranges cs
  | [] => []

/-- The ranges behind an opening bracket, and how many characters they take with the closing one. A
closing bracket that comes first stands for itself. -/
def ranges? (cs : List Char) : Option (Sign × Nat) :=
  let negated := cs.head? = some '!'
  match if negated then cs.drop 1 else cs with
  | [] => none
  | first :: more =>
    let others := more.takeWhile (· ≠ ']')
    if others.length = more.length then none
    else
      let width := others.length + (if negated then 3 else 2)
      some (.oneOf negated (ranges (first :: others)), width)

/-- The sign that a pattern goes on with, and how many characters it takes. -/
def sign (position : Nat) (previous : Option Char) (c : Char) (cs : List Char) :
    Except PatternError (Sign × Nat) :=
  if c = '?' then .ok (.anyChar, 1)
  else if c = '*' then
    match 1 + (cs.takeWhile (· = '*')).length with
    | 1 => .ok (.anyChars, 1)
    | 2 =>
      if previous.any (· ≠ '/') then .error ⟨position - 1, .starsInComponent⟩
      else match (cs.drop 1).head? with
        | none => .ok (.everywhere, 2)
        | some d =>
          if d = '/' then .ok (.everywhere, 3) else .error ⟨position + 2, .starsInComponent⟩
    | _ => .error ⟨position + 2, .tooManyStars⟩
  else if c = '[' then
    match ranges? cs with
    | some (s, width) => .ok (s, width + 1)
    | none => .error ⟨position, .badRanges⟩
  else .ok (.char c, 1)

/-- The signs of a text from a position on, behind a character. -/
def signs (position : Nat) (previous : Option Char) : List Char → Except PatternError (List Sign)
  | [] => .ok []
  | c :: cs => do
    let (s, width) ← sign position previous c cs
    let read := (c :: cs).take width
    return s :: (← signs (position + read.length) read.getLast? (cs.drop (width - 1)))
termination_by cs => cs.length
decreasing_by simp only [List.length_drop, List.length_cons]; omega

/-! ## Components -/

/-- A component of a pattern. -/
inductive Component where
  /-- A name that is written out. -/
  | name (s : String)
  | shape (signs : List Sign)
  | everywhere
deriving DecidableEq, Repr

/-- The character that a sign stands for, if it is just one. -/
def Sign.char? : Sign → Option Char
  | .char c => some c
  | _ => none

/-- The component that some signs are. -/
def Component.ofSigns (signs : List Sign) : Component :=
  if signs.contains .everywhere then .everywhere
  else match signs.mapM Sign.char? with
    | some cs => .name (.ofList cs)
    | none => .shape signs

end FilePattern

/-- A pattern for files. -/
structure FilePattern where
  /-- Whether the pattern starts at the root. -/
  absolute : Bool
  components : List FilePattern.Component
  /-- Whether the pattern ends with a slash, and so means directories. -/
  onlyDirectories : Bool
deriving DecidableEq, Repr

namespace FilePattern

/-- The parts between the slashes of a text, without an empty one at the end. -/
def parts (cs : List Char) : List (List Char) :=
  let all := Path.segments cs
  if 1 < all.length && all.getLast? = some [] then all.dropLast else all

/-- Reads a pattern. The whole of it is read first, and then each component on its own, so that
brackets cannot hold a slash. -/
def parse (s : String) : Except PatternError FilePattern := do
  let cs := s.toList
  let _ ← signs 0 none cs
  let absolute := cs.head? = some '/'
  let components ← (parts (if absolute then cs.drop 1 else cs)).mapM (signs 0 none)
  return ⟨absolute, components.map Component.ofSigns, cs.getLast? = some '/'⟩

/-! ## Names -/

/-- A text and all its endings. -/
def endings : List Char → List (List Char)
  | [] => [[]]
  | c :: cs => (c :: cs) :: endings cs

/-- Whether signs fit a name. -/
def Sign.fit : List Sign → List Char → Bool
  | [], cs => cs.isEmpty
  | .anyChars :: signs, cs => (endings cs).any (fit signs)
  | .everywhere :: signs, cs => (endings cs).any (fit signs)
  | .char c :: signs, cs => cs.head? = some c && fit signs cs.tail
  | .anyChar :: signs, cs => !cs.isEmpty && fit signs cs.tail
  | .oneOf negated ranges :: signs, cs =>
    let inside := fun c => ranges.any fun r => r.1 ≤ c && c ≤ r.2
    cs.head?.any (fun c => inside c != negated) && fit signs cs.tail

/-- Whether a component fits a name. -/
def Component.fits (p : Component) (name : String) : Bool :=
  match p with
  | .name s => s = name
  | .shape signs => Sign.fit signs name.toList
  | .everywhere => true

end FilePattern

end CallLint
