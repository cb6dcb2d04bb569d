import CallLint.Glob.Match

/-!
# Depth of patterns

How deep the structure of a pattern nests. A part that repeats, a choice and a row of several parts
each add one level to the parts that they are made of. A pattern may not nest deeper than a limit.

* `Glob.Token.depth`: how deep one part nests.
* `Glob.Pattern.isShallow`: whether a pattern stays within the limit.
-/

namespace CallLint.Glob

/-- How many things a part stands for in a row: each byte of a character is one, and so is the slash
of a tree at the end. -/
def Token.width : Token → Nat
  | .literal c => c.utf8Size
  | .trailingTree => 2
  | .oneOfPatterns alternatives => if areVoid alternatives then 0 else 1
  | _ => 1

/-- How many things stand in a row of parts. -/
def width (parts : List Token) : Nat := parts.foldl (fun n t => n + t.width) 0

/-- How many alternatives stand for some text. -/
def choices (alternatives : List (List Token)) : Nat := alternatives.countP (!isVoid ·)

/-- One level if there are several things, and none otherwise. -/
def levelOf (things : Nat) : Nat := if 1 < things then 1 else 0

mutual

/-- How deep a part nests. A byte does not, and any bytes are a repetition. Whole components are a
choice in brackets, between rows with a repetition. -/
def Token.depth : Token → Nat
  | .literal _ => 0
  | .anyByte => 0
  | .anyBytes => 1
  | .oneOf _ ranges => 1 + levelOf (ranges.flatMap byteRanges).length
  | .leadingTree => 4
  | .innerTree => 4
  | .trailingTree => 1
  | .oneOfPatterns alternatives =>
    if areVoid alternatives then 0
    else 1 + levelOf (choices alternatives) + depthOfAny alternatives

/-- How deep the deepest of some alternatives nests. -/
def depthOfAny : List (List Token) → Nat
  | [] => 0
  | parts :: alternatives =>
    max (levelOf (width parts) + depthOfAll parts) (depthOfAny alternatives)

/-- How deep the deepest of some parts nests. -/
def depthOfAll : List Token → Nat
  | [] => 0
  | t :: parts => max t.depth (depthOfAll parts)

end

/-- How deep a pattern may nest. -/
def Pattern.maxDepth : Nat := 250

/-- How deep a pattern nests. The whole of it is a row between the start and the end of a path. -/
def Pattern.depth (p : Pattern) : Nat := 1 + depthOfAll p.parts

/-- Whether a pattern nests no deeper than it may. -/
def Pattern.isShallow (p : Pattern) : Bool := p.depth ≤ Pattern.maxDepth

end CallLint.Glob
