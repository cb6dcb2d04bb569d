import CallLint.Span

/-!
# Edits

An edit is anchored to a span of the source. It puts its text before the span, after it, or in place
of it. How far its text may be trusted is the safety of the plan that it belongs to.

* `Edit.target`: the bytes that an edit replaces, none for an insertion.
* `Edit.rank`: at one offset, insertions after a span come first and replacements last.
-/

namespace CallLint

/-- How far a fix may be trusted. -/
inductive Safety where
  /-- The meaning of the program stays the same. -/
  | safe
  /-- The program may behave differently. -/
  | risky
  /-- The fix is a suggestion and is never applied. -/
  | displayOnly
deriving DecidableEq, Repr, Inhabited

namespace Safety

/-- All degrees of safety. -/
def all : List Safety := [.safe, .risky, .displayOnly]

/-- The word for a degree of safety. -/
def word : Safety → String
  | .safe => "safe"
  | .risky => "unsafe"
  | .displayOnly => "display"

/-- No degree is missing. -/
@[simp] theorem mem_all (s : Safety) : s ∈ all := by cases s <;> decide

/-- Different degrees have different words. -/
theorem find?_word (s : Safety) : all.find? (·.word = s.word) = some s := by cases s <;> decide

end Safety

/-- Where an edit puts its text. -/
inductive EditPlace where
  | before
  | instead
  | after
deriving DecidableEq, Repr

namespace EditPlace

/-- All places. -/
def all : List EditPlace := [.before, .instead, .after]

/-- The word for a place. -/
def word : EditPlace → String
  | .before => "insert-before"
  | .instead => "replace"
  | .after => "insert-after"

/-- No place is missing. -/
@[simp] theorem mem_all (p : EditPlace) : p ∈ all := by cases p <;> decide

/-- Different places have different words. -/
theorem find?_word (p : EditPlace) : all.find? (·.word = p.word) = some p := by
  cases p <;> decide

end EditPlace

/-- One change to a source. -/
structure Edit where
  place : EditPlace
  span : Span
  text : String
deriving DecidableEq, Repr

namespace Edit

/-- The bytes that an edit replaces. -/
def target (e : Edit) : Span :=
  match e.place with
  | .before => .point e.span.start
  | .instead => e.span
  | .after => .point e.span.stop

/-- The place of an edit among those whose targets start at the same offset. -/
def rank (e : Edit) : Nat :=
  match e.place with
  | .after => 0
  | .before => 1
  | .instead => 2

end Edit

/-- Why edits cannot be applied to a source. -/
inductive EditError where
  | overlap (first second : Span)
  | outOfBounds (span : Span) (size : Nat)
  | insideCharacter (span : Span)
deriving DecidableEq, Repr

namespace EditError

/-- An error in words. -/
def message : EditError → String
  | .overlap first second => s!"Overlapping edits at {first.render} and {second.render}"
  | .outOfBounds span size => s!"Edit span {span.render} is outside the source ({size} bytes)"
  | .insideCharacter span => s!"Edit span {span.render} does not fall on character boundaries"

end EditError

end CallLint
