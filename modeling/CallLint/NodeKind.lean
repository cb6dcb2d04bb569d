import CallLint.Text.Blank

/-!
# Kinds of expressions

The kinds of nodes that a parsed expression may have, in a fixed order. Primary expressions can
stand next to a dot or a call without parentheses.

* `NodeKind.mem_all`: the list of all kinds is complete.
* `NodeKind.find?_word`: every kind is found by its word.
-/

namespace CallLint

/-- The kind of an expression. -/
inductive NodeKind where
  | literal
  | identifier
  | fieldAccess
  | methodCall
  | arrayAccess
  | newObject
  | methodReference
  | parenthesized
  | unary
  | typeCast
  | binary
  | instanceOf
  | conditional
  | assignment
  | compoundAssignment
  | lambda
  | other
deriving DecidableEq, Repr, Inhabited

namespace NodeKind

/-- All kinds in their order. -/
def all : List NodeKind :=
  [.literal, .identifier, .fieldAccess, .methodCall, .arrayAccess, .newObject, .methodReference,
    .parenthesized, .unary, .typeCast, .binary, .instanceOf, .conditional, .assignment,
    .compoundAssignment, .lambda, .other]

/-- The place of a kind in their order. -/
def index (k : NodeKind) : Nat := k.ctorIdx

instance : Ord NodeKind := ⟨compareOn index⟩

instance : Std.TransOrd NodeKind := inferInstanceAs (Std.TransCmp (compareOn index))

/-- Different kinds have different places in the order. -/
theorem index_injective : ∀ a b : NodeKind, a.index = b.index → a = b := by
  intro a b; cases a <;> cases b <;> decide

instance : Std.LawfulEqOrd NodeKind where
  eq_of_compare {a b} h := index_injective a b (Std.compare_eq_iff_eq.1 h)

/-- The word for a kind. -/
def word : NodeKind → String
  | .literal => "literal"
  | .identifier => "identifier"
  | .fieldAccess => "field-access"
  | .methodCall => "method-call"
  | .arrayAccess => "array-access"
  | .newObject => "new-object"
  | .methodReference => "method-reference"
  | .parenthesized => "parenthesized"
  | .unary => "unary"
  | .typeCast => "type-cast"
  | .binary => "binary"
  | .instanceOf => "instance-of"
  | .conditional => "conditional"
  | .assignment => "assignment"
  | .compoundAssignment => "compound-assignment"
  | .lambda => "lambda"
  | .other => "other"

/-- Whether an expression of this kind is primary. -/
def isPrimary : NodeKind → Bool
  | .literal | .identifier | .fieldAccess | .methodCall | .arrayAccess | .newObject
  | .methodReference | .parenthesized => true
  | _ => false

/-- The kind that a word names, in capitals or small letters, with hyphens or underscores, and with
blanks around it. -/
def parse? (s : String) : Option NodeKind :=
  let normal : String := .ofList ((Text.smallLetters (Text.trim s)).toList.map fun c =>
    if c = '_' then '-' else c)
  all.find? (·.word = normal)

/-- No kind is missing. -/
@[simp] theorem mem_all (k : NodeKind) : k ∈ all := by cases k <;> decide

/-- Different kinds have different words. -/
theorem find?_word (k : NodeKind) : all.find? (·.word = k.word) = some k := by
  cases k <;> decide

end NodeKind

end CallLint
