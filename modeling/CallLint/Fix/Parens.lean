import CallLint.NodeKind
import CallLint.Sorted.Set

/-!
# Parentheses

When the text of an expression takes the place of another one, it may need parentheses. The kinds of
expressions that get them are a setting.

* `ParenPolicy.requires_standard`: by default the expressions that are not primary get them.
-/

namespace CallLint

/-- The kinds of expressions that are put in parentheses. -/
structure ParenPolicy where
  kinds : SortedSet NodeKind
deriving DecidableEq, Repr

namespace ParenPolicy

/-- Parentheses for the given kinds. -/
def ofList (kinds : List NodeKind) : ParenPolicy := ⟨.ofList kinds⟩

/-- Parentheses for every expression that is not primary. -/
def standard : ParenPolicy := ofList (NodeKind.all.filter (!·.isPrimary))

/-- Parentheses for binary expressions alone. -/
def binaryOnly : ParenPolicy := ofList [.binary]

instance : Inhabited ParenPolicy := ⟨standard⟩

/-- Whether expressions of a kind get parentheses. -/
def requires (p : ParenPolicy) (kind : NodeKind) : Bool := decide (kind ∈ p.kinds)

/-- The text of an expression of a kind, in parentheses if it needs them. -/
def wrap (p : ParenPolicy) (kind : NodeKind) (text : String) : String :=
  if p.requires kind then "(" ++ text ++ ")" else text

/-- The usual settings ask for parentheses around all that is not primary. -/
@[simp] theorem requires_standard (kind : NodeKind) : standard.requires kind = !kind.isPrimary := by
  cases kind <;> decide

end ParenPolicy

end CallLint
