import CallLint.Environment
import CallLint.Expr
import CallLint.Path
import CallLint.Sorted.Set

/-!
# Units of source

A unit is one source file that has been parsed and type-checked: its path and text, the names of the
classes that it can use, and its expressions.

* `SourceUnit.environment`: what rules see of a unit.
* `SourceUnit.callSites`: the calls of a unit in the order of its trees.
-/

namespace CallLint

/-- A parsed and type-checked source file. -/
structure SourceUnit where
  path : Path
  source : String
  /-- The full names of the classes that can be used. -/
  symbols : SortedSet String
  trees : List Expr
deriving DecidableEq

namespace SourceUnit

instance : Inhabited SourceUnit := ⟨⟨⟨""⟩, "", ∅, []⟩⟩

/-- What rules see of a unit. -/
def environment (u : SourceUnit) : Environment := ⟨u.source, fun name => decide (name ∈ u.symbols)⟩

/-- The method calls of a unit, tree by tree. -/
def callSites (u : SourceUnit) : List Expr :=
  u.trees.flatMap fun tree => tree.descendants.filter (·.kind = .methodCall)

end SourceUnit

end CallLint
