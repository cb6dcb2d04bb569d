import CallLint.Outline
import CallLint.Yaml.Node

/-!
# Views of a Yaml document

A decoder sees a document without references: each one that it looks at has been replaced by what it
stands for. So a small document could say a lot, and the references that are followed are limited by
the size of the document.

* `Yaml.Document.view?`: what an outline shows of a document.
-/

namespace CallLint.Yaml

namespace Node

/-- The text of a scalar. -/
def text? : Node → Option String
  | .scalar _ _ text => some text
  | _ => none

mutual

/-- How many marks it takes to write a node: one for a scalar or a reference, two around other
nodes. -/
def weight : Node → Nat
  | .sequence items => weightOfItems items + 2
  | .mapping entries => weightOfEntries entries + 2
  | _ => 1

/-- The weight of some items. -/
def weightOfItems : List Node → Nat
  | [] => 0
  | n :: items => n.weight + weightOfItems items

/-- The weight of some entries. -/
def weightOfEntries : List (Node × Node) → Nat
  | [] => 0
  | (key, value) :: entries => key.weight + value.weight + weightOfEntries entries

end

end Node

namespace Document

/-- Counts the references that are followed, or finds that one of them stands for nothing. -/
abbrev Follow (α : Type) : Type := StateT Nat Option α

/-- The node that a node stands for. -/
def follow (d : Document) : Node → Follow Node
  | .reference number => do
    modify (· + 1)
    match d.anchored.lookup number with
    | some n => return n
    | none => failure
  | n => return n

mutual

/-- What an outline shows of a node. -/
def shown (d : Document) : Outline → Node → Follow Node
  | .scalar, n => d.follow n
  | .list item, n => do
    match ← d.follow n with
    | .sequence items => return .sequence (← items.mapM (d.shown item))
    | n => return n
  | .map value, n => do
    match ← d.follow n with
    | .mapping entries =>
      return .mapping (← entries.mapM fun (key, v) => do return (← d.follow key, ← d.shown value v))
    | n => return n
  | .record fields, n => do
    match ← d.follow n with
    | .mapping entries =>
      return .mapping (← entries.mapM fun (key, v) => do
        let key ← d.follow key
        return (key, ← d.shownField fields key.text? v))
    | n => return n

/-- What is shown of the field with a name. Nothing is shown of a field that is not in the
outline. -/
def shownField (d : Document) : List (String × Outline) → Option String → Node → Follow Node
  | [], _, _ => return .empty
  | (field, o) :: fields, name, n =>
    if name = some field then d.shown o n else d.shownField fields name n

end

/-- How many references may be followed for each mark of a document. -/
def maxFollowed : Nat := 100

/-- What an outline shows of a document; none if too many references are followed for that. -/
def view? (d : Document) (o : Outline) : Option Node := do
  let (n, followed) ← (d.shown o d.root).run 0
  if followed ≤ maxFollowed * d.root.weight then some n else none

end Document

end CallLint.Yaml
