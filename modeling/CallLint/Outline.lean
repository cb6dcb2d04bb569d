/-!
# Outlines

An outline says which parts of a value a decoder looks at. It passes over the other fields of a
record, so a reader may be less strict there.

* `Attention.field`, `Attention.item`: how much of a part is looked at, by its name or by its
  position.
-/

namespace CallLint

/-- The parts of a value that a decoder looks at. -/
inductive Outline where
  /-- A value without parts. -/
  | scalar
  | list (item : Outline)
  | map (value : Outline)
  /-- A record with these fields. -/
  | record (fields : List (String × Outline))
deriving Repr

/-- How much of a value is looked at. -/
inductive Attention where
  | everything
  | within (o : Outline)
  | nothing
deriving Repr

namespace Attention

/-- How much is looked at in the field or entry with a name. -/
def field : Attention → String → Attention
  | .nothing, _ => .nothing
  | .within (.map value), _ => .within value
  | .within (.record fields), name =>
    match fields.lookup name with
    | some o => .within o
    | none => .nothing
  | _, _ => .everything

/-- How much is looked at in the item at a position. A record may be given as the list of its
fields. -/
def item : Attention → Nat → Attention
  | .nothing, _ => .nothing
  | .within (.list item), _ => .within item
  | .within (.record fields), n =>
    match fields[n]? with
    | some (_, o) => .within o
    | none => .everything
  | _, _ => .everything

/-- Whether a value is passed over. -/
def isNothing : Attention → Bool
  | .nothing => true
  | _ => false

/-- Where nothing is looked at, no field is. -/
@[simp] theorem field_nothing (name : String) : Attention.nothing.field name = .nothing := rfl

/-- Where nothing is looked at, no item is. -/
@[simp] theorem item_nothing (n : Nat) : Attention.nothing.item n = .nothing := by
  unfold item; rfl

end Attention

end CallLint
