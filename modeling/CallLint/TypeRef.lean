import CallLint.QualifiedName
import CallLint.Text.Blank

/-!
# Types

The types that a type checker attaches to expressions: the primitive types, and classes by name.

* `TypeRef.parse?` has no answer for a blank text alone.
* `TypeRef.isNamed`: a class also answers to its last segment.
-/

namespace CallLint

/-- A primitive type. -/
inductive Primitive where
  | boolean
  | byte
  | short
  | char
  | int
  | long
  | float
  | double
deriving DecidableEq, Repr

namespace Primitive

/-- All primitive types. -/
def all : List Primitive := [.boolean, .byte, .short, .char, .int, .long, .float, .double]

/-- The name of a primitive type. -/
def name : Primitive → String
  | .boolean => "boolean"
  | .byte => "byte"
  | .short => "short"
  | .char => "char"
  | .int => "int"
  | .long => "long"
  | .float => "float"
  | .double => "double"

end Primitive

/-- A type that an expression has. -/
inductive TypeRef where
  | primitive (p : Primitive)
  /-- A class, by the name it was given. -/
  | named (name : String)
deriving DecidableEq, Repr

namespace TypeRef

/-- The name of a type. -/
def name : TypeRef → String
  | .primitive p => p.name
  | .named n => n

/-- The type that a text names, blanks around it aside. -/
def parse? (s : String) : Option TypeRef :=
  let s := Text.trim s
  if s.isEmpty then none
  else some (match Primitive.all.find? (·.name = s) with
    | some p => .primitive p
    | none => .named s)

/-- The last segment of the name of a type. -/
def simpleName : TypeRef → String
  | .primitive p => p.name
  | .named n => QualifiedName.lastSegment n

/-- Whether a type answers to a name: its own, or for a class also its last segment. -/
def isNamed (t : TypeRef) (name : String) : Bool :=
  match t with
  | .primitive p => p.name = name
  | .named n => n = name || (!name.toList.contains '.' && t.simpleName = name)

end TypeRef

end CallLint
