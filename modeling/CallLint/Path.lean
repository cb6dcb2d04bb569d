import CallLint.Text.Line

/-!
# Paths

A path is kept as it was written. Two paths are compared by their components, so `a//b`, `a/./b` and
`a/b/` all stand for `a/b`; a dot in front is a component of its own.

* `Path.components`: the components of a path, from the left.
* `Path.compare_eq_iff`: two paths compare as equal exactly when their components are the same.
* `Path.join`, `Path.parent?`, `Path.extension` work on the text of a path.
-/

namespace CallLint

/-- A path in a file system, as it was written. -/
structure Path where
  text : String
deriving DecidableEq, Repr, Inhabited

namespace Path

/-- A component of a path. -/
inductive Component where
  | root
  /-- A dot in front of a path. -/
  | here
  /-- Two dots. -/
  | up
  | name (s : String)
deriving DecidableEq, Repr

namespace Component

/-- The kinds of components come in this order. -/
def rank : Component → Nat
  | .root => 0
  | .here => 1
  | .up => 2
  | .name _ => 3

/-- The text of a name. -/
def label : Component → String
  | .name s => s
  | _ => ""

instance : Ord Component := ⟨compareLex (compareOn rank) (compareOn label)⟩

instance : Std.TransOrd Component :=
  inferInstanceAs (Std.TransCmp (compareLex (compareOn rank) (compareOn label)))

/-- A component is known by its rank and its label. -/
theorem eq_of_rank_eq {a b : Component} (hr : a.rank = b.rank) (hl : a.label = b.label) :
    a = b := by
  cases a <;> cases b <;> simp_all [rank, label]

instance : Std.LawfulEqOrd Component where
  eq_of_compare {a b} h := by
    have h : compareLex (compareOn rank) (compareOn label) a b = .eq := h
    obtain ⟨hr, hl⟩ := compareLex_eq_eq.1 h
    exact eq_of_rank_eq (Std.compare_eq_iff_eq.1 hr) (Std.compare_eq_iff_eq.1 hl)

end Component

/-- What a path starts with before its first slash-separated part: a slash, a lone dot or
nothing. -/
def lead (p : List Char) : List Char :=
  match p with
  | '/' :: _ => ['/']
  | ['.'] => ['.']
  | '.' :: '/' :: _ => ['.']
  | _ => []

/-- The parts of a text between its slashes. -/
def segments (cs : List Char) : List (List Char) := cs.splitOnP (· = '/')

/-- Whether a part between slashes stands for nothing. -/
def isVoid (segment : List Char) : Bool := segment = [] || segment = ['.']

/-- The component that a part between slashes stands for. -/
def component (segment : List Char) : Component :=
  if segment = ['.', '.'] then .up else .name (.ofList segment)

/-- The component that the start of a path stands for, if any. -/
def leadComponent : List Char → List Component
  | ['/'] => [.root]
  | ['.'] => [.here]
  | _ => []

/-- The components of a path. -/
def components (p : Path) : List Component :=
  let start := lead p.text.toList
  let rest := segments (p.text.toList.drop start.length)
  leadComponent start ++ (rest.filter (!isVoid ·)).map component

instance : Ord Path := ⟨compareOn components⟩

instance : Std.TransOrd Path := inferInstanceAs (Std.TransCmp (compareOn components))

/-- Whether two paths stand for the same place. -/
def same (p q : Path) : Bool := p.components = q.components

/-- Paths compare as equal exactly if they have the same components. -/
theorem compare_eq_iff {p q : Path} : compare p q = .eq ↔ p.components = q.components := by
  change compare p.components q.components = .eq ↔ _
  exact Std.compare_eq_iff_eq

/-- Whether a path starts at the root. -/
def isAbsolute (p : Path) : Bool := Text.startsWith "/" p.text.toList

/-- Whether nothing is written. -/
def isEmpty (p : Path) : Bool := p.text.isEmpty

/-- A path read from the place of another one. -/
def join (base p : Path) : Path :=
  if p.isAbsolute then p
  else if base.isEmpty || base.text.toList.getLast? = some '/' then ⟨base.text ++ p.text⟩
  else ⟨base.text ++ "/" ++ p.text⟩

/-- The path without its last component; a root and an empty path have no last component. -/
def parent? (p : Path) : Option Path :=
  let start := lead p.text.toList
  let rest := (segments (p.text.toList.drop start.length)).reverse
  let written (reversed : List (List Char)) : Path :=
    ⟨.ofList (start ++ ['/'].intercalate (reversed.dropWhile isVoid).reverse)⟩
  match rest.dropWhile isVoid with
  | _ :: above => some (written above)
  | [] => if start = ['.'] then some ⟨""⟩ else none

/-- The name of the file that a path leads to. -/
def fileName? (p : Path) : Option String :=
  match p.components.getLast? with
  | some (.name s) => some s
  | _ => none

/-- What follows the last dot of the file name; a dot at its start does not count. -/
def extension (p : Path) : String :=
  let name := ((p.fileName?.getD "").toList).reverse
  let ending := name.takeWhile (· ≠ '.')
  if ending.length + 1 < name.length then .ofList ending.reverse else ""

end Path

end CallLint
