import CallLint.NodeKind
import CallLint.Span
import CallLint.TypeRef

/-!
# Expressions

An expression is a tree of nodes. Each node has a kind, a span in its source, maybe a type, and for
a call maybe the method that it resolves to.

* `Expr.preorder` lists a tree by recursion: a node, then its children from left to right.
* `Expr.descendants` lists the same nodes with a stack of the trees that are still to be visited.
-/

namespace CallLint

/-- The method that a call resolves to. -/
structure MethodRef where
  owner : TypeRef
  name : String
  isStatic : Bool
deriving DecidableEq, Repr

/-- A node of a parsed and type-checked expression. -/
structure Expr where
  kind : NodeKind
  span : Span
  type : Option TypeRef
  target : Option MethodRef
  children : List Expr
deriving BEq, Repr

namespace Expr

instance : Inhabited Expr := ⟨⟨.other, ⟨0, 0⟩, none, none, []⟩⟩

/-- A node without type, target and children. -/
def leaf (kind : NodeKind) (span : Span) : Expr := ⟨kind, span, none, none, []⟩

/-- A call of a method. -/
def call (span : Span) (target : MethodRef) (arguments : List Expr) : Expr :=
  ⟨.methodCall, span, none, some target, arguments⟩

/-- The same node with a type. -/
def withType (e : Expr) (t : TypeRef) : Expr := { e with type := some t }

/-- The same node with one more child. -/
def withChild (e child : Expr) : Expr := { e with children := e.children ++ [child] }

/-- The arguments of a call; other nodes have none. -/
def arguments (e : Expr) : List Expr := if e.kind = .methodCall then e.children else []

mutual

/-- The nodes of a tree, each before its children, children from left to right. -/
def preorder : Expr → List Expr
  | ⟨kind, span, type, target, children⟩ =>
    ⟨kind, span, type, target, children⟩ :: preorderAll children

/-- The nodes of some trees, one tree after the other. -/
def preorderAll : List Expr → List Expr
  | [] => []
  | e :: es => preorder e ++ preorderAll es

end

mutual

/-- Decides whether two trees are equal. -/
def decEq : (a b : Expr) → Decidable (a = b)
  | ⟨kind, span, type, target, children⟩, ⟨kind', span', type', target', children'⟩ =>
    have := decEqAll children children'
    decidable_of_iff (kind = kind' ∧ span = span' ∧ type = type' ∧ target = target' ∧
      children = children')
      (by rw [mk.injEq])

/-- Decides whether two lists of trees are equal. -/
def decEqAll : (as bs : List Expr) → Decidable (as = bs)
  | [], [] => .isTrue rfl
  | [], _ :: _ => .isFalse nofun
  | _ :: _, [] => .isFalse nofun
  | a :: as, b :: bs =>
    have := decEq a b
    have := decEqAll as bs
    decidable_of_iff (a = b ∧ as = bs) (by rw [List.cons.injEq])

end

instance : DecidableEq Expr := decEq

mutual

/-- How many nodes a tree has. -/
def nodes : Expr → Nat
  | ⟨_, _, _, _, children⟩ => nodesOfAll children + 1

/-- How many nodes some trees have. -/
def nodesOfAll : List Expr → Nat
  | [] => 0
  | e :: es => nodes e + nodesOfAll es

end

/-- The nodes of two lists of trees add up. -/
@[simp] theorem nodesOfAll_append (as bs : List Expr) :
    nodesOfAll (as ++ bs) = nodesOfAll as + nodesOfAll bs := by
  induction as with
  | nil => simp [nodesOfAll]
  | cons a as ih => simp [nodesOfAll, ih, Nat.add_assoc]

/-- A node counts itself and the nodes of its children. -/
theorem nodes_eq (e : Expr) : e.nodes = nodesOfAll e.children + 1 := by cases e; rfl

/-- Visits the trees of a stack: the top one is listed and gives way to its children. -/
def visit : List Expr → List Expr
  | [] => []
  | e :: stack => e :: visit (e.children ++ stack)
termination_by stack => nodesOfAll stack
decreasing_by simp [nodesOfAll, nodes_eq]

/-- The nodes of a tree in the order in which they are visited. -/
def descendants (e : Expr) : List Expr := visit [e]

end Expr

end CallLint
