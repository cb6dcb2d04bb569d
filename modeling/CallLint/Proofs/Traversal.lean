import CallLint.SourceUnit

/-!
# The order of visits

Visiting a tree with a stack lists its nodes as recursion does: a node, then its children from left
to right.

* `Expr.visit_eq_preorderAll`: what a stack still holds is visited tree by tree.
* `SourceUnit.callSites_eq_calls`: the calls of a unit in pre-order.
-/

namespace CallLint

namespace Expr

/-- A node comes before its children. -/
theorem preorder_eq (e : Expr) : e.preorder = e :: preorderAll e.children := by
  cases e
  rw [preorder]

@[simp] theorem preorderAll_append (as bs : List Expr) :
    preorderAll (as ++ bs) = preorderAll as ++ preorderAll bs := by
  induction as with
  | nil => rw [List.nil_append, preorderAll, List.nil_append]
  | cons a as ih => rw [List.cons_append, preorderAll, preorderAll, ih, List.append_assoc]

/-- The trees of a list are visited one after the other. -/
theorem preorderAll_eq_flatMap (es : List Expr) : preorderAll es = es.flatMap preorder := by
  induction es with
  | nil => rw [preorderAll, List.flatMap_nil]
  | cons e es ih => rw [preorderAll, List.flatMap_cons, ih]

/-- The trees of a stack are visited one after the other, the top one first. -/
theorem visit_eq_preorderAll (stack : List Expr) : visit stack = preorderAll stack := by
  -- one step takes the top node off and puts its children in its place
  induction stack using visit.induct with
  | case1 => rw [visit, preorderAll]
  | case2 e stack ih =>
    rw [visit, ih, preorderAll_append, preorderAll, preorder_eq, List.cons_append]

/-- A stack and recursion visit the nodes of a tree in the same order. -/
theorem descendants_eq_preorder (e : Expr) : e.descendants = e.preorder := by
  rw [descendants, visit_eq_preorderAll, preorderAll, preorderAll, List.append_nil]

end Expr

namespace SourceUnit

/-- The nodes of a unit, tree by tree, each tree in pre-order. -/
def nodes (u : SourceUnit) : List Expr := Expr.preorderAll u.trees

/-- The method calls among the nodes of a unit. -/
def calls (u : SourceUnit) : List Expr := u.nodes.filter (·.kind = .methodCall)

theorem flatMap_descendants (u : SourceUnit) : u.trees.flatMap Expr.descendants = u.nodes := by
  have hvisit : Expr.descendants = Expr.preorder := funext Expr.descendants_eq_preorder
  rw [nodes, Expr.preorderAll_eq_flatMap, hvisit]

/-- So the calls of a unit are found in pre-order. -/
theorem callSites_eq_calls (u : SourceUnit) : u.callSites = u.calls := by
  rw [callSites, calls, ← flatMap_descendants, List.filter_flatMap]

end SourceUnit

end CallLint
