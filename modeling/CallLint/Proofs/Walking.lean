import Mathlib.Data.List.Lex
import Mathlib.Logic.Function.Iterate
import CallLint.Proofs.Traversal

/-!
# Walks through a tree

A tree is walked through with a stack: the last tree of the stack is taken off, its root is listed,
and its children are put on in reverse. The stack may grow, but each round lists one node, so the
walk ends. What comes of it is said twice: by recursion, and by the places of the nodes, where a
place is the way down from the root.

* `Walk.all_round`, `Walk.left_round`: what one round keeps, and what it uses up.
* `Walk.iterate_round_start`: the whole walk.
* `Expr.nodeAt?`: the node at a place. `Expr.places`: the places of a tree, in lexicographic order.
* `Expr.walk_by_places`: every node is listed once for each place where it stands, and parents come
  first.
-/

namespace CallLint

/-! ## The loop -/

/-- A walk through some trees: those that are still to be visited, the next one last, and the nodes
listed so far. -/
structure Walk where
  stack : List Expr
  listed : List Expr

namespace Walk

/-- Before the first round. -/
def start (root : Expr) : Walk := ⟨[root], []⟩

/-- One round: the last tree is taken off, its root is listed, and its children are put on in
reverse. Without trees nothing happens any more. -/
def round (w : Walk) : Walk :=
  match w.stack.getLast? with
  | none => w
  | some e => ⟨w.stack.dropLast ++ e.children.reverse, w.listed ++ [e]⟩

/-- All nodes of a walk: those that are listed, and then those of the trees on the stack. -/
def all (w : Walk) : List Expr := w.listed ++ Expr.visit w.stack.reverse

/-- How many nodes are left. -/
def left (w : Walk) : Nat := Expr.nodesOfAll w.stack

@[simp] theorem round_nil (listed : List Expr) : round ⟨[], listed⟩ = ⟨[], listed⟩ := rfl

@[simp] theorem round_concat (stack : List Expr) (e : Expr) (listed : List Expr) :
    round ⟨stack ++ [e], listed⟩ = ⟨stack ++ e.children.reverse, listed ++ [e]⟩ := by
  simp [round]

/-- The number of nodes does not depend on the order of the trees. -/
@[simp] theorem nodesOfAll_reverse (es : List Expr) :
    Expr.nodesOfAll es.reverse = Expr.nodesOfAll es := by
  induction es with
  | nil => rfl
  | cons e es ih =>
    rw [List.reverse_cons, Expr.nodesOfAll_append, ih, Expr.nodesOfAll, Expr.nodesOfAll,
      Expr.nodesOfAll]
    omega

@[simp] theorem left_eq_zero_iff {w : Walk} : w.left = 0 ↔ w.stack = [] := by
  rcases w with ⟨stack, listed⟩
  cases stack with
  | nil => simp [left, Expr.nodesOfAll]
  | cons e stack => simp [left, Expr.nodesOfAll, Expr.nodes_eq]

/-- A round lists the node whose turn it is, and changes nothing about the nodes that come later. -/
theorem all_round (w : Walk) : w.round.all = w.all := by
  rcases w with ⟨stack, listed⟩
  rcases List.eq_nil_or_concat stack with rfl | ⟨front, e, rfl⟩
  · rw [round_nil]
  · -- turned around, the stack is visited from its last tree on, with the children in order
    rw [List.concat_eq_append, round_concat, all, all]
    simp only [List.reverse_append, List.reverse_reverse, List.reverse_singleton,
      List.singleton_append, List.append_assoc]
    rw [Expr.visit.eq_2]

/-- A round uses up one node. -/
theorem left_round (w : Walk) : w.round.left = w.left - 1 := by
  rcases w with ⟨stack, listed⟩
  rcases List.eq_nil_or_concat stack with rfl | ⟨front, e, rfl⟩
  · rfl
  · have hone : Expr.nodesOfAll [e] = Expr.nodesOfAll e.children + 1 := by
      rw [Expr.nodesOfAll, Expr.nodesOfAll, Expr.nodes_eq, Nat.add_zero]
    rw [List.concat_eq_append, round_concat, left, left, Expr.nodesOfAll_append,
      Expr.nodesOfAll_append, nodesOfAll_reverse, hone]
    omega

/-- No number of rounds changes what is listed in the end. -/
@[simp] theorem all_iterate (n : Nat) (w : Walk) : (round^[n] w).all = w.all := by
  induction n generalizing w with
  | zero => rfl
  | succ n ih => rw [Function.iterate_succ_apply, ih, all_round]

/-- Each of some rounds uses up a node, as long as there is one. -/
@[simp] theorem left_iterate (n : Nat) (w : Walk) : (round^[n] w).left = w.left - n := by
  induction n generalizing w with
  | zero => rfl
  | succ n ih =>
    rw [Function.iterate_succ_apply, ih, left_round]
    omega

@[simp] theorem left_start (e : Expr) : (start e).left = e.nodes := by
  rw [left, start, Expr.nodesOfAll, Expr.nodesOfAll, Nat.add_zero]

/-- The stack is empty after as many rounds as there are nodes, and not before. -/
theorem stack_iterate_start_iff (e : Expr) (n : Nat) :
    (round^[n] (start e)).stack = [] ↔ e.nodes ≤ n := by
  rw [← left_eq_zero_iff, left_iterate, left_start, Nat.sub_eq_zero_iff_le]

/-- When the stack is empty, all nodes are listed. -/
theorem iterate_round_start (e : Expr) : round^[e.nodes] (start e) = ⟨[], e.descendants⟩ := by
  have hall := all_iterate e.nodes (start e)
  have hstack := (stack_iterate_start_iff e e.nodes).2 (Nat.le_refl _)
  -- nothing is on the stack any more, so what is listed is all there is
  generalize round^[e.nodes] (start e) = w at hall hstack ⊢
  rcases w with ⟨stack, listed⟩
  obtain rfl : stack = [] := hstack
  have hlisted : listed = e.descendants := by
    rw [all, all, List.reverse_nil, Expr.visit, List.append_nil] at hall
    exact hall
  rw [hlisted]

end Walk

namespace Expr

/-! ## Places -/

/-- The node at a place: the numbers of a place tell which child to go to, level by level. -/
def nodeAt? (e : Expr) : List Nat → Option Expr
  | [] => some e
  | i :: place => e.children[i]?.bind (·.nodeAt? place)

mutual

/-- The places of a tree: that of its root, and then those in its children. -/
def places : Expr → List (List Nat)
  | ⟨_, _, _, _, children⟩ => [] :: placesFrom 0 children

/-- The places in some children, which are numbered from `first` on. -/
def placesFrom (first : Nat) : List Expr → List (List Nat)
  | [] => []
  | e :: es => (places e).map (first :: ·) ++ placesFrom (first + 1) es

end

/-- The places of a tree, level by level. -/
theorem places_eq (e : Expr) : e.places = [] :: placesFrom 0 e.children := by
  cases e
  rw [places]

/-- A place in some children starts with the number of one of them and goes on inside that. -/
theorem mem_placesFrom_iff {first : Nat} {es : List Expr} {place : List Nat} :
    place ∈ placesFrom first es ↔
      ∃ i c rest, place = (first + i) :: rest ∧ es[i]? = some c ∧ rest ∈ c.places := by
  -- the others are numbered from one further on
  induction es generalizing first with
  | nil => simp [placesFrom]
  | cons e es ih =>
    rw [placesFrom, List.mem_append, List.mem_map, ih]
    constructor
    · rintro (⟨rest, hrest, rfl⟩ | ⟨i, c, rest, rfl, hc, hrest⟩)
      · exact ⟨0, e, rest, rfl, rfl, hrest⟩
      · refine ⟨i + 1, c, rest, ?_, hc, hrest⟩
        rw [Nat.add_assoc, Nat.add_comm 1 i]
    · rintro ⟨i, c, rest, rfl, hc, hrest⟩
      cases i with
      | zero =>
        obtain rfl : e = c := Option.some.inj hc
        exact .inl ⟨rest, hrest, rfl⟩
      | succ i =>
        refine .inr ⟨i, c, rest, ?_, hc, hrest⟩
        rw [Nat.add_assoc, Nat.add_comm 1 i]

/-- The places of a tree are those where a node stands. -/
theorem mem_places_iff {e : Expr} {place : List Nat} :
    place ∈ e.places ↔ (e.nodeAt? place).isSome = true := by
  induction place generalizing e with
  | nil => simp [places_eq, nodeAt?]
  | cons i place ih =>
    rw [places_eq, List.mem_cons, mem_placesFrom_iff, nodeAt?]
    cases hc : e.children[i]? with
    | none => simp [hc]
    | some c => simp [hc, ih]

mutual

/-- The places of a tree are in lexicographic order. -/
theorem pairwise_places : ∀ e : Expr, e.places.Pairwise (· < ·)
  | ⟨_, _, _, _, children⟩ => by
    rw [places, List.pairwise_cons]
    refine ⟨?_, pairwise_placesFrom 0 children⟩
    intro place hplace
    rcases mem_placesFrom_iff.1 hplace with ⟨i, c, rest, rfl, -⟩
    exact List.nil_lt_cons _ _

/-- So are those in some children. -/
theorem pairwise_placesFrom (first : Nat) : ∀ es : List Expr, (placesFrom first es).Pairwise (· < ·)
  | [] => .nil
  | e :: es => by
    rw [placesFrom, List.pairwise_append, List.pairwise_map]
    refine ⟨(pairwise_places e).imp ?_, pairwise_placesFrom (first + 1) es, ?_⟩
    · -- in one child: the rest of the place decides
      intro a b hab
      exact List.cons_lt_cons_iff.2 (.inr ⟨rfl, hab⟩)
    · -- in an earlier child and in a later one: the number of the child decides
      intro a ha b hb
      rcases List.mem_map.1 ha with ⟨rest, -, rfl⟩
      rcases mem_placesFrom_iff.1 hb with ⟨i, c, rest', rfl, -⟩
      exact List.cons_lt_cons_iff.2 (.inl (by omega))

end

mutual

/-- At the places of a tree stand its nodes, in the order in which recursion lists them. -/
theorem map_nodeAt?_places : ∀ e : Expr, e.places.map e.nodeAt? = e.preorder.map some
  | ⟨kind, span, type, target, children⟩ => by
    rw [places, preorder, List.map_cons, List.map_cons, nodeAt?]
    congr 1
    exact map_nodeAt?_placesFrom ⟨kind, span, type, target, children⟩ [] children rfl

/-- The same for the last children of a node, which come after some others. -/
theorem map_nodeAt?_placesFrom (e : Expr) (before : List Expr) :
    ∀ es : List Expr, e.children = before ++ es →
      (placesFrom before.length es).map e.nodeAt? = (preorderAll es).map some
  | [], _ => rfl
  | c :: es, h => by
    -- the way down to the first of these children starts with the number of those before it
    have hchild : e.nodeAt? ∘ (before.length :: ·) = c.nodeAt? := by
      funext place
      rw [Function.comp_apply, nodeAt?, h, List.getElem?_append_right (Nat.le_refl _), Nat.sub_self]
      rfl
    have hothers := map_nodeAt?_placesFrom e (before ++ [c]) es (by rw [h, List.append_assoc]; rfl)
    rw [List.length_append, List.length_singleton] at hothers
    rw [placesFrom, preorderAll, List.map_append, List.map_append, List.map_map, hchild,
      map_nodeAt?_places c, hothers]

end

/-- One step further down from a place. -/
theorem nodeAt?_concat (e : Expr) (place : List Nat) (i : Nat) :
    e.nodeAt? (place ++ [i]) = (e.nodeAt? place).bind (·.children[i]?) := by
  induction place generalizing e with
  | nil =>
    rw [List.nil_append, nodeAt?, nodeAt?, Option.bind_some]
    cases e.children[i]? with
    | none => rfl
    | some c => rfl
  | cons j place ih =>
    rw [List.cons_append, nodeAt?, nodeAt?]
    cases e.children[j]? with
    | none => rfl
    | some c => exact ih c

/-- In a list of places in order, a place is listed before those below it. -/
theorem sublist_of_below {list : List (List Nat)} (h : list.Pairwise (· < ·)) {place : List Nat}
    {i : Nat} (hplace : place ∈ list) (hbelow : place ++ [i] ∈ list) :
    [place, place ++ [i]].Sublist list := by
  have hlt : place < place ++ [i] := by
    have happend : place ++ [] < place ++ [i] := List.append_left_lt (List.nil_lt_cons _ _)
    rwa [List.append_nil] at happend
  rcases List.append_of_mem hplace with ⟨front, back, rfl⟩
  -- the longer place is the larger one, so it is neither in front nor the same
  rcases List.mem_append.1 hbelow with hfront | hback
  · have hgt := (List.pairwise_append.1 h).2.2 _ hfront _ List.mem_cons_self
    exact absurd hgt (lt_asymm hlt)
  · rcases List.mem_cons.1 hback with hsame | hback
    · rw [hsame] at hlt
      exact absurd hlt (lt_irrefl _)
    · have htail : [place ++ [i]].Sublist back := List.singleton_sublist.2 hback
      exact (htail.cons_cons place).trans (List.sublist_append_right front _)

/-- The walk through a tree ends after as many rounds as the tree has nodes, and not before. It
lists the root, and then what it lists for each of the children, from left to right. Told by places:
for the places of the tree in lexicographic order, it lists the node at each of them, so it lists a
node once for each place where it stands, and the place of a parent comes before that of its
child. -/
theorem walk_by_places (e : Expr) :
    (∀ n, (Walk.round^[n] (.start e)).stack = [] ↔ e.nodes ≤ n) ∧
      (Walk.round^[e.nodes] (.start e)).listed = e.descendants ∧
      e.descendants = e.preorder ∧ e.preorder = e :: e.children.flatMap preorder ∧
      ∃ places : List (List Nat), places.Pairwise (· < ·) ∧
        (∀ place, place ∈ places ↔ (e.nodeAt? place).isSome = true) ∧
        places.map e.nodeAt? = e.descendants.map some ∧
        ∀ place i, (e.nodeAt? (place ++ [i])).isSome = true →
          [place, place ++ [i]].Sublist places := by
  refine ⟨Walk.stack_iterate_start_iff e, ?_, descendants_eq_preorder e, ?_, e.places,
    pairwise_places e, fun place => mem_places_iff, ?_, ?_⟩
  · rw [Walk.iterate_round_start]
  · rw [preorder_eq, preorderAll_eq_flatMap]
  · rw [map_nodeAt?_places, descendants_eq_preorder]
  · -- a child is reached by way of its parent
    intro place i hbelow
    have hplace : (e.nodeAt? place).isSome = true := by
      rw [nodeAt?_concat] at hbelow
      exact Option.isSome_of_isSome_bind hbelow
    exact sublist_of_below (pairwise_places e) (mem_places_iff.2 hplace) (mem_places_iff.2 hbelow)

/-- A node with two children, of which the first one has a child. -/
def branching : Expr :=
  (leaf .other ⟨0, 4⟩).withChild ((leaf .other ⟨0, 2⟩).withChild (leaf .identifier ⟨0, 1⟩))
    |>.withChild (leaf .identifier ⟨3, 4⟩)

/-- The grandchild comes after its parent and before the sibling of its parent. -/
theorem walk_by_places_branching :
    branching.descendants.map (·.span) = [⟨0, 4⟩, ⟨0, 2⟩, ⟨0, 1⟩, ⟨3, 4⟩] ∧
      ∃ places : List (List Nat), [[0], [0, 0]].Sublist places ∧
        places.map branching.nodeAt? = branching.descendants.map some := by
  rcases walk_by_places branching with ⟨-, -, hpreorder, -, places, -, -, hnodes, hbelow⟩
  refine ⟨?_, places, hbelow [0] 0 (by decide), hnodes⟩
  rw [hpreorder]
  decide

end Expr

end CallLint
