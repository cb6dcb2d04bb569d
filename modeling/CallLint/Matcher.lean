import CallLint.Environment
import CallLint.Expr

/-!
# Matchers

A matcher says yes or no to a node. It is a tree of connectives over leaves, where a leaf looks at
one node. Members are asked from left to right, and no further than needed.

* `Matcher.run` gives the answer, and the leaves that were asked on the way.
* `Matcher.holds` gives the answer without regard to order, and `run_fst` says that it is the same
  one.
-/

namespace CallLint

/-- A question about one node. -/
inductive Leaf where
  /-- Whether a node calls a method of a class, maybe only if the method is static. -/
  | callTo (owner method : String) (staticOnly : Bool)
  /-- Whether a node has one of these types. -/
  | typeIn (types : List TypeRef)
  /-- Any other question, maybe with a label to tell it from others. -/
  | probe (label : Option String) (question : Expr → Environment → Bool)

namespace Leaf

/-- The answer to a question. -/
def answer : Leaf → Expr → Environment → Bool
  | .callTo owner method staticOnly, e, _ =>
    e.kind = .methodCall && e.target.any fun target =>
      target.name = method && target.owner.isNamed owner && (!staticOnly || target.isStatic)
  | .typeIn types, e, _ => e.type.any fun t => types.contains t
  | .probe _ question, e, env => question e env

/-- The label of a question. -/
def label? : Leaf → Option String
  | .probe label _ => label
  | _ => none

end Leaf

/-- A matcher for nodes. -/
inductive Matcher where
  | leaf (l : Leaf)
  | all (members : List Matcher)
  | any (members : List Matcher)
  | not (m : Matcher)
  /-- A matcher for the argument of a call at a position, from zero on. -/
  | argument (position : Nat) (m : Matcher)

namespace Matcher

/-- Matches the calls of a method. -/
def callTo (owner method : String) : Matcher := .leaf (.callTo owner method false)

/-- Matches the calls of a static method. -/
def staticCallTo (owner method : String) : Matcher := .leaf (.callTo owner method true)

/-- Matches the nodes that have one of these types. -/
def typeIn (types : List TypeRef) : Matcher := .leaf (.typeIn types)

/-- Matches the calls whose argument at a position has one of these types. -/
def argumentTypeIn (position : Nat) (types : List TypeRef) : Matcher :=
  .argument position (typeIn types)

/-! ## Asking -/

mutual

/-- The answer of a matcher to a node, with the questions asked in their order. -/
def run : Matcher → Expr → Environment → Bool × List Leaf
  | .leaf l, e, env => (l.answer e env, [l])
  | .all members, e, env => runAll members e env
  | .any members, e, env => runAny members e env
  | .not m, e, env =>
    let (answer, asked) := run m e env
    (!answer, asked)
  | .argument position m, e, env =>
    match e.arguments[position]? with
    | some a => run m a env
    | none => (false, [])

/-- Asks members up to the first no. -/
def runAll : List Matcher → Expr → Environment → Bool × List Leaf
  | [], _, _ => (true, [])
  | m :: members, e, env =>
    let (answer, asked) := run m e env
    if answer then
      let (rest, more) := runAll members e env
      (rest, asked ++ more)
    else (false, asked)

/-- Asks members up to the first yes. -/
def runAny : List Matcher → Expr → Environment → Bool × List Leaf
  | [], _, _ => (false, [])
  | m :: members, e, env =>
    let (answer, asked) := run m e env
    if answer then (true, asked)
    else
      let (rest, more) := runAny members e env
      (rest, asked ++ more)

end

/-- Whether a matcher matches a node. -/
def accepts (m : Matcher) (e : Expr) (env : Environment) : Bool := (m.run e env).1

/-! ## Meaning -/

mutual

/-- The answer of a matcher, whatever the order of asking. -/
def holds : Matcher → Expr → Environment → Bool
  | .leaf l, e, env => l.answer e env
  | .all members, e, env => holdsAll members e env
  | .any members, e, env => holdsAny members e env
  | .not m, e, env => !holds m e env
  | .argument position m, e, env => e.arguments[position]?.any fun a => holds m a env

/-- Whether every member says yes. -/
def holdsAll : List Matcher → Expr → Environment → Bool
  | [], _, _ => true
  | m :: members, e, env => holds m e env && holdsAll members e env

/-- Whether some member says yes. -/
def holdsAny : List Matcher → Expr → Environment → Bool
  | [], _, _ => false
  | m :: members, e, env => holds m e env || holdsAny members e env

end

mutual

/-- Asking in order gives the answer that does not depend on order. -/
@[simp] theorem run_fst (m : Matcher) (e : Expr) (env : Environment) :
    (m.run e env).1 = m.holds e env := by
  cases m with
  | leaf l => rfl
  | all members => exact runAll_fst members e env
  | any members => exact runAny_fst members e env
  | not m => simp [run, holds, run_fst m]
  | argument position m =>
    unfold run holds
    cases e.arguments[position]? with
    | none => rfl
    | some a => exact run_fst m a env

/-- Asking all members in order answers whether all of them hold. -/
@[simp] theorem runAll_fst (members : List Matcher) (e : Expr) (env : Environment) :
    (runAll members e env).1 = holdsAll members e env := by
  cases members with
  | nil => rfl
  | cons m members =>
    rw [runAll, holdsAll, ← run_fst m e env, ← runAll_fst members e env]
    cases h : (run m e env).1 <;> simp [h]

/-- Asking some members in order answers whether one of them holds. -/
@[simp] theorem runAny_fst (members : List Matcher) (e : Expr) (env : Environment) :
    (runAny members e env).1 = holdsAny members e env := by
  cases members with
  | nil => rfl
  | cons m members =>
    rw [runAny, holdsAny, ← run_fst m e env, ← runAny_fst members e env]
    cases h : (run m e env).1 <;> simp [h]

end

end Matcher

end CallLint
