import Mathlib.Data.List.Basic
import Mathlib.Logic.Relation
import CallLint.Matcher

/-!
# Answers and work of matchers

The answer of a matcher is one thing, the work that it takes is another. The answer depends only on
which answers the members of each `all` and `any` give, so these may stand in any order, and any
number of times. The work depends on the order: members are asked from left to right, and the first
no ends an `all` as the first yes ends an `any`.

* `Matcher.Rearranges`: one change of the order or of the number of members.
  `Matcher.Rearranges.holds_eq`: it keeps the answer at every node.
* `Matcher.Asks`: the work, said of the members that are asked. `Matcher.run_eq_iff_asks`: this is
  what is done.
* `Matcher.answers_and_work`: both.
-/

namespace CallLint.Matcher

/-! ## Answers -/

/-- The two ways to put members together. -/
inductive Junction where
  | all
  | any

/-- The matcher that puts members together. -/
def Junction.join : Junction → List Matcher → Matcher
  | .all, members => .all members
  | .any, members => .any members

/-- One change of a matcher: somewhere in it, the members of an `all` or an `any` are put in another
order, or one of them is put there once more. -/
inductive Rearranges : Matcher → Matcher → Prop
  | reorder (j : Junction) {members members'} (h : members.Perm members') :
      Rearranges (j.join members) (j.join members')
  | double (j : Junction) {m members} (h : m ∈ members) :
      Rearranges (j.join members) (j.join (m :: members))
  | member (j : Junction) (before after : List Matcher) {m m'} (h : Rearranges m m') :
      Rearranges (j.join (before ++ m :: after)) (j.join (before ++ m' :: after))
  | not {m m'} (h : Rearranges m m') : Rearranges (.not m) (.not m')
  | argument (position : Nat) {m m'} (h : Rearranges m m') :
      Rearranges (.argument position m) (.argument position m')

variable {env : Environment} {e : Expr} {m m' : Matcher} {members members' : List Matcher}

/-- An `all` holds if each of its members does. -/
theorem holdsAll_iff : holdsAll members e env = true ↔ ∀ m ∈ members, m.holds e env = true := by
  induction members with
  | nil => simp [holdsAll]
  | cons m members ih => rw [holdsAll, Bool.and_eq_true, ih, List.forall_mem_cons]

/-- An `any` holds if one of its members does. -/
theorem holdsAny_iff : holdsAny members e env = true ↔ ∃ m ∈ members, m.holds e env = true := by
  induction members with
  | nil => simp [holdsAny]
  | cons m members ih => rw [holdsAny, Bool.or_eq_true, ih, List.exists_mem_cons_iff]

/-- The answer of members that are put together depends only on which answers are among theirs. -/
theorem Junction.holds_congr (j : Junction)
    (h : ∀ answer, (∃ m ∈ members, m.holds e env = answer) ↔
      ∃ m ∈ members', m.holds e env = answer) :
    (j.join members).holds e env = (j.join members').holds e env := by
  rw [Bool.eq_iff_iff]
  cases j with
  | all =>
    -- an `all` says no if one of its members does
    have hno := not_congr (h false)
    simp only [not_exists, not_and, Bool.not_eq_false] at hno
    rw [join, join, holds, holds, holdsAll_iff, holdsAll_iff, hno]
  | any => rw [join, join, holds, holds, holdsAny_iff, holdsAny_iff, h true]

/-- One change keeps the answer. An `argument` looks at another node than the matcher that it is in,
so this is said of all nodes at once. -/
theorem Rearranges.holds_eq (h : Rearranges m m') (e : Expr) (env : Environment) :
    m.holds e env = m'.holds e env := by
  induction h generalizing e with
  | reorder j hperm =>
    apply j.holds_congr
    simp only [hperm.mem_iff, implies_true]
  | @double j m members hm =>
    apply j.holds_congr
    intro answer
    rw [List.exists_mem_cons_iff]
    exact ⟨.inr, fun h => h.elim (fun hanswer => ⟨m, hm, hanswer⟩) id⟩
  | member j before after h ih =>
    apply j.holds_congr
    intro answer
    simp only [List.mem_append, List.mem_cons, or_and_right, exists_or, exists_eq_left, ih e]
  | not h ih => rw [holds, holds, ih e]
  | argument position h ih => rw [holds, holds, funext ih]

/-- Any number of changes keep the answer. -/
theorem accepts_eq_of_rearranged (h : Relation.ReflTransGen Rearranges m m') (e : Expr)
    (env : Environment) : m'.accepts e env = m.accepts e env := by
  induction h with
  | refl => rfl
  | tail _ hstep ih =>
    rw [← ih, accepts, accepts, run_fst, run_fst]
    exact (hstep.holds_eq e env).symm

/-! ## Work -/

mutual

/-- What it takes to ask a matcher about a node: its answer, and the leaves that are asked, in their
order. -/
inductive Asks (env : Environment) : Matcher → Expr → Bool → List Leaf → Prop
  | leaf (l : Leaf) (e : Expr) : Asks env (.leaf l) e (l.answer e env) [l]
  | all {members e asked} (h : AsksEach env true members e asked) :
      Asks env (.all members) e true asked
  | allStops {before m after e asked more} (hbefore : AsksEach env true before e asked)
      (h : Asks env m e false more) :
      Asks env (.all (before ++ m :: after)) e false (asked ++ more)
  | any {members e asked} (h : AsksEach env false members e asked) :
      Asks env (.any members) e false asked
  | anyStops {before m after e asked more} (hbefore : AsksEach env false before e asked)
      (h : Asks env m e true more) :
      Asks env (.any (before ++ m :: after)) e true (asked ++ more)
  | not {m e answer asked} (h : Asks env m e answer asked) : Asks env (.not m) e (!answer) asked
  | argument {position m e a answer asked} (hcall : e.kind = .methodCall)
      (ha : e.children[position]? = some a) (h : Asks env m a answer asked) :
      Asks env (.argument position m) e answer asked
  | absent {position m e} (h : e.kind ≠ .methodCall ∨ e.children.length ≤ position) :
      Asks env (.argument position m) e false []

/-- What it takes to ask some matchers about a node, one after the other, all of which give one
answer. -/
inductive AsksEach (env : Environment) : Bool → List Matcher → Expr → List Leaf → Prop
  | nil (answer : Bool) (e : Expr) : AsksEach env answer [] e []
  | cons {answer m members e asked more} (h : Asks env m e answer asked)
      (hmembers : AsksEach env answer members e more) :
      AsksEach env answer (m :: members) e (asked ++ more)

end

variable {answer : Bool} {asked more : List Leaf}

/-- A member in front that says yes leaves the rest of an `all` to be asked. -/
theorem Asks.all_cons (hm : Asks env m e true asked) (h : Asks env (.all members) e answer more) :
    Asks env (.all (m :: members)) e answer (asked ++ more) := by
  cases h with
  | all h => exact .all (.cons hm h)
  | allStops hbefore h =>
    rw [← List.append_assoc]
    exact .allStops (.cons hm hbefore) h

/-- A member in front that says no leaves the rest of an `any` to be asked. -/
theorem Asks.any_cons (hm : Asks env m e false asked) (h : Asks env (.any members) e answer more) :
    Asks env (.any (m :: members)) e answer (asked ++ more) := by
  cases h with
  | any h => exact .any (.cons hm h)
  | anyStops hbefore h =>
    rw [← List.append_assoc]
    exact .anyStops (.cons hm hbefore) h

/-- The arguments of a call are its children. -/
theorem getElem?_arguments_eq_some_iff {position : Nat} {a : Expr} :
    e.arguments[position]? = some a ↔ e.kind = .methodCall ∧ e.children[position]? = some a := by
  unfold Expr.arguments
  split <;> simp [*]

/-- There is no argument at a position behind them, or of an expression that is no call. -/
theorem getElem?_arguments_eq_none_iff {position : Nat} :
    e.arguments[position]? = none ↔ e.kind ≠ .methodCall ∨ e.children.length ≤ position := by
  unfold Expr.arguments
  split <;> simp [*]

mutual

/-- What is done is what it takes. -/
theorem asks_run (m : Matcher) (e : Expr) (env : Environment) :
    Asks env m e (m.run e env).1 (m.run e env).2 := by
  cases m with
  | leaf l => exact .leaf l e
  | all members => exact asks_runAll members e env
  | any members => exact asks_runAny members e env
  | not m => exact .not (asks_run m e env)
  | argument position m =>
    rw [run]
    cases ha : e.arguments[position]? with
    | none => exact .absent (getElem?_arguments_eq_none_iff.1 ha)
    | some a =>
      rcases getElem?_arguments_eq_some_iff.1 ha with ⟨hcall, ha⟩
      exact .argument hcall ha (asks_run m a env)

/-- What an `all` does is what it takes. -/
theorem asks_runAll (members : List Matcher) (e : Expr) (env : Environment) :
    Asks env (.all members) e (runAll members e env).1 (runAll members e env).2 := by
  cases members with
  | nil => exact .all (.nil true e)
  | cons m members =>
    have hm := asks_run m e env
    rw [runAll]
    cases hanswer : m.holds e env with
    | true =>
      -- a yes: the members behind it are asked as well
      rw [run_fst, hanswer] at hm
      simpa [hanswer] using hm.all_cons (asks_runAll members e env)
    | false =>
      -- a no: nothing behind it is asked
      rw [run_fst, hanswer] at hm
      simpa [hanswer] using @Asks.allStops env [] m members e [] _ (.nil true e) hm

/-- What an `any` does is what it takes. -/
theorem asks_runAny (members : List Matcher) (e : Expr) (env : Environment) :
    Asks env (.any members) e (runAny members e env).1 (runAny members e env).2 := by
  cases members with
  | nil => exact .any (.nil false e)
  | cons m members =>
    have hm := asks_run m e env
    rw [runAny]
    cases hanswer : m.holds e env with
    | true =>
      -- a yes: nothing behind it is asked
      rw [run_fst, hanswer] at hm
      simpa [hanswer] using @Asks.anyStops env [] m members e [] _ (.nil false e) hm
    | false =>
      -- a no: the members behind it are asked as well
      rw [run_fst, hanswer] at hm
      simpa [hanswer] using hm.any_cons (asks_runAny members e env)

end

/-- Members in front that all say yes leave the rest of an `all` to be asked, and those that all say
no leave the rest of an `any`: the answer is that of the rest, and the work comes first. -/
structure PassesOn (env : Environment) (answer : Bool) (members : List Matcher) (e : Expr)
    (asked : List Leaf) : Prop where
  all : answer = true → ∀ rest : List Matcher,
    runAll (members ++ rest) e env = ((runAll rest e env).1, asked ++ (runAll rest e env).2)
  any : answer = false → ∀ rest : List Matcher,
    runAny (members ++ rest) e env = ((runAny rest e env).1, asked ++ (runAny rest e env).2)

mutual

/-- What it takes is what is done. -/
theorem run_of_asks : ∀ {m : Matcher} {e : Expr} {answer : Bool} {asked : List Leaf},
    Asks env m e answer asked → m.run e env = (answer, asked)
  | _, _, _, _, .leaf _ _ => rfl
  | _, _, _, _, .all h => by simpa [run, runAll] using (passesOn_of_asksEach h).all rfl []
  | _, _, _, _, .allStops hbefore h => by
    simp [run, (passesOn_of_asksEach hbefore).all rfl, runAll, run_of_asks h]
  | _, _, _, _, .any h => by simpa [run, runAny] using (passesOn_of_asksEach h).any rfl []
  | _, _, _, _, .anyStops hbefore h => by
    simp [run, (passesOn_of_asksEach hbefore).any rfl, runAny, run_of_asks h]
  | _, _, _, _, .not h => by simp [run, run_of_asks h]
  | _, _, _, _, .argument hcall ha h => by
    simpa [run, getElem?_arguments_eq_some_iff.2 ⟨hcall, ha⟩] using run_of_asks h
  | _, _, _, _, .absent h => by simp [run, getElem?_arguments_eq_none_iff.2 h]

/-- Members that all give one answer leave what comes behind them to be asked. -/
theorem passesOn_of_asksEach :
    ∀ {members : List Matcher} {e : Expr} {answer : Bool} {asked : List Leaf},
      AsksEach env answer members e asked → PassesOn env answer members e asked
  | _, _, _, _, .nil _ _ => ⟨fun _ _ => rfl, fun _ _ => rfl⟩
  | _, _, _, _, .cons h hmembers => by
    have hfirst := run_of_asks h
    have hmore := passesOn_of_asksEach hmembers
    constructor
    · rintro rfl rest
      simp [runAll, hfirst, hmore.all rfl rest]
    · rintro rfl rest
      simp [runAny, hfirst, hmore.any rfl rest]

end

/-- There is one way to ask a matcher, and it is the one that is taken. -/
theorem run_eq_iff_asks : m.run e env = (answer, asked) ↔ Asks env m e answer asked := by
  constructor
  · intro h
    have hasks := asks_run m e env
    rwa [h] at hasks
  · exact run_of_asks

/-! ## Both -/

/-- Other orders and numbers of members, anywhere in a matcher, keep its answer to every node. The
leaves that are asked are those that `Asks` says: from left to right, an `all` up to its first no,
an `any` up to its first yes, and none at an argument that a node does not have. -/
theorem answers_and_work (m : Matcher) (e : Expr) (env : Environment) :
    (∀ m', Relation.ReflTransGen Rearranges m m' → m'.accepts e env = m.accepts e env) ∧
    ∀ answer asked, m.run e env = (answer, asked) ↔ Asks env m e answer asked :=
  ⟨fun _ h => accepts_eq_of_rearranged h e env, fun _ _ => run_eq_iff_asks⟩

/-- A question to which the answer is always the same. -/
def settled (label : String) (answer : Bool) : Leaf := .probe (some label) fun _ _ => answer

/-- A matcher for the first argument of a call. -/
def straight : Matcher :=
  .argument 0 (.all [.any [.leaf (settled "a" false), .leaf (settled "b" true)],
    .leaf (settled "c" false)])

/-- The same matcher with all members turned around, and one of them put there once more. -/
def turned : Matcher :=
  .argument 0 (.all
    [.leaf (settled "c" false), .leaf (settled "c" false),
      .any [.leaf (settled "b" true), .leaf (settled "a" false)]])

/-- Three changes lead from one to the other. -/
theorem rearranged_turned : Relation.ReflTransGen Rearranges straight turned :=
  ((Relation.ReflTransGen.single
    (.argument 0 (.member .all [] [_] (.reorder .any (List.Perm.swap _ _ _))))).tail
    (.argument 0 (.reorder .all (List.Perm.swap _ _ _)))).tail
    (.argument 0 (.double .all (List.mem_cons_self ..)))

/-- Both matchers say no to a call, the first one after three questions and the second one after one
of them. Of an expression that is no call nothing is asked. -/
theorem answers_and_work_turned :
    turned.accepts (.call ⟨0, 4⟩ ⟨.named "A", "f", true⟩ [.leaf .other ⟨2, 3⟩])
        ⟨"f(1)", fun _ => false⟩ =
      straight.accepts (.call ⟨0, 4⟩ ⟨.named "A", "f", true⟩ [.leaf .other ⟨2, 3⟩])
        ⟨"f(1)", fun _ => false⟩ ∧
    Asks ⟨"f(1)", fun _ => false⟩ straight
      (.call ⟨0, 4⟩ ⟨.named "A", "f", true⟩ [.leaf .other ⟨2, 3⟩]) false
      [settled "a" false, settled "b" true, settled "c" false] ∧
    Asks ⟨"f(1)", fun _ => false⟩ turned
      (.call ⟨0, 4⟩ ⟨.named "A", "f", true⟩ [.leaf .other ⟨2, 3⟩]) false
      [settled "c" false] ∧
    Asks ⟨"f(1)", fun _ => false⟩ straight (.leaf .other ⟨2, 3⟩) false [] :=
  ⟨(answers_and_work straight _ _).1 turned rearranged_turned,
    ((answers_and_work straight _ _).2 _ _).1 rfl,
    ((answers_and_work turned _ _).2 _ _).1 rfl, ((answers_and_work straight _ _).2 _ _).1 rfl⟩

end CallLint.Matcher
