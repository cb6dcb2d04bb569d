import CallLint.Diagnostic
import CallLint.Matcher

/-!
# Rules

A rule looks at one node at a time and keeps nothing in between. Its screen says which nodes it
applies to; what it finds there is a diagnostic, unless the rule itself is broken.

* `Rule.check`: the answer of a rule to a node.
* `Rule.check_eq_none_iff`: a rule has nothing to say exactly where its screen does not match.
-/

namespace CallLint

/-- The group that a rule belongs to. -/
inductive RuleCategory where
  | correctness
  | suspicious
  | style
  | perf
deriving DecidableEq, Repr

namespace RuleCategory

instance : Inhabited RuleCategory := ⟨.style⟩

/-- All categories. -/
def all : List RuleCategory := [.correctness, .suspicious, .style, .perf]

/-- The word for a category. -/
def word : RuleCategory → String
  | .correctness => "correctness"
  | .suspicious => "suspicious"
  | .style => "style"
  | .perf => "perf"

/-- The category that a word names, in capitals or small letters. -/
def parse? (s : String) : Option RuleCategory :=
  match Text.smallLetters s with
  | "performance" => some .perf
  | name => all.find? (·.word = name)

end RuleCategory

/-- What fixes a rule offers. -/
inductive FixAvailability where
  | none
  | automatic
  /-- Some findings, with or without a fix, need a person to look. -/
  | requiresHumanAttention
deriving DecidableEq, Repr

namespace FixAvailability

instance : Inhabited FixAvailability := ⟨.none⟩

/-- All cases. -/
def all : List FixAvailability := [.none, .automatic, .requiresHumanAttention]

/-- The word for a case in documents. -/
def word : FixAvailability → String
  | .none => "none"
  | .automatic => "automatic"
  | .requiresHumanAttention => "requires-human-attention"

/-- A case in words for people. -/
def describe : FixAvailability → String
  | .none => "none"
  | .automatic => "automatic"
  | .requiresHumanAttention => "requires human attention"

end FixAvailability

/-- The description of a rule. -/
structure RuleInfo where
  id : String
  name : Option String
  /-- The rule in one line, which is also the usual message of its findings. -/
  summary : String
  explanation : Option String
  severity : Severity
  category : RuleCategory
  fix : FixAvailability
  /-- Where the documentation is. -/
  docs : Option String
  tags : List String
  /-- Code that the rule complains about. -/
  exampleBad : Option String
  /-- Code that the rule is content with. -/
  exampleGood : Option String
deriving DecidableEq, Repr

namespace RuleInfo

/-- A description with an identifier and a summary alone. -/
def plain (id summary : String) : RuleInfo :=
  ⟨id, none, summary, none, .warning, default, default, none, [], none, none⟩

/-- Whether a rule has a tag. -/
def hasTag (info : RuleInfo) (tag : String) : Bool := info.tags.contains tag

end RuleInfo

/-- A rule for calls. -/
structure Rule where
  info : RuleInfo
  /-- The nodes that the rule applies to. -/
  screen : Matcher
  /-- What the rule says about a node that it applies to. -/
  examine : Expr → Environment → Except RuleError Diagnostic

namespace Rule

/-- The identifier of a rule. -/
def id (r : Rule) : String := r.info.id

/-- The answer of a rule to a node. -/
def check (r : Rule) (e : Expr) (env : Environment) : Except RuleError (Option Diagnostic) :=
  if r.screen.accepts e env then (r.examine e env).map some else .ok none

/-- A rule has nothing to say about a node exactly if its screen does not let the node through. -/
theorem check_eq_none_iff {r : Rule} {e : Expr} {env : Environment} :
    r.check e env = .ok none ↔ r.screen.accepts e env = false := by
  unfold check
  split
  · cases r.examine e env <;> simp_all [Except.map]
  · simp_all

end Rule

end CallLint
