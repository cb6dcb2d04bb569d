import CallLint.Text.Blank

/-!
# Severities

How much a finding matters.

* `Severity.find?_word`: every severity is found by its word.
* `Severity.parse?` also takes other words in common use.
-/

namespace CallLint

/-- How much a finding matters. -/
inductive Severity where
  | info
  | warning
  | error
deriving DecidableEq, Repr

namespace Severity

instance : Inhabited Severity := ⟨.warning⟩

/-- All severities, from the least on. -/
def all : List Severity := [.info, .warning, .error]

/-- The place of a severity in their order. -/
def rank (s : Severity) : Nat := s.ctorIdx

/-- The word for a severity. -/
def word : Severity → String
  | .info => "info"
  | .warning => "warning"
  | .error => "error"

/-- The severity that a word names, in capitals or small letters. -/
def parse? (s : String) : Option Severity :=
  match Text.smallLetters s with
  | "info" | "hint" | "note" => some .info
  | "warning" | "warn" => some .warning
  | "error" | "err" => some .error
  | _ => none

/-- No severity is missing. -/
@[simp] theorem mem_all (s : Severity) : s ∈ all := by cases s <;> decide

/-- Different severities have different words. -/
theorem find?_word (s : Severity) : all.find? (·.word = s.word) = some s := by cases s <;> decide

end Severity

end CallLint
