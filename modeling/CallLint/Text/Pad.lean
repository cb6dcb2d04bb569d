/-!
# Columns

Texts in columns of a fixed width, counted in characters. A text that is too long is not cut.

* `Text.length_padLeft`: how wide a padded text is.
-/

namespace CallLint.Text

/-- A text with blanks in front, at least `width` characters wide. -/
def padLeft (width : Nat) (s : String) : String :=
  .ofList (List.replicate (width - s.toList.length) ' ' ++ s.toList)

/-- A text with blanks behind, at least `width` characters wide. -/
def padRight (width : Nat) (s : String) : String :=
  .ofList (s.toList ++ List.replicate (width - s.toList.length) ' ')

/-- A padded text is as wide as asked for, or as long as it was. -/
@[simp] theorem length_padLeft (width : Nat) (s : String) :
    (padLeft width s).toList.length = max width s.toList.length := by
  simp only [padLeft, String.toList_ofList, List.length_append, List.length_replicate]
  omega

end CallLint.Text
