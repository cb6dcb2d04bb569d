/-!
# Blank characters

The characters with the Unicode property White_Space, and trimming by them. The zero width space and
the byte order mark do not have the property.

* `isBlank_of_isWhitespace`: the blanks of the core library are blank here too.
-/

namespace CallLint.Text

/-- The first and last code points of each range of the property White_Space. -/
def blankRanges : List (Nat × Nat) :=
  [(0x9, 0xD), (0x20, 0x20), (0x85, 0x85), (0xA0, 0xA0), (0x1680, 0x1680), (0x2000, 0x200A),
    (0x2028, 0x2029), (0x202F, 0x202F), (0x205F, 0x205F), (0x3000, 0x3000)]

/-- Whether a character is blank. -/
def isBlank (c : Char) : Bool := blankRanges.any fun r => r.1 ≤ c.toNat && c.toNat ≤ r.2

/-- All that counts as white space in ASCII is blank. -/
theorem isBlank_of_isWhitespace {c : Char} (h : c.isWhitespace = true) : isBlank c = true := by
  simp only [Char.isWhitespace, Bool.or_eq_true, decide_eq_true_eq] at h
  rcases h with ((rfl | rfl) | rfl) | rfl <;> decide

/-- Drops the blanks in front. -/
def trimLeft (cs : List Char) : List Char := cs.dropWhile isBlank

/-- Drops the blanks at the end. -/
def trimRight (cs : List Char) : List Char := (cs.reverse.dropWhile isBlank).reverse

/-- Drops the blanks at both ends. -/
def trimmed (cs : List Char) : List Char := trimRight (trimLeft cs)

/-- A string without the blanks at both ends. -/
def trim (s : String) : String := .ofList (trimmed s.toList)

/-- A string with its ASCII capitals made small. It serves to compare with words of small ASCII
letters that have no `k`: no other character has a small form made of such letters alone. -/
def smallLetters (s : String) : String := .ofList (s.toList.map Char.toLower)

end CallLint.Text
