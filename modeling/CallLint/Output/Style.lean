import CallLint.Text.Line

/-!
# Styled text

Colours and styles of a terminal. A styled text stands between a sequence that opens its style and
one that resets all styles; a reset inside the text is followed by the opening sequence again, so
that a styled text may contain another one.

* `Style.paint`: a text in a style.
* `Style.paint_plain`: the plain style changes nothing.
-/

namespace CallLint

/-- A colour of a terminal. -/
inductive Color where
  | red
  | green
  | yellow
  | blue
  | magenta
  | cyan
deriving DecidableEq, Repr

/-- The code of a colour. -/
def Color.code : Color → String
  | .red => "31"
  | .green => "32"
  | .yellow => "33"
  | .blue => "34"
  | .magenta => "35"
  | .cyan => "36"

/-- How a text looks on a terminal. -/
structure Style where
  bold : Bool
  underlined : Bool
  color : Option Color
deriving DecidableEq, Repr

namespace Style

/-- No style. -/
def plain : Style := ⟨false, false, none⟩

/-- A colour alone. -/
def ofColor (c : Color) : Style := ⟨false, false, some c⟩

/-- A colour in bold. -/
def boldColor (c : Color) : Style := ⟨true, false, some c⟩

/-- Bold alone. -/
def boldface : Style := ⟨true, false, none⟩

/-- Underlined alone. -/
def underline : Style := ⟨false, true, none⟩

/-- The codes of a style. -/
def codes (s : Style) : List String :=
  (if s.bold then ["1"] else []) ++ (if s.underlined then ["4"] else [])
    ++ (s.color.map Color.code).toList

/-- The sequence that opens a style. -/
def opening (s : Style) : String := "\x1b[" ++ ";".intercalate s.codes ++ "m"

/-- The sequence that resets all styles. -/
def reset : String := "\x1b[0m"

/-- Puts a text behind each reset of another text. -/
def afterResets (insert : List Char) : List Char → List Char
  | [] => []
  | c :: cs =>
    if Text.startsWith reset (c :: cs) then
      reset.toList ++ insert ++ afterResets insert (cs.drop (reset.toList.length - 1))
    else c :: afterResets insert cs
termination_by cs => cs.length
decreasing_by
  · simp only [List.length_drop, List.length_cons]; omega
  · exact Nat.lt_succ_self _

/-- A text in a style. -/
def paint (s : Style) (text : String) : String :=
  if s.codes.isEmpty then text
  else s.opening ++ .ofList (afterResets s.opening.toList text.toList) ++ reset

/-- A text in a style if it may be coloured. -/
def paintIf (s : Style) (colored : Bool) (text : String) : String :=
  if colored then s.paint text else text

/-- Without a style, a text stays as it is. -/
@[simp] theorem paint_plain (text : String) : plain.paint text = text := rfl

end Style

end CallLint
