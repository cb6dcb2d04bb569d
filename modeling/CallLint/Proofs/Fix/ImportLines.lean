import CallLint.Fix.Import
import CallLint.Proofs.NameGrammar
import CallLint.Proofs.Text.Line

/-!
# The names that a source imports

Which lines import a name, told from the pieces of the source: both ways of looking at lines agree,
since the ending of a line is blank. A line that is written for a well-formed name is read back as
that name.

* `importedName?_eq_some_iff`: the lines that are recognised, told without trimming.
* `importedNames`: the imported names of a source, one for each import line.
* `importedNames_append`, `importedNames_append_feed`: the names of a text from those of its parts.
* `importedNames_importLines`: what is written for some names is read back as these names.
* `leadsWith_of_importedName?`: a line that imports a name is one that new imports are put behind.
-/

namespace CallLint

/-! ## Characters of names -/

namespace QualifiedName

/-- A name has visible characters only. -/
theorem not_blank_of_isWellFormed {name : String} (h : isWellFormed name = true) :
    ∀ c ∈ name.toList, Text.isBlank c = false := by
  intro c hc
  rcases (isWellFormed_iff_isName.1 h).visible c hc with ⟨hlow, hhigh⟩
  exact Text.isBlank_eq_false hlow hhigh

end QualifiedName

/-! ## Import lines -/

/-- Blanks around a line make no difference. -/
theorem importedName?_congr {a b : List Char} (h : Text.trimmed a = Text.trimmed b) :
    importedName? a = importedName? b := by
  rw [importedName?, importedName?, h]

/-- Whether a line imports a name and says nothing else: the word, the name and a semicolon, with
nothing but blanks between them and around them. -/
inductive ImportsOnly (name : List Char) : List Char → Prop
  | intro (lead gap close tail : List Char) (hlead : Text.AllBlank lead) (hgap : Text.AllBlank gap)
      (hclose : Text.AllBlank close) (htail : Text.AllBlank tail) :
      ImportsOnly name (lead ++ "import ".toList ++ gap ++ name ++ close ++ [';'] ++ tail)

/-- The line from its word to its semicolon. -/
theorem trimmed_importsOnly {lead gap name close tail : List Char} (hlead : Text.AllBlank lead)
    (htail : Text.AllBlank tail) :
    Text.trimmed (lead ++ "import ".toList ++ gap ++ name ++ close ++ [';'] ++ tail) =
      "import ".toList ++ (gap ++ name ++ close ++ [';']) := by
  have hparts : lead ++ "import ".toList ++ gap ++ name ++ close ++ [';'] ++ tail =
      lead ++ ("import ".toList ++ (gap ++ name ++ close) ++ [';']) ++ tail := by
    simp only [List.append_assoc]
  have hword : Text.trimLeft ("import ".toList ++ (gap ++ name ++ close)) =
      "import ".toList ++ (gap ++ name ++ close) :=
    Text.trimLeft_cons_of_not_blank (by decide) _
  rw [hparts, Text.trimmed_around hlead htail, Text.trimmed_concat (by decide), hword]
  simp only [List.append_assoc]

/-- The lines that are recognised are those that import a name and say nothing else. -/
theorem importedName?_eq_some_iff {line name : List Char} (hname : Text.trimmed name = name) :
    importedName? line = some name ↔ ImportsOnly name line := by
  constructor
  · intro h
    rcases Option.bind_eq_some_iff.1 h with ⟨rest, hrest, h⟩
    rcases Option.bind_eq_some_iff.1 h with ⟨body, hbody, h⟩
    rw [Text.after?_eq_some_iff] at hrest
    rw [Text.stripLast?_eq_some_iff] at hbody
    have hname : Text.trimmed body = name := Option.some.inj h
    -- what is trimmed away at each of the three times are blanks
    rcases (Text.trimmed_eq_iff.1 hrest).2 with ⟨lead, tail, hlead, htail, rfl⟩
    rcases (Text.trimmed_eq_iff.1 hbody).2 with ⟨gap, behind, hgap, hbehind, rfl⟩
    rcases (Text.trimmed_eq_iff.1 hname).2 with ⟨inner, close, hinner, hclose, rfl⟩
    have hgaps := Text.allBlank_append_iff.2 ⟨hgap, hinner⟩
    have htails := Text.allBlank_append_iff.2 ⟨hbehind, htail⟩
    have hline : ImportsOnly name _ :=
      .intro lead (gap ++ inner) close (behind ++ tail) hlead hgaps hclose htails
    simpa only [List.append_assoc] using hline
  · rintro ⟨lead, gap, close, tail, hlead, hgap, hclose, htail⟩
    have hbody : Text.trimmed (Text.trimLeft (gap ++ name ++ close)) = name := by
      rw [Text.trimmed_trimLeft, Text.trimmed_around hgap hclose, hname]
    rw [importedName?, trimmed_importsOnly hlead htail, Text.after?_eq_some_iff.2 rfl,
      Option.bind_eq_bind, Option.bind_some, Text.trimmed_concat (by decide),
      Text.stripLast?_eq_some_iff.2 rfl, Option.bind_some, hbody]
    rfl

/-- A line that imports a name starts as an import line does. -/
theorem leadsWith_of_importedName? {line name : List Char} (h : importedName? line = some name) :
    leadsWith "import " line = true := by
  rw [importedName?] at h
  rcases Option.bind_eq_some_iff.1 h with ⟨rest, hrest, -⟩
  rw [Text.after?_eq_some_iff] at hrest
  -- the word is at the start of the trimmed line, and only the end of the other one is trimmed
  have hword : "import ".toList <+: Text.trimmed line := by
    rw [hrest]
    exact List.prefix_append _ _
  rw [leadsWith, Text.startsWith, List.isPrefixOf_iff_prefix]
  exact hword.trans (Text.trimRight_prefix _)

/-- A text without blanks stays as it is when it is trimmed. -/
theorem trimmed_of_not_blank {cs : List Char} (h : ∀ c ∈ cs, Text.isBlank c = false) :
    Text.trimmed cs = cs :=
  Text.trimmed_eq_self (fun c hc => h c (List.mem_of_mem_head? hc))
    fun c hc => h c (List.mem_of_getLast? hc)

theorem toList_importLine (name : String) :
    (importLine name).toList = "import ".toList ++ (name.toList ++ [';']) ++ ['\n'] := by
  rw [importLine, String.toList_append, String.toList_append, List.append_assoc, List.append_assoc,
    List.append_assoc]
  rfl

@[simp] theorem endsLine_importLine (name : String) : Text.EndsLine (importLine name).toList := by
  rw [toList_importLine]
  exact Text.endsLine_append_feed _

section WellFormed

variable {name : String} (h : QualifiedName.isWellFormed name = true)

include h

/-- A name stays as it is when it is trimmed. -/
theorem trimmed_of_isWellFormed : Text.trimmed name.toList = name.toList :=
  trimmed_of_not_blank (QualifiedName.not_blank_of_isWellFormed h)

/-- The line that imports a well-formed name is read back as that name. -/
theorem importedName?_importLine : importedName? (importLine name).toList = some name.toList := by
  rw [importedName?_eq_some_iff (trimmed_of_isWellFormed h), toList_importLine]
  have hline : ImportsOnly name.toList _ :=
    .intro [] [] [] ['\n'] Text.allBlank_nil Text.allBlank_nil Text.allBlank_nil (by decide)
  simpa only [List.nil_append, List.append_nil, List.append_assoc] using hline

/-- Such a line is one piece, as a name has no line feeds. -/
theorem pieces_importLine : Text.pieces (importLine name).toList = [(importLine name).toList] := by
  rw [toList_importLine]
  apply Text.pieces_line
  intro hfeed
  -- the feed would be in the word, in the name or a semicolon
  simp only [List.mem_append, List.mem_singleton] at hfeed
  rcases hfeed with hfeed | hfeed | hfeed
  · exact absurd hfeed (by decide)
  · have hblank := QualifiedName.not_blank_of_isWellFormed h '\n' hfeed
    exact absurd hblank (by decide)
  · exact absurd hfeed (by decide)

end WellFormed

/-! ## Names of a source -/

/-- The names that the lines of a source import, one for each import line. -/
def importedNames (source : List Char) : List (List Char) :=
  (Text.lines source).filterMap importedName?

/-- A source imports a name if one of its lines does. -/
theorem imports_iff {source : List Char} {name : String} :
    imports source name = true ↔ name.toList ∈ importedNames source := by
  rw [imports, List.any_eq_true, importedNames, List.mem_filterMap]
  simp only [decide_eq_true_eq]

/-- It makes no difference whether lines are taken with their endings. -/
theorem importedNames_eq (source : List Char) :
    importedNames source = (Text.pieces source).filterMap importedName? := by
  have hchomp : importedName? ∘ Text.chomp = importedName? := by
    funext piece
    exact importedName?_congr (Text.trimmed_chomp piece)
  rw [importedNames, Text.lines, List.filterMap_map, hchomp]

/-- The names of two parts, if the first one ends its line. -/
theorem importedNames_append {a : List Char} (h : Text.EndsLine a) (b : List Char) :
    importedNames (a ++ b) = importedNames a ++ importedNames b := by
  rw [importedNames_eq, importedNames_eq, importedNames_eq, Text.pieces_append h,
    List.filterMap_append]

/-- A line feed at the end imports nothing. -/
@[simp] theorem importedNames_append_feed (a : List Char) :
    importedNames (a ++ ['\n']) = importedNames a := by
  by_cases h : Text.EndsLine a
  · have hfeed : importedNames ['\n'] = [] := by decide
    rw [importedNames_append h, hfeed, List.append_nil]
  · -- the last line is closed, and imports what it did
    rcases Text.pieces_append_feed h with ⟨front, last, hpieces, hfeed⟩
    have hlast : importedName? (last ++ ['\n']) = importedName? last :=
      importedName?_congr (Text.trimmed_append_blank (by decide) last)
    rw [importedNames_eq, importedNames_eq, hpieces, hfeed, List.filterMap_append,
      List.filterMap_append, List.filterMap_cons, List.filterMap_cons, hlast]

@[simp] theorem endsLine_importLines (names : List String) :
    Text.EndsLine (String.join (names.map importLine)).toList := by
  rw [String.toList_join, List.flatMap_def, List.map_map]
  apply Text.endsLine_flatten
  intro line hline
  rcases List.mem_map.1 hline with ⟨name, -, rfl⟩
  exact endsLine_importLine name

/-- What is written for some well-formed names is read back as these names, in their order. -/
theorem importedNames_importLines {names : List String}
    (h : ∀ name ∈ names, QualifiedName.isWellFormed name = true) :
    importedNames (String.join (names.map importLine)).toList = names.map String.toList := by
  induction names with
  | nil => rfl
  | cons name names ih =>
    have hname := h name List.mem_cons_self
    have hline : importedNames (importLine name).toList = [name.toList] := by
      rw [importedNames_eq, pieces_importLine hname, List.filterMap_cons,
        importedName?_importLine hname]
      rfl
    have hjoin : (String.join ((name :: names).map importLine)).toList =
        (importLine name).toList ++ (String.join (names.map importLine)).toList := by
      rw [String.toList_join, String.toList_join, List.map_cons, List.flatMap_cons]
    rw [hjoin, importedNames_append (endsLine_importLine name), hline,
      ih fun other hother => h other (List.mem_cons_of_mem name hother), List.map_cons,
      List.singleton_append]

end CallLint
