import CallLint.Proofs.Fix.Importing

/-!
# Imports that are there already

An import is not written again if the source has it. Only a line that says nothing else counts: what
follows the semicolon hides the import, and then it is written once more, although its place is
found behind that very line.

* `StartsImport.importsOnly_iff`: a line that starts with an import counts exactly if only blanks
  follow.
* `FixPlan.apply_eq_self_iff`: which sources a plan without edits leaves as they are.
* `FixPlan.apply_of_not_importsOnly`: what is written otherwise.
* `FixPlan.present_import_stays`: all of this for a plan with one import.
-/

namespace CallLint

/-! ## Lines that start with an import -/

/-- Whether a line starts with the import of a name, blanks in front aside, whatever follows. -/
inductive StartsImport (name rest : List Char) : List Char → Prop
  | intro (lead : List Char) (hlead : Text.AllBlank lead) :
      StartsImport name rest (lead ++ "import ".toList ++ name ++ [';'] ++ rest)

section WellFormed

variable {name : String} (hname : QualifiedName.isWellFormed name = true)

include hname

/-- A text that starts with a name does not start with a blank. -/
theorem trimLeft_append_of_isWellFormed (rest : List Char) :
    Text.trimLeft (name.toList ++ rest) = name.toList ++ rest := by
  have hblank := QualifiedName.not_blank_of_isWellFormed hname
  rw [QualifiedName.isWellFormed] at hname
  cases hlist : name.toList with
  | nil =>
    rw [hlist] at hname
    cases hname
  | cons c cs =>
    rw [hlist] at hblank
    exact Text.trimLeft_cons_of_not_blank (hblank c List.mem_cons_self) _

/-- A source imports a name if and only if one of its lines does so and says nothing else. -/
theorem mem_importedNames_iff {source : List Char} :
    name.toList ∈ importedNames source ↔
      ∃ line ∈ Text.lines source, ImportsOnly name.toList line := by
  rw [importedNames, List.mem_filterMap]
  simp only [importedName?_eq_some_iff (trimmed_of_isWellFormed hname)]

/-- A line that starts with the import of a name imports it and says nothing else exactly if only
blanks follow. -/
theorem StartsImport.importsOnly_iff {rest line : List Char}
    (h : StartsImport name.toList rest line) :
    ImportsOnly name.toList line ↔ Text.AllBlank rest := by
  cases h with
  | intro lead hlead =>
  constructor
  · intro h
    generalize hline : lead ++ "import ".toList ++ name.toList ++ [';'] ++ rest = line at h
    cases h with
    | intro lead' gap close tail hlead' hgap hclose htail =>
    simp only [List.append_assoc] at hline
    -- both ways to read the line agree from the word on, then from the name on, then from the
    -- semicolon on
    have hword := (Text.append_inj_of_blanks hline hlead hlead' rfl rfl).2
    have hgapped := List.append_cancel_left hword
    have hnamed := (@Text.append_inj_of_blanks [] _ _ _ hgapped Text.allBlank_nil hgap
      (trimLeft_append_of_isWellFormed hname _) (trimLeft_append_of_isWellFormed hname _)).2
    have hclosed := List.append_cancel_left hnamed
    have hended : [';'] ++ rest = [';'] ++ tail :=
      (@Text.append_inj_of_blanks [] _ _ _ hclosed Text.allBlank_nil hclose rfl rfl).2
    rw [List.append_cancel_left hended]
    exact htail
  · intro hrest
    have hline : ImportsOnly name.toList _ :=
      .intro lead [] [] rest hlead Text.allBlank_nil Text.allBlank_nil hrest
    simpa only [List.append_nil] using hline

end WellFormed

/-! ## Plans that only import -/

namespace FixPlan

variable {p : FixPlan} {source : String}

/-- Import lines that are written have characters. -/
theorem importText_ne_nil (source : List Char) {names : List String} (h : names ≠ []) :
    (importText source names).toList ≠ [] := by
  intro hnil
  rw [importText, String.toList_append, String.toList_append, List.append_eq_nil_iff,
    List.append_eq_nil_iff, String.toList_join, List.flatMap_eq_nil_iff,
    List.forall_mem_map] at hnil
  rcases List.exists_mem_of_ne_nil names h with ⟨name, hname⟩
  have hline := hnil.1.2 name hname
  rw [toList_importLine] at hline
  cases hline

/-- A plan without edits leaves a source as it is exactly if the source has all its imports. -/
theorem apply_eq_self_iff (h : p.edits = []) :
    p.apply source = .ok source ↔
      ∀ name ∈ p.imports, name.toList ∈ importedNames source.toList := by
  rw [← not_needsImports_iff]
  constructor
  · intro hself hneeds
    rcases exists_importPlace source.toList with ⟨lead, rest, place⟩
    rw [apply_of_needsImports h place hneeds] at hself
    -- the source would be as long with the block as without it
    have hlength := congrArg (List.length ∘ String.toList) (Except.ok.inj hself)
    have hblock :=
      List.length_pos_iff.2 (importText_ne_nil source.toList (missingImports_ne_nil_iff.2 hneeds))
    have hsplit := congrArg List.length place.split
    simp only [Function.comp_apply, String.toList_ofList, List.length_append] at hlength hsplit
    omega
  · exact apply_of_not_needsImports h

/-- Whether a plan that only imports one name leaves all sources as they are in which a line starts
with the import of that name. -/
def KeepsPresentImports : Prop :=
  ∀ (source name : String) (p : FixPlan), QualifiedName.isWellFormed name = true → p.edits = [] →
    p.imports.toList = [name] →
    (∃ line ∈ Text.lines source.toList, ∃ rest, StartsImport name.toList rest line) →
    p.apply source = .ok source

section OneImport

variable {name : String} (hname : QualifiedName.isWellFormed name = true) (hedits : p.edits = [])
  (himports : p.imports.toList = [name])

include hname hedits himports

/-- A plan that imports one name leaves a source as it is exactly if some line imports that name and
says nothing else. -/
theorem apply_eq_self_iff_importsOnly :
    p.apply source = .ok source ↔
      ∃ line ∈ Text.lines source.toList, ImportsOnly name.toList line := by
  rw [apply_eq_self_iff hedits, ← mem_importedNames_iff hname]
  simp only [SortedSet.mem_def, himports, List.mem_singleton, forall_eq]

/-- An import that is not recognised is written as a line of its own. -/
theorem apply_of_not_importsOnly
    (h : ∀ line ∈ Text.lines source.toList, ¬ ImportsOnly name.toList line) :
    ∃ front opening closing behind : List Char, source.toList = front ++ behind ∧
      Text.EndsLine (front ++ opening) ∧ (∀ c ∈ opening, c = '\n') ∧ (∀ c ∈ closing, c = '\n') ∧
      p.apply source =
        .ok (.ofList (front ++ opening ++ (importLine name).toList ++ closing ++ behind)) := by
  have hmissing : missingImports source.toList p.imports = [name] := by
    have himported : ¬ CallLint.imports source.toList name = true := by
      rw [imports_iff, mem_importedNames_iff hname]
      rintro ⟨line, hline, honly⟩
      exact h line hline honly
    rw [missingImports, himports, List.filter_singleton]
    simp [himported]
  have hneeds : p.needsImports source.toList := by
    rw [← missingImports_ne_nil_iff, hmissing]
    exact List.cons_ne_nil name []
  rcases exists_importPlace source.toList with ⟨lead, rest, place⟩
  refine ⟨lead, (importSite source.toList).opening.toList,
    (importSite source.toList).closing.toList, rest, place.split, place.endsLine_opening,
    place.opening, place.closing, ?_⟩
  -- the block for one name is one line between what belongs in front of it and behind it
  rw [apply_of_needsImports hedits place hneeds, hmissing, importText, List.map_singleton,
    String.toList_append, String.toList_append]
  simp [String.join, List.append_assoc]

/-- What becomes of an import that a source has already, or seems to have. A plan that imports one
name leaves the source as it is if and only if some line imports that name and says nothing else. A
line that starts with the import does so exactly if only blanks follow. If there is no such line,
the import is written once more, as a line of its own. -/
theorem present_import_stays (source : String) :
    (p.apply source = .ok source ↔
      ∃ line ∈ Text.lines source.toList, ImportsOnly name.toList line) ∧
      (∀ line ∈ Text.lines source.toList, ∀ rest, StartsImport name.toList rest line →
        (ImportsOnly name.toList line ↔ Text.AllBlank rest)) ∧
      ((∀ line ∈ Text.lines source.toList, ¬ ImportsOnly name.toList line) →
        ∃ front opening closing behind : List Char, source.toList = front ++ behind ∧
          Text.EndsLine (front ++ opening) ∧ (∀ c ∈ opening, c = '\n') ∧ (∀ c ∈ closing, c = '\n') ∧
          p.apply source =
            .ok (.ofList (front ++ opening ++ (importLine name).toList ++ closing ++ behind))) :=
  ⟨apply_eq_self_iff_importsOnly hname hedits himports,
    fun _ _ _ hstarts => hstarts.importsOnly_iff hname,
    apply_of_not_importsOnly hname hedits himports⟩

end OneImport

/-- The second line has blanks wherever it may have them, so it is enough, although the first line
is not. -/
theorem present_import_stays_blanks :
    QualifiedName.isWellFormed "a.B" = true ∧ (empty.addImport "a.B").edits = [] ∧
      (empty.addImport "a.B").imports.toList = ["a.B"] ∧
      (empty.addImport "a.B").apply "import a.B; // first\n\timport  a.B ; \r\n" =
        .ok "import a.B; // first\n\timport  a.B ; \r\n" := by
  have hname : QualifiedName.isWellFormed "a.B" = true := by decide
  have hline : "\timport  a.B ; ".toList ∈
      Text.lines "import a.B; // first\n\timport  a.B ; \r\n".toList := by decide +kernel
  have honly : ImportsOnly "a.B".toList "\timport  a.B ; ".toList :=
    .intro ['\t'] [' '] [' '] [' '] (by decide) (by decide) (by decide) (by decide)
  exact ⟨hname, rfl, rfl, (present_import_stays hname rfl rfl _).1.2 ⟨_, hline, honly⟩⟩

/-- A comment behind the import hides it, so it is imported again. -/
theorem not_keepsPresentImports_comment :
    (empty.addImport "a.B").apply "import a.B; // used\n" =
        .ok "import a.B; // used\nimport a.B;\n" ∧
      ¬ KeepsPresentImports := by
  have happly : (empty.addImport "a.B").apply "import a.B; // used\n" =
      .ok "import a.B; // used\nimport a.B;\n" := by
    rw [apply_of_edits_eq_nil rfl]
    decide +kernel
  refine ⟨happly, fun hkeeps => ?_⟩
  have hline : "import a.B; // used".toList ∈ Text.lines "import a.B; // used\n".toList := by
    decide +kernel
  have hstarts : StartsImport "a.B".toList " // used".toList "import a.B; // used".toList :=
    .intro [] Text.allBlank_nil
  have hself := hkeeps "import a.B; // used\n" "a.B" (empty.addImport "a.B") (by decide) rfl rfl
    ⟨_, hline, _, hstarts⟩
  rw [happly] at hself
  exact absurd (Except.ok.inj hself) (by decide)

end FixPlan

end CallLint
