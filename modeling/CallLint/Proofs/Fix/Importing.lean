import Mathlib.Data.List.Nodup
import CallLint.Proofs.Fix.ImportPlace
import CallLint.Proofs.Fix.Merging
import CallLint.Proofs.Fix.Rewriting
import CallLint.Proofs.Sorted.Set

/-!
# Adding imports

What a plan makes of the imports of a source. The lines that it adds are written at their place
before all edits behind it, so what is imported stays imported and what was missing is there, and
then nothing is missing.

* `FixPlan.weave_importSplice`: what is written in front of the edits.
* `FixPlan.mem_importedNames_of_apply`: all imports of a plan are there after it has been applied.
* `FixPlan.apply_imports`: what a plan without edits writes.
* `FixPlan.imports_once`: imports are there, once each, and stay as they are.
-/

namespace CallLint

namespace FixPlan

/-! ## Plans -/

/-- The imports of a plan, without its edits. -/
def importsAlone (p : FixPlan) : FixPlan := { p with edits := [] }

/-- What a plan writes if it has no edits. -/
theorem apply_of_edits_eq_nil {p : FixPlan} (h : p.edits = []) (source : String) :
    p.apply source =
      .ok (.ofList (weave 0 source.toList (p.importSplice? source.toList).toList)) := by
  have hchanges : p.changes source.toList = (p.importSplice? source.toList).toList := by
    rw [changes, h]
    rfl
  refine apply_eq_ok_iff.2 ⟨_, splices_eq_ok_iff.2 ⟨?_, ?_, rfl⟩, ?_⟩
  · rw [h]
    exact List.forall_mem_nil _
  · rw [hchanges]
    cases p.importSplice? source.toList <;> simp
  · rw [hchanges]
    cases p.importSplice? source.toList <;> simp

/-- The change that puts in the imports that a source lacks. -/
def importSplice (p : FixPlan) (source : List Char) : Splice :=
  ⟨.point (importSite source).offset, 0, importText source (missingImports source p.imports),
    .point (importSite source).offset⟩

theorem importSplice?_of_needsImports {p : FixPlan} {source : List Char}
    (h : p.needsImports source) : p.importSplice? source = some (p.importSplice source) :=
  importSplice?_eq_some_iff.2
    ⟨_, importBlock?_eq_some_iff.2 ⟨missingImports_ne_nil_iff.2 h, rfl, rfl⟩, rfl⟩

/-- A plan without edits leaves a source as it is that has all its imports. -/
theorem apply_of_not_needsImports {p : FixPlan} (h : p.edits = []) {source : String}
    (himports : ¬ p.needsImports source.toList) : p.apply source = .ok source := by
  rw [apply_of_edits_eq_nil h, importSplice?_eq_none_iff.2 himports, Option.toList_none, weave,
    String.ofList_toList]

/-- A plan needs no imports if the source has them all. -/
theorem not_needsImports_iff {p : FixPlan} {source : List Char} :
    ¬ p.needsImports source ↔ ∀ name ∈ p.imports, name.toList ∈ importedNames source := by
  simp only [needsImports, not_exists, not_and, Bool.not_eq_false, imports_iff]

/-- The import lines are written between the two parts of the source, if they come first. -/
theorem weave_importSplice {p : FixPlan} {source lead rest : List Char}
    (place : ImportPlace source lead rest) (more : List Splice) :
    weave 0 source (p.importSplice source :: more) =
      lead ++ (importText source (missingImports source p.imports)).toList
        ++ weave (Text.byteSize lead) rest more := by
  obtain rfl := place.split
  rw [importSplice, weave, place.offset]
  simp only [Span.point, Nat.sub_zero]
  rw [Text.takeBytes_append, Text.dropBytes_append]

/-- What a plan without edits writes where an import is missing: one block, at its place. -/
theorem apply_of_needsImports {p : FixPlan} (h : p.edits = []) {source : String}
    {lead rest : List Char} (place : ImportPlace source.toList lead rest)
    (hneeds : p.needsImports source.toList) :
    p.apply source = .ok (.ofList
      (lead ++ (importText source.toList (missingImports source.toList p.imports)).toList ++
        rest)) := by
  rw [apply_of_edits_eq_nil h, importSplice?_of_needsImports hneeds, Option.toList_some,
    weave_importSplice place, weave]

/-! ## Edits behind the imports -/

/-- Whether all edits of a plan are anchored to spans with bytes, none of them in front of an
offset. -/
def editsBehind (p : FixPlan) (offset : Nat) : Prop :=
  ∀ e ∈ p.edits, e.span.isEmpty = false ∧ offset ≤ e.span.start

/-- The change of such an edit comes behind import lines at that offset. -/
theorem behind_ofEdit {e : Edit} {offset : Nat}
    (h : e.span.isEmpty = false ∧ offset ≤ e.span.start) :
    offset < (Splice.ofEdit e).target.start ∨
      offset = (Splice.ofEdit e).target.start ∧ 0 < (Splice.ofEdit e).rank := by
  have hspan := Span.isEmpty_eq_false_iff.1 h.1
  have hoffset := h.2
  -- an edit in front of its span starts there, with a rank of its own, and the others start later
  cases hplace : e.place <;>
    simp only [Splice.ofEdit, Edit.target, Edit.rank, hplace, Span.point] <;> omega

/-- The import lines come before all such edits. -/
theorem mergeSort_changes_of_needsImports {p : FixPlan} {source : List Char}
    (h : p.needsImports source) (hedits : p.editsBehind (importSite source).offset) :
    ∃ more, (p.changes source).mergeSort Splice.le = p.importSplice source :: more := by
  have hsorted := Splice.ranking_le.pairwise_mergeSort (p.changes source)
  have hmem : p.importSplice source ∈ (p.changes source).mergeSort Splice.le := by
    rw [List.mem_mergeSort, changes, importSplice?_of_needsImports h]
    exact List.mem_append_right _ List.mem_cons_self
  cases hlist : (p.changes source).mergeSort Splice.le with
  | nil =>
    rw [hlist] at hmem
    cases hmem
  | cons first more =>
    have hfirst : first ∈ (p.changes source).mergeSort Splice.le := by
      rw [hlist]
      exact List.mem_cons_self
    rw [List.mem_mergeSort, changes, importSplice?_of_needsImports h, List.mem_append,
      Option.mem_toList] at hfirst
    rcases hfirst with hfirst | hfirst
    · -- the change of an edit cannot be the first one
      rcases List.mem_map.1 hfirst with ⟨e, he, rfl⟩
      rw [hlist] at hsorted hmem
      have hbehind := behind_ofEdit (hedits e he)
      rcases List.mem_cons.1 hmem with heq | hmem
      · rw [← heq] at hbehind
        simp only [importSplice, Span.point] at hbehind
        omega
      · have hle := (List.pairwise_cons.1 hsorted).1 _ hmem
        rw [Splice.le_iff] at hle
        simp only [importSplice, Span.point] at hle
        omega
    · -- so it is that of the imports
      rw [← Option.some.inj hfirst]
      exact ⟨more, rfl⟩

/-- An edit of a valid plan needs room behind the imports. -/
theorem edits_eq_nil_of_rest_eq_nil {p : FixPlan} {source lead : List Char}
    (place : ImportPlace source lead []) (hedits : p.editsBehind (importSite source).offset)
    (hwithin : ∀ e ∈ p.edits, e.isWithin source = true) : p.edits = [] := by
  rw [List.eq_nil_iff_forall_not_mem]
  intro e he
  have hspan := Span.isEmpty_eq_false_iff.1 (hedits e he).1
  have hoffset := (hedits e he).2
  have hsize := congrArg Text.byteSize place.split
  rw [List.append_nil] at hsize
  rw [place.offset] at hoffset
  have he := hwithin e he
  simp only [Edit.isWithin, Bool.and_eq_true] at he
  have hstop := Text.le_byteSize_of_isBoundary he.2
  omega

/-! ## Imports after applying a plan -/

section Applied

variable {p : FixPlan} {source : String}
  (hnames : ∀ name ∈ p.imports, QualifiedName.isWellFormed name = true)

/-- The missing names are those of the plan that no line imports. -/
@[simp] theorem mem_missingImports {names : SortedSet String} {source : List Char} {name : String} :
    name ∈ missingImports source names ↔ name ∈ names ∧ name.toList ∉ importedNames source := by
  rw [missingImports, List.mem_filter, SortedSet.mem_def, Bool.not_eq_true', ← Bool.not_eq_true,
    imports_iff]

/-- A plan whose imports a source has does not take them away with edits behind them. -/
theorem mem_importedNames_of_not_needsImports {out : String}
    (hedits : p.editsBehind (importSite source.toList).offset)
    (hneeds : ¬ p.needsImports source.toList) (h : p.apply source = .ok out) :
    ∀ name ∈ importedNames source.toList, name ∈ importedNames out.toList := by
  rcases exists_importPlace source.toList with ⟨lead, rest, place⟩
  rcases apply_eq_ok_iff.1 h with ⟨l, hl, hout⟩
  rcases splices_eq_ok_iff.1 hl with ⟨hwithin, -, hsorted⟩
  intro name hname
  rcases place.closed with hclosed | ⟨rfl, -⟩
  · -- all changes are those of edits, so the first part of the source is written as it is
    have hbehind : ∀ s ∈ l, Text.byteSize lead ≤ s.target.start ∧
        s.target.start ≤ s.target.stop := by
      intro s hs
      rw [← hsorted, List.mem_mergeSort] at hs
      have hordered := start_le_stop_of_mem_changes hwithin hs
      rw [changes, importSplice?_eq_none_iff.2 hneeds, Option.toList_none, List.append_nil] at hs
      rcases List.mem_map.1 hs with ⟨e, he, rfl⟩
      have hstart := behind_ofEdit (hedits e he)
      rw [place.offset] at hstart
      omega
    have htail : weave 0 (lead ++ rest) l = lead ++ weave (Text.byteSize lead) rest l :=
      weave_skip [] lead rest hbehind
    rw [← place.split] at htail
    rw [← hout, String.toList_ofList, htail, importedNames_append hclosed, place.importedNames_lead,
      List.mem_append]
    exact .inl hname
  · -- there is no room for edits, so nothing is written
    have hnil := edits_eq_nil_of_rest_eq_nil place hedits hwithin
    rw [apply_of_not_needsImports hnil hneeds] at h
    rw [← Except.ok.inj h]
    exact hname

include hnames

/-- So missing names are well-formed if those of the plan are. -/
theorem isWellFormed_of_mem_missingImports {source : List Char} :
    ∀ name ∈ missingImports source p.imports, QualifiedName.isWellFormed name = true :=
  fun name hname => hnames name (mem_missingImports.1 hname).1

/-- After a valid plan with edits behind the imports has been applied, all its imports are there. -/
theorem mem_importedNames_of_apply {out : String}
    (hedits : p.editsBehind (importSite source.toList).offset) (h : p.apply source = .ok out) :
    ∀ name ∈ p.imports, name.toList ∈ importedNames out.toList := by
  intro name hname
  by_cases hneeds : p.needsImports source.toList
  · -- the lines that are put in name what was missing
    rcases exists_importPlace source.toList with ⟨lead, rest, place⟩
    rcases apply_eq_ok_iff.1 h with ⟨l, hl, rfl⟩
    rcases splices_eq_ok_iff.1 hl with ⟨-, -, hsorted⟩
    rcases mergeSort_changes_of_needsImports hneeds hedits with ⟨more, hmore⟩
    rw [String.toList_ofList, ← hsorted, hmore, weave_importSplice place,
      place.importedNames_insert (isWellFormed_of_mem_missingImports hnames), List.mem_append,
      List.mem_append]
    by_cases himported : name.toList ∈ importedNames source.toList
    · exact .inl (.inl himported)
    · exact .inl (.inr (List.mem_map_of_mem (mem_missingImports.2 ⟨hname, himported⟩)))
  · have himported := not_needsImports_iff.1 hneeds name hname
    exact mem_importedNames_of_not_needsImports hedits hneeds h name.toList himported

/-- What a plan without edits writes: the import lines, in one block at their place. -/
theorem apply_imports (h : p.edits = []) {lead rest : List Char}
    (place : ImportPlace source.toList lead rest) :
    ∃ out block, p.apply source = .ok out ∧ out.toList = lead ++ block ++ rest ∧
      (∃ above new below : List (List Char), source.toList.splitOn '\n' = above ++ below ∧
        out.toList.splitOn '\n' = above ++ new ++ below) ∧
      importedNames out.toList =
        importedNames source.toList ++
          (missingImports source.toList p.imports).map String.toList := by
  have hrest : importedNames rest = [] := place.barren
  by_cases hneeds : p.needsImports source.toList
  · let block := (importText source.toList (missingImports source.toList p.imports)).toList
    refine ⟨_, block, apply_of_needsImports h place hneeds, String.toList_ofList, ?_, ?_⟩
    · rw [String.toList_ofList]
      exact place.exists_splitOn _
    · rw [String.toList_ofList,
        place.importedNames_insert (isWellFormed_of_mem_missingImports hnames), hrest,
        List.append_nil]
  · -- nothing is missing, so the block is empty
    have hmissing : missingImports source.toList p.imports = [] := by
      by_contra hne
      exact hneeds (missingImports_ne_nil_iff.1 hne)
    have hsplit := place.split
    refine ⟨source, [], apply_of_not_needsImports h hneeds, ?_,
      ⟨source.toList.splitOn '\n', [], [], ?_, ?_⟩, ?_⟩
    · rw [List.append_nil]
      exact hsplit
    · rw [List.append_nil]
    · rw [List.append_nil, List.append_nil]
    · rw [hmissing, List.map_nil, List.append_nil]

omit hnames in
/-- Of the names of a plan, those that are missing get one line each. -/
theorem count_append_missingImports {source : List Char} {name : String}
    (hname : name ∈ p.imports) :
    (importedNames source ++
        (missingImports source p.imports).map String.toList).count name.toList =
      max 1 ((importedNames source).count name.toList) := by
  have hnodup : ((missingImports source p.imports).map String.toList).Nodup :=
    (p.imports.nodup_toList.filter _).map fun a b hab => String.toList_injective hab
  have hmem : name.toList ∈ (missingImports source p.imports).map String.toList ↔
      name.toList ∉ importedNames source := by
    rw [List.mem_map_of_injective fun _ _ => String.toList_injective, mem_missingImports]
    exact and_iff_right hname
  rw [List.count_append, hnodup.count]
  by_cases himported : name.toList ∈ importedNames source
  · -- the name keeps the lines that it has
    have hpos := List.count_pos_iff.2 himported
    rw [if_neg (by rw [hmem]; exact not_not_intro himported)]
    omega
  · -- it gets its only one
    rw [if_pos (hmem.2 himported), List.count_eq_zero.2 himported]
    rfl

/-- Imports end up present, once and in place. There is one offset where imports belong. If the
edits of a plan are behind it, then all its imports are there after it has been applied, and adding
them again changes nothing. A plan without edits can always be applied: one block of lines is put in
at that offset, all other lines stay, and every name has one import line then, or as many as it
had. -/
theorem imports_once :
    ∃ offset, (∀ n, ImportOffset source.toList n ↔ n = offset) ∧
      (p.editsBehind offset → ∀ out, p.apply source = .ok out →
        (∀ name ∈ p.imports, CallLint.imports out.toList name = true) ∧
        p.importsAlone.apply out = .ok out) ∧
      (p.edits = [] → ∃ out lead block rest,
        p.apply source = .ok out ∧ p.apply out = .ok out ∧
        source.toList = lead ++ rest ∧ Text.byteSize lead = offset ∧
        out.toList = lead ++ block ++ rest ∧
        (∃ above new below : List (List Char), source.toList.splitOn '\n' = above ++ below ∧
          out.toList.splitOn '\n' = above ++ new ++ below) ∧
        ∀ name ∈ p.imports, (importedNames out.toList).count name.toList =
          max 1 ((importedNames source.toList).count name.toList)) := by
  refine ⟨(importSite source.toList).offset, fun n => importOffset_iff, ?_, ?_⟩
  · -- with edits: once nothing is missing, the imports alone have nothing to write
    intro hedits out happly
    have hpresent := mem_importedNames_of_apply hnames hedits happly
    refine ⟨fun name hname => imports_iff.2 (hpresent name hname), ?_⟩
    apply apply_of_not_needsImports rfl
    rw [not_needsImports_iff]
    exact hpresent
  · -- without edits: the block is all that is written, and it names what was missing
    intro hnil
    rcases exists_importPlace source.toList with ⟨lead, rest, place⟩
    rcases apply_imports hnames hnil place with ⟨out, block, happly, hout, hlines, himported⟩
    have hedits : p.editsBehind (importSite source.toList).offset := by
      intro e he
      rw [hnil] at he
      cases he
    have hagain : p.apply out = .ok out := by
      apply apply_of_not_needsImports hnil
      rw [not_needsImports_iff]
      exact mem_importedNames_of_apply hnames hedits happly
    refine ⟨out, lead, block, rest, happly, hagain, place.split, place.offset.symm, hout, hlines,
      ?_⟩
    intro name hname
    rw [himported]
    exact count_append_missingImports hname

end Applied

/-- A plan with one import that the source has, one that it lacks, and an edit right where imports
go. -/
def edgePlan : FixPlan where
  description := ""
  edits := [⟨.before, ⟨12, 16⟩, "g();"⟩]
  imports := .ofList ["b.C", "a.A"]
  safety := .safe

/-- The import goes first, though the edit is listed first. -/
theorem apply_edgePlan :
    edgePlan.apply "import a.A;\nf();" = .ok "import a.A;\nimport b.C;\ng();f();" := by
  have hchanges : edgePlan.changes "import a.A;\nf();".toList =
      [⟨⟨12, 12⟩, 1, "g();", ⟨12, 16⟩⟩, ⟨⟨12, 12⟩, 0, "import b.C;\n", ⟨12, 12⟩⟩] := by
    decide +kernel
  have hsorted : (edgePlan.changes "import a.A;\nf();".toList).mergeSort Splice.le =
      [⟨⟨12, 12⟩, 0, "import b.C;\n", ⟨12, 12⟩⟩, ⟨⟨12, 12⟩, 1, "g();", ⟨12, 16⟩⟩] := by
    rw [hchanges]
    simp [List.mergeSort, List.MergeSort.Internal.splitInTwo, Splice.le]
  exact apply_eq_ok_iff.2 ⟨_, splices_eq_ok_iff.2 ⟨by decide, by decide +kernel, hsorted⟩,
    by decide +kernel⟩

/-- The missing import comes between the old one and the edit, and then nothing is missing. -/
theorem imports_once_edgePlan :
    (∀ name ∈ edgePlan.imports, QualifiedName.isWellFormed name = true) ∧
      (∀ name ∈ edgePlan.imports,
        CallLint.imports "import a.A;\nimport b.C;\ng();f();".toList name = true) ∧
      edgePlan.importsAlone.apply "import a.A;\nimport b.C;\ng();f();" =
        .ok "import a.A;\nimport b.C;\ng();f();" := by
  have hnames : ∀ name ∈ edgePlan.imports, QualifiedName.isWellFormed name = true := by
    have hlist : ∀ name ∈ edgePlan.imports.toList, QualifiedName.isWellFormed name = true := by
      decide
    exact hlist
  rcases @imports_once edgePlan "import a.A;\nf();" hnames with ⟨offset, hoffset, hedited, -⟩
  have hplace : offset = 12 := by
    rw [← (hoffset _).1 (importOffset_importSite _)]
    decide +kernel
  have hbehind : edgePlan.editsBehind offset := by
    rw [hplace]
    exact List.forall_mem_singleton.2 (by decide)
  exact ⟨hnames, hedited hbehind _ apply_edgePlan⟩

end FixPlan

end CallLint
