import CallLint.Proofs.Fix.Fitting
import CallLint.Proofs.Fix.ImportLines

/-!
# The place for imports

New imports go to one place of a source. It is found by another look at the source than the one that
recognises imports; the two agree in that no line behind the place imports anything. A line that is
open there is the last one of the source, and it is closed before anything is written.

* `ImportOffset`: the place for imports, said of the pieces of a source; `importOffset_iff` finds
  it.
* `exists_importPlace`: the source in front of the place and behind it.
* `ImportPlace.importedNames_insert`: the names of a source with import lines put in.
* `ImportPlace.exists_splitOn`: the lines of a source with import lines put in.
-/

namespace CallLint

/-! ## The place for imports -/

/-- The offset where imports belong: the end of the last import line, else the end of the first
package line, else the start. -/
inductive ImportOffset (source : List Char) : Nat → Prop
  | afterImport {above below : List (List Char)} {line : List Char}
      (hpieces : Text.pieces source = above ++ line :: below)
      (hline : leadsWith "import " line = true)
      (hbelow : ∀ other ∈ below, leadsWith "import " other = false) :
      ImportOffset source (Text.byteSize (above ++ [line]).flatten)
  | afterPackage {above below : List (List Char)} {line : List Char}
      (hpieces : Text.pieces source = above ++ line :: below)
      (hline : leadsWith "package " line = true)
      (habove : ∀ other ∈ above, leadsWith "package " other = false)
      (himport : ∀ other ∈ Text.pieces source, leadsWith "import " other = false) :
      ImportOffset source (Text.byteSize (above ++ [line]).flatten)
  | top (himport : ∀ other ∈ Text.pieces source, leadsWith "import " other = false)
      (hpackage : ∀ other ∈ Text.pieces source, leadsWith "package " other = false) :
      ImportOffset source 0

/-- The ends of later pieces are counted from the end of the earlier ones on. -/
theorem pieceEnds_append (start : Nat) (a b : List (List Char)) :
    pieceEnds start (a ++ b) =
      pieceEnds start a ++ pieceEnds (start + Text.byteSize a.flatten) b := by
  induction a generalizing start with
  | nil => rfl
  | cons piece a ih =>
    rw [List.cons_append, pieceEnds, pieceEnds, ih, List.cons_append, List.flatten_cons,
      Text.byteSize_append, Nat.add_assoc]

theorem fst_of_mem_pieceEnds {start : Nat} {pieces : List (List Char)} {x : List Char × Nat}
    (h : x ∈ pieceEnds start pieces) : x.1 ∈ pieces := by
  induction pieces generalizing start with
  | nil => cases h
  | cons piece pieces ih =>
    rw [pieceEnds, List.mem_cons] at h
    rcases h with rfl | h
    · exact List.mem_cons_self
    · exact List.mem_cons_of_mem piece (ih h)

/-! Where no piece passes a test, none is found, from either side. -/

theorem find?_pieceEnds_eq_none {p : List Char → Bool} {pieces : List (List Char)}
    (h : ∀ piece ∈ pieces, p piece = false) (start : Nat) :
    (pieceEnds start pieces).find? (p ·.1) = none := by
  rw [List.find?_eq_none]
  intro x hx
  rw [h x.1 (fst_of_mem_pieceEnds hx)]
  exact Bool.false_ne_true

theorem find?_reverse_pieceEnds_eq_none {p : List Char → Bool} {pieces : List (List Char)}
    (h : ∀ piece ∈ pieces, p piece = false) (start : Nat) :
    (pieceEnds start pieces).reverse.find? (p ·.1) = none := by
  have hnone := List.find?_eq_none.1 (find?_pieceEnds_eq_none h start)
  rw [List.find?_eq_none]
  intro x hx
  exact hnone x (List.mem_reverse.1 hx)

/-- A piece among the pieces with their ends. -/
theorem pieceEnds_split (above below : List (List Char)) (line : List Char) :
    ∃ stop, pieceEnds 0 (above ++ line :: below) =
      pieceEnds 0 above ++
        (line, Text.byteSize (above ++ [line]).flatten) :: pieceEnds stop below := by
  refine ⟨0 + Text.byteSize above.flatten + Text.byteSize line, ?_⟩
  have hstop : 0 + Text.byteSize above.flatten + Text.byteSize line =
      Text.byteSize (above ++ [line]).flatten := by
    rw [List.flatten_append, Text.byteSize_append, Nat.zero_add, List.flatten_singleton]
  rw [pieceEnds_append, pieceEnds, hstop]

section ImportSite

variable {source : List Char} {above below : List (List Char)} {line : List Char}

/-! The three places where imports are put. -/

theorem importSite_of_import (hpieces : Text.pieces source = above ++ line :: below)
    (hline : leadsWith "import " line = true)
    (hbelow : ∀ other ∈ below, leadsWith "import " other = false) :
    importSite source = ⟨Text.byteSize (above ++ [line]).flatten, lineEnd line, ""⟩ := by
  rcases pieceEnds_split above below line with ⟨stop, hends⟩
  -- from the back, the search passes over the lines below and stops at this one
  have hnone := find?_reverse_pieceEnds_eq_none hbelow stop
  have hfind : (pieceEnds 0 (Text.pieces source)).reverse.find? (leadsWith "import " ·.1) =
      some (line, Text.byteSize (above ++ [line]).flatten) := by
    rw [hpieces, hends, List.reverse_append, List.reverse_cons, List.append_assoc,
      List.find?_append, hnone, Option.none_or, List.singleton_append]
    exact List.find?_cons_of_pos hline
  simp only [importSite, hfind]

theorem importSite_of_package (hpieces : Text.pieces source = above ++ line :: below)
    (hline : leadsWith "package " line = true)
    (habove : ∀ other ∈ above, leadsWith "package " other = false)
    (himport : ∀ other ∈ Text.pieces source, leadsWith "import " other = false) :
    importSite source = ⟨Text.byteSize (above ++ [line]).flatten, lineEnd line ++ "\n", ""⟩ := by
  rcases pieceEnds_split above below line with ⟨stop, hends⟩
  have hfind : (pieceEnds 0 (Text.pieces source)).find? (leadsWith "package " ·.1) =
      some (line, Text.byteSize (above ++ [line]).flatten) := by
    rw [hpieces, hends, List.find?_append, find?_pieceEnds_eq_none habove, Option.none_or]
    exact List.find?_cons_of_pos hline
  simp only [importSite, find?_reverse_pieceEnds_eq_none himport, hfind]

theorem importSite_of_top
    (himport : ∀ other ∈ Text.pieces source, leadsWith "import " other = false)
    (hpackage : ∀ other ∈ Text.pieces source, leadsWith "package " other = false) :
    importSite source = ⟨0, "", "\n"⟩ := by
  simp only [importSite, find?_reverse_pieceEnds_eq_none himport, find?_pieceEnds_eq_none hpackage]

end ImportSite

/-- A list has a first member that passes a test, or none does. -/
theorem exists_first {α : Type} (p : α → Bool) (l : List α) :
    (∀ a ∈ l, p a = false) ∨
      ∃ above a below, l = above ++ a :: below ∧ p a = true ∧ ∀ b ∈ above, p b = false := by
  cases hfind : l.find? p with
  | none => exact .inl (by simpa using hfind)
  | some a =>
    rcases List.find?_eq_some_iff_append.1 hfind with ⟨ha, above, below, hl, habove⟩
    exact .inr ⟨above, a, below, hl, ha, by simpa using habove⟩

/-- A list has a last member that passes a test, or none does. -/
theorem exists_last {α : Type} (p : α → Bool) (l : List α) :
    (∀ a ∈ l, p a = false) ∨
      ∃ above a below, l = above ++ a :: below ∧ p a = true ∧ ∀ b ∈ below, p b = false := by
  rcases exists_first p l.reverse with hnone | ⟨below, a, above, hl, ha, hbelow⟩
  · exact .inl (by simpa using hnone)
  · refine .inr ⟨above.reverse, a, below.reverse, ?_, ha, by simpa using hbelow⟩
    have hreverse := congrArg List.reverse hl
    rw [List.reverse_reverse, List.reverse_append, List.reverse_cons, List.append_assoc,
      List.singleton_append] at hreverse
    exact hreverse

/-- Imports are put at the place where they belong. -/
theorem importOffset_importSite (source : List Char) :
    ImportOffset source (importSite source).offset := by
  rcases exists_last (leadsWith "import ") (Text.pieces source) with
    himport | ⟨above, line, below, hpieces, hline, hbelow⟩
  · rcases exists_first (leadsWith "package ") (Text.pieces source) with
      hpackage | ⟨above, line, below, hpieces, hline, habove⟩
    · rw [importSite_of_top himport hpackage]
      exact .top himport hpackage
    · rw [importSite_of_package hpieces hline habove himport]
      exact .afterPackage hpieces hline habove himport
  · rw [importSite_of_import hpieces hline hbelow]
    exact .afterImport hpieces hline hbelow

/-- There is one place for imports, and it is the one where they are put. -/
theorem importOffset_iff {source : List Char} {n : Nat} :
    ImportOffset source n ↔ n = (importSite source).offset := by
  constructor
  · intro h
    cases h with
    | afterImport hpieces hline hbelow => rw [importSite_of_import hpieces hline hbelow]
    | afterPackage hpieces hline habove himport =>
      rw [importSite_of_package hpieces hline habove himport]
    | top himport hpackage => rw [importSite_of_top himport hpackage]
  · rintro rfl
    exact importOffset_importSite source

/-! ## The source around the place -/

/-- The source in front of the place for imports and behind it. Nothing behind it is an import line.
A line in front of it is closed before anything is written; an open one is the last line of the
source. -/
structure ImportPlace (source lead rest : List Char) : Prop where
  split : source = lead ++ rest
  offset : (importSite source).offset = Text.byteSize lead
  barren : importedNames rest = []
  opening : ∀ c ∈ (importSite source).opening.toList, c = '\n'
  closing : ∀ c ∈ (importSite source).closing.toList, c = '\n'
  closed : Text.EndsLine lead ∨ rest = [] ∧ (importSite source).opening ≠ ""

/-- A text without import lines imports nothing. -/
theorem importedNames_eq_nil {source : List Char}
    (h : ∀ piece ∈ Text.pieces source, leadsWith "import " piece = false) :
    importedNames source = [] := by
  rw [importedNames_eq, List.filterMap_eq_nil_iff]
  intro piece hpiece
  cases hname : importedName? piece with
  | none => rfl
  | some name =>
    have hleads := leadsWith_of_importedName? hname
    rw [h piece hpiece] at hleads
    cases hleads

/-- Nothing but line feeds is put behind an open line. -/
theorem lineEnd_feeds (line : List Char) : ∀ c ∈ (lineEnd line).toList, c = '\n' := by
  unfold lineEnd
  split
  · exact List.forall_mem_nil _
  · exact List.forall_mem_singleton.2 rfl

/-- A line that nothing is put behind has its end. -/
theorem endsLine_of_lineEnd {line : List Char} (h : lineEnd line = "") (a : List Char) :
    Text.EndsLine (a ++ line) := by
  unfold lineEnd at h
  split at h
  · next hlast =>
    rcases List.getLast?_eq_some_iff.1 hlast with ⟨front, rfl⟩
    rw [← List.append_assoc]
    exact Text.endsLine_append_feed _
  · exact absurd h (by decide)

/-- The source around the end of one of its lines. -/
theorem exists_around {source : List Char} {above below : List (List Char)} {line : List Char}
    (hpieces : Text.pieces source = above ++ line :: below) :
    ∃ rest, source = (above ++ [line]).flatten ++ rest ∧ Text.pieces rest = below ∧
      (Text.EndsLine (above ++ [line]).flatten ∨ rest = [] ∧ lineEnd line ≠ "") := by
  rw [← List.singleton_append, ← List.append_assoc] at hpieces
  rcases Text.exists_append_of_pieces hpieces with ⟨lead, rest, hsplit, hlead, hrest, hcut⟩
  have hflat : (above ++ [line]).flatten = lead := by
    rw [← hlead, Text.pieces_flatten]
  refine ⟨rest, by rw [hflat, hsplit], hrest, ?_⟩
  by_cases hopen : lineEnd line = ""
  · -- the line has its end
    rw [List.flatten_append, List.flatten_singleton]
    exact .inl (endsLine_of_lineEnd hopen above.flatten)
  · -- it is open, so nothing follows it
    rw [hflat]
    exact hcut.imp_right fun hnil => ⟨hnil, hopen⟩

/-- Every source falls into what is in front of the place and what is behind it. -/
theorem exists_importPlace (source : List Char) : ∃ lead rest, ImportPlace source lead rest := by
  have hplace := importOffset_importSite source
  generalize (importSite source).offset = offset at hplace
  -- each time the lines in front are closed, or else the last one is closed before it is left
  cases hplace with
  | afterImport hpieces hline hbelow =>
    have hsite := importSite_of_import hpieces hline hbelow
    rcases exists_around hpieces with ⟨rest, hsplit, hrest, hclosed⟩
    refine ⟨_, rest, hsplit, by rw [hsite], importedNames_eq_nil (by rwa [hrest]), ?_, ?_, ?_⟩
    · rw [hsite]
      exact lineEnd_feeds _
    · rw [hsite]
      exact List.forall_mem_nil _
    · rw [hsite]
      exact hclosed
  | afterPackage hpieces hline habove himport =>
    have hsite := importSite_of_package hpieces hline habove himport
    rcases exists_around hpieces with ⟨rest, hsplit, hrest, hclosed⟩
    have hbarren : importedNames rest = [] := by
      apply importedNames_eq_nil
      intro piece hpiece
      rw [hrest] at hpiece
      apply himport
      rw [hpieces]
      exact List.mem_append_right _ (List.mem_cons_of_mem _ hpiece)
    refine ⟨_, rest, hsplit, by rw [hsite], hbarren, ?_, ?_, ?_⟩
    · rw [hsite]
      intro c hc
      rw [String.toList_append, List.mem_append] at hc
      rcases hc with hc | hc
      · exact lineEnd_feeds _ c hc
      · exact List.mem_singleton.1 hc
    · rw [hsite]
      exact List.forall_mem_nil _
    · rw [hsite]
      refine hclosed.imp_right fun hopen => ⟨hopen.1, ?_⟩
      intro hempty
      exact hopen.2 (String.append_eq_empty_iff.1 hempty).1
  | top himport hpackage =>
    have hsite := importSite_of_top himport hpackage
    refine ⟨[], source, rfl, by rw [hsite]; rfl, importedNames_eq_nil himport, ?_, ?_,
      .inl Text.endsLine_nil⟩
    · rw [hsite]
      exact List.forall_mem_nil _
    · rw [hsite]
      exact List.forall_mem_singleton.2 rfl

/-! ## Names of a source with new imports -/

/-- Line feeds at the end import nothing. -/
theorem importedNames_append_feeds {feeds : List Char} (h : ∀ c ∈ feeds, c = '\n') (a : List Char) :
    importedNames (a ++ feeds) = importedNames a := by
  induction feeds generalizing a with
  | nil => rw [List.append_nil]
  | cons c feeds ih =>
    have hc : c = '\n' := h c List.mem_cons_self
    have hfeeds : ∀ d ∈ feeds, d = '\n' := fun d hd => h d (List.mem_cons_of_mem c hd)
    rw [List.append_cons, ih hfeeds, hc, importedNames_append_feed]

/-- Behind line feeds no line is open, nor behind none if there was none before. -/
theorem endsLine_append_feeds {feeds : List Char} (h : ∀ c ∈ feeds, c = '\n') {a : List Char}
    (ha : Text.EndsLine a ∨ feeds ≠ []) : Text.EndsLine (a ++ feeds) := by
  rcases List.eq_nil_or_concat feeds with rfl | ⟨front, c, rfl⟩
  · rw [List.append_nil]
    exact ha.resolve_right fun hne => hne rfl
  · rw [List.concat_eq_append] at h ⊢
    have hc : c = '\n' := h c (List.mem_append_right front List.mem_cons_self)
    rw [hc, ← List.append_assoc]
    exact Text.endsLine_append_feed _

/-- The import lines for some names, with what is written around them. -/
def importText (source : List Char) (names : List String) : String :=
  (importSite source).opening ++ .join (names.map importLine) ++ (importSite source).closing

namespace ImportPlace

variable {source lead rest : List Char} (place : ImportPlace source lead rest)

include place

/-- All imports of the source are in front of the place. -/
theorem importedNames_lead : importedNames lead = importedNames source := by
  have hsplit := place.split
  rcases place.closed with hlead | ⟨hrest, -⟩
  · rw [hsplit, importedNames_append hlead, place.barren, List.append_nil]
  · rw [hsplit, hrest, List.append_nil]

/-- Where a line is open, it is closed. -/
theorem opening_ne_nil (h : ¬ Text.EndsLine lead) : (importSite source).opening.toList ≠ [] := by
  rcases place.closed with hlead | ⟨-, hopening⟩
  · exact absurd hlead h
  · exact fun hnil => hopening (String.toList_eq_nil_iff.1 hnil)

/-- So no line is open where the import lines start. -/
theorem endsLine_opening : Text.EndsLine (lead ++ (importSite source).opening.toList) := by
  apply endsLine_append_feeds place.opening
  by_cases hlead : Text.EndsLine lead
  · exact .inl hlead
  · exact .inr (place.opening_ne_nil hlead)

/-- What is written behind them opens none, and imports nothing. -/
theorem endsLine_closing : Text.EndsLine (importSite source).closing.toList := by
  have hends := endsLine_append_feeds place.closing (.inl Text.endsLine_nil)
  rwa [List.nil_append] at hends

theorem importedNames_closing : importedNames (importSite source).closing.toList = [] :=
  importedNames_append_feeds place.closing []

/-- Import lines put in at their place add their names, whatever follows them. -/
theorem importedNames_insert {names : List String}
    (hnames : ∀ name ∈ names, QualifiedName.isWellFormed name = true) (tail : List Char) :
    importedNames (lead ++ (importText source names).toList ++ tail) =
      importedNames source ++ names.map String.toList ++ importedNames tail := by
  have hparts : lead ++ (importText source names).toList ++ tail =
      (lead ++ (importSite source).opening.toList) ++
        ((String.join (names.map importLine)).toList ++
          ((importSite source).closing.toList ++ tail)) := by
    rw [importText, String.toList_append, String.toList_append]
    simp only [List.append_assoc]
  rw [hparts, importedNames_append place.endsLine_opening, importedNames_append_feeds place.opening,
    place.importedNames_lead, importedNames_append (endsLine_importLines names),
    importedNames_importLines hnames, importedNames_append place.endsLine_closing,
    place.importedNames_closing, List.nil_append, List.append_assoc]

/-- Import lines put in at their place leave all lines of the source as they are. -/
theorem exists_splitOn (names : List String) :
    ∃ above new below : List (List Char), source.splitOn '\n' = above ++ below ∧
      (lead ++ (importText source names).toList ++ rest).splitOn '\n' = above ++ new ++ below := by
  have hinsert : (Text.EndsLine lead ∧ Text.EndsLine (importText source names).toList) ∨
      rest = [] ∧ ∃ lines, (importText source names).toList = '\n' :: lines := by
    rw [importText, String.toList_append, String.toList_append]
    rcases place.closed with hlead | ⟨hrest, hopening⟩
    · -- whole lines are put between whole lines
      have hopening := endsLine_append_feeds place.opening (.inl Text.endsLine_nil)
      rw [List.nil_append] at hopening
      have hlines := Text.endsLine_append hopening (endsLine_importLines names)
      exact .inl ⟨hlead, Text.endsLine_append hlines place.endsLine_closing⟩
    · -- the block starts with the line feed that closes the last line
      refine .inr ⟨hrest, ?_⟩
      have hfeeds := place.opening
      cases hlist : (importSite source).opening.toList with
      | nil => exact absurd (String.toList_eq_nil_iff.1 hlist) hopening
      | cons c feeds =>
        rw [hlist] at hfeeds
        rw [hfeeds c List.mem_cons_self]
        exact ⟨_, rfl⟩
  have hlines := Text.exists_splitOn_insert hinsert
  rwa [← place.split] at hlines

end ImportPlace

end CallLint
