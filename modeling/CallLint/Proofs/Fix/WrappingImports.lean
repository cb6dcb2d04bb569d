import CallLint.Proofs.Fix.Importing
import CallLint.Proofs.Fix.Wrapping

/-!
# Texts around a span, with imports

A plan that puts texts around a span may need imports as well. They go to their own place in the
source, which may lie in front of the span or behind it, and at either end of it. If it lies inside
the span, the plan is refused.

* `Span.Rewrites`: a text in place of a span, and a block of lines at an offset.
* `FixPlan.exists_apply_around`: what such a plan writes.
* `FixPlan.apply_around_of_inside`: when it is refused.
-/

namespace CallLint

/-- A source with a text in place of a span and, if there is one, a block of text at an offset in
front of the span or behind it. -/
inductive Span.Rewrites (s : Span) (source written : String) : Option (Nat × String) → String → Prop
  | alone {before inside after : String} (hparts : s.Divides source before inside after) :
      Rewrites s source written none (before ++ written ++ after)
  | above {offset : Nat} {lead block between inside after : String}
      (hparts : s.Divides source (lead ++ between) inside after)
      (hoffset : Text.size lead = offset) :
      Rewrites s source written (some (offset, block))
        (lead ++ block ++ between ++ written ++ after)
  | below {offset : Nat} {before inside between block rest : String}
      (hparts : s.Divides source before inside (between ++ rest))
      (hoffset : s.stop + Text.size between = offset) :
      Rewrites s source written (some (offset, block))
        (before ++ written ++ between ++ block ++ rest)

section Parts

variable {s : Span} {source before inside after : String} {lead rest : List Char}
  (h : s.Divides source before inside after) (hsplit : source.toList = lead ++ rest)

include h hsplit

/-- A first part that ends in front of a span is a part of what stands in front of it. -/
theorem Span.Divides.exists_before (hle : Text.byteSize lead ≤ s.start) :
    ∃ between, before = .ofList lead ++ .ofList between ∧
      rest = between ++ (inside.toList ++ after.toList) := by
  rw [← h.start] at hle
  rcases Text.exists_eq_append (hsplit.symm.trans h.toList) hle with ⟨between, hbefore, hrest⟩
  exact ⟨between, by rw [← String.ofList_append, ← hbefore, String.ofList_toList], hrest⟩

/-- A first part that ends behind a span ends in what stands behind it. -/
theorem Span.Divides.exists_after (hle : s.stop ≤ Text.byteSize lead) :
    ∃ between, after = .ofList between ++ .ofList rest ∧
      Text.byteSize lead = s.stop + Text.byteSize between := by
  have hwhole : before.toList ++ inside.toList ++ after.toList = lead ++ rest := by
    rw [List.append_assoc, ← h.toList, hsplit]
  have hstop : Text.byteSize (before.toList ++ inside.toList) = s.stop := by
    rw [Text.byteSize_append]
    exact h.stop
  rcases Text.exists_eq_append hwhole (hstop.trans_le hle) with ⟨between, hlead, hafter⟩
  refine ⟨between, ?_, ?_⟩
  · rw [← String.ofList_append, ← hafter, String.ofList_toList]
  · rw [hlead, Text.byteSize_append, hstop]

end Parts

namespace FixPlan

/-- The lines of missing imports. -/
theorem importBlock?_of_needsImports {p : FixPlan} {source : List Char}
    (h : p.needsImports source) :
    importBlock? source p.imports =
      some ((importSite source).offset, importText source (missingImports source p.imports)) :=
  importBlock?_eq_some_iff.2 ⟨missingImports_ne_nil_iff.2 h, rfl, rfl⟩

/-- Without missing imports there are no lines. -/
theorem importBlock?_of_not_needsImports {p : FixPlan} {source : List Char}
    (h : ¬ p.needsImports source) : importBlock? source p.imports = none :=
  Option.map_eq_none_iff.1 (importSplice?_eq_none_iff.2 h)

/-! ## The order of writing -/

section Order

variable (p : FixPlan) {source : List Char} {s : Span} (hbytes : s.isEmpty = false)
  (opening text closing : String)

include hbytes

/-- Lines whose place is in front of a span, or where it starts, come before all texts. -/
theorem pairwise_importSplice_wrapping (hle : (importSite source).offset ≤ s.start) :
    (p.importSplice source :: wrapping s opening text closing).Pairwise Splice.Precedes := by
  have hspan := Span.isEmpty_eq_false_iff.1 hbytes
  refine List.pairwise_cons.2 ⟨?_, pairwise_wrapping hbytes opening text closing⟩
  simp only [wrapping, importSplice, List.forall_mem_cons, Splice.precedes_iff, Span.point]
  refine ⟨?_, ?_, ?_, List.forall_mem_nil _⟩ <;> omega

/-- Lines whose place is behind a span, or where it ends, come after all texts if they are listed
after them. -/
theorem pairwise_wrapping_importSplice (hle : s.stop ≤ (importSite source).offset) :
    (wrapping s opening text closing ++ [p.importSplice source]).Pairwise fun a b =>
      a.le b = true ∧ a.target.stop ≤ b.target.start := by
  have hspan := Span.isEmpty_eq_false_iff.1 hbytes
  rw [List.pairwise_append]
  refine ⟨(pairwise_wrapping hbytes opening text closing).imp fun hab => ⟨hab.1, hab.2.2⟩,
    List.pairwise_singleton _ _, ?_⟩
  simp only [wrapping, importSplice, List.forall_mem_cons, List.mem_singleton, forall_eq,
    Splice.le_iff, Span.point]
  refine ⟨?_, ?_, ?_⟩ <;> omega

end Order

/-- Lines whose place is ahead of the cursor are written there. -/
theorem weave_importSplice_ahead {p : FixPlan} {source done between : List Char} (rest : List Char)
    (hplace : Text.byteSize done + Text.byteSize between = (importSite source).offset) :
    weave (Text.byteSize done) (between ++ rest) [p.importSplice source] =
      between ++ (importText source (missingImports source p.imports)).toList ++ rest := by
  have hstep := @weave_cons_of_parts done between [] rest (p.importSplice source) [] hplace rfl
  exact hstep.trans (by rw [importSplice, weave])

/-! ## Plans with texts around a span -/

section Around

variable {p : FixPlan} {source : String} {s : Span} {opening text closing : String}
  (hedits : p.edits = around s opening text closing) (hcut : s.CutsOut source.toList)

include hedits

/-- Texts around a span are behind an offset in front of it. -/
theorem editsBehind_around (hbytes : s.isEmpty = false) {offset : Nat} (hle : offset ≤ s.start) :
    p.editsBehind offset := by
  intro e he
  rw [hedits] at he
  rw [span_of_mem_around he]
  exact ⟨hbytes, hle⟩

/-- The changes of such a plan are listed with the import lines at the end. -/
theorem changes_around (source : List Char) :
    p.changes source = wrapping s opening text closing ++ (p.importSplice? source).toList := by
  rw [changes, hedits]
  rfl

theorem changes_around_of_needsImports {source : List Char} (h : p.needsImports source) :
    p.changes source = wrapping s opening text closing ++ [p.importSplice source] := by
  rw [changes_around hedits, importSplice?_of_needsImports h, Option.toList_some]

include hcut

/-- All edits of such a plan lie in the source. -/
theorem cutsOut_of_mem_around : ∀ e ∈ p.edits, e.span.CutsOut source.toList := by
  intro e he
  rw [hedits] at he
  rw [span_of_mem_around he]
  exact hcut

variable (hbytes : s.isEmpty = false)

include hbytes

/-- Without imports the texts alone are written. -/
theorem apply_around_of_not_needsImports (h : ¬ p.needsImports source.toList) :
    ∃ out, p.apply source = .ok out ∧ s.Rewrites source (opening ++ text ++ closing) none out := by
  rcases hcut.exists_divides with ⟨before, inside, after, hparts⟩
  have hchanges : p.changes source.toList = wrapping s opening text closing := by
    rw [changes_around hedits, importSplice?_eq_none_iff.2 h, Option.toList_none, List.append_nil]
  exact ⟨_,
    apply_of_wrapping hparts hbytes (cutsOut_of_mem_around hedits hcut) (List.Perm.of_eq hchanges),
    .alone hparts⟩

section Missing

variable (h : p.needsImports source.toList)

include h

/-- Imports that belong in front of the span are written first, also if their place is where the
span starts. -/
theorem apply_around_of_above (hle : (importSite source.toList).offset ≤ s.start) :
    ∃ out, p.apply source = .ok out ∧ s.Rewrites source (opening ++ text ++ closing)
      (some ((importSite source.toList).offset,
        importText source.toList (missingImports source.toList p.imports))) out := by
  rcases hcut.exists_divides with ⟨before, inside, after, hparts⟩
  rcases exists_importPlace source.toList with ⟨lead, rest, place⟩
  have hsorted := pairwise_importSplice_wrapping p hbytes opening text closing hle
  rw [place.offset] at hle
  rcases hparts.exists_before place.split hle with ⟨between, rfl, hrest⟩
  let block := importText source.toList (missingImports source.toList p.imports)
  have hchanges := changes_around_of_needsImports hedits h
  have hperm : (p.changes source.toList).Perm
      (p.importSplice source.toList :: wrapping s opening text closing) := by
    rw [hchanges]
    exact List.perm_append_singleton _ _
  -- the lines are written behind the first part, and the texts as if the source started there
  have hstart : Text.byteSize lead + Text.byteSize between = s.start := by
    have hsize := hparts.start
    rwa [Text.size, String.toList_append, String.toList_ofList, String.toList_ofList,
      Text.byteSize_append] at hsize
  have htexts := weave_wrapping after.toList [] opening text closing hstart hparts.stop_of_start
  rw [List.append_nil, ← hrest, weave] at htexts
  have hwritten := @weave_importSplice p _ _ _ place (wrapping s opening text closing)
  rw [htexts] at hwritten
  refine ⟨.ofList lead ++ block ++ .ofList between ++ (opening ++ text ++ closing) ++ after, ?_, ?_⟩
  · refine apply_of_weave (cutsOut_of_mem_around hedits hcut) hperm hsorted (hwritten.trans ?_)
    simp only [String.toList_append, String.toList_ofList, List.append_assoc, block]
  · rw [place.offset]
    exact .above hparts (by rw [Text.size, String.toList_ofList])

/-- Imports that belong behind the span are written last, also if their place is where the span
ends. -/
theorem apply_around_of_below (hle : s.stop ≤ (importSite source.toList).offset) :
    ∃ out, p.apply source = .ok out ∧ s.Rewrites source (opening ++ text ++ closing)
      (some ((importSite source.toList).offset,
        importText source.toList (missingImports source.toList p.imports))) out := by
  rcases hcut.exists_divides with ⟨before, inside, after, hparts⟩
  rcases exists_importPlace source.toList with ⟨lead, rest, place⟩
  have hlisted := pairwise_wrapping_importSplice p hbytes opening text closing hle
  rw [place.offset] at hle
  rcases hparts.exists_after place.split hle with ⟨between, rfl, hlead⟩
  let block := importText source.toList (missingImports source.toList p.imports)
  have hchanges := changes_around_of_needsImports hedits h
  rw [← hchanges] at hlisted
  -- after the texts the cursor is at the end of the span
  have htexts := weave_wrapping (between ++ rest) [p.importSplice source.toList] opening text
    closing hparts.start_of_nil hparts.stop_of_start
  have hstop : Text.byteSize (before.toList ++ inside.toList) = s.stop := by
    rw [Text.byteSize_append]
    exact hparts.stop
  have hline : weave s.stop (between ++ rest) [p.importSplice source.toList] =
      between ++ block.toList ++ rest := by
    rw [← hstop]
    apply weave_importSplice_ahead
    rw [hstop, ← hlead, place.offset]
  have hsource : source.toList = before.toList ++ (inside.toList ++ (between ++ rest)) := by
    rw [hparts.toList, String.toList_append, String.toList_ofList, String.toList_ofList]
  rw [← hsource, hline, ← hchanges] at htexts
  refine ⟨before ++ (opening ++ text ++ closing) ++ .ofList between ++ block ++ .ofList rest,
    ?_, ?_⟩
  · have hsplices := splices_of_pairwise (cutsOut_of_mem_around hedits hcut) hlisted
    refine apply_eq_ok_iff.2 ⟨_, hsplices, ?_⟩
    rw [← String.toList_inj, String.toList_ofList]
    refine htexts.trans ?_
    simp only [String.toList_append, String.toList_ofList, List.append_assoc]
  · rw [place.offset]
    refine .below hparts ?_
    rw [Text.size, String.toList_ofList, hlead]

end Missing

/-- What a plan writes that puts texts around a span and whose imports are not missing or do not
belong inside of the span. -/
theorem exists_apply_around
    (h : ¬ (p.needsImports source.toList ∧ s.start < (importSite source.toList).offset ∧
      (importSite source.toList).offset < s.stop)) :
    ∃ out, p.apply source = .ok out ∧
      s.Rewrites source (opening ++ text ++ closing)
        (importBlock? source.toList p.imports) out := by
  by_cases hneeds : p.needsImports source.toList
  · -- the place for imports is in front of the span or behind it
    rw [importBlock?_of_needsImports hneeds]
    by_cases habove : (importSite source.toList).offset ≤ s.start
    · exact apply_around_of_above hedits hcut hbytes hneeds habove
    · have hbelow : s.stop ≤ (importSite source.toList).offset := by
        rw [not_and, not_and] at h
        exact Nat.le_of_not_lt (h hneeds (Nat.lt_of_not_le habove))
      exact apply_around_of_below hedits hcut hbytes hneeds hbelow
  · rw [importBlock?_of_not_needsImports hneeds]
    exact apply_around_of_not_needsImports hedits hcut hbytes hneeds

/-- Missing imports that belong inside of the span get in the way of the text in its place. -/
theorem apply_around_of_inside (h : p.needsImports source.toList)
    (hstart : s.start < (importSite source.toList).offset)
    (hstop : (importSite source.toList).offset < s.stop) :
    p.apply source = .error (.overlap s (.point (importSite source.toList).offset)) := by
  let first : Splice := ⟨.point s.start, 1, opening, s⟩
  let second : Splice := ⟨s, 2, text, s⟩
  let third : Splice := ⟨.point s.stop, 0, closing, s⟩
  let line := p.importSplice source.toList
  have hspan := Span.isEmpty_eq_false_iff.1 hbytes
  have hperm : (p.changes source.toList).Perm [first, second, line, third] := by
    rw [changes_around_of_needsImports hedits h]
    exact .cons first (.cons second (.swap line third []))
  have hstrict :
      [first, second, line, third].Pairwise fun a b => a.le b = true ∧ b.le a = false := by
    simp only [List.pairwise_cons, List.forall_mem_cons, ← Bool.not_eq_true, Splice.le_iff, first,
      second, third, line, importSplice, Span.point, true_and]
    refine ⟨⟨?_, ?_, ?_, List.forall_mem_nil _⟩, ⟨?_, ?_, List.forall_mem_nil _⟩,
      ⟨?_, List.forall_mem_nil _⟩, List.forall_mem_nil _, .nil⟩ <;> omega
  have hsorted := Splice.ranking_le.mergeSort_eq_of_perm hperm hstrict
  -- the text in place of the span is the first change that reaches into the next one
  have hcollision : collision? [first, second, line, third] = some (second, line) := by
    have hfree : first.collides second = false := by
      rw [← Bool.not_eq_true, collides_iff]
      exact Nat.lt_irrefl s.start
    have hcollides : second.collides line = true := collides_iff.2 hstop
    rw [collision?, hfree, if_neg Bool.false_ne_true, collision?, hcollides, if_pos rfl]
  rw [apply_eq_error_iff, splices_of_cutsOut (cutsOut_of_mem_around hedits hcut), hsorted,
    hcollision]
  rfl

end Around

end FixPlan

end CallLint
