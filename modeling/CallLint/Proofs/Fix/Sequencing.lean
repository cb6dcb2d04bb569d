import Mathlib.Data.List.Chain
import CallLint.Proofs.Fix.Importing
import CallLint.Proofs.Fix.Refusing

/-!
# One plan after the other

Plans for spans that lie one behind the other can be merged and applied at once, or applied one by
one, the last span first. Then each plan meets a text that is still as it was up to the end of its
own span, so what it writes there does not depend on what has been made of the rest.

* `Handles`: a plan whose edits are all anchored to one span.
* `weave_append_append`: changes in a first part and changes behind it write their parts apart.
* `apply_append_right`: a plan for the first part of a text leaves the rest as it is.
* `JoinsAt.apply`: two plans, one behind the other, applied at once.
* `apply_merge_eq_foldrM`: merged plans and single ones write the same.
-/

namespace CallLint

/-- A span up to the end of a first part is cut out of that part. -/
theorem Span.cutsOut_append_iff {lead : List Char} {s : Span} (rest : List Char)
    (h : s.stop ≤ Text.byteSize lead) : s.CutsOut (lead ++ rest) ↔ s.CutsOut lead := by
  rw [cutsOut_iff, cutsOut_iff]
  by_cases hordered : s.start ≤ s.stop
  · rw [Text.isBoundary_append_iff rest (Nat.le_trans hordered h),
      Text.isBoundary_append_iff rest h, Text.byteSize_append]
    simp only [h, Nat.le_add_right_of_le h]
  · simp only [hordered, false_and]

theorem Span.CutsOut.append {lead : List Char} {s : Span} (h : s.CutsOut lead) (rest : List Char) :
    s.CutsOut (lead ++ rest) :=
  (cutsOut_append_iff rest h.inside).2 h

namespace FixPlan

/-! ## Writing two parts -/

/-- Changes in a first part and changes behind it write their parts one after the other. -/
theorem weave_append_append {lead : List Char} (done front rest : List Char) {l m : List Splice}
    (hlead : lead = done ++ front) (hl : runsForward lead (Text.byteSize done) l)
    (hm : ∀ s ∈ m, Text.byteSize lead ≤ s.target.start ∧ s.target.start ≤ s.target.stop) :
    weave (Text.byteSize done) (front ++ rest) (l ++ m) =
      weave (Text.byteSize done) front l ++ weave (Text.byteSize lead) rest m := by
  -- the cursor is where `done` ends, and `front` is what it has not passed of the first part
  induction l generalizing done front with
  | nil =>
    rw [List.nil_append, weave, hlead]
    apply weave_skip
    rwa [← hlead]
  | cons s more ih =>
    rcases hl with ⟨hle, hwithin, hmore⟩
    rw [hlead] at hwithin
    obtain ⟨kept, target, left, rfl, hkept, htarget, hstep⟩ :=
      exists_weave_step front more hle hwithin
    have hdone : Text.byteSize (done ++ kept ++ target) = s.target.stop := by
      rw [Text.byteSize_append, Text.byteSize_append]
      omega
    have hparts : lead = done ++ kept ++ target ++ left := by
      rw [hlead]
      simp
    have hrest := ih _ left hparts (by rwa [hdone])
    rw [hdone] at hrest
    rw [List.cons_append, hstep, List.append_assoc, List.append_assoc,
      weave_cons_of_parts (more ++ m) hkept htarget, hrest]
    simp only [List.append_assoc]

/-- The same from the start of the source on. -/
theorem weave_zero_append {lead : List Char} (rest : List Char) {l m : List Splice}
    (hl : runsForward lead 0 l)
    (hm : ∀ s ∈ m, Text.byteSize lead ≤ s.target.start ∧ s.target.start ≤ s.target.stop) :
    weave 0 (lead ++ rest) (l ++ m) = weave 0 lead l ++ weave (Text.byteSize lead) rest m :=
  weave_append_append [] lead rest rfl hl hm

/-! ## Plans without imports -/

/-- The changes of the edits of a plan, in the order of writing. -/
def sortedEdits (p : FixPlan) : List Splice := (p.edits.map .ofEdit).mergeSort Splice.le

/-- What such a plan writes is what its edits write, and they never make the cursor turn back. -/
theorem apply_of_validate {p : FixPlan} (himports : p.imports = ∅) {source : String}
    (hvalid : p.validate source = .ok ()) :
    p.apply source = .ok (.ofList (weave 0 source.toList p.sortedEdits)) ∧
      runsForward source.toList 0 p.sortedEdits := by
  rcases validate_eq_ok_iff_fits.1 hvalid with ⟨hwithin, hfits⟩
  have hsplices := splices_eq_ok_iff.2 ⟨hwithin, hfits, rfl⟩
  rw [changes_of_imports_eq_empty himports] at hsplices
  exact ⟨apply_eq_ok_iff.2 ⟨_, hsplices, rfl⟩, runsForward_of_splices hsplices⟩

/-! ## Two plans -/

/-- A plan that can be applied to a first part can be applied to the whole, and what follows stays
as it is. -/
theorem apply_append_right {p : FixPlan} (himports : p.imports = ∅) {lead out : String}
    (h : p.apply lead = .ok out) (rest : String) : p.apply (lead ++ rest) = .ok (out ++ rest) := by
  have hvalid := validate_eq_ok_iff.2 ⟨out, h⟩
  rcases (validate_eq_ok_iff_cutsOut himports).1 hvalid with ⟨hcut, hfits⟩
  have hwhole : p.validate (lead ++ rest) = .ok () := by
    rw [validate_eq_ok_iff_cutsOut himports, String.toList_append]
    exact ⟨fun e he => (hcut e he).append rest.toList, hfits⟩
  rcases apply_of_validate himports hvalid with ⟨hlead, hforward⟩
  have hwritten := weave_zero_append rest.toList hforward (List.forall_mem_nil _)
  rw [List.append_nil, weave] at hwritten
  rw [(apply_of_validate himports hwhole).1, String.toList_append, hwritten, String.ofList_append,
    String.ofList_toList]
  rw [hlead] at h
  rw [Except.ok.inj h]

/-- The change of an edit that ends where another one starts, or before, is written first. -/
theorem le_ofEdit_of_stop_le {a b : Edit} (ha : a.span.isEmpty = false)
    (hb : b.span.isEmpty = false) (h : a.span.stop ≤ b.span.start) :
    (Splice.ofEdit a).le (.ofEdit b) = true := by
  rw [Span.isEmpty_eq_false_iff] at ha hb
  rw [Splice.le_iff]
  cases hplace : a.place <;> cases hplace' : b.place <;>
    simp only [Splice.ofEdit, Edit.target, Edit.rank, Span.point, hplace, hplace'] <;> omega

/-- Changes of edits behind an offset have targets there. -/
theorem target_of_mem_sortedEdits {p : FixPlan} {n : Nat} (hbehind : p.editsBehind n) :
    ∀ s ∈ p.sortedEdits, n ≤ s.target.start ∧ s.target.start ≤ s.target.stop := by
  intro s hs
  rcases List.mem_map.1 (List.mem_mergeSort.1 hs) with ⟨e, he, rfl⟩
  have hspan := Span.isEmpty_eq_false_iff.1 (hbehind e he).1
  have hle := (hbehind e he).2
  cases hplace : e.place <;> simp only [Splice.ofEdit, Edit.target, Span.point, hplace] <;> omega

/-- Whether a plan has the edits of two other ones, none of them with imports, of which the first
one edits spans with bytes up to an offset, and the second one spans with bytes behind it. -/
structure JoinsAt (n : Nat) (both p q : FixPlan) : Prop where
  edits : both.edits = p.edits ++ q.edits
  imports : both.imports = ∅ ∧ p.imports = ∅ ∧ q.imports = ∅
  front : ∀ e ∈ p.edits, e.span.isEmpty = false ∧ e.span.stop ≤ n
  behind : q.editsBehind n

section Joined

variable {n : Nat} {both p q : FixPlan} (h : JoinsAt n both p q)
include h

/-- The spans of the first plan end before those of the second one start. -/
theorem JoinsAt.stop_le_start {a b : Edit} (ha : a ∈ p.edits) (hb : b ∈ q.edits) :
    a.span.stop ≤ b.span.start :=
  Nat.le_trans (h.front a ha).2 (h.behind b hb).2

/-- So sorting all edits sorts those of each plan. -/
theorem JoinsAt.sortedEdits : both.sortedEdits = p.sortedEdits ++ q.sortedEdits := by
  rw [FixPlan.sortedEdits, h.edits, List.map_append]
  apply Splice.ranking_le.mergeSort_append
  simp only [List.forall_mem_map]
  intro a ha b hb
  exact le_ofEdit_of_stop_le (h.front a ha).1 (h.behind b hb).1 (h.stop_le_start ha hb)

/-- Edits of one plan do not get in the way of those of the other one. -/
theorem JoinsAt.validate {source : String} (hp : p.validate source = .ok ())
    (hq : q.validate source = .ok ()) : both.validate source = .ok () := by
  rcases (validate_eq_ok_iff_cutsOut h.imports.2.1).1 hp with ⟨hcut, hfits⟩
  rcases (validate_eq_ok_iff_cutsOut h.imports.2.2).1 hq with ⟨hcut', hfits'⟩
  rw [validate_eq_ok_iff_cutsOut h.imports.1, h.edits, List.forall_mem_append, List.map_append,
    List.pairwise_append]
  refine ⟨⟨hcut, hcut'⟩, hfits, hfits', ?_⟩
  simp only [List.forall_mem_map]
  intro a ha b hb
  apply fits_of_overlaps_eq_false (h.front a ha).1 (h.behind b hb).1
  exact Span.overlaps_eq_false_iff.2 (.inr (h.stop_le_start ha hb))

end Joined

/-- Two plans, one for spans in a first part and one for spans behind it, write the same whether
their edits are applied at once, or those of the second plan first and then those of the first
one. -/
theorem JoinsAt.apply {both p q : FixPlan} {lead rest out later : String}
    (h : JoinsAt (Text.byteSize lead.toList) both p q) (hout : p.apply lead = .ok out)
    (hlater : q.apply (lead ++ rest) = .ok later) :
    ∃ final, both.apply (lead ++ rest) = .ok final ∧ p.apply later = .ok final := by
  rcases h.imports with ⟨hboth, hp, hq⟩
  have hvalid := validate_eq_ok_iff.2 ⟨later, hlater⟩
  have hwhole := h.validate (validate_eq_ok_iff.2 ⟨_, apply_append_right hp hout rest⟩) hvalid
  have htargets := target_of_mem_sortedEdits h.behind
  -- both ways what is written behind the first part is the same, and the first plan does not see it
  have htail :
      later = lead ++ .ofList (weave (Text.byteSize lead.toList) rest.toList q.sortedEdits) := by
    rw [(apply_of_validate hq hvalid).1, String.toList_append] at hlater
    rw [← Except.ok.inj hlater, ← String.toList_inj, String.toList_append, String.toList_ofList,
      String.toList_ofList]
    exact weave_skip [] lead.toList rest.toList htargets
  have hlast := apply_append_right hp hout
    (.ofList (weave (Text.byteSize lead.toList) rest.toList q.sortedEdits))
  rw [← htail] at hlast
  refine ⟨_, ?_, hlast⟩
  rcases apply_of_validate hp (validate_eq_ok_iff.2 ⟨out, hout⟩) with ⟨hlead, hforward⟩
  rw [hlead] at hout
  rw [(apply_of_validate hboth hwhole).1, String.toList_append, h.sortedEdits,
    weave_zero_append _ hforward htargets, String.ofList_append, Except.ok.inj hout]

/-! ## Plans for spans in a row -/

/-- Whether a plan edits one span with bytes that can be cut out of a source, replaces it once at
most, and has no imports. -/
structure Handles (source : List Char) (p : FixPlan) (s : Span) : Prop where
  cutsOut : s.CutsOut source
  nonempty : s.isEmpty = false
  anchored : ∀ e ∈ p.edits, e.span = s
  once : (p.edits.filter (·.place = .instead)).length ≤ 1
  imports : p.imports = ∅

/-- Edits anchored to one span fit if they do not both replace it. -/
theorem fits_of_span_eq {a b : Edit} (hspan : a.span = b.span) (hbytes : b.span.isEmpty = false)
    (hplaces : ¬ (a.place = .instead ∧ b.place = .instead)) :
    (Splice.ofEdit a).fits (.ofEdit b) := by
  rw [Span.isEmpty_eq_false_iff] at hbytes
  simp only [Splice.fits, Splice.le_iff, Splice.ofEdit]
  cases hplace : a.place <;> cases hplace' : b.place <;>
    simp only [Edit.target, Edit.rank, Span.point, hplace, hplace', hspan, true_and] <;> split <;>
    first | omega | exact absurd ⟨hplace, hplace'⟩ hplaces

/-- A plan that handles a span can be applied. -/
theorem Handles.validate {source : String} {p : FixPlan} {s : Span}
    (hp : p.Handles source.toList s) : p.validate source = .ok () := by
  -- no two of its edits replace the span
  have honce : (p.edits.filter (·.place = .instead)).Pairwise fun _ _ => False := by
    have hlength := hp.once
    revert hlength
    cases p.edits.filter (·.place = .instead) with
    | nil => exact fun _ => .nil
    | cons a l =>
      cases l with
      | nil => exact fun _ => List.pairwise_singleton _ a
      | cons b l => simp
  rw [List.pairwise_filter] at honce
  rw [validate_eq_ok_iff_cutsOut hp.imports, List.pairwise_map]
  refine ⟨fun e he => ?_, List.Pairwise.imp_of_mem ?_ honce⟩
  · rw [hp.anchored e he]
    exact hp.cutsOut
  · intro a b ha hb hab
    apply fits_of_span_eq ((hp.anchored a ha).trans (hp.anchored b hb).symm)
    · rw [hp.anchored b hb]
      exact hp.nonempty
    · rintro ⟨hplace, hplace'⟩
      exact hab (decide_eq_true hplace) (decide_eq_true hplace')

/-- A plan for a span up to the end of a first part handles it in that part. -/
theorem Handles.of_append {lead rest : List Char} {p : FixPlan} {s : Span}
    (hp : p.Handles (lead ++ rest) s) (h : s.stop ≤ Text.byteSize lead) : p.Handles lead s where
  cutsOut := (Span.cutsOut_append_iff rest h).1 hp.cutsOut
  nonempty := hp.nonempty
  anchored := hp.anchored
  once := hp.once
  imports := hp.imports

section Row

variable {source : String} {plans : List FixPlan} {spans : List Span}

/-- Merged plans need no imports if none of them does. -/
theorem imports_merge_of_handles (h : List.Forall₂ (Handles source.toList) plans spans) :
    (merge plans).imports = ∅ := by
  induction h with
  | nil => rfl
  | @cons p s plans spans hp hrest ih =>
    have hfold : (merge (p :: plans)).imports =
        plans.foldl (fun names q => names.union q.imports)
          ((∅ : SortedSet String).union p.imports) := rfl
    rw [hfold, hp.imports]
    exact ih

/-- If each span ends where the next one starts, or before, then all plans but the first one edit
what is behind the first span. -/
theorem editsBehind_merge {s : Span} (h : List.Forall₂ (Handles source.toList) plans spans)
    (hspans : (s :: spans).IsChain fun a b => a.stop ≤ b.start) :
    (merge plans).editsBehind s.stop := by
  induction h generalizing s with
  | nil => exact List.forall_mem_nil _
  | @cons p t plans spans hp hrest ih =>
    rw [List.isChain_cons_cons] at hspans
    have hbytes := Span.isEmpty_eq_false_iff.1 hp.nonempty
    have hle := hspans.1
    have hedits : (merge (p :: plans)).edits = p.edits ++ (merge plans).edits := List.flatMap_cons
    intro e he
    rw [hedits, List.mem_append] at he
    rcases he with he | he
    · rw [hp.anchored e he]
      exact ⟨hp.nonempty, hle⟩
    · -- what is behind `t` is behind `s`, too
      rcases ih hspans.2 e he with ⟨hnonempty, hbehind⟩
      exact ⟨hnonempty, by omega⟩

/-- Merging plans and applying them at once is applying them one by one, the last one first. This
holds of all lists of plans that handle one span each, where each span ends where the next one
starts, or before. Both ways succeed, so no plan is refused for the text that the plans after it
have left. -/
theorem apply_merge_eq_foldrM (hplans : List.Forall₂ (Handles source.toList) plans spans)
    (hspans : spans.IsChain fun a b => a.stop ≤ b.start) :
    ∃ out, (merge plans).apply source = .ok out ∧ plans.foldrM apply source = .ok out := by
  induction hplans with
  | nil =>
    have hnone : ¬ (merge []).needsImports source.toList :=
      not_needsImports_iff.2 (List.forall_mem_nil _)
    exact ⟨source, apply_of_not_needsImports rfl hnone, rfl⟩
  | @cons p s plans spans hp hrest ih =>
    rcases ih hspans.tail with ⟨later, hmerged, hsingle⟩
    -- the text falls into the part up to the end of the first span and the part that the other
    -- spans are in
    obtain ⟨lead, rest, rfl, hstop⟩ : ∃ lead rest : String, source = lead ++ rest ∧
        Text.byteSize lead.toList = s.stop := by
      rcases Text.isBoundary_iff.1 hp.cutsOut.closes with ⟨lead, rest, hsource, hstop⟩
      exact ⟨.ofList lead, .ofList rest,
        by rw [← String.ofList_append, ← hsource, String.ofList_toList],
        by rwa [String.toList_ofList]⟩
    have hall : List.Forall₂ (Handles (lead ++ rest).toList) (p :: plans) (s :: spans) :=
      .cons hp hrest
    have hjoins : JoinsAt (Text.byteSize lead.toList) (merge (p :: plans)) p (merge plans) := by
      rw [hstop]
      refine ⟨List.flatMap_cons,
        ⟨imports_merge_of_handles hall, hp.imports, imports_merge_of_handles hrest⟩, ?_,
        editsBehind_merge hrest hspans⟩
      intro e he
      rw [hp.anchored e he]
      exact ⟨hp.nonempty, Nat.le_refl _⟩
    -- the first plan handles its span in the first part alone
    rw [String.toList_append] at hp
    rcases validate_eq_ok_iff.1 (hp.of_append (Nat.le_of_eq hstop.symm)).validate with ⟨out, hout⟩
    rcases hjoins.apply hout hmerged with ⟨final, hfinal, hfirst⟩
    refine ⟨final, hfinal, ?_⟩
    rw [List.foldrM_cons, hsingle]
    exact hfirst

end Row

/-- Three plans for spans that touch. At the offset where the first span ends, the first plan
inserts a text, and the second one inserts a text and replaces its span. -/
def touchingPlans : List FixPlan :=
  [{ empty with edits := [⟨.after, ⟨0, 2⟩, "é"⟩, ⟨.before, ⟨0, 2⟩, "("⟩] },
    { empty with edits := [⟨.instead, ⟨2, 3⟩, "xyz"⟩, ⟨.before, ⟨2, 3⟩, ", "⟩] },
    { empty with edits := [⟨.after, ⟨3, 4⟩, ")"⟩] }]

/-- Merged or one by one, they write the same. -/
theorem apply_merge_eq_foldrM_touchingPlans :
    List.Forall₂ (Handles "éab".toList) touchingPlans [⟨0, 2⟩, ⟨2, 3⟩, ⟨3, 4⟩] ∧
      ∃ out, (merge touchingPlans).apply "éab" = .ok out ∧
        touchingPlans.foldrM apply "éab" = .ok out := by
  have hplans : List.Forall₂ (Handles "éab".toList) touchingPlans [⟨0, 2⟩, ⟨2, 3⟩, ⟨3, 4⟩] :=
    .cons ⟨by decide, rfl, by decide, by decide, rfl⟩
      (.cons ⟨by decide, rfl, by decide, by decide, rfl⟩
        (.cons ⟨by decide, rfl, by decide, by decide, rfl⟩ .nil))
  exact ⟨hplans, apply_merge_eq_foldrM hplans (by decide)⟩

end FixPlan

end CallLint
