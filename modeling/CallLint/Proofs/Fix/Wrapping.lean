import Mathlib.Data.List.Perm.Basic
import CallLint.Proofs.Fix.Refusing
import CallLint.Proofs.Fix.Rewriting

/-!
# Texts around a span

A text before a span, one in its place and one after it may be added to a plan in any order: they
are written as they stand around the span. That holds of a span with bytes. The two ends of an empty
span are one offset, and at one offset a text after a span comes before all others.

* `Span.Divides`: the parts that a span leaves of a source.
* `FixPlan.splices_of_perm`: changes in strict order are written in that order, however they are
  listed.
* `FixPlan.weave_wrapping`: what three changes around a span write.
* `FixPlan.wraps_in_any_order`: what three edits of one span write, however they are listed.
-/

namespace CallLint

/-- A source falls into the text in front of a span, the text at the span and the text behind it. -/
structure Span.Divides (s : Span) (source before inside after : String) : Prop where
  split : source = before ++ inside ++ after
  start : Text.size before = s.start
  stop : Text.size before + Text.size inside = s.stop

/-- Parts of the characters of a source are parts of the source. -/
theorem Span.divides_ofList {source : String} {s : Span} {before inside after : List Char}
    (hsource : source.toList = before ++ (inside ++ after))
    (hstart : Text.byteSize before = s.start) (hstop : s.start + Text.byteSize inside = s.stop) :
    s.Divides source (.ofList before) (.ofList inside) (.ofList after) where
  split := by
    rw [← String.ofList_append, ← String.ofList_append, List.append_assoc, ← hsource,
      String.ofList_toList]
  start := by rw [Text.size, String.toList_ofList, hstart]
  stop := by rw [Text.size, Text.size, String.toList_ofList, String.toList_ofList, hstart, hstop]

/-- A span that can be cut out of a source divides it. -/
theorem Span.CutsOut.exists_divides {source : String} {s : Span} (h : s.CutsOut source.toList) :
    ∃ before inside after, s.Divides source before inside after := by
  obtain ⟨before, inside, after, hsource, hstart, hstop⟩ :=
    Text.exists_parts h.ordered h.opens h.closes
  exact ⟨_, _, _, divides_ofList hsource hstart hstop⟩

/-- The parts as lists of characters. -/
theorem Span.Divides.toList {s : Span} {source before inside after : String}
    (h : s.Divides source before inside after) :
    source.toList = before.toList ++ (inside.toList ++ after.toList) := by
  rw [h.split, String.toList_append, String.toList_append, List.append_assoc]

/-- The bytes in front of a span, for a cursor at the start of the source. -/
theorem Span.Divides.start_of_nil {s : Span} {source before inside after : String}
    (h : s.Divides source before inside after) :
    Text.byteSize [] + Text.byteSize before.toList = s.start :=
  (Nat.zero_add _).trans h.start

/-- The bytes of a span, for a cursor at its start. -/
theorem Span.Divides.stop_of_start {s : Span} {source before inside after : String}
    (h : s.Divides source before inside after) :
    s.start + Text.byteSize inside.toList = s.stop := by
  rw [← h.start]
  exact h.stop

/-- An empty span that divides a source is a point of it. -/
theorem Span.Divides.start_eq_stop {s : Span} {source before inside after : String}
    (h : s.Divides source before inside after) (hempty : s.isEmpty = true) : s.start = s.stop := by
  rw [Span.isEmpty, decide_eq_true_eq] at hempty
  have hstart := h.start
  have hstop := h.stop
  omega

/-- There is no text at an empty span. -/
theorem Span.Divides.inside_eq_empty {s : Span} {source before inside after : String}
    (h : s.Divides source before inside after) (hempty : s.isEmpty = true) : inside = "" := by
  have hsize : Text.byteSize inside.toList = 0 := by
    have hstart := h.start
    have hstop := h.stop
    have hends := h.start_eq_stop hempty
    rw [Text.size, Text.size] at hstop
    rw [Text.size] at hstart
    omega
  exact String.toList_eq_nil_iff.1 (Text.byteSize_eq_zero_iff.1 hsize)

/-- A span divides a source in one way only. -/
theorem Span.Divides.unique {s : Span} {source before inside after before' inside' after' : String}
    (h : s.Divides source before inside after) (h' : s.Divides source before' inside' after') :
    before = before' ∧ inside = inside' ∧ after = after' := by
  have hstart : Text.byteSize before.toList = Text.byteSize before'.toList :=
    h.start.trans h'.start.symm
  have hstop : Text.byteSize inside.toList = Text.byteSize inside'.toList := by
    have hsum := h.stop.trans h'.stop.symm
    rw [Text.size, Text.size, Text.size, Text.size] at hsum
    omega
  -- the source is cut at the start, and what is left at the end of the span
  have hcut := Text.append_inj_of_byteSize (h.toList.symm.trans h'.toList) hstart
  have hrest := Text.append_inj_of_byteSize hcut.2 hstop
  exact ⟨String.toList_injective hcut.1, String.toList_injective hrest.1,
    String.toList_injective hrest.2⟩

namespace FixPlan

/-! ## Changes in strict order -/

/-- Whether a change is written before another one, whichever of them is listed first, and ends no
later than the other one starts. -/
def Splice.Precedes (a b : Splice) : Prop :=
  a.le b = true ∧ b.le a = false ∧ a.target.stop ≤ b.target.start

theorem Splice.precedes_iff {a b : Splice} :
    a.Precedes b ↔
      (a.target.start < b.target.start ∨ a.target.start = b.target.start ∧ a.rank < b.rank) ∧
        a.target.stop ≤ b.target.start := by
  rw [Precedes, ← Bool.not_eq_true, le_iff, le_iff]
  omega

/-- Changes in strict order are written in that order, however they are listed. -/
theorem splices_of_perm {p : FixPlan} {source : List Char} {l : List Splice}
    (hcut : ∀ e ∈ p.edits, e.span.CutsOut source) (hperm : (p.changes source).Perm l)
    (hl : l.Pairwise Splice.Precedes) : p.splices source = .ok l := by
  have hsorted : (p.changes source).mergeSort Splice.le = l :=
    Splice.ranking_le.mergeSort_eq_of_perm hperm (hl.imp fun h => ⟨h.1, h.2.1⟩)
  have hfits : ((p.changes source).mergeSort Splice.le).Pairwise fun a b =>
      a.target.stop ≤ b.target.start := by
    rw [hsorted]
    exact hl.imp fun h => h.2.2
  rw [Splice.ranking_le.pairwise_mergeSort_iff] at hfits
  exact splices_eq_ok_iff.2 ⟨fun e he => Edit.isWithin_iff.2 (hcut e he), hfits, hsorted⟩

/-- Changes that are listed in the order of writing stay in it. -/
theorem splices_of_pairwise {p : FixPlan} {source : List Char}
    (hcut : ∀ e ∈ p.edits, e.span.CutsOut source)
    (h : (p.changes source).Pairwise fun a b => a.le b = true ∧ a.target.stop ≤ b.target.start) :
    p.splices source = .ok (p.changes source) := by
  have hfits : (p.changes source).Pairwise Splice.fits := by
    refine h.imp fun {a b} hab => ?_
    rw [Splice.fits, if_pos hab.1]
    exact hab.2
  exact splices_eq_ok_iff.2 ⟨fun e he => Edit.isWithin_iff.2 (hcut e he), hfits,
    List.mergeSort_of_pairwise (h.imp And.left)⟩

/-- What changes in strict order write is what a plan writes. -/
theorem apply_of_weave {p : FixPlan} {source out : String} {l : List Splice}
    (hcut : ∀ e ∈ p.edits, e.span.CutsOut source.toList) (hperm : (p.changes source.toList).Perm l)
    (hl : l.Pairwise Splice.Precedes) (hout : weave 0 source.toList l = out.toList) :
    p.apply source = .ok out := by
  refine apply_eq_ok_iff.2 ⟨l, splices_of_perm hcut hperm hl, ?_⟩
  rw [hout, String.ofList_toList]

/-! ## Three changes around a span -/

/-- The changes of a text before a span, one in its place and one after it, as the texts stand
around it. -/
def wrapping (s : Span) (opening text closing : String) : List Splice :=
  [⟨.point s.start, 1, opening, s⟩, ⟨s, 2, text, s⟩, ⟨.point s.stop, 0, closing, s⟩]

/-- Around a span with bytes these are in strict order. -/
theorem pairwise_wrapping {s : Span} (h : s.isEmpty = false) (opening text closing : String) :
    (wrapping s opening text closing).Pairwise Splice.Precedes := by
  rw [Span.isEmpty_eq_false_iff] at h
  simp [wrapping, Splice.precedes_iff, Span.point, h, Nat.le_of_lt h]

/-- A change whose target starts at the cursor writes its text. -/
theorem weave_cons_of_start (target rest : List Char) {s : Splice} (more : List Splice)
    (hstop : s.target.start + Text.byteSize target = s.target.stop) :
    weave s.target.start (target ++ rest) (s :: more) =
      s.text.toList ++ weave s.target.stop rest more := by
  have hsize : s.target.stop - s.target.start = Text.byteSize target := by omega
  rw [weave, Nat.sub_self, Text.takeBytes_zero, hsize, Text.dropBytes_append, List.nil_append]

/-- The three texts are written one after the other in place of the span. -/
theorem weave_wrapping {done kept inside : List Char} {s : Span} (rest : List Char)
    (more : List Splice) (opening text closing : String)
    (hstart : Text.byteSize done + Text.byteSize kept = s.start)
    (hstop : s.start + Text.byteSize inside = s.stop) :
    weave (Text.byteSize done) (kept ++ (inside ++ rest))
        (wrapping s opening text closing ++ more) =
      kept ++ (opening ++ text ++ closing).toList ++ weave s.stop rest more := by
  let first : Splice := ⟨.point s.start, 1, opening, s⟩
  let second : Splice := ⟨s, 2, text, s⟩
  let third : Splice := ⟨.point s.stop, 0, closing, s⟩
  -- the cursor moves to the start of the span, then over the span, and then stays at its end
  have hfirst :
      weave (Text.byteSize done) (kept ++ (inside ++ rest)) (first :: second :: third :: more) =
        kept ++ opening.toList ++ weave s.start (inside ++ rest) (second :: third :: more) :=
    @weave_cons_of_parts done kept [] (inside ++ rest) first _ hstart rfl
  have hsecond : weave s.start (inside ++ rest) (second :: third :: more) =
      text.toList ++ weave s.stop rest (third :: more) := weave_cons_of_start inside rest _ hstop
  have hthird : weave s.stop rest (third :: more) = closing.toList ++ weave s.stop rest more :=
    weave_cons_of_start [] rest more rfl
  calc weave (Text.byteSize done) (kept ++ (inside ++ rest))
        (wrapping s opening text closing ++ more)
    _ = kept ++ opening.toList ++ (text.toList ++ (closing.toList ++ weave s.stop rest more)) := by
        rw [← hthird, ← hsecond, ← hfirst]
        rfl
    _ = kept ++ (opening ++ text ++ closing).toList ++ weave s.stop rest more := by
        simp only [String.toList_append, List.append_assoc]

/-- A plan with these changes puts the three texts in place of a span with bytes. -/
theorem apply_of_wrapping {p : FixPlan} {source before inside after : String} {s : Span}
    (hparts : s.Divides source before inside after) (hbytes : s.isEmpty = false)
    {opening text closing : String} (hcut : ∀ e ∈ p.edits, e.span.CutsOut source.toList)
    (hperm : (p.changes source.toList).Perm (wrapping s opening text closing)) :
    p.apply source = .ok (before ++ (opening ++ text ++ closing) ++ after) := by
  refine apply_of_weave hcut hperm (pairwise_wrapping hbytes opening text closing) ?_
  have hwritten :=
    weave_wrapping after.toList [] opening text closing hparts.start_of_nil hparts.stop_of_start
  rw [List.append_nil, ← hparts.toList, weave] at hwritten
  rw [String.toList_append, String.toList_append]
  exact hwritten

/-- A plan with one change puts one text in place of a span. -/
theorem apply_of_inPlace {p : FixPlan} {source before inside after : String} {s : Span}
    (hparts : s.Divides source before inside after) {text : String}
    (hcut : ∀ e ∈ p.edits, e.span.CutsOut source.toList)
    (hchanges : p.changes source.toList = [⟨s, 2, text, s⟩]) :
    p.apply source = .ok (before ++ text ++ after) := by
  let change : Splice := ⟨s, 2, text, s⟩
  have hwritten : weave 0 (before.toList ++ (inside.toList ++ after.toList)) [change] =
      before.toList ++ text.toList ++ weave s.stop after.toList [] :=
    @weave_cons_of_parts [] _ _ _ change _ hparts.start_of_nil hparts.stop_of_start
  refine apply_of_weave hcut (List.Perm.of_eq hchanges) (List.pairwise_singleton _ _) ?_
  rw [hparts.toList, hwritten, weave, String.toList_append, String.toList_append]

/-! ## An empty span -/

/-- The same changes at an empty span, in the order of writing: at one offset a text after a span
comes first. -/
def wrappingPoint (s : Span) (opening text closing : String) : List Splice :=
  [⟨.point s.stop, 0, closing, s⟩, ⟨.point s.start, 1, opening, s⟩, ⟨s, 2, text, s⟩]

/-- These are in strict order: all are at one offset, with one rank after the other. -/
theorem pairwise_wrappingPoint {s : Span} (h : s.start = s.stop) (opening text closing : String) :
    (wrappingPoint s opening text closing).Pairwise Splice.Precedes := by
  simp [wrappingPoint, Splice.precedes_iff, Span.point, h]

/-- They are the changes that go around a span with bytes. -/
theorem wrapping_perm_wrappingPoint (s : Span) (opening text closing : String) :
    (wrapping s opening text closing).Perm (wrappingPoint s opening text closing) :=
  @List.perm_append_comm _ [_, _] [_]

/-- The three texts are written at the offset of an empty span, the one after the span first. -/
theorem weave_wrappingPoint {before : List Char} {s : Span} (rest : List Char)
    (opening text closing : String) (hstart : Text.byteSize before = s.start)
    (hempty : s.start = s.stop) :
    weave 0 (before ++ rest) (wrappingPoint s opening text closing) =
      before ++ (closing ++ opening ++ text).toList ++ rest := by
  let first : Splice := ⟨.point s.stop, 0, closing, s⟩
  let second : Splice := ⟨.point s.start, 1, opening, s⟩
  let third : Splice := ⟨s, 2, text, s⟩
  -- the cursor moves to the offset and stays there
  have hkept : Text.byteSize [] + Text.byteSize before = s.stop := by
    rw [hstart, hempty]
    exact Nat.zero_add _
  have hfirst : weave 0 (before ++ rest) (first :: second :: third :: []) =
      before ++ closing.toList ++ weave s.stop rest (second :: third :: []) :=
    @weave_cons_of_parts [] before [] rest first _ hkept rfl
  have hsecond : weave s.start rest (second :: third :: []) =
      opening.toList ++ weave s.start rest (third :: []) := weave_cons_of_start [] rest _ rfl
  have hthird : weave s.start rest (third :: []) = text.toList ++ weave s.stop rest [] :=
    weave_cons_of_start [] rest [] hempty
  calc weave 0 (before ++ rest) (wrappingPoint s opening text closing)
    _ = before ++ closing.toList ++ (opening.toList ++ (text.toList ++ rest)) := by
        rw [wrappingPoint, hfirst, ← hempty, hsecond, hthird, weave]
    _ = before ++ (closing ++ opening ++ text).toList ++ rest := by
        simp only [String.toList_append, List.append_assoc]

/-- A plan with these changes puts the three texts, the one after the span first, in place of an
empty span. -/
theorem apply_of_wrapping_of_isEmpty {p : FixPlan} {source before inside after : String} {s : Span}
    (hparts : s.Divides source before inside after) (hempty : s.isEmpty = true)
    {opening text closing : String} (hcut : ∀ e ∈ p.edits, e.span.CutsOut source.toList)
    (hperm : (p.changes source.toList).Perm (wrapping s opening text closing)) :
    p.apply source = .ok (before ++ (closing ++ opening ++ text) ++ after) := by
  have hends : s.start = s.stop := hparts.start_eq_stop hempty
  have hsource : source.toList = before.toList ++ after.toList := by
    rw [hparts.toList, hparts.inside_eq_empty hempty, String.toList_empty, List.nil_append]
  refine apply_of_weave hcut (hperm.trans (wrapping_perm_wrappingPoint s opening text closing))
    (pairwise_wrappingPoint hends opening text closing) ?_
  rw [hsource, String.toList_append, String.toList_append]
  exact weave_wrappingPoint after.toList opening text closing hparts.start hends

/-! ## Three edits of a span -/

/-- Edits are listed in the order in which they are added. -/
theorem foldl_addEdit (edits : List Edit) (p : FixPlan) :
    edits.foldl addEdit p = { p with edits := p.edits ++ edits } := by
  induction edits generalizing p with
  | nil => simp
  | cons e edits ih => rw [List.foldl_cons, ih, addEdit, List.append_assoc, List.singleton_append]

/-- The edits of a text before a span, one in its place and one after it. -/
def around (s : Span) (opening text closing : String) : List Edit :=
  [⟨.before, s, opening⟩, ⟨.instead, s, text⟩, ⟨.after, s, closing⟩]

/-- All three are anchored to the span. -/
theorem span_of_mem_around {s : Span} {opening text closing : String} {e : Edit}
    (he : e ∈ around s opening text closing) : e.span = s := by
  simp only [around, List.mem_cons, List.not_mem_nil, or_false] at he
  rcases he with rfl | rfl | rfl <;> rfl

/-- Whether some text comes to stand in place of a span of a source, when a text before the span,
one in its place and one after it are added to a plan in any order. -/
def PutsInPlace (source : String) (s : Span) (opening text closing written : String) : Prop :=
  ∀ calls : List (FixPlan → FixPlan),
    calls.Perm [(·.insertBefore s opening), (·.replaceSpan s text), (·.insertAfter s closing)] →
    ∃ before inside after, s.Divides source before inside after ∧
      (calls.foldl (fun plan call => call plan) empty).apply source =
        .ok (before ++ written ++ after)

/-- The plan that is built lists the edits in the order of the calls. -/
theorem exists_edits_of_calls {s : Span} {opening text closing : String}
    {calls : List (FixPlan → FixPlan)}
    (hcalls : calls.Perm [(·.insertBefore s opening), (·.replaceSpan s text),
      (·.insertAfter s closing)]) :
    ∃ edits, edits.Perm (around s opening text closing) ∧
      calls.foldl (fun plan call => call plan) empty = { empty with edits } := by
  -- the calls are those that add the three edits, so a reordering of them is one of the edits
  have hadd := congrFun (congrFun (List.eq_map_comp_perm fun e plan => addEdit plan e) calls)
    (around s opening text closing)
  rcases hadd.mpr hcalls with ⟨edits, rfl, hedits⟩
  refine ⟨edits, hedits, ?_⟩
  rw [List.foldl_map]
  exact foldl_addEdit edits empty

/-- A text before a span, one in its place and one after it may be added to a plan in any order.
Where the span has bytes, they are written in place of it as they stand around it. Where it is
empty, all three are written at its offset, and there the text after the span comes first. -/
theorem wraps_in_any_order {source : String} {s : Span} (h : s.CutsOut source.toList)
    (opening text closing : String) :
    PutsInPlace source s opening text closing
      (if s.isEmpty then closing ++ opening ++ text else opening ++ text ++ closing) := by
  intro calls hcalls
  rcases h.exists_divides with ⟨before, inside, after, hparts⟩
  rcases exists_edits_of_calls hcalls with ⟨edits, hedits, hplan⟩
  refine ⟨before, inside, after, hparts, ?_⟩
  have hcut : ∀ e ∈ edits, e.span.CutsOut source.toList := by
    intro e he
    rw [span_of_mem_around (hedits.mem_iff.1 he)]
    exact h
  have hchanges : (FixPlan.changes { empty with edits } source.toList).Perm
      (wrapping s opening text closing) := by
    rw [changes_of_imports_eq_empty rfl]
    exact hedits.map Splice.ofEdit
  rw [hplan]
  cases hbytes : s.isEmpty with
  | true => exact apply_of_wrapping_of_isEmpty hparts hbytes hcut hchanges
  | false => exact apply_of_wrapping hparts hbytes hcut hchanges

/-- A call is put in brackets, though the bracket after it is added first. -/
theorem wraps_in_any_order_call :
    (Span.mk 0 5).CutsOut "f(é);".toList ∧
      (((empty.insertAfter ⟨0, 5⟩ "]").replaceSpan ⟨0, 5⟩ "x").insertBefore ⟨0, 5⟩ "[").apply
        "f(é);" = .ok "[x];" := by
  have hcut : (Span.mk 0 5).CutsOut "f(é);".toList := ⟨by decide, by decide, by decide, by decide⟩
  have hdivides : (Span.mk 0 5).Divides "f(é);" "" "f(é)" ";" := ⟨by decide, by decide, by decide⟩
  obtain ⟨before, inside, after, hparts, happly⟩ :=
    wraps_in_any_order hcut "[" "x" "]" _ (List.reverse_perm _)
  rcases hparts.unique hdivides with ⟨rfl, rfl, rfl⟩
  exact ⟨hcut, happly⟩

/-- At an empty span the three texts are not written as they stand around it, even when they are
added in this order. -/
theorem not_putsInPlace_point :
    (Span.mk 1 1).CutsOut "ab".toList ∧
      ¬ PutsInPlace "ab" ⟨1, 1⟩ "(" "x" ")" ("(" ++ "x" ++ ")") := by
  have hpoint : (Span.mk 1 1).CutsOut "ab".toList := ⟨by decide, by decide, by decide, by decide⟩
  refine ⟨hpoint, fun h => ?_⟩
  have hdivides : (Span.mk 1 1).Divides "ab" "a" "" "b" := ⟨by decide, by decide, by decide⟩
  rcases h _ (List.Perm.refl _) with ⟨before, inside, after, hparts, happly⟩
  rcases hparts.unique hdivides with ⟨rfl, rfl, rfl⟩
  have hcut : ∀ e ∈ around ⟨1, 1⟩ "(" "x" ")", e.span.CutsOut "ab".toList := by
    intro e he
    rw [span_of_mem_around he]
    exact hpoint
  have hperm : (FixPlan.changes { empty with edits := around ⟨1, 1⟩ "(" "x" ")" } "ab".toList).Perm
      (wrapping ⟨1, 1⟩ "(" "x" ")") := by
    rw [changes_of_imports_eq_empty rfl]
    rfl
  have hwritten := apply_of_wrapping_of_isEmpty hdivides rfl hcut hperm
  have hsame := happly.symm.trans hwritten
  exact absurd (Except.ok.inj hsame) (by decide)

end FixPlan

end CallLint
