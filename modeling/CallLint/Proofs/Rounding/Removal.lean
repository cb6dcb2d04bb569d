import CallLint.Proofs.Fix.Wrapping
import CallLint.Proofs.Rounding.Selection

/-!
# What removing calls writes

The plan of a removal has up to three edits, an opening and a closing parenthesis and the argument
in between. Written together they are one text in place of the call, so a source with some calls
removed is the source with these texts in place of their spans.

* `RoundRule.weave_parts`: the three edits and the one text are written alike.
* `RoundRule.bytes_of_removals`: the text after some removals.
-/

namespace CallLint.RoundRule

open FixPlan (Splice weave)

variable {s : FixSettings}

namespace Rounding

/-- The changes of a removal. -/
def parts (s : FixSettings) (r : Rounding) : List Splice := (r.plan s).edits.map .ofEdit

/-- A removal as one change. -/
def whole (s : FixSettings) (r : Rounding) : Splice := ⟨r.span, 2, r.replacement s, r.span⟩

theorem parts_eq (s : FixSettings) (r : Rounding) :
    r.parts s =
      if s.parens.requires r.kind then FixPlan.wrapping r.span "(" r.text ")"
      else [⟨r.span, 2, r.text, r.span⟩] := by
  rw [parts, plan, removal, Expr.leaf, Expr.leaf]
  split <;> rfl

end Rounding

/-! ## One removal -/

/-- The texts of the parts of a removal, written one after the other, are the one text in its
place. -/
theorem weave_parts {done : List Char} {r : Rounding} (rest : List Char) (more : List Splice)
    (hle : Text.byteSize done ≤ r.span.start) (hr : (r.whole s).isWithin (done ++ rest)) :
    weave (Text.byteSize done) rest (r.parts s ++ more) =
      weave (Text.byteSize done) rest (r.whole s :: more) := by
  obtain ⟨kept, target, left, hrest, hkept, htarget, hstep⟩ :=
    FixPlan.exists_weave_step rest more hle hr
  rw [Rounding.parts_eq]
  split
  · next hparens =>
    -- the parentheses are written at the two ends of the call
    have hwhole : (r.whole s).text = "(" ++ r.text ++ ")" := by
      rw [Rounding.whole, Rounding.replacement, ParenPolicy.wrap, if_pos hparens]
    rw [hstep, hrest, hwhole]
    exact FixPlan.weave_wrapping left more "(" r.text ")" hkept htarget
  · next hplain =>
    have hwhole : r.whole s = ⟨r.span, 2, r.text, r.span⟩ := by
      rw [Rounding.whole, Rounding.replacement, ParenPolicy.wrap, if_neg hplain]
    rw [hwhole, List.singleton_append]

/-- Several removals, each with its parts, are written as each with its one text. -/
theorem weave_flatMap_parts {source : List Char} {kept : List Rounding} (done rest : List Char)
    (hsource : source = done ++ rest)
    (h : FixPlan.runsForward source (Text.byteSize done) (kept.map (Rounding.whole s))) :
    weave (Text.byteSize done) rest (kept.flatMap (Rounding.parts s)) =
      weave (Text.byteSize done) rest (kept.map (Rounding.whole s)) := by
  -- `done` is what has been passed, so the later spans keep their offsets in the whole source
  induction kept generalizing done rest with
  | nil => rfl
  | cons r kept ih =>
    rcases h with ⟨hle, hwithin, hmore⟩
    rw [hsource] at hwithin
    rw [List.flatMap_cons, List.map_cons, weave_parts rest _ hle hwithin]
    obtain ⟨first, target, left, hrest, hfirst, htarget, -⟩ :=
      FixPlan.exists_weave_step rest (kept.flatMap (Rounding.parts s)) hle hwithin
    -- both go on from the end of the call, with what is left of the source there
    have hdone : Text.byteSize (done ++ (first ++ target)) = (r.whole s).target.stop := by
      rw [Text.byteSize_append, Text.byteSize_append]
      omega
    have hleft : Text.dropBytes ((r.whole s).target.stop - Text.byteSize done) rest = left := by
      have hsize :
          (r.whole s).target.stop - Text.byteSize done = Text.byteSize (first ++ target) := by
        rw [Text.byteSize_append]
        omega
      rw [hsize, hrest, ← List.append_assoc, Text.dropBytes_append]
    have hparts : source = done ++ (first ++ target) ++ left := by
      rw [hsource, hrest]
      simp
    rw [weave, weave, hleft, ← hdone, ih _ left hparts (by rw [hdone]; exact hmore)]

/-! ## The plan of several removals -/

variable {source : String} {kept : List Rounding}

theorem start_lt_stop {r : Rounding} (hr : r.Removable s source) : r.span.start < r.span.stop :=
  Span.isEmpty_eq_false_iff.1 hr.nonempty

/-- Roundings in the order of their spans that do not overlap lie one behind the other. -/
theorem pairwise_behind (hkept : ∀ r ∈ kept, r.Removable s source)
    (hsorted : kept.Pairwise fun a b => Rounding.listedBefore a b = true)
    (hfree : kept.Pairwise fun a b => a.span.overlaps b.span = false) :
    kept.Pairwise fun a b => a.span.stop ≤ b.span.start := by
  -- of two calls that do not overlap, the one that starts first ends first
  have hboth := List.pairwise_and_iff.2 ⟨hsorted, hfree⟩
  refine hboth.imp_of_mem fun {a b} ha hb ⟨hle, hab⟩ => ?_
  have hspan := Span.isLE_compare_iff.1 hle
  have hlt := start_lt_stop (hkept b hb)
  rw [Span.overlaps_eq_false_iff] at hab
  omega

/-- What can be removed lies in the source. -/
theorem isWithin_of_removable {r : Rounding} (hr : r.Removable s source) :
    (r.whole s).isWithin source.toList :=
  FixPlan.Splice.isWithin_ofEdit (e := ⟨.instead, r.span, r.text⟩)
    ((FixPlan.validate_eq_ok_iff_fits.1 hr.valid).1 _ (r.instead_mem_plan s))

/-- Removals need no imports, so merging them puts their parts one after the other. -/
theorem changes_merge_plan (source : List Char) (s : FixSettings) (kept : List Rounding) :
    (FixPlan.merge (kept.map (Rounding.plan s))).changes source =
      kept.flatMap (Rounding.parts s) := by
  have himports : (FixPlan.merge (kept.map (Rounding.plan s))).importSplice? source = none := by
    rw [FixPlan.importSplice?_eq_none_iff, FixPlan.needsImports_merge]
    rintro ⟨p, hp, hneeds⟩
    rcases List.mem_map.1 hp with ⟨r, -, rfl⟩
    exact not_needsImports_plan source s r hneeds
  rw [FixPlan.changes, himports, FixPlan.merge, List.flatMap_map, List.map_flatMap]
  exact List.append_nil _

/-- The parts of a removal are listed in the order in which they are written. -/
theorem pairwise_parts (r : Rounding) (h : r.span.start < r.span.stop) :
    (r.parts s).Pairwise fun a b => a.le b = true := by
  rw [Rounding.parts_eq]
  split
  · exact (FixPlan.pairwise_wrapping (Span.isEmpty_eq_false_iff.2 h) "(" r.text ")").imp And.left
  · exact List.pairwise_singleton _ _

/-- A part of a removal lies in the call. Only the closing parenthesis is at its end, and that comes
before whatever else is there. -/
theorem target_of_mem_parts {r : Rounding} {x : Splice} (hx : x ∈ r.parts s)
    (h : r.span.start < r.span.stop) :
    r.span.start ≤ x.target.start ∧ x.target.start ≤ r.span.stop ∧
      (x.target.start = r.span.stop → x.rank = 0) := by
  rw [Rounding.parts_eq] at hx
  split at hx
  · simp only [FixPlan.wrapping, List.mem_cons, List.not_mem_nil, or_false] at hx
    rcases hx with rfl | rfl | rfl <;> simp [Span.point] <;> omega
  · rw [List.mem_singleton] at hx
    rw [hx]
    simp
    omega

/-- The parts of the removals are in order as they are listed. -/
theorem splices_merge_plan (hkept : ∀ r ∈ kept, r.Removable s source)
    (hbehind : kept.Pairwise fun a b => a.span.stop ≤ b.span.start) {l : List Splice}
    (hl : (FixPlan.merge (kept.map (Rounding.plan s))).splices source.toList = .ok l) :
    l = kept.flatMap (Rounding.parts s) := by
  rcases FixPlan.splices_eq_ok_iff.1 hl with ⟨-, -, rfl⟩
  -- parts of one call are in order, and all parts of a call come before those of a later one
  rw [changes_merge_plan]
  apply List.mergeSort_of_pairwise
  rw [List.pairwise_flatMap]
  refine ⟨fun r hr => pairwise_parts r (start_lt_stop (hkept r hr)), ?_⟩
  refine hbehind.imp_of_mem fun {a b} ha hb hab x hx y hy => ?_
  rcases target_of_mem_parts hx (start_lt_stop (hkept a ha)) with ⟨-, hx, hlast⟩
  rcases target_of_mem_parts hy (start_lt_stop (hkept b hb)) with ⟨hy, -, -⟩
  rw [Splice.le_iff]
  omega

/-- The bytes of a source in which calls give way to their replacements. -/
def rewriting (s : FixSettings) (source : String) (kept : List Rounding) : List UInt8 :=
  Text.rewritten source.toList
    (fun i => (kept.filter (·.span.start = i)).flatMap fun r => Text.bytes (r.replacement s).toList)
    (fun i => kept.any (·.span.covers i))

/-- What applying the merged removals writes. -/
theorem bytes_of_removals (hkept : ∀ r ∈ kept, r.Removable s source)
    (hbehind : kept.Pairwise fun a b => a.span.stop ≤ b.span.start) {out : String}
    (hout : (FixPlan.merge (kept.map (Rounding.plan s))).apply source = .ok out) :
    Text.bytes out.toList = rewriting s source kept := by
  have hforward : FixPlan.runsForward source.toList 0 (kept.map (Rounding.whole s)) := by
    apply FixPlan.runsForward_of_pairwise
    · intro x hx
      rcases List.mem_map.1 hx with ⟨r, hr, rfl⟩
      exact isWithin_of_removable (hkept r hr)
    · exact fun x _ => Nat.zero_le _
    · rw [List.pairwise_map]
      exact hbehind
  rcases FixPlan.apply_eq_ok_iff.1 hout with ⟨l, hl, rfl⟩
  -- the parts are written as one text each, and these byte by byte
  have hweave := weave_flatMap_parts [] source.toList rfl hforward
  rw [String.toList_ofList, splices_merge_plan hkept hbehind hl]
  show Text.bytes (weave (Text.byteSize []) _ _) = _
  rw [hweave]
  refine (FixPlan.bytes_weave hforward).trans ?_
  have hput : FixPlan.putBy (kept.map (Rounding.whole s)) = fun i =>
      (kept.filter (·.span.start = i)).flatMap fun r => Text.bytes (r.replacement s).toList := by
    funext i
    rw [FixPlan.putBy, List.filter_map, List.flatMap_map]
    rfl
  have hgone : FixPlan.goneBy (kept.map (Rounding.whole s)) =
      fun i => kept.any (·.span.covers i) := by
    funext i
    rw [FixPlan.goneBy, List.any_map]
    rfl
  rw [rewriting, hput, hgone]

end CallLint.RoundRule
