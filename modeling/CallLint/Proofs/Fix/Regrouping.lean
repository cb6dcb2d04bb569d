import CallLint.Proofs.Fix.Merging
import CallLint.Proofs.Sorted.Set

/-!
# Merging in groups

Plans can be merged group by group: the merged plans of two groups, merged, are the plan of all of
them. A group may be empty or have one member, so the empty plan is neutral, and a plan alone stays
as it is. All else follows from that.

* `FixPlan.merge_append`, `FixPlan.merge_singleton`: the laws.
* `FixPlan.merge_flatten`: merging in any groups. `FixPlan.merge_insert_empty`: the empty plan among
  others.
-/

namespace CallLint.FixPlan

/-! ## Descriptions -/

/-- Texts as one, with separators between them; the empty ones are left out. -/
def listing (texts : List String) : String := "; ".intercalate (texts.filter (!·.isEmpty))

@[simp] theorem description_merge (plans : List FixPlan) :
    (merge plans).description = listing (plans.map (·.description)) :=
  rfl

/-- A listing is empty only if all of its texts are: the first one that is not stays at its
start. -/
theorem listing_eq_empty_iff {texts : List String} :
    listing texts = "" ↔ texts.filter (!·.isEmpty) = [] := by
  rw [listing]
  constructor
  · intro h
    cases hparts : texts.filter (!·.isEmpty) with
    | nil => rfl
    | cons first rest =>
      have hfirst : first ∈ texts.filter (!·.isEmpty) := by
        rw [hparts]
        exact List.mem_cons_self
      have hsome : (!first.isEmpty) = true := (List.mem_filter.1 hfirst).2
      rw [hparts] at h
      -- the first text stands alone, or in front of a separator
      cases rest with
      | nil =>
        rw [String.intercalate_singleton] at h
        simp [h] at hsome
      | cons second rest =>
        rw [String.intercalate_cons_cons] at h
        simp at h
  · intro h
    rw [h, String.intercalate_nil]

@[simp] theorem listing_singleton (text : String) : listing [text] = text := by
  by_cases h : text = ""
  · simp [listing, h]
  · simp [listing, h]

/-- An empty text takes no separator. -/
@[simp] theorem listing_skip (text : String) : listing [text, ""] = text := by
  by_cases h : text = ""
  · simp [listing, h]
  · simp [listing, h]

/-- Texts may be listed part by part. A part that comes out empty takes no separator. -/
theorem listing_append (a b : List String) : listing (a ++ b) = listing [listing a, listing b] := by
  by_cases ha : a.filter (!·.isEmpty) = []
  · -- nothing is listed of the first part
    have hskip : listing ["", listing b] = listing b := listing_singleton (listing b)
    rw [listing_eq_empty_iff.2 ha, hskip, listing, List.filter_append, ha]
    rfl
  · have hfirst : listing a ≠ "" := mt listing_eq_empty_iff.1 ha
    by_cases hb : b.filter (!·.isEmpty) = []
    · -- nothing is listed of the second part
      rw [listing_eq_empty_iff.2 hb, listing_skip, listing, List.filter_append, hb, List.append_nil]
      rfl
    · -- the two parts are separated like two texts
      have hsecond : listing b ≠ "" := mt listing_eq_empty_iff.1 hb
      have hboth : listing [listing a, listing b] = listing a ++ "; " ++ listing b := by
        rw [listing, List.filter_cons_of_pos (by simpa using hfirst),
          List.filter_cons_of_pos (by simpa using hsecond), List.filter_nil,
          String.intercalate_cons_cons, String.intercalate_singleton]
      rw [hboth, listing, List.filter_append, String.intercalate_append_of_ne_nil ha hb]
      rfl

/-! ## Safety -/

/-- The plans of the second part decide, unless they are all safe. -/
theorem safety_merge_append (l m : List FixPlan) :
    (merge (l ++ m)).safety =
      if (merge m).safety = .safe then (merge l).safety else (merge m).safety := by
  have hmerge : ∀ plans : List FixPlan,
      (merge plans).safety = (((plans.filter (!·.isSafe)).getLast?).map (·.safety)).getD .safe :=
    fun _ => rfl
  -- the last plan that is not safe is in the second part, unless that has none
  rw [hmerge, hmerge, hmerge, List.filter_append, List.getLast?_append]
  cases hlast : (m.filter (!·.isSafe)).getLast? with
  | none => simp
  | some p =>
    have hp : p ∈ m.filter (!·.isSafe) := List.mem_of_getLast? hlast
    have hnotSafe : p.safety ≠ .safe := by simpa [isSafe] using (List.mem_filter.1 hp).2
    simp [hnotSafe]

/-! ## Plans -/

/-- Plans are equal field by field. -/
theorem ext_fields {p q : FixPlan} (hdescription : p.description = q.description)
    (hedits : p.edits = q.edits) (himports : p.imports = q.imports)
    (hsafety : p.safety = q.safety) : p = q := by
  cases p
  cases q
  congr

@[simp] theorem merge_nil : merge [] = empty := rfl

/-- A plan that is merged alone stays as it is. -/
theorem merge_singleton (p : FixPlan) : merge [p] = p := by
  apply ext_fields
  · simp
  · simp [merge]
  · exact SortedSet.empty_union p.imports
  · by_cases h : p.safety = .safe
    · simp [merge, isSafe, h]
    · simp [merge, isSafe, h]

/-- The plans of two groups, merged, are the plan of both. -/
theorem merge_append (l m : List FixPlan) : merge (l ++ m) = merge [merge l, merge m] := by
  apply ext_fields
  · rw [description_merge, List.map_append, listing_append]
    rfl
  · simp [merge]
  · apply SortedSet.ext_mem
    intro name
    simp only [mem_imports_merge, List.mem_append, List.mem_cons, List.not_mem_nil, or_false,
      exists_eq_left, or_and_right, exists_or]
  · -- the safety of two merged plans is a case of that of two groups
    have hpair := safety_merge_append [merge l] [merge m]
    rw [merge_singleton, merge_singleton, List.singleton_append] at hpair
    rw [safety_merge_append, hpair]

/-- Merging goes on with one more plan. -/
theorem merge_concat (plans : List FixPlan) (p : FixPlan) :
    merge (plans ++ [p]) = merge [merge plans, p] := by
  rw [merge_append, merge_singleton]

/-- However plans are put into groups, merging the merged groups is merging all plans in their
order. -/
theorem merge_flatten (groups : List (List FixPlan)) :
    merge (groups.map merge) = merge groups.flatten := by
  induction groups with
  | nil => rfl
  | cons group groups ih =>
    calc merge (merge group :: groups.map merge)
        = merge [merge [merge group], merge (groups.map merge)] :=
          merge_append [merge group] (groups.map merge)
      _ = merge [merge group, merge groups.flatten] := by rw [merge_singleton, ih]
      _ = merge (group ++ groups.flatten) := (merge_append group groups.flatten).symm

/-- The empty plan changes nothing, wherever it stands: it is what a group without members comes
to. -/
theorem merge_insert_empty (before after : List FixPlan) :
    merge (before ++ empty :: after) = merge (before ++ after) := by
  have hempty : merge (empty :: after) = merge after := by
    calc merge (empty :: after)
        = merge [merge [empty], merge after] := merge_append [empty] after
      _ = merge [merge [], merge after] := by rw [merge_singleton, merge_nil]
      _ = merge after := (merge_append [] after).symm
  rw [merge_append, hempty, ← merge_append]

end CallLint.FixPlan
