import CallLint.Proofs.Fix.Weaving

/-!
# What applying a plan writes

The text of a plan that has been applied can be read off its list of edits, without sorting: at
every offset of the source there come the texts after spans that end there, the imports, the texts
before spans that start there, the texts in place of spans that start there, and then the byte of
the source, unless it is inside a span that is replaced.

* `FixPlan.putAt`, `FixPlan.replaces`: what goes to an offset, and which bytes go away.
* `FixPlan.bytes_of_apply`: the bytes of the applied text.
* `FixPlan.apply_rewrites`: that, and that no slice on the way is refused.
-/

namespace CallLint

/-- The offset that an edit is anchored to: where its span ends for a text after it, else where it
starts. -/
def Edit.anchor (e : Edit) : Nat :=
  match e.place with
  | .after => e.span.stop
  | _ => e.span.start

namespace FixPlan

/-- The texts of the edits of one kind that are anchored to an offset, as they are listed. -/
def textsAt (p : FixPlan) (place : EditPlace) (i : Nat) : List Char :=
  (p.edits.filter fun e => e.place = place ∧ e.anchor = i).flatMap (·.text.toList)

/-- The import lines, if they go to an offset. -/
def importTextAt (p : FixPlan) (source : List Char) (i : Nat) : List Char :=
  match importBlock? source p.imports with
  | some (offset, text) => if offset = i then text.toList else []
  | none => []

/-- The bytes that a plan puts in front of the byte at an offset. -/
def putAt (p : FixPlan) (source : List Char) (i : Nat) : List UInt8 :=
  Text.bytes (p.textsAt .after i ++ p.importTextAt source i ++ p.textsAt .before i
    ++ p.textsAt .instead i)

/-- Whether the byte at an offset is inside a span that is replaced. -/
def replaces (p : FixPlan) (i : Nat) : Bool :=
  p.edits.any fun e => e.place = .instead && e.span.covers i

/-! ## Changes at one offset -/

/-- A list in the order of a number falls into the members up to a bound and those above it. -/
theorem eq_filter_append_filter {α : Type} {f : α → Nat} {l : List α}
    (h : l.Pairwise fun a b => f a ≤ f b) (bound : Nat) :
    l = l.filter (f · ≤ bound) ++ l.filter (bound < f ·) := by
  induction l with
  | nil => rfl
  | cons a l ih =>
    rcases List.pairwise_cons.1 h with ⟨ha, hl⟩
    by_cases hbound : f a ≤ bound
    · rw [List.filter_cons_of_pos (by simpa using hbound),
        List.filter_cons_of_neg (by simpa using hbound), List.cons_append, ← ih hl]
    · -- all that follows is above the bound as well
      have hnone : l.filter (f · ≤ bound) = [] := by
        rw [List.filter_eq_nil_iff]
        intro b hb
        have hab := ha b hb
        rw [decide_eq_true_eq]
        omega
      have hall : l.filter (bound < f ·) = l := by
        rw [List.filter_eq_self]
        intro b hb
        have hab := ha b hb
        rw [decide_eq_true_eq]
        omega
      rw [List.filter_cons_of_neg (by simpa using hbound), hnone,
        List.filter_cons_of_pos (by simpa using hbound), hall, List.nil_append]

/-- A list in the order of a number that is at most two. -/
theorem eq_filters_of_le_two {α : Type} {f : α → Nat} {l : List α}
    (h : l.Pairwise fun a b => f a ≤ f b) (hl : ∀ a ∈ l, f a ≤ 2) :
    l = l.filter (f · = 0) ++ l.filter (f · = 1) ++ l.filter (f · = 2) := by
  -- cut at zero, then cut what is above zero at one
  have hzero : l.filter (f · ≤ 0) = l.filter (f · = 0) := by
    simp only [Nat.le_zero]
  have hone : (l.filter (0 < f ·)).filter (f · ≤ 1) = l.filter (f · = 1) := by
    rw [List.filter_filter]
    apply List.filter_congr
    intro a _
    rw [← Bool.decide_and, decide_eq_decide]
    omega
  have htwo : (l.filter (0 < f ·)).filter (1 < f ·) = l.filter (f · = 2) := by
    rw [List.filter_filter]
    apply List.filter_congr
    intro a ha
    have hle := hl a ha
    rw [← Bool.decide_and, decide_eq_decide]
    omega
  rw [List.append_assoc, ← hzero, ← hone, ← htwo, ← eq_filter_append_filter (h.filter _) 1,
    ← eq_filter_append_filter h 0]

/-- There are three ranks. -/
theorem rank_le_two {p : FixPlan} {source : List Char} {s : Splice} (hs : s ∈ p.changes source) :
    s.rank ≤ 2 := by
  rcases List.mem_append.1 hs with hs | hs
  · rcases List.mem_map.1 hs with ⟨e, -, rfl⟩
    cases hplace : e.place <;> simp [Splice.ofEdit, Edit.rank, hplace]
  · rw [Option.mem_toList] at hs
    rcases importSplice?_eq_some_iff.1 hs with ⟨text, -, rfl⟩
    exact Nat.zero_le 2

/-- The changes of one rank that start at an offset, as they are listed. -/
def changesAt (p : FixPlan) (source : List Char) (i rank : Nat) : List Splice :=
  (p.changes source).filter fun s => s.target.start = i ∧ s.rank = rank

/-- Sorting puts the changes at one offset in the order of their ranks, and keeps those of one rank
as they are listed. -/
theorem filter_mergeSort_changes (p : FixPlan) (source : List Char) (i : Nat) :
    ((p.changes source).mergeSort Splice.le).filter (·.target.start = i) =
      p.changesAt source i 0 ++ p.changesAt source i 1 ++ p.changesAt source i 2 := by
  let here := ((p.changes source).mergeSort Splice.le).filter (·.target.start = i)
  -- among changes that start at one offset the order is that of the ranks
  have hsorted : here.Pairwise fun a b => a.rank ≤ b.rank := by
    rw [List.pairwise_filter]
    refine (Splice.ranking_le.pairwise_mergeSort (p.changes source)).imp fun {a b} hab ha hb => ?_
    rw [Splice.le_iff] at hab
    rw [decide_eq_true_eq] at ha hb
    omega
  have hranks : ∀ s ∈ here, s.rank ≤ 2 := by
    intro s hs
    exact rank_le_two (List.mem_mergeSort.1 (List.mem_filter.1 hs).1)
  have hrank : ∀ rank, here.filter (·.rank = rank) = p.changesAt source i rank := by
    intro rank
    rw [List.filter_filter, changesAt]
    simp only [Bool.decide_and, Bool.and_comm (decide (_ = rank))]
    apply Splice.ranking_le.filter_tied_mergeSort
    intro a _ b _ ha hb
    simp only [Bool.and_eq_true, decide_eq_true_eq] at ha hb
    rw [Splice.le_iff]
    omega
  have hsplit := eq_filters_of_le_two hsorted hranks
  rwa [hrank, hrank, hrank] at hsplit

/-! ## Changes as edits -/

/-- The rank of the changes of one kind of edits. -/
def rankOf : EditPlace → Nat
  | .after => 0
  | .before => 1
  | .instead => 2

/-- The rank and the place of a change tell the kind of its edit and where that is anchored. -/
theorem ofEdit_at_iff {e : Edit} {place : EditPlace} {i : Nat} :
    ((Splice.ofEdit e).target.start = i ∧ (Splice.ofEdit e).rank = rankOf place) ↔
      (e.place = place ∧ e.anchor = i) := by
  cases hplace : e.place <;> cases place <;>
    simp [Splice.ofEdit, Edit.target, Edit.rank, Edit.anchor, Span.point, rankOf, hplace]

/-- The bytes of the texts of some changes. -/
def textBytes (l : List Splice) : List UInt8 := l.flatMap fun s => Text.bytes s.text.toList

@[simp] theorem textBytes_append (a b : List Splice) :
    textBytes (a ++ b) = textBytes a ++ textBytes b :=
  List.flatMap_append

/-- The texts of edits are written as those of their changes. -/
theorem textBytes_map_ofEdit (es : List Edit) :
    textBytes (es.map Splice.ofEdit) = Text.bytes (es.flatMap (·.text.toList)) := by
  rw [textBytes, List.flatMap_map, Text.bytes, List.flatMap_assoc]
  rfl

/-- The changes of one rank at an offset are edits of one kind, and the import lines if they have
that rank. -/
theorem changesAt_rankOf (p : FixPlan) (source : List Char) (i : Nat) (place : EditPlace) :
    p.changesAt source i (rankOf place) =
      (p.edits.filter fun e => e.place = place ∧ e.anchor = i).map Splice.ofEdit
        ++ (p.importSplice? source).toList.filter
          fun s => s.target.start = i ∧ s.rank = rankOf place := by
  rw [changesAt, changes, List.filter_append, List.filter_map]
  congr 2
  apply List.filter_congr
  intro e _
  exact decide_eq_decide.2 ofEdit_at_iff

/-- What the import lines write at an offset. -/
theorem textBytes_importSplice? (p : FixPlan) (source : List Char) (i : Nat) :
    textBytes ((p.importSplice? source).toList.filter fun s => s.target.start = i ∧ s.rank = 0) =
      Text.bytes (p.importTextAt source i) := by
  rw [importSplice?, importTextAt]
  cases importBlock? source p.imports with
  | none => rfl
  | some block =>
    by_cases hoffset : block.1 = i <;> simp [textBytes, Span.point, hoffset]

/-- The import lines have the first rank and no other. -/
theorem importSplice?_filter_rank {p : FixPlan} {source : List Char} {i rank : Nat} (h : rank ≠ 0) :
    (p.importSplice? source).toList.filter (fun s => s.target.start = i ∧ s.rank = rank) = [] := by
  rw [List.filter_eq_nil_iff]
  intro s hs
  rw [Option.mem_toList] at hs
  rcases importSplice?_eq_some_iff.1 hs with ⟨text, -, rfl⟩
  rw [decide_eq_true_eq]
  exact fun hrank => h hrank.2.symm

/-- What the sorted changes put at an offset can be read off the edits as they are listed. -/
theorem putBy_mergeSort_changes (p : FixPlan) (source : List Char) :
    putBy ((p.changes source).mergeSort Splice.le) = p.putAt source := by
  funext i
  -- import lines have the rank of a text after a span, and are listed after all of those
  have hafter : textBytes (p.changesAt source i 0) =
      Text.bytes (p.textsAt .after i) ++ Text.bytes (p.importTextAt source i) := by
    rw [← textBytes_importSplice?, textsAt, ← textBytes_map_ofEdit, ← textBytes_append]
    exact congrArg textBytes (changesAt_rankOf p source i .after)
  have hbefore : textBytes (p.changesAt source i 1) = Text.bytes (p.textsAt .before i) := by
    have hchanges := changesAt_rankOf p source i .before
    rw [importSplice?_filter_rank (by decide), List.append_nil] at hchanges
    rw [textsAt, ← textBytes_map_ofEdit]
    exact congrArg textBytes hchanges
  have hinstead : textBytes (p.changesAt source i 2) = Text.bytes (p.textsAt .instead i) := by
    have hchanges := changesAt_rankOf p source i .instead
    rw [importSplice?_filter_rank (by decide), List.append_nil] at hchanges
    rw [textsAt, ← textBytes_map_ofEdit]
    exact congrArg textBytes hchanges
  have hput : putBy ((p.changes source).mergeSort Splice.le) i =
      textBytes (((p.changes source).mergeSort Splice.le).filter (·.target.start = i)) := rfl
  rw [hput, filter_mergeSort_changes, textBytes_append, textBytes_append, hafter, hbefore, hinstead,
    putAt, Text.bytes_append, Text.bytes_append, Text.bytes_append]

/-- Only a replacement covers bytes. -/
@[simp] theorem covers_ofEdit (e : Edit) (i : Nat) :
    (Splice.ofEdit e).target.covers i = (e.place = .instead && e.span.covers i) := by
  cases hplace : e.place <;> simp [Splice.ofEdit, Edit.target, hplace]

/-- Which bytes go away does not depend on the order of the changes, and the import lines take none
away. -/
theorem goneBy_mergeSort_changes (p : FixPlan) (source : List Char) :
    goneBy ((p.changes source).mergeSort Splice.le) = p.replaces := by
  funext i
  have hperm := List.mergeSort_perm (p.changes source) Splice.le
  have himport : (p.importSplice? source).toList.any (·.target.covers i) = false := by
    rw [List.any_eq_false]
    intro s hs
    rw [Option.mem_toList] at hs
    rcases importSplice?_eq_some_iff.1 hs with ⟨text, -, rfl⟩
    simp
  rw [goneBy, hperm.any_eq, changes, List.any_append, himport, Bool.or_false, List.any_map,
    replaces]
  congr 1
  funext e
  exact covers_ofEdit e i

/-! ## Whole plans -/

/-- Applying a plan sorts its changes and writes them. -/
theorem apply_eq_ok_iff {p : FixPlan} {source out : String} :
    p.apply source = .ok out ↔
      ∃ l, p.splices source.toList = .ok l ∧ String.ofList (weave 0 source.toList l) = out := by
  unfold apply
  cases p.splices source.toList <;> simp [bind, Except.bind, pure, Except.pure]

/-- The bytes of a plan applied to a source. -/
theorem bytes_of_apply {p : FixPlan} {source out : String} (h : p.apply source = .ok out) :
    Text.bytes out.toList =
      Text.rewritten source.toList (p.putAt source.toList) p.replaces := by
  rcases apply_eq_ok_iff.1 h with ⟨l, hl, rfl⟩
  rw [String.toList_ofList, bytes_weave (runsForward_of_splices hl)]
  rcases splices_eq_ok_iff.1 hl with ⟨-, -, rfl⟩
  rw [putBy_mergeSort_changes, goneBy_mergeSort_changes]

/-- Applying a plan writes, offset by offset, the texts that go there in their order and the bytes
that are not replaced. No slice of the source is refused, neither by the pass over the changes nor
where the imports are placed. -/
theorem apply_rewrites (p : FixPlan) (source : String) :
    (∀ out, p.apply source = .ok out →
      Text.bytes out.toList = Text.rewritten source.toList (p.putAt source.toList) p.replaces) ∧
    (∀ ordered, p.splices source.toList = .ok ordered →
      weave? source.toList 0 ordered = some (weave 0 source.toList ordered)) ∧
    ∃ lead, Text.slice? 0 (importSite source.toList).offset source.toList = some lead := by
  refine ⟨fun out h => bytes_of_apply h, fun ordered h => ?_, ?_⟩
  · exact weave?_eq_some [] source.toList rfl (runsForward_of_splices h)
  · exact Text.exists_slice? (Nat.zero_le _) (Text.isBoundary_zero _) (isBoundary_importSite _)

/-- A plan with edits of all kinds and an import, not listed in the order of their offsets. -/
def mixedPlan : FixPlan where
  description := ""
  edits := [⟨.instead, ⟨14, 16⟩, "y"⟩, ⟨.after, ⟨0, 12⟩, "// x\n"⟩, ⟨.before, ⟨14, 16⟩, "(int) "⟩]
  imports := SortedSet.empty.insert "b.C"
  safety := .safe

/-- What the plan writes. -/
theorem apply_mixedPlan :
    mixedPlan.apply "import a.A;\nf(é)" = .ok "import a.A;\n// x\nimport b.C;\nf((int) y)" := by
  have hchanges : mixedPlan.changes "import a.A;\nf(é)".toList =
      [⟨⟨14, 16⟩, 2, "y", ⟨14, 16⟩⟩, ⟨⟨12, 12⟩, 0, "// x\n", ⟨0, 12⟩⟩,
        ⟨⟨14, 14⟩, 1, "(int) ", ⟨14, 16⟩⟩, ⟨⟨12, 12⟩, 0, "import b.C;\n", ⟨12, 12⟩⟩] := by
    decide +kernel
  have hsorted : (mixedPlan.changes "import a.A;\nf(é)".toList).mergeSort Splice.le =
      [⟨⟨12, 12⟩, 0, "// x\n", ⟨0, 12⟩⟩, ⟨⟨12, 12⟩, 0, "import b.C;\n", ⟨12, 12⟩⟩,
        ⟨⟨14, 14⟩, 1, "(int) ", ⟨14, 16⟩⟩, ⟨⟨14, 16⟩, 2, "y", ⟨14, 16⟩⟩] := by
    -- the kernel does not evaluate a sort
    rw [hchanges]
    simp [List.mergeSort, List.MergeSort.Internal.splitInTwo, Splice.le]
  exact apply_eq_ok_iff.2 ⟨_, splices_eq_ok_iff.2 ⟨by decide, by decide +kernel, hsorted⟩,
    by decide +kernel⟩

/-- A text after the last import line comes before the new import line, and all else stays. -/
theorem apply_rewrites_mixedPlan :
    Text.bytes "import a.A;\n// x\nimport b.C;\nf((int) y)".toList =
      Text.rewritten "import a.A;\nf(é)".toList (mixedPlan.putAt "import a.A;\nf(é)".toList)
        mixedPlan.replaces :=
  (apply_rewrites mixedPlan "import a.A;\nf(é)").1 _ apply_mixedPlan

end FixPlan

end CallLint
