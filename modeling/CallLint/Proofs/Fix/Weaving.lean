import Mathlib.Data.List.Basic
import CallLint.Proofs.Fix.Fitting

/-!
# Writing a source with changes

The changes of a valid plan are written in one pass with a cursor that only moves forward. What is
written can be said offset by offset: first the texts that go there, then the byte of the source,
unless a target covers it.

* `Text.rewritten`: the bytes of a source, with texts put in at offsets and some bytes left out.
* `runsForward_of_splices`: the cursor never has to go back, and only stops at boundaries.
* `weave?_eq_some`: a writer that refuses bad slices refuses none.
* `bytes_weave`: the pass writes exactly what is said offset by offset.
-/

namespace CallLint

/-- The bytes of a source with texts put in front of the bytes at some offsets, and some bytes left
out. -/
def Text.rewritten (source : List Char) (put : Nat → List UInt8) (gone : Nat → Bool) : List UInt8 :=
  (List.range (byteSize source + 1)).flatMap fun i =>
    put i ++ if gone i then [] else (bytes source)[i]?.toList

/-- Whether a span has the byte at an offset. -/
def Span.covers (s : Span) (i : Nat) : Bool := s.start ≤ i && i < s.stop

@[simp] theorem Span.covers_iff {s : Span} {i : Nat} :
    s.covers i = true ↔ s.start ≤ i ∧ i < s.stop := by
  rw [covers, Bool.and_eq_true, decide_eq_true_eq, decide_eq_true_eq]

theorem Span.covers_eq_false_iff {s : Span} {i : Nat} :
    s.covers i = false ↔ i < s.start ∨ s.stop ≤ i := by
  rw [← Bool.not_eq_true, covers_iff]
  omega

@[simp] theorem Span.covers_point (offset i : Nat) : (Span.point offset).covers i = false := by
  rw [covers_eq_false_iff]
  exact Nat.lt_or_ge i offset

namespace FixPlan

/-! ## The cursor -/

/-- Whether a cursor can go through changes without turning back, and stops at boundaries only. -/
def runsForward (source : List Char) (offset : Nat) : List Splice → Prop
  | [] => True
  | s :: more =>
    offset ≤ s.target.start ∧ s.isWithin source ∧ runsForward source s.target.stop more

/-- All changes that are still to come are ahead of the cursor. -/
theorem start_le_of_runsForward {source : List Char} {offset : Nat} {l : List Splice}
    (h : runsForward source offset l) : ∀ s ∈ l, offset ≤ s.target.start := by
  induction l generalizing offset with
  | nil => simp
  | cons a more ih =>
    rcases h with ⟨hle, hwithin, hmore⟩
    intro s hs
    rcases List.mem_cons.1 hs with rfl | hs
    · exact hle
    · have hstop := ih hmore s hs
      have horder := hwithin.1
      omega

/-- A cursor goes through changes that lie one behind the other. -/
theorem runsForward_of_pairwise {source : List Char} {offset : Nat} {l : List Splice}
    (hwithin : ∀ s ∈ l, s.isWithin source) (hoffset : ∀ s ∈ l, offset ≤ s.target.start)
    (hpairs : l.Pairwise fun a b => a.target.stop ≤ b.target.start) :
    runsForward source offset l := by
  induction l generalizing offset with
  | nil => trivial
  | cons a more ih =>
    rcases List.pairwise_cons.1 hpairs with ⟨ha, hmore⟩
    refine ⟨hoffset a List.mem_cons_self, hwithin a List.mem_cons_self, ?_⟩
    exact ih (fun s hs => hwithin s (List.mem_cons_of_mem a hs)) ha hmore

/-! ## The place of the imports -/

/-- The end of a piece is the number of bytes up to there. -/
theorem exists_of_mem_pieceEnds {start : Nat} {pieces : List (List Char)} {x : List Char × Nat}
    (h : x ∈ pieceEnds start pieces) :
    ∃ before after, pieces = before ++ after ∧ start + Text.byteSize before.flatten = x.2 := by
  induction pieces generalizing start with
  | nil => simp [pieceEnds] at h
  | cons piece pieces ih =>
    rw [pieceEnds, List.mem_cons] at h
    rcases h with rfl | h
    · exact ⟨[piece], pieces, rfl, by simp⟩
    · rcases ih h with ⟨before, after, rfl, hsize⟩
      refine ⟨piece :: before, after, rfl, ?_⟩
      rw [← hsize, List.flatten_cons, Text.byteSize_append, Nat.add_assoc]

/-- So pieces end on boundaries. -/
theorem isBoundary_of_mem_pieceEnds {source : List Char} {x : List Char × Nat}
    (h : x ∈ pieceEnds 0 (Text.pieces source)) : Text.isBoundary x.2 source = true := by
  rcases exists_of_mem_pieceEnds h with ⟨before, after, hpieces, hsize⟩
  rw [Text.isBoundary_iff]
  refine ⟨before.flatten, after.flatten, ?_, by omega⟩
  rw [← List.flatten_append, ← hpieces, Text.pieces_flatten]

/-- Imports go to the start of the source or to the end of one of its lines. -/
theorem isBoundary_importSite (source : List Char) :
    Text.isBoundary (importSite source).offset source = true := by
  -- the last import line, the first package line, or the start
  unfold importSite
  extract_lets pieces
  split
  · next piece stop hfind =>
    exact isBoundary_of_mem_pieceEnds (List.mem_reverse.1 (List.mem_of_find?_eq_some hfind))
  · split
    · next piece stop hfind => exact isBoundary_of_mem_pieceEnds (List.mem_of_find?_eq_some hfind)
    · exact Text.isBoundary_zero source

/-- All changes of a plan lie in the source if its edits do. -/
theorem isWithin_of_mem_changes {p : FixPlan} {source : List Char}
    (h : ∀ e ∈ p.edits, e.isWithin source = true) {s : Splice} (hs : s ∈ p.changes source) :
    s.isWithin source := by
  rcases List.mem_append.1 hs with hs | hs
  · rcases List.mem_map.1 hs with ⟨e, he, rfl⟩
    exact Splice.isWithin_ofEdit (h e he)
  · rw [Option.mem_toList] at hs
    rcases importSplice?_eq_some_iff.1 hs with ⟨text, -, rfl⟩
    exact ⟨Nat.le_refl _, isBoundary_importSite source, isBoundary_importSite source⟩

/-- The sorted changes of a valid plan never make the cursor turn back. -/
theorem runsForward_of_splices {p : FixPlan} {source : List Char} {l : List Splice}
    (h : p.splices source = .ok l) : runsForward source 0 l := by
  rcases splices_eq_ok_iff.1 h with ⟨hedits, hfits, rfl⟩
  refine runsForward_of_pairwise ?_ (fun s _ => Nat.zero_le _) ?_
  · intro s hs
    exact isWithin_of_mem_changes hedits (List.mem_mergeSort.1 hs)
  · rw [Splice.ranking_le.pairwise_mergeSort_iff]
    exact hfits

/-! ## Slices -/

/-- Writes the rest of a source from an offset on, with slices that are refused when they are out of
range or do not lie on boundaries. -/
def weave? (source : List Char) (offset : Nat) : List Splice → Option (List Char)
  | [] => Text.slice? offset (Text.byteSize source) source
  | s :: more => do
    let kept ← Text.slice? offset s.target.start source
    let rest ← weave? source s.target.stop more
    return kept ++ s.text.toList ++ rest

/-- One step of the cursor over what is kept and the target: it writes what is kept and the text. -/
theorem weave_cons_of_parts {done kept target left : List Char} {s : Splice} (more : List Splice)
    (hkept : Text.byteSize done + Text.byteSize kept = s.target.start)
    (htarget : s.target.start + Text.byteSize target = s.target.stop) :
    weave (Text.byteSize done) (kept ++ (target ++ left)) (s :: more) =
      kept ++ s.text.toList ++ weave s.target.stop left more := by
  have hstart : s.target.start - Text.byteSize done = Text.byteSize kept := by omega
  have hstop : s.target.stop - Text.byteSize done = Text.byteSize (kept ++ target) := by
    rw [Text.byteSize_append]
    omega
  rw [weave, hstart, hstop, Text.takeBytes_append, ← List.append_assoc, Text.dropBytes_append]

/-- What lies before all changes is written as it is. -/
theorem weave_skip (done kept rest : List Char) {l : List Splice}
    (h : ∀ s ∈ l, Text.byteSize (done ++ kept) ≤ s.target.start ∧ s.target.start ≤ s.target.stop) :
    weave (Text.byteSize done) (kept ++ rest) l =
      kept ++ weave (Text.byteSize (done ++ kept)) rest l := by
  cases l with
  | nil => rfl
  | cons s more =>
    rcases h s List.mem_cons_self with ⟨hle, hordered⟩
    rw [Text.byteSize_append] at hle ⊢
    -- both ends of the target are a number of bytes behind what is kept
    rcases Nat.exists_eq_add_of_le hle with ⟨m, hm⟩
    rcases Nat.exists_eq_add_of_le (Nat.le_trans hle hordered) with ⟨n, hn⟩
    have hstart : s.target.start - Text.byteSize done = Text.byteSize kept + m := by omega
    have hstop : s.target.stop - Text.byteSize done = Text.byteSize kept + n := by omega
    have hstart' : s.target.start - (Text.byteSize done + Text.byteSize kept) = m := by omega
    have hstop' : s.target.stop - (Text.byteSize done + Text.byteSize kept) = n := by omega
    rw [weave, weave, hstart, hstop, hstart', hstop', Text.takeBytes_append_right,
      Text.dropBytes_append_right, List.append_assoc, List.append_assoc, List.append_assoc]

/-- One step of the cursor: the source falls into what is behind it, what is kept, the target and
what is left, and the step writes what is kept and the text. -/
theorem exists_weave_step {done : List Char} {s : Splice} (rest : List Char) (more : List Splice)
    (hle : Text.byteSize done ≤ s.target.start) (hs : s.isWithin (done ++ rest)) :
    ∃ kept target left, rest = kept ++ (target ++ left) ∧
      Text.byteSize done + Text.byteSize kept = s.target.start ∧
      s.target.start + Text.byteSize target = s.target.stop ∧
      weave (Text.byteSize done) rest (s :: more) =
        kept ++ s.text.toList ++ weave s.target.stop left more := by
  rcases hs with ⟨horder, hstart, hstop⟩
  rcases Text.exists_parts horder hstart hstop with ⟨first, target, left, hparts, hfirst, htarget⟩
  obtain ⟨kept, rfl, hrest⟩ := Text.exists_eq_append hparts (by omega)
  rw [Text.byteSize_append] at hfirst
  refine ⟨kept, target, left, hrest, hfirst, htarget, ?_⟩
  rw [hrest]
  exact weave_cons_of_parts more hfirst htarget

/-- No slice of a cursor that runs forward is refused. -/
theorem weave?_eq_some {source : List Char} {l : List Splice} (done rest : List Char)
    (hsource : source = done ++ rest) (h : runsForward source (Text.byteSize done) l) :
    weave? source (Text.byteSize done) l = some (weave (Text.byteSize done) rest l) := by
  -- the invariant: `done` is what the cursor has passed, and the slices are taken from the whole
  -- source
  induction l generalizing done rest with
  | nil =>
    rw [weave?, weave, Text.slice?_eq_some_iff]
    refine ⟨done, [], by simpa using hsource, rfl, ?_⟩
    rw [hsource, Text.byteSize_append]
  | cons s more ih =>
    rcases h with ⟨hle, hwithin, hmore⟩
    rw [hsource] at hwithin
    obtain ⟨kept, target, left, hrest, hkept, htarget, hstep⟩ :=
      exists_weave_step rest more hle hwithin
    have hslice : Text.slice? (Text.byteSize done) s.target.start source = some kept :=
      Text.slice?_eq_some_iff.2 ⟨done, target ++ left, by rw [hsource, hrest], rfl, hkept⟩
    have hdone : Text.byteSize (done ++ kept ++ target) = s.target.stop := by
      rw [Text.byteSize_append, Text.byteSize_append]
      omega
    rw [← hdone] at hmore hstep
    have hparts : source = done ++ kept ++ target ++ left := by
      rw [hsource, hrest]
      simp
    rw [hstep, weave?, hslice, ← hdone, ih _ left hparts hmore]
    rfl

/-! ## What is written, offset by offset -/

/-- What changes put at an offset. -/
def putBy (l : List Splice) (i : Nat) : List UInt8 :=
  (l.filter (·.target.start = i)).flatMap fun s => Text.bytes s.text.toList

/-- Whether the target of a change covers the byte at an offset. -/
def goneBy (l : List Splice) (i : Nat) : Bool := l.any (·.target.covers i)

/-- What is written at an offset of a source. -/
def writtenAt (source : List Char) (l : List Splice) (i : Nat) : List UInt8 :=
  putBy l i ++ if goneBy l i then [] else (Text.bytes source)[i]?.toList

@[simp] theorem putBy_cons (s : Splice) (more : List Splice) (i : Nat) :
    putBy (s :: more) i =
      (if s.target.start = i then Text.bytes s.text.toList else []) ++ putBy more i := by
  by_cases h : s.target.start = i <;> simp [putBy, h]

@[simp] theorem goneBy_cons (s : Splice) (more : List Splice) (i : Nat) :
    goneBy (s :: more) i = (s.target.covers i || goneBy more i) :=
  List.any_cons

/-- Before all targets nothing is put. -/
theorem putBy_of_lt {l : List Splice} {i : Nat} (h : ∀ s ∈ l, i < s.target.start) :
    putBy l i = [] := by
  rw [putBy, List.flatMap_eq_nil_iff]
  intro s hs
  simp only [List.mem_filter, decide_eq_true_eq] at hs
  exact absurd hs.2 (Nat.ne_of_gt (h s hs.1))

/-- Before all targets no byte is covered. -/
theorem goneBy_of_lt {l : List Splice} {i : Nat} (h : ∀ s ∈ l, i < s.target.start) :
    goneBy l i = false := by
  rw [goneBy, List.any_eq_false]
  intro s hs
  rw [Span.covers_iff, not_and_or, Nat.not_le]
  exact .inl (h s hs)

/-- So before all targets the source is written as it is. -/
theorem writtenAt_of_lt {source : List Char} {l : List Splice} {i : Nat}
    (h : ∀ s ∈ l, i < s.target.start) : writtenAt source l i = (Text.bytes source)[i]?.toList := by
  rw [writtenAt, putBy_of_lt h, goneBy_of_lt h]
  rfl

/-- At an offset before all other targets, a change puts its text, and its target covers the byte or
not. -/
theorem writtenAt_cons_of_lt {source : List Char} {s : Splice} {more : List Splice} {i : Nat}
    (h : ∀ t ∈ more, i < t.target.start) :
    writtenAt source (s :: more) i =
      (if s.target.start = i then Text.bytes s.text.toList else []) ++
        if s.target.covers i then [] else (Text.bytes source)[i]?.toList := by
  rw [writtenAt, putBy_cons, goneBy_cons, putBy_of_lt h, goneBy_of_lt h, List.append_nil,
    Bool.or_false]

/-- A change whose target does not cover an offset puts its text in front, if it starts there. -/
theorem writtenAt_cons_of_not_covers {source : List Char} {s : Splice} {more : List Splice}
    {i : Nat} (h : s.target.covers i = false) :
    writtenAt source (s :: more) i =
      (if s.target.start = i then Text.bytes s.text.toList else []) ++ writtenAt source more i := by
  rw [writtenAt, writtenAt, putBy_cons, goneBy_cons, h, Bool.false_or, List.append_assoc]

/-- A range of offsets falls into the part before an offset and the part from it on. -/
theorem range'_split {first middle last : Nat} (hfirst : first ≤ middle) (hlast : middle ≤ last) :
    List.range' first (last - first) =
      List.range' first (middle - first) ++ List.range' middle (last - middle) := by
  have hmiddle : first + (middle - first) = middle := by omega
  have happend := List.range'_append_1 (s := first) (m := middle - first) (n := last - middle)
  rw [hmiddle] at happend
  rw [happend]
  congr 1
  omega

/-- Reading a list at a range of indices reads the part that starts there. -/
theorem flatMap_range'_getElem? (xs : List UInt8) (k n : Nat) :
    ((List.range' k n).flatMap fun i => xs[i]?.toList) = (xs.drop k).take n := by
  induction n generalizing k with
  | zero => simp
  | succ n ih =>
    rw [List.range'_succ, List.flatMap_cons, ih]
    by_cases hk : k < xs.length
    · rw [List.drop_eq_getElem_cons hk, List.getElem?_eq_getElem hk]
      rfl
    · have hxs : xs.length ≤ k := by omega
      rw [List.getElem?_eq_none hxs, List.drop_eq_nil_of_le hxs, List.drop_eq_nil_of_le (by omega)]
      simp

/-- What is written from one offset up to another one. -/
def writtenBetween (source : List Char) (l : List Splice) (first last : Nat) : List UInt8 :=
  (List.range' first (last - first)).flatMap (writtenAt source l)

/-- What is written between two offsets falls into what is written before and behind a third one. -/
theorem writtenBetween_split (source : List Char) (l : List Splice) {first middle last : Nat}
    (hfirst : first ≤ middle) (hlast : middle ≤ last) :
    writtenBetween source l first last =
      writtenBetween source l first middle ++ writtenBetween source l middle last := by
  rw [writtenBetween, range'_split hfirst hlast, List.flatMap_append, writtenBetween,
    writtenBetween]

/-- What is written at the first offset comes first. -/
theorem writtenBetween_succ (source : List Char) (l : List Splice) {first last : Nat}
    (h : first < last) :
    writtenBetween source l first last =
      writtenAt source l first ++ writtenBetween source l (first + 1) last := by
  have hlength : last - first = last - (first + 1) + 1 := by omega
  rw [writtenBetween, hlength, List.range'_succ, List.flatMap_cons, writtenBetween]

/-- Changes that write the same at each offset write the same. -/
theorem writtenBetween_congr {source : List Char} {l l' : List Splice} {first last : Nat}
    (h : ∀ i, first ≤ i → i < last → writtenAt source l i = writtenAt source l' i) :
    writtenBetween source l first last = writtenBetween source l' first last := by
  apply List.flatMap_congr
  intro i hi
  rw [List.mem_range'_1] at hi
  exact h i hi.1 (by omega)

/-- Before all targets the source is written as it is. -/
theorem writtenBetween_of_le {done kept rest : List Char} {l : List Splice} {last : Nat}
    (hlast : Text.byteSize done + Text.byteSize kept = last) (h : ∀ t ∈ l, last ≤ t.target.start) :
    writtenBetween (done ++ kept ++ rest) l (Text.byteSize done) last = Text.bytes kept := by
  have hplain : writtenBetween (done ++ kept ++ rest) l (Text.byteSize done) last =
      (List.range' (Text.byteSize done) (last - Text.byteSize done)).flatMap
        fun i => (Text.bytes (done ++ kept ++ rest))[i]?.toList := by
    apply List.flatMap_congr
    intro i hi
    rw [List.mem_range'_1] at hi
    apply writtenAt_of_lt
    intro t ht
    have hle := h t ht
    omega
  have hlength : last - Text.byteSize done = (Text.bytes kept).length := by
    rw [Text.length_bytes]
    omega
  rw [hplain, flatMap_range'_getElem?, hlength, ← Text.length_bytes done]
  simp only [Text.bytes_append, List.append_assoc, List.drop_left, List.take_left]

/-- A change that replaces something writes its text where its target starts, and nothing inside
it. -/
theorem writtenBetween_target {source : List Char} {s : Splice} {more : List Splice}
    (hs : s.target.start < s.target.stop) (hmore : ∀ t ∈ more, s.target.stop ≤ t.target.start) :
    writtenBetween source (s :: more) s.target.start s.target.stop = Text.bytes s.text.toList := by
  -- up to the end of the target no other change has its place
  have hplain : ∀ i, i < s.target.stop → ∀ t ∈ more, i < t.target.start := by
    intro i hi t ht
    have hstop := hmore t ht
    omega
  have hstart : writtenAt source (s :: more) s.target.start = Text.bytes s.text.toList := by
    rw [writtenAt_cons_of_lt (hplain _ hs), if_pos rfl, if_pos, List.append_nil]
    rw [Span.covers_iff]
    omega
  have hinside : writtenBetween source (s :: more) (s.target.start + 1) s.target.stop = [] := by
    rw [writtenBetween, List.flatMap_eq_nil_iff]
    intro i hi
    rw [List.mem_range'_1] at hi
    rw [writtenAt_cons_of_lt (hplain i (by omega)), if_neg (by omega), if_pos, List.append_nil]
    rw [Span.covers_iff]
    omega
  rw [writtenBetween_succ source _ hs, hstart, hinside, List.append_nil]

/-- From the start of its target on, a change writes its text and then, from the end of its target
on, the others write theirs. -/
theorem writtenBetween_cons {source : List Char} {s : Splice} {more : List Splice}
    (hs : s.isWithin source) (hmore : runsForward source s.target.stop more) :
    writtenBetween source (s :: more) s.target.start (Text.byteSize source + 1) =
      Text.bytes s.text.toList ++
        writtenBetween source more s.target.stop (Text.byteSize source + 1) := by
  have hsize := Text.le_byteSize_of_isBoundary hs.2.2
  have horder := hs.1
  have hafter : ∀ i, s.target.stop ≤ i → s.target.start < i →
      writtenAt source (s :: more) i = writtenAt source more i := by
    intro i hstop hstart
    rw [writtenAt_cons_of_not_covers, if_neg (by omega), List.nil_append]
    rw [Span.covers_eq_false_iff]
    omega
  by_cases hempty : s.target.start = s.target.stop
  · -- nothing is replaced: the text comes before all that the others put at the same offset
    have hhere : writtenAt source (s :: more) s.target.start =
        Text.bytes s.text.toList ++ writtenAt source more s.target.start := by
      rw [writtenAt_cons_of_not_covers, if_pos rfl]
      rw [Span.covers_eq_false_iff]
      omega
    have hrest : writtenBetween source (s :: more) (s.target.start + 1) (Text.byteSize source + 1) =
        writtenBetween source more (s.target.start + 1) (Text.byteSize source + 1) := by
      apply writtenBetween_congr
      intro i hi _
      exact hafter i (by omega) (by omega)
    rw [← hempty, writtenBetween_succ source (s :: more) (by omega), hhere, hrest,
      List.append_assoc, ← writtenBetween_succ source more (by omega)]
  · -- the text stands where the target starts, and the others have their say behind it
    have hlater := start_le_of_runsForward hmore
    have hrest : writtenBetween source (s :: more) s.target.stop (Text.byteSize source + 1) =
        writtenBetween source more s.target.stop (Text.byteSize source + 1) := by
      apply writtenBetween_congr
      intro i hi _
      exact hafter i hi (by omega)
    rw [writtenBetween_split source (s :: more) horder (by omega),
      writtenBetween_target (by omega) hlater, hrest]

/-- The pass from a cursor on writes, offset by offset, the texts that go there and the bytes that
are not covered. -/
theorem bytes_weave_from {source : List Char} {l : List Splice} (done rest : List Char)
    (hsource : source = done ++ rest) (h : runsForward source (Text.byteSize done) l) :
    Text.bytes (weave (Text.byteSize done) rest l) =
      writtenBetween source l (Text.byteSize done) (Text.byteSize source + 1) := by
  -- the cursor is where `done` ends, and `rest` is what it has not passed
  induction l generalizing done rest with
  | nil =>
    have hplain : writtenAt source [] = fun i => (Text.bytes source)[i]?.toList := by
      funext i
      exact writtenAt_of_lt (by simp)
    rw [writtenBetween, hplain, flatMap_range'_getElem?, weave, hsource, Text.bytes_append,
      ← Text.length_bytes done, List.drop_left, List.take_of_length_le]
    rw [Text.byteSize_append, Text.length_bytes, Text.length_bytes]
    omega
  | cons s more ih =>
    rcases h with ⟨hle, hwithin, hmore⟩
    have hsize := Text.le_byteSize_of_isBoundary hwithin.2.1
    obtain ⟨kept, target, left, hrest, hkept, htarget, hstep⟩ :=
      exists_weave_step rest more hle (hsource ▸ hwithin)
    have hdone : Text.byteSize (done ++ kept ++ target) = s.target.stop := by
      rw [Text.byteSize_append, Text.byteSize_append]
      omega
    have hparts : source = done ++ kept ++ target ++ left := by
      rw [hsource, hrest]
      simp
    have hbefore : writtenBetween source (s :: more) (Text.byteSize done) s.target.start =
        Text.bytes kept := by
      rw [hparts, List.append_assoc (done ++ kept)]
      apply writtenBetween_of_le hkept
      intro t ht
      rcases List.mem_cons.1 ht with rfl | ht
      · exact Nat.le_refl _
      · exact Nat.le_trans hwithin.1 (start_le_of_runsForward hmore t ht)
    have hleft := ih _ left hparts (by rwa [hdone])
    rw [hdone] at hleft
    rw [writtenBetween_split source (s :: more) hle (by omega), hbefore,
      writtenBetween_cons hwithin hmore, hstep, Text.bytes_append, Text.bytes_append, hleft,
      List.append_assoc]

/-- The pass over a whole source. -/
theorem bytes_weave {source : List Char} {l : List Splice} (h : runsForward source 0 l) :
    Text.bytes (weave 0 source l) = Text.rewritten source (putBy l) (goneBy l) := by
  rw [Text.rewritten, List.range_eq_range']
  exact bytes_weave_from [] source rfl h

end FixPlan

end CallLint
