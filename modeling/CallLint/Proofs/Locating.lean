import CallLint.Diagnostic
import CallLint.Proofs.Text.LineAround

/-!
# Locations and positions

A location counts lines and columns, a span counts bytes. Counting loses nothing: behind as many
line feeds as there are lines above a location, and behind as many characters as columns are in
front of it, the span starts. So later starts have later locations. The line of source of a finding
is the line that the span starts in, without its ending.

* `Location.offset?`: where a location leads. `Location.offset?_ofSpan`: it leads to the start of
  the span.
* `Location.before_of_lt`: the order of locations is that of the source.
* `Diagnostic.sourceLine_locate`, `Diagnostic.sourceLine_locate_eq_none_iff`: the line of source.
* `Diagnostic.locate_leads_back`: all of it.
-/

namespace CallLint

namespace Text

/-- The text behind the first `n` line feeds; none if there are fewer. -/
def skipFeeds? : Nat → List Char → Option (List Char)
  | 0, cs => some cs
  | _ + 1, [] => none
  | n + 1, c :: cs => skipFeeds? (if c = '\n' then n else n + 1) cs

/-- The text behind the first `n` characters; none if there are fewer. -/
def skip? (n : Nat) (cs : List Char) : Option (List Char) :=
  if n ≤ cs.length then some (cs.drop n) else none

@[simp] theorem skipFeeds?_zero (cs : List Char) : skipFeeds? 0 cs = some cs := by
  cases cs <;> rfl

/-- All line feeds of a text that ends its line lead behind it. -/
theorem skipFeeds?_append {above : List Char} (h : EndsLine above) (cs : List Char) :
    skipFeeds? (above.count '\n') (above ++ cs) = some cs := by
  -- what follows the first character ends its line too, and has the line feeds that are left
  induction above with
  | nil => exact skipFeeds?_zero cs
  | cons c above ih =>
    have ih := ih (endsLine_tail h)
    by_cases hc : c = '\n'
    · rw [hc, List.count_cons_self, List.cons_append, skipFeeds?, if_pos rfl, ih]
    · -- there is a line feed further on
      rcases endsLine_iff.1 (endsLine_tail h) with hnil | ⟨line, rfl⟩
      · exact absurd hnil (ne_nil_of_endsLine_cons hc h)
      · obtain ⟨n, hn⟩ : ∃ n, (line ++ ['\n']).count '\n' = n + 1 := ⟨line.count '\n', by simp⟩
        rw [List.count_cons_of_ne hc, hn, List.cons_append, skipFeeds?, if_neg hc, ← hn, ih]

/-- As many characters as there are in front lead behind them. -/
@[simp] theorem skip?_append (front rest : List Char) :
    skip? front.length (front ++ rest) = some rest := by
  rw [skip?, if_pos (by simp), List.drop_left]

/-- The characters behind the last line feed. -/
theorem takeWhile_reverse_append {above front : List Char} (habove : EndsLine above)
    (hfront : '\n' ∉ front) :
    (above ++ front).reverse.takeWhile (· ≠ '\n') = front.reverse := by
  have hinner : ∀ c ∈ front.reverse, decide (c ≠ '\n') = true := by
    intro c hc
    rw [decide_eq_true_eq]
    rintro rfl
    exact hfront (List.mem_reverse.1 hc)
  rw [List.reverse_append, List.takeWhile_append_of_pos hinner]
  rcases endsLine_iff.1 habove with rfl | ⟨line, rfl⟩ <;> simp

end Text

namespace Location

/-- The byte offset that a location leads to: behind as many line feeds as there are lines above it,
and then behind as many characters as there are columns in front of it. None if the source ends on
the way. -/
def offset? (l : Location) (source : String) : Option Nat :=
  let rest? := (Text.skipFeeds? (l.line - 1) source.toList).bind (Text.skip? (l.column - 1))
  rest?.map fun rest => Text.size source - Text.byteSize rest

/-- Whether a location comes before another one, by line and column. -/
def Before (a b : Location) : Prop := a.line < b.line ∨ a.line = b.line ∧ a.column < b.column

variable {file : Path} {source : String} {span : Span}

/-- In front of an offset are the earlier lines and the start of its own. -/
theorem textBefore_eq {cs : List Char} {n : Nat} (r : Text.LineAround cs n) :
    textBefore cs n = r.above ++ r.front := by
  have hbytes := congrArg Text.byteSize r.cut
  have hsize := r.size
  rw [Text.byteSize_append, Text.byteSize_append] at hbytes
  have hmin : min n (Text.byteSize cs) = Text.byteSize (r.above ++ r.front) := by
    rw [Text.byteSize_append]
    omega
  have hcut := Text.cut?_byteSize_append (r.above ++ r.front) r.rest
  rw [List.append_assoc, ← r.cut] at hcut
  rw [textBefore, hmin, hcut]
  rfl

/-- The line of a location counts the line feeds above the line, its column the characters in front
of the offset. -/
theorem ofSpan_eq (file : Path) (r : Text.LineAround source.toList span.start) :
    ofSpan file source span = ⟨file, r.above.count '\n' + 1, r.front.length + 1, span.length⟩ := by
  have hcount : (r.above ++ r.front).count '\n' = r.above.count '\n' := by
    rw [List.count_append, List.count_eq_zero.2 r.before, Nat.add_zero]
  rw [ofSpan, textBefore_eq r, hcount, Text.takeWhile_reverse_append r.starts r.before,
    List.length_reverse]

/-- A location leads to the offset that it was computed from. -/
theorem offset?_ofSpan (file : Path) (h : Text.isBoundary span.start source.toList = true) :
    (ofSpan file source span).offset? source = some span.start := by
  rcases Text.nonempty_lineAround h with ⟨r⟩
  have hfeeds := Text.skipFeeds?_append r.starts (r.front ++ r.rest)
  have hbytes := congrArg Text.byteSize r.cut
  have hsize := r.size
  rw [← r.cut] at hfeeds
  rw [Text.byteSize_append, Text.byteSize_append] at hbytes
  have hstart : Text.size source - Text.byteSize r.rest = span.start := by
    rw [Text.size]
    omega
  -- first behind the line feeds, then behind the columns
  simp only [offset?, ofSpan_eq file r, Nat.add_sub_cancel, hfeeds, Option.bind_some,
    Text.skip?_append, Option.map_some, hstart]

/-- A later start has a later location. -/
theorem before_of_lt (file : Path) {later : Span}
    (h : Text.isBoundary span.start source.toList = true)
    (hlater : Text.isBoundary later.start source.toList = true) (hlt : span.start < later.start) :
    (ofSpan file source span).Before (ofSpan file source later) := by
  rcases Text.nonempty_lineAround h with ⟨r⟩
  rcases Text.nonempty_lineAround hlater with ⟨r'⟩
  have hsize := r.size
  have hsize' := r'.size
  have hcut : (r.above ++ r.front) ++ r.rest = (r'.above ++ r'.front) ++ r'.rest := by
    rw [List.append_assoc, List.append_assoc, ← r.cut, ← r'.cut]
  -- the text between the two starts
  obtain ⟨mid, hmid, -⟩ :=
    Text.exists_eq_append hcut (by rw [Text.byteSize_append, Text.byteSize_append]; omega)
  rw [Before, ofSpan_eq file r, ofSpan_eq file r']
  dsimp only
  by_cases hfeed : '\n' ∈ mid
  · -- a line feed in between makes the line later
    have hcount := congrArg (List.count '\n') hmid
    have hpos : 0 < mid.count '\n' := List.count_pos_iff.2 hfeed
    rw [List.count_append, List.count_append, List.count_append, List.count_eq_zero.2 r.before,
      List.count_eq_zero.2 r'.before] at hcount
    exact .inl (by omega)
  · -- otherwise the line is the same, and there are more characters in front
    rw [List.append_assoc] at hmid
    have hsame :=
      Text.append_inj_of_endsLine hmid r'.starts r.starts r'.before (by simp [r.before, hfeed])
    have hlength := congrArg List.length hsame.2
    have hbytes := congrArg Text.byteSize hsame.2
    have hne : mid ≠ [] := by
      rintro rfl
      rw [List.append_nil] at hbytes
      rw [hsame.1] at hsize'
      omega
    have hpos := List.length_pos_iff.2 hne
    rw [List.length_append] at hlength
    exact .inr ⟨by rw [hsame.1], by omega⟩

end Location

namespace Diagnostic

variable {source : String} {d : Diagnostic}

/-- A finding gets the location of its span. -/
theorem location_locate (file : Path) (r : Text.LineAround source.toList d.span.start) :
    (d.locate file source).location =
      ⟨file, r.above.count '\n' + 1, r.front.length + 1, d.span.length⟩ :=
  Location.ofSpan_eq file r

/-- The line of source of a finding is the line that its span starts in, unless there is nothing of
it. -/
theorem sourceLine_locate (file : Path) (r : Text.LineAround source.toList d.span.start) :
    (d.locate file source).sourceLine =
      if r.line ++ r.ending = [] then none else some (.ofList r.line) := by
  rw [locate, Location.ofSpan_eq file r, Location.lineText?, Nat.add_sub_cancel, r.getElem?_lines]
  split <;> rfl

/-- A finding has no line of source exactly if it starts at the end of a source that is empty or
ends with a line feed. -/
theorem sourceLine_locate_eq_none_iff (file : Path)
    (h : Text.isBoundary d.span.start source.toList = true) :
    (d.locate file source).sourceLine = none ↔
      d.span.start = Text.size source ∧ Text.EndsLine source.toList := by
  rcases Text.nonempty_lineAround h with ⟨r⟩
  rw [sourceLine_locate file r, Text.size, ← r.line_append_ending_eq_nil_iff]
  split <;> simp [*]

/-- The line of source of a finding, and the characters in front of it. -/
theorem exists_line_of_sourceLine (file : Path) (r : Text.LineAround source.toList d.span.start)
    {line : String} (h : (d.locate file source).sourceLine = some line) :
    line.toList = r.line ∧ (d.span.start ≤ Text.byteSize r.above + Text.byteSize r.line →
      line.toList.take ((d.locate file source).location.column - 1) = r.front) := by
  rw [sourceLine_locate file r] at h
  split at h
  · cases h
  · -- there is something of the line, so it is shown, and its start is in front of the offset
    have hcolumn : (d.locate file source).location.column - 1 = r.front.length := by
      rw [locate, Location.ofSpan_eq file r]
      rfl
    obtain rfl := Option.some.inj h
    rw [String.toList_ofList, hcolumn]
    refine ⟨rfl, fun hle => ?_⟩
    rcases r.exists_line_eq hle with ⟨back, hline⟩
    rw [hline, List.take_left]

/-- Locations lead back to positions. The location of a finding that starts at a boundary of the
source has a line and a column from one on that lead back to the start, and it comes before the
locations of all later starts. Its line of source is missing exactly if it starts at the end of a
source that is empty or ends with a line feed. Otherwise it is the line around the start, without
its ending, and as long as the start is not inside the ending, as many characters as there are
columns in front are the text from the start of the line on. -/
theorem locate_leads_back (d : Diagnostic) (file : Path) (source : String)
    (h : Text.isBoundary d.span.start source.toList = true) :
    let located := d.locate file source
    let l := Location.ofSpan file source d.span
    (1 ≤ l.line ∧ 1 ≤ l.column ∧ l.offset? source = some d.span.start) ∧
    (∀ later : Span, Text.isBoundary later.start source.toList = true → d.span.start < later.start →
      l.Before (.ofSpan file source later)) ∧
    located.location = l ∧
    (located.sourceLine = none ↔ d.span.start = Text.size source ∧ Text.EndsLine source.toList) ∧
    ∃ r : Text.LineAround source.toList d.span.start, r.above.count '\n' + 1 = l.line ∧
      ∀ line, located.sourceLine = some line → line.toList = r.line ∧
        (d.span.start ≤ Text.byteSize r.above + Text.byteSize r.line →
          line.toList.take (l.column - 1) = r.front) := by
  intro located l
  refine ⟨⟨Nat.le_add_left 1 _, Nat.le_add_left 1 _, Location.offset?_ofSpan file h⟩,
    fun later hlater hlt => Location.before_of_lt file h hlater hlt, rfl,
    sourceLine_locate_eq_none_iff file h, ?_⟩
  rcases Text.nonempty_lineAround h with ⟨r⟩
  exact ⟨r, (congrArg Location.line (Location.ofSpan_eq file r)).symm,
    fun line hline => exists_line_of_sourceLine file r hline⟩

/-- A finding on the second line, behind a character of two bytes and a carriage return. -/
theorem locate_leads_back_secondLine :
    Text.isBoundary 5 "ä\r\nab\r\n".toList = true ∧
    (Location.ofSpan ⟨"A.java"⟩ "ä\r\nab\r\n" ⟨5, 6⟩).offset? "ä\r\nab\r\n" = some 5 ∧
    ∃ r : Text.LineAround "ä\r\nab\r\n".toList 5,
      r.above.count '\n' + 1 = 2 ∧ "ab".toList = r.line := by
  have hstart : Text.isBoundary 5 "ä\r\nab\r\n".toList = true := by decide +kernel
  have hline : ((plain "r" .info "a call" ⟨5, 6⟩).locate ⟨"A.java"⟩ "ä\r\nab\r\n").sourceLine =
      some "ab" := by
    decide +kernel
  have hnumber : (Location.ofSpan ⟨"A.java"⟩ "ä\r\nab\r\n" ⟨5, 6⟩).line = 2 := by decide +kernel
  obtain ⟨⟨-, -, hback⟩, -, -, -, r, habove, hlines⟩ :=
    locate_leads_back (plain "r" .info "a call" ⟨5, 6⟩) ⟨"A.java"⟩ "ä\r\nab\r\n" hstart
  exact ⟨hstart, hback, r, habove.trans hnumber, (hlines "ab" hline).1⟩

end Diagnostic

end CallLint
