import CallLint.Output.Text
import CallLint.Proofs.Fix.Refusing
import CallLint.Proofs.Locating

/-!
# Carets under a call

A report draws the line that a call starts in, and carets under it. The blanks in front of them
count characters, so the carets start under the call. The carets count bytes, and those of the whole
call: they are never too few, but too many where the call has characters of several bytes, or goes
on behind its line.

* `Text.LineAround.shown`: how much of a call is on the line that it starts in.
* `TextReport.Underlines`: a line of source with blanks and carets under it.
* `TextReport.underlines_locate`: what is drawn for a finding.
* `TextReport.MarksCall`: as many carets as the call has characters on its line.
  `TextReport.marksCall_iff` says when.
* `TextReport.carets_of_call`: all of it.
-/

namespace CallLint

namespace Text

@[simp] theorem toList_pushn (s : String) (c : Char) (n : Nat) :
    (s.pushn c n).toList = s.toList ++ List.replicate n c := by
  rw [String.pushn_eq_repeat_push]
  induction n with
  | zero => simp [Nat.repeat]
  | succ n ih => rw [Nat.repeat, String.toList_push, ih, List.append_assoc, List.replicate_succ']

/-- Rows of one character that other characters follow are of one length. -/
theorem replicate_append_cons_inj {c d : Char} (hne : c ≠ d) {m n : Nat} {a b : List Char}
    (h : List.replicate m c ++ d :: a = List.replicate n c ++ d :: b) : m = n := by
  have hrow : ∀ (k : Nat) (rest : List Char),
      (List.replicate k c ++ d :: rest).takeWhile (· = c) = List.replicate k c := by
    intro k rest
    rw [List.takeWhile_append_of_pos (by simp),
      List.takeWhile_cons_of_neg (by simpa using hne.symm), List.append_nil]
  have hrows := congrArg (List.takeWhile (· = c)) h
  rw [hrow, hrow] at hrows
  simpa using congrArg List.length hrows

namespace LineAround

variable {cs call : List Char} {n stop : Nat} (r : LineAround cs n)

/-- The text between the offset and a later one, as far as it is on the line. -/
def shown (stop : Nat) : List Char :=
  (slice? n (min stop (byteSize r.above + byteSize r.line)) cs).getD []

/-- A text that ends on the line is there from its start to its end. -/
theorem shown_of_le (hcall : slice? n stop cs = some call)
    (h : stop ≤ byteSize r.above + byteSize r.line) : r.shown stop = call := by
  rw [shown, Nat.min_eq_left h, hcall, Option.getD_some]

/-- What is on the line has no more characters than there are bytes left of the line. -/
theorem length_shown_le (stop : Nat) :
    (r.shown stop).length ≤ min stop (byteSize r.above + byteSize r.line) - n := by
  rw [shown]
  cases hslice : slice? n (min stop (byteSize r.above + byteSize r.line)) cs with
  | none => exact Nat.zero_le _
  | some part =>
    rcases slice?_eq_some_iff.1 hslice with ⟨a, b, -, -, hsize⟩
    have hlength := length_le_byteSize part
    rw [Option.getD_some]
    omega

/-- A text that starts at the offset is on the line exactly if it ends in front of the ending. -/
theorem exists_line_eq_append_iff (hcall : slice? n stop cs = some call) :
    (∃ after, r.line = r.front ++ (call ++ after)) ↔ stop ≤ byteSize r.above + byteSize r.line := by
  rcases slice?_eq_some_iff.1 hcall with ⟨a, b, hsplit, ha, hstop⟩
  have hsize := r.size
  constructor
  · rintro ⟨after, hline⟩
    rw [hline, byteSize_append, byteSize_append]
    omega
  · intro hle
    rcases r.exists_line_eq (by omega) with ⟨back, hback⟩
    have hwhole : (r.above ++ r.front) ++ (back ++ (r.ending ++ r.below)) = a ++ (call ++ b) := by
      rw [← hsplit, List.append_assoc, ← List.append_assoc r.front, ← hback, ← r.whole]
    have hbehind := (append_inj_of_byteSize hwhole (by rw [byteSize_append]; omega)).2
    -- the text is the start of what is left of the line
    have hfits : byteSize call ≤ byteSize back := by
      rw [hback, byteSize_append] at hle
      omega
    rcases exists_eq_append hbehind.symm hfits with ⟨after, rfl, -⟩
    exact ⟨after, hback⟩

/-- As many characters are on the line as a text has bytes exactly if all of it is there and has no
wider characters. -/
theorem length_shown_eq_iff (hcall : slice? n stop cs = some call) (hlt : n < stop) :
    (r.shown stop).length = stop - n ↔
      (∃ after, r.line = r.front ++ (call ++ after)) ∧ ∀ c ∈ call, c.utf8Size = 1 := by
  rcases slice?_eq_some_iff.1 hcall with ⟨-, -, -, -, hstop⟩
  have hle := r.length_shown_le stop
  rw [r.exists_line_eq_append_iff hcall, ← byteSize_eq_length_iff]
  constructor
  · -- fewer bytes than that are left of the line if the text goes on behind it
    intro h
    have hinside : stop ≤ byteSize r.above + byteSize r.line := by omega
    rw [r.shown_of_le hcall hinside] at h
    exact ⟨hinside, by omega⟩
  · rintro ⟨hinside, hbytes⟩
    rw [r.shown_of_le hcall hinside]
    omega

end LineAround

end Text

namespace TextReport

variable {t : TextReport} {d : Diagnostic}

/-! ## Drawings -/

/-- A line of source with its number, and a row of blanks and carets under it. -/
def drawing (number : Nat) (line : String) (blanks carets : Nat) : String :=
  "     |\n" ++ Text.padLeft 4 (toString number) ++ " | " ++ line ++ "\n     | "
    ++ "".pushn ' ' blanks ++ "".pushn '^' carets ++ "\n"

/-- Whether the report on a finding has a line of source with some blanks and carets under it. -/
def Underlines (t : TextReport) (d : Diagnostic) (line : String) (blanks carets : Nat) : Prop :=
  ∃ remarks, t.renderDiagnostic d =
    t.renderHead d ++ (drawing d.location.line line blanks carets ++ remarks)

/-- Without colours a text is written as it is. -/
theorem paint_of_not_colored (h : t.colored = false) (s : Style) (text : String) :
    t.paint s text = text := by
  rw [paint, Style.paintIf, h]
  rfl

/-- A line of source is drawn with blanks up to the column, and one caret at least. -/
theorem renderSource_eq (h : t.colored = false) {l : Location} (hcolumn : 0 < l.column)
    (line : String) :
    t.renderSource l line = drawing l.line line (l.column - 1) (max l.length 1) := by
  have hbar : t.bar = "|" := paint_of_not_colored h _ _
  simp only [renderSource, renderCarets, hbar, paint_of_not_colored h, if_pos hcolumn]
  apply String.toList_injective
  simp [drawing, toString]

/-- What is drawn for a finding with a line of source. -/
theorem underlines_of_sourceLine (h : t.colored = false) (hshow : t.showSource = true)
    {line : String} (hline : d.sourceLine = some line) (hcolumn : 0 < d.location.column) :
    t.Underlines d line (d.location.column - 1) (max d.location.length 1) := by
  rw [Underlines, ← renderSource_eq h hcolumn line, renderDiagnostic, hline, hshow]
  simp only [String.append_assoc]
  exact ⟨_, rfl⟩

/-- The carets end where the row ends, so there is one number of them. -/
theorem Underlines.carets_eq {line : String} {blanks m n : Nat} (hm : t.Underlines d line blanks m)
    (hn : t.Underlines d line blanks n) : m = n := by
  rcases hm with ⟨a, ha⟩
  rcases hn with ⟨b, hb⟩
  have hdrawn := (String.append_right_inj _).1 (ha.symm.trans hb)
  rw [← String.toList_inj] at hdrawn
  simp only [drawing, String.toList_append, Text.toList_pushn, List.append_assoc,
    List.append_cancel_left_eq] at hdrawn
  exact Text.replicate_append_cons_inj (by decide : '^' ≠ '\n') hdrawn

/-! ## Drawings of calls -/

variable {source : String}

/-- Whether a report draws under a line of source as many carets as there are characters of the call
on it, behind as many blanks as there are columns in front. -/
def MarksCall (t : TextReport) (d : Diagnostic) (file : Path)
    (r : Text.LineAround source.toList d.span.start) : Prop :=
  t.Underlines (d.locate file source) (.ofList r.line) ((d.locate file source).location.column - 1)
    (r.shown d.span.stop).length

/-- A report draws as many blanks as there are characters in front of a call, and as many carets as
it has bytes. -/
theorem underlines_locate (h : t.colored = false) (hshow : t.showSource = true) (file : Path)
    (hcut : d.span.CutsOut source.toList) (hlt : d.span.start < d.span.stop)
    (r : Text.LineAround source.toList d.span.start) :
    t.Underlines (d.locate file source) (.ofList r.line) r.front.length d.span.length := by
  -- the call starts in front of the end of the source, so there is a line to draw
  have hsome : ¬ r.line ++ r.ending = [] := by
    rw [r.line_append_ending_eq_nil_iff]
    rintro ⟨hend, -⟩
    have hinside := hcut.inside
    omega
  have hline := Diagnostic.sourceLine_locate file r
  rw [if_neg hsome] at hline
  have hlength : max d.span.length 1 = d.span.length := Nat.max_eq_left (by rw [Span.length]; omega)
  have hlocation := Diagnostic.location_locate file r
  have hdrawn := underlines_of_sourceLine h hshow hline (by rw [hlocation]; exact Nat.succ_pos _)
  rwa [hlocation, hlength, Nat.add_sub_cancel] at hdrawn

/-- A report marks a call exactly if all of the call is on the line that it starts in and has no
wider characters. -/
theorem marksCall_iff (h : t.colored = false) (hshow : t.showSource = true) (file : Path)
    (hcut : d.span.CutsOut source.toList) (hlt : d.span.start < d.span.stop)
    (r : Text.LineAround source.toList d.span.start) {call : List Char}
    (hcall : Text.slice? d.span.start d.span.stop source.toList = some call) :
    t.MarksCall d file r ↔
      (∃ after, r.line = r.front ++ (call ++ after)) ∧ ∀ c ∈ call, c.utf8Size = 1 := by
  have hdrawn := underlines_locate h hshow file hcut hlt r
  rw [MarksCall, Diagnostic.location_locate file r, Nat.add_sub_cancel,
    ← r.length_shown_eq_iff hcall hlt]
  constructor
  · -- what is drawn has one number of carets
    intro hmarks
    exact hmarks.carets_eq hdrawn
  · intro hlength
    rwa [hlength]

/-- Carets of a call. Under the line that a call of a source starts in, a report without colours
draws as many blanks as there are columns and characters in front of the call, and as many carets as
the call has bytes. These are no fewer than its characters on the line, and exactly as many if and
only if the whole call is on the line and each of its characters has one byte. Then the carets end
on the line too. -/
theorem carets_of_call (t : TextReport) (d : Diagnostic) (file : Path) (source : String)
    (h : t.colored = false) (hshow : t.showSource = true) (hcut : d.span.CutsOut source.toList)
    (hempty : d.span.isEmpty = false) :
    Nonempty (Text.LineAround source.toList d.span.start) ∧
    ∀ r : Text.LineAround source.toList d.span.start, ∃ call,
      Text.slice? d.span.start d.span.stop source.toList = some call ∧
      (d.locate file source).location.column - 1 = r.front.length ∧
      t.Underlines (d.locate file source) (.ofList r.line) r.front.length d.span.length ∧
      (r.shown d.span.stop).length ≤ d.span.length ∧
      (t.MarksCall d file r ↔
        (∃ after, r.line = r.front ++ (call ++ after)) ∧ ∀ c ∈ call, c.utf8Size = 1) ∧
      (t.MarksCall d file r → r.front.length + d.span.length ≤ r.line.length) := by
  have hlt := Span.isEmpty_eq_false_iff.1 hempty
  refine ⟨Text.nonempty_lineAround hcut.opens, fun r => ?_⟩
  rcases Text.exists_slice? hcut.ordered hcut.opens hcut.closes with ⟨call, hcall⟩
  have hmarks := marksCall_iff h hshow file hcut hlt r hcall
  refine ⟨call, hcall, ?_, underlines_locate h hshow file hcut hlt r, ?_, hmarks, fun hmarked => ?_⟩
  · rw [Diagnostic.location_locate file r, Nat.add_sub_cancel]
  · have hshown := r.length_shown_le d.span.stop
    rw [Span.length]
    omega
  · -- the whole call is on the line, with one byte for each character
    rcases hmarks.1 hmarked with ⟨⟨after, hline⟩, hbytes⟩
    rcases Text.slice?_eq_some_iff.1 hcall with ⟨-, -, -, -, hstop⟩
    have hcount := Text.byteSize_eq_length_iff.2 hbytes
    rw [hline, List.length_append, List.length_append, Span.length]
    omega

/-- A call of seventeen characters behind nine others. -/
theorem carets_of_call_seventeen :
    (⟨9, 26⟩ : Span).CutsOut "long y = Math.round(a + b);\n".toList ∧
    ∃ line, TextReport.Underlines { standard with colored := false }
      ((Diagnostic.plain "math-round-int-long" .error "a call" ⟨9, 26⟩).locate ⟨"A.java"⟩
        "long y = Math.round(a + b);\n") line 9 17 := by
  have hcut : (⟨9, 26⟩ : Span).CutsOut "long y = Math.round(a + b);\n".toList := by decide +kernel
  have hcolumn : ((Diagnostic.plain "math-round-int-long" .error "a call" ⟨9, 26⟩).locate ⟨"A.java"⟩
      "long y = Math.round(a + b);\n").location.column - 1 = 9 := by decide +kernel
  obtain ⟨⟨r⟩, hall⟩ := carets_of_call { standard with colored := false }
    (Diagnostic.plain "math-round-int-long" .error "a call" ⟨9, 26⟩) ⟨"A.java"⟩
    "long y = Math.round(a + b);\n" rfl rfl hcut rfl
  obtain ⟨call, -, hfront, hdrawn, -⟩ := hall r
  rw [hcolumn] at hfront
  rw [← hfront] at hdrawn
  exact ⟨hcut, .ofList r.line, hdrawn⟩

/-- A call of thirteen characters in fourteen bytes has fourteen carets. -/
theorem not_marksCall_wide :
    (⟨0, 14⟩ : Span).CutsOut "Math.round(ä);".toList ∧ (⟨0, 14⟩ : Span).isEmpty = false ∧
    ¬ ∃ r : Text.LineAround "Math.round(ä);".toList 0,
      TextReport.MarksCall { standard with colored := false }
        (Diagnostic.plain "math-round-int-long" .error "a call" ⟨0, 14⟩) ⟨"A.java"⟩ r := by
  have hcut : (⟨0, 14⟩ : Span).CutsOut "Math.round(ä);".toList := by decide +kernel
  have hcall : Text.slice? 0 14 "Math.round(ä);".toList = some "Math.round(ä)".toList := by
    decide +kernel
  have hwide : 'ä' ∈ "Math.round(ä)".toList ∧ 'ä'.utf8Size = 2 := by decide +kernel
  refine ⟨hcut, rfl, ?_⟩
  rintro ⟨r, hmarks⟩
  have hiff := marksCall_iff (t := { standard with colored := false })
    (d := Diagnostic.plain "math-round-int-long" .error "a call" ⟨0, 14⟩) rfl rfl ⟨"A.java"⟩ hcut
    (by decide) r hcall
  have hone := (hiff.1 hmarks).2 'ä' hwide.1
  rw [hwide.2] at hone
  cases hone

end TextReport

end CallLint
