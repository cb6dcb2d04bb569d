import Mathlib.Data.List.Induction
import CallLint.Proofs.Text.Bytes
import CallLint.Proofs.Text.Line

/-!
# The line around an offset

An offset is in one line of a text: that which starts after the last line feed in front of the
offset. It ends at the next line feed, and a carriage return in front of that belongs to its ending.

* `LineAround`: a text around the line that an offset is in. `nonempty_lineAround`: there is one for
  every boundary.
* `append_inj_of_endsLine`: what is in front of an offset falls in one way into earlier lines and
  the start of a line.
* `LineAround.getElem?_lines`: the line is the one with its number among the lines of the text,
  unless there is nothing of it.
-/

namespace CallLint.Text

/-- What ends a line: a line feed, with a carriage return in front of it if there is one, or the end
of the text. -/
inductive LineEnd (line below : List Char) : List Char → Prop
  | feed (h : line.getLast? ≠ some '\r') : LineEnd line below ['\n']
  | returnFeed : LineEnd line below ['\r', '\n']
  | endOfText (h : below = []) : LineEnd line below []

/-- A text around the line that an offset is in. -/
structure LineAround (cs : List Char) (offset : Nat) where
  /-- The earlier lines. -/
  above : List Char
  line : List Char
  ending : List Char
  /-- The later lines. -/
  below : List Char
  whole : cs = above ++ (line ++ (ending ++ below))
  starts : EndsLine above
  single : '\n' ∉ line
  ends : LineEnd line below ending
  /-- The text between the start of the line and the offset. It may reach into the ending. -/
  front : List Char
  /-- The text behind the offset. -/
  rest : List Char
  cut : cs = above ++ (front ++ rest)
  size : byteSize above + byteSize front = offset
  before : '\n' ∉ front

/-! ## Where lines start -/

/-- A text is some lines that have ended and the start of another one. -/
theorem exists_endsLine_append (cs : List Char) :
    ∃ above front, cs = above ++ front ∧ EndsLine above ∧ '\n' ∉ front := by
  -- every character at the end either ends the line or belongs to it
  induction cs using List.reverseRecOn with
  | nil => exact ⟨[], [], rfl, endsLine_nil, List.not_mem_nil⟩
  | append_singleton cs c ih =>
    by_cases hc : c = '\n'
    · exact ⟨cs ++ [c], [], (List.append_nil _).symm, hc ▸ endsLine_append_feed cs,
        List.not_mem_nil⟩
    · rcases ih with ⟨above, front, rfl, habove, hfront⟩
      refine ⟨above, front ++ [c], List.append_assoc above front [c], habove, ?_⟩
      simpa [eq_comm, hc] using hfront

/-- A text that ends its line and has no line feed is empty. -/
theorem eq_nil_of_endsLine {cs : List Char} (h : EndsLine cs) (hfeed : '\n' ∉ cs) : cs = [] := by
  rcases endsLine_iff.1 h with rfl | ⟨line, rfl⟩
  · rfl
  · simp at hfeed

/-- There is only one place where the last line starts. -/
theorem append_inj_of_endsLine {a b c d : List Char} (h : a ++ b = c ++ d) (ha : EndsLine a)
    (hc : EndsLine c) (hb : '\n' ∉ b) (hd : '\n' ∉ d) : a = c ∧ b = d := by
  -- a text between the two places would end its line and have no line feed
  have hnone : ∀ {p e q : List Char}, EndsLine (p ++ e) → '\n' ∉ e ++ q → e = [] := by
    intro p e q hends hfeed
    refine eq_nil_of_endsLine (fun x hx => hends x ?_) fun hmem =>
      hfeed (List.mem_append_left q hmem)
    rw [List.getLast?_append, Option.mem_def.1 hx, Option.some_or]
    exact rfl
  rcases List.append_eq_append_iff.1 h with ⟨e, rfl, rfl⟩ | ⟨e, rfl, rfl⟩
  · rw [hnone hc hb, List.append_nil, List.nil_append]
    exact ⟨rfl, rfl⟩
  · rw [hnone ha hd, List.append_nil, List.nil_append]
    exact ⟨rfl, rfl⟩

/-! ## Where lines end -/

/-- The first line of a text that starts with `front`, and its ending. -/
theorem exists_line (front rest : List Char) (hfront : '\n' ∉ front) :
    ∃ line ending below, front ++ rest = line ++ (ending ++ below) ∧ '\n' ∉ line ∧
      LineEnd line below ending := by
  by_cases hfeed : '\n' ∈ rest
  · -- the line ends at the next line feed, or at a carriage return in front of it
    rcases List.eq_append_cons_of_mem hfeed with ⟨back, below, rfl, hback⟩
    have hline : '\n' ∉ front ++ back := by simp [hfront, hback]
    by_cases hreturn : (front ++ back).getLast? = some '\r'
    · rcases List.getLast?_eq_some_iff.1 hreturn with ⟨line, hsplit⟩
      refine ⟨line, ['\r', '\n'], below, ?_, fun hmem =>
        hline (hsplit ▸ List.mem_append_left _ hmem), .returnFeed⟩
      rw [← List.append_assoc, hsplit, List.append_assoc]
      rfl
    · exact ⟨front ++ back, ['\n'], below, (List.append_assoc _ _ _).symm, hline, .feed hreturn⟩
  · exact ⟨front ++ rest, [], [], by simp, by simp [hfront, hfeed], .endOfText rfl⟩

/-- Every boundary is in a line. -/
theorem nonempty_lineAround {n : Nat} {cs : List Char} (h : isBoundary n cs = true) :
    Nonempty (LineAround cs n) := by
  rcases isBoundary_iff.1 h with ⟨a, rest, rfl, rfl⟩
  rcases exists_endsLine_append a with ⟨above, front, rfl, habove, hfront⟩
  rcases exists_line front rest hfront with ⟨line, ending, below, hsplit, hline, hend⟩
  exact ⟨{ above, line, ending, below, front, rest
           whole := by rw [List.append_assoc, hsplit]
           starts := habove
           single := hline
           ends := hend
           cut := List.append_assoc above front rest
           size := (byteSize_append above front).symm
           before := hfront }⟩

/-! ## Lines by their numbers -/

/-- The lines of two parts, if the first one ends its line. -/
theorem lines_append {a : List Char} (ha : EndsLine a) (b : List Char) :
    lines (a ++ b) = lines a ++ lines b := by
  rw [lines, pieces_append ha, List.map_append]
  rfl

/-- A text that ends its line has as many lines as line feeds. -/
theorem length_lines {cs : List Char} (h : EndsLine cs) : (lines cs).length = cs.count '\n' := by
  rw [lines, List.length_map]
  induction cs with
  | nil => rfl
  | cons c cs ih =>
    by_cases hc : c = '\n'
    · rw [hc, pieces_cons_feed, List.length_cons, List.count_cons_self, ih (endsLine_tail h)]
    · -- the character joins the first line and is not counted
      rcases exists_pieces_eq_cons (ne_nil_of_endsLine_cons hc h) with ⟨p, ps, hps⟩
      rw [pieces_cons_of_ne hc hps, List.count_cons_of_ne hc, ← ih (endsLine_tail h), hps,
        List.length_cons, List.length_cons]

@[simp] theorem chomp_append_feed (line : List Char) :
    chomp (line ++ ['\n']) = (stripLast? '\r' line).getD line := by
  rw [chomp, stripLast?_eq_some_iff.2 rfl]

/-- A line that is still open has no ending to lose. -/
theorem chomp_of_not_mem {line : List Char} (h : '\n' ∉ line) : chomp line = line := by
  cases hfeed : stripLast? '\n' line with
  | none => rw [chomp, hfeed]
  | some rest => simp [stripLast?_eq_some_iff.1 hfeed] at h

/-- A line that has ended is the first line. -/
theorem head?_lines_append_feed {line : List Char} (h : '\n' ∉ line) (below : List Char) :
    (lines (line ++ '\n' :: below)).head? = some ((stripLast? '\r' line).getD line) := by
  rw [List.append_cons, lines_append (endsLine_append_feed line), lines, pieces_line h,
    List.map_singleton, chomp_append_feed]
  rfl

/-- The first line of a text is that up to its ending, unless there is neither. -/
theorem head?_lines {line ending below : List Char} (hline : '\n' ∉ line)
    (h : LineEnd line below ending) :
    (lines (line ++ (ending ++ below))).head? =
      if line ++ ending = [] then none else some line := by
  cases h with
  | feed hreturn =>
    have hnone : stripLast? '\r' line = none := if_neg hreturn
    rw [if_neg (by simp), List.singleton_append, head?_lines_append_feed hline, hnone,
      Option.getD_none]
  | returnFeed =>
    -- a piece has the carriage return, and a line is without it
    have hall : '\n' ∉ line ++ ['\r'] := by simpa using hline
    have hsplit : line ++ (['\r', '\n'] ++ below) = line ++ ['\r'] ++ '\n' :: below := by simp
    rw [if_neg (by simp), hsplit, head?_lines_append_feed hall, stripLast?_eq_some_iff.2 rfl,
      Option.getD_some]
  | endOfText hbelow =>
    rw [hbelow, List.append_nil, List.append_nil]
    split
    · next hnil =>
      rw [hnil]
      rfl
    · next hne =>
      rw [lines, pieces_open_line hline hne, List.map_singleton, chomp_of_not_mem hline]
      rfl

namespace LineAround

variable {cs : List Char} {n : Nat} (r : LineAround cs n)

/-- Among the lines of the text, the line has the number of line feeds above it. Nothing is there if
the text has ended with a line feed, or is empty. -/
theorem getElem?_lines :
    (lines cs)[r.above.count '\n']? = if r.line ++ r.ending = [] then none else some r.line := by
  -- the lines above are as many as their line feeds, so this one is the first of the rest
  have hlines := (congrArg lines r.whole).trans (lines_append r.starts _)
  rw [hlines, ← length_lines r.starts, List.getElem?_append_right le_rfl, Nat.sub_self,
    ← List.head?_eq_getElem?]
  exact head?_lines r.single r.ends

/-- Nothing is left of the last line exactly if the offset is at the end of a text that is empty or
has ended with a line feed. -/
theorem line_append_ending_eq_nil_iff :
    r.line ++ r.ending = [] ↔ n = byteSize cs ∧ EndsLine cs := by
  have hbytes := congrArg byteSize r.cut
  have hsize := r.size
  rw [byteSize_append, byteSize_append] at hbytes
  rw [List.append_eq_nil_iff]
  constructor
  · rintro ⟨hline, hending⟩
    have hbelow : r.below = [] := by
      have hends := r.ends
      rw [hending] at hends
      cases hends with
      | endOfText h => exact h
    have habove : cs = r.above := r.whole.trans (by simp [hline, hending, hbelow])
    have hsame := congrArg byteSize habove
    exact ⟨by omega, habove ▸ r.starts⟩
  · rintro ⟨hn, hends⟩
    have hrest : r.rest = [] := byteSize_eq_zero_iff.1 (by omega)
    have hcut : cs ++ [] = r.above ++ r.front :=
      (List.append_nil cs).trans (r.cut.trans (by rw [hrest, List.append_nil]))
    -- the text has ended its line, so no line is open at its end
    have habove : cs = r.above :=
      (append_inj_of_endsLine hcut hends r.starts List.not_mem_nil r.before).1
    have hnone : r.line ++ (r.ending ++ r.below) = [] :=
      List.append_right_eq_self.1 (r.whole.symm.trans habove)
    simp only [List.append_eq_nil_iff] at hnone
    exact ⟨hnone.1, hnone.2.1⟩

/-- An offset that is not in the ending has its place in the line, behind `front`. -/
theorem exists_line_eq (h : n ≤ byteSize r.above + byteSize r.line) :
    ∃ back, r.line = r.front ++ back := by
  have hsize := r.size
  have hsame : r.line ++ (r.ending ++ r.below) = r.front ++ r.rest :=
    List.append_cancel_left (r.whole.symm.trans r.cut)
  rcases exists_eq_append hsame.symm (by omega) with ⟨back, hline, -⟩
  exact ⟨back, hline⟩

end LineAround

end CallLint.Text
