import CallLint.Proofs.Text.Blank
import CallLint.Text.Line

/-!
# Pieces and lines

How the pieces of a text follow from the pieces of its parts. A text that ends its line can be cut
off in front of any other text; where a line is still open, a line feed closes it and adds nothing
else.

* `pieces_append`: the pieces of two parts, if the first one ends its line.
* `pieces_append_feed`: a line feed at the end only makes the last piece longer.
* `exists_append_of_pieces`: the pieces from one on are those of the rest of the text.
* `exists_splitOn_insert`: lines put between two parts leave the other lines as they are.
* `trimmed_chomp`: a trimmed line is the trimmed piece.
-/

namespace CallLint.Text

/-- Whether a text is empty or has a line feed at its end, so that what follows starts a line. -/
def EndsLine (cs : List Char) : Prop := ∀ c ∈ cs.getLast?, c = '\n'

instance (cs : List Char) : Decidable (EndsLine cs) :=
  inferInstanceAs (Decidable (∀ c ∈ cs.getLast?, c = '\n'))

@[simp] theorem endsLine_nil : EndsLine [] := by
  intro c hc
  cases hc

@[simp] theorem endsLine_append_feed (cs : List Char) : EndsLine (cs ++ ['\n']) := by
  intro c hc
  rw [List.getLast?_concat] at hc
  exact (Option.some.inj hc).symm

/-- Only the end of a text matters, so a first character does not, unless it is the only one. -/
theorem endsLine_cons {c : Char} {cs : List Char} (h : cs ≠ []) :
    EndsLine (c :: cs) ↔ EndsLine cs := by
  rw [EndsLine, EndsLine, List.getLast?_cons_of_ne_nil h]

theorem endsLine_tail {c : Char} {cs : List Char} (h : EndsLine (c :: cs)) : EndsLine cs := by
  by_cases hcs : cs = []
  · rw [hcs]
    exact endsLine_nil
  · exact (endsLine_cons hcs).1 h

/-- Where a line goes on, its end comes later. -/
theorem ne_nil_of_endsLine_cons {c : Char} {cs : List Char} (hc : c ≠ '\n')
    (h : EndsLine (c :: cs)) : cs ≠ [] := by
  rintro rfl
  exact hc (h c rfl)

/-- Texts that end their lines do so one after the other. -/
theorem endsLine_append {a b : List Char} (ha : EndsLine a) (hb : EndsLine b) :
    EndsLine (a ++ b) := by
  intro c hc
  rw [List.getLast?_append] at hc
  cases hlast : b.getLast? with
  | none =>
    -- the second text is empty, so the last character is that of the first one
    rw [hlast, Option.none_or] at hc
    exact ha c hc
  | some d =>
    rw [hlast, Option.some_or] at hc
    exact hb c (hlast.trans hc)

/-- So do any number of them. -/
theorem endsLine_flatten {parts : List (List Char)} (h : ∀ part ∈ parts, EndsLine part) :
    EndsLine parts.flatten := by
  induction parts with
  | nil => exact endsLine_nil
  | cons part parts ih =>
    rw [List.flatten_cons]
    have hrest := ih fun q hq => h q (List.mem_cons_of_mem part hq)
    exact endsLine_append (h part List.mem_cons_self) hrest

/-- A text ends its line if it is empty or its last character is a line feed. -/
theorem endsLine_iff {cs : List Char} : EndsLine cs ↔ cs = [] ∨ ∃ line, cs = line ++ ['\n'] := by
  constructor
  · intro h
    rcases List.eq_nil_or_concat cs with rfl | ⟨line, c, rfl⟩
    · exact .inl rfl
    · rw [List.concat_eq_append] at h ⊢
      have hc : c = '\n' := h c List.getLast?_concat
      exact .inr ⟨line, by rw [hc]⟩
  · rintro (rfl | ⟨line, rfl⟩)
    · exact endsLine_nil
    · exact endsLine_append_feed line

/-! ## Pieces -/

@[simp] theorem pieces_cons_feed (cs : List Char) : pieces ('\n' :: cs) = ['\n'] :: pieces cs := by
  rw [pieces, if_pos rfl]

/-- Any other character belongs to the first piece of what follows. -/
theorem pieces_cons_of_ne {c : Char} (h : c ≠ '\n') {cs p : List Char} {ps : List (List Char)}
    (hcs : pieces cs = p :: ps) : pieces (c :: cs) = (c :: p) :: ps := by
  rw [pieces, if_neg h, hcs]

@[simp] theorem pieces_eq_nil_iff {cs : List Char} : pieces cs = [] ↔ cs = [] := by
  constructor
  · intro h
    rw [← pieces_flatten cs, h, List.flatten_nil]
  · rintro rfl
    rfl

theorem exists_pieces_eq_cons {cs : List Char} (h : cs ≠ []) : ∃ p ps, pieces cs = p :: ps :=
  List.exists_cons_of_ne_nil fun hnil => h (pieces_eq_nil_iff.1 hnil)

/-- A text that ends its line can be cut off. -/
theorem pieces_append {a : List Char} (ha : EndsLine a) (b : List Char) :
    pieces (a ++ b) = pieces a ++ pieces b := by
  -- the claim passes to what follows the first character, as that ends its line too
  induction a with
  | nil => rfl
  | cons c a ih =>
    rw [List.cons_append]
    by_cases hc : c = '\n'
    · rw [hc, pieces_cons_feed, pieces_cons_feed, ih (endsLine_tail ha), List.cons_append]
    · -- the line goes on, so `a` has its end
      have hne : a ≠ [] := ne_nil_of_endsLine_cons hc ha
      rcases exists_pieces_eq_cons hne with ⟨p, ps, hps⟩
      have happend : pieces (a ++ b) = p :: (ps ++ pieces b) := by
        rw [ih ((endsLine_cons hne).1 ha), hps, List.cons_append]
      rw [pieces_cons_of_ne hc happend, pieces_cons_of_ne hc hps, List.cons_append]

/-- A line feed closes the last line where it is open. -/
theorem pieces_append_feed {cs : List Char} (h : ¬ EndsLine cs) :
    ∃ front last, pieces cs = front ++ [last] ∧
      pieces (cs ++ ['\n']) = front ++ [last ++ ['\n']] := by
  induction cs with
  | nil => exact absurd endsLine_nil h
  | cons c cs ih =>
    rw [List.cons_append]
    by_cases hc : c = '\n'
    · -- a piece of its own, and the open line is behind it
      have hne : cs ≠ [] := by
        rintro rfl
        exact h (by rw [hc]; exact endsLine_append_feed [])
      rw [endsLine_cons hne] at h
      rcases ih h with ⟨front, last, hcs, hfeed⟩
      refine ⟨['\n'] :: front, last, ?_, ?_⟩
      · rw [hc, pieces_cons_feed, hcs, List.cons_append]
      · rw [hc, pieces_cons_feed, hfeed, List.cons_append]
    · cases cs with
      | nil => exact ⟨[], [c], by simp [pieces, hc], by simp [pieces, hc]⟩
      | cons d cs =>
        rw [endsLine_cons (List.cons_ne_nil d cs)] at h
        rcases ih h with ⟨front, last, hcs, hfeed⟩
        -- the first piece takes `c`, be it the last one too or not
        cases front with
        | nil =>
          rw [List.nil_append] at hcs hfeed
          exact ⟨[], c :: last, pieces_cons_of_ne hc hcs, pieces_cons_of_ne hc hfeed⟩
        | cons p front =>
          rw [List.cons_append] at hcs hfeed
          exact ⟨(c :: p) :: front, last, pieces_cons_of_ne hc hcs, pieces_cons_of_ne hc hfeed⟩

/-- A line without line feeds is one piece with the line feed that ends it. -/
theorem pieces_line {line : List Char} (h : '\n' ∉ line) :
    pieces (line ++ ['\n']) = [line ++ ['\n']] := by
  induction line with
  | nil => rfl
  | cons c line ih =>
    rw [List.mem_cons, not_or] at h
    exact pieces_cons_of_ne (Ne.symm h.1) (ih h.2)

/-- A line that is still open is one piece. -/
theorem pieces_open_line {line : List Char} (h : '\n' ∉ line) (hne : line ≠ []) :
    pieces line = [line] := by
  induction line with
  | nil => exact absurd rfl hne
  | cons c line ih =>
    rw [List.mem_cons, not_or] at h
    by_cases hline : line = []
    · rw [hline, pieces, if_neg (Ne.symm h.1)]
      rfl
    · exact pieces_cons_of_ne (Ne.symm h.1) (ih h.2 hline)

/-- The first piece of a text, and the pieces of the rest. -/
theorem exists_first_piece {cs : List Char} (h : cs ≠ []) :
    ∃ p rest, cs = p ++ rest ∧ pieces cs = p :: pieces rest ∧ p ≠ [] ∧
      (EndsLine p ∨ rest = []) := by
  induction cs with
  | nil => exact absurd rfl h
  | cons c cs ih =>
    by_cases hc : c = '\n'
    · -- a line feed is a piece of its own
      refine ⟨['\n'], cs, by rw [hc]; rfl, by rw [hc, pieces_cons_feed], List.cons_ne_nil _ _,
        .inl ?_⟩
      exact endsLine_append_feed []
    · by_cases hcs : cs = []
      · -- a line that is still open
        subst hcs
        exact ⟨[c], [], rfl, by simp [pieces, hc], List.cons_ne_nil c [], .inr rfl⟩
      · -- the first piece of what follows begins one character earlier
        rcases ih hcs with ⟨p, rest, hsplit, hpieces, hne, hends⟩
        refine ⟨c :: p, rest, by rw [hsplit, List.cons_append], pieces_cons_of_ne hc hpieces,
          List.cons_ne_nil c p, ?_⟩
        exact hends.imp_left (endsLine_cons hne).2

/-- A cut between two pieces is a cut of the text, and the first part ends its line there. -/
theorem exists_append_of_pieces {cs : List Char} {above below : List (List Char)}
    (h : pieces cs = above ++ below) :
    ∃ a b, cs = a ++ b ∧ pieces a = above ∧ pieces b = below ∧ (EndsLine a ∨ b = []) := by
  -- the text without its first piece has the pieces that are left
  induction above generalizing cs with
  | nil => exact ⟨[], cs, rfl, rfl, h, .inl endsLine_nil⟩
  | cons p above ih =>
    have hne : cs ≠ [] := by
      rintro rfl
      cases h
    rcases exists_first_piece hne with ⟨q, rest, rfl, hpieces, -, hends⟩
    rw [hpieces, List.cons_append] at h
    rcases List.cons.inj h with ⟨rfl, hrest⟩
    have hq : pieces q = [q] := by
      rcases hends with hends | rfl
      · rw [pieces_append hends] at hpieces
        exact List.append_cancel_right hpieces
      · rw [List.append_nil] at hpieces
        exact hpieces
    rcases hends with hends | rfl
    · rcases ih hrest with ⟨a, b, rfl, ha, hb, hcut⟩
      refine ⟨q ++ a, b, (List.append_assoc q a b).symm, ?_, hb, ?_⟩
      · rw [pieces_append hends, hq, ha, List.singleton_append]
      · exact hcut.imp_left (endsLine_append hends)
    · -- nothing follows the open line, so it is the last piece
      rcases List.append_eq_nil_iff.1 hrest.symm with ⟨rfl, rfl⟩
      exact ⟨q, [], rfl, hq, rfl, .inr rfl⟩

/-! ## Lines between line feeds -/

/-- The lines of a text that ends its line come before those of what follows, whatever that is. -/
theorem exists_splitOn_append {a : List Char} (h : EndsLine a) :
    ∃ lines : List (List Char), ∀ b, (a ++ b).splitOn '\n' = lines ++ b.splitOn '\n' := by
  rcases endsLine_iff.1 h with rfl | ⟨line, rfl⟩
  · exact ⟨[], fun b => rfl⟩
  · refine ⟨line.splitOn '\n', fun b => ?_⟩
    rw [List.append_assoc, List.singleton_append, List.splitOn_append_cons_self]

/-- Lines put in where no line is open, or at the end after a line feed, leave all other lines as
they are. -/
theorem exists_splitOn_insert {lead block rest : List Char}
    (h : (EndsLine lead ∧ EndsLine block) ∨ (rest = [] ∧ ∃ lines, block = '\n' :: lines)) :
    ∃ above new below : List (List Char), (lead ++ rest).splitOn '\n' = above ++ below ∧
      (lead ++ block ++ rest).splitOn '\n' = above ++ new ++ below := by
  rcases h with ⟨hlead, hblock⟩ | ⟨rfl, lines, rfl⟩
  · -- no line is open where the block starts, nor where it ends
    rcases exists_splitOn_append hlead with ⟨above, habove⟩
    rcases exists_splitOn_append hblock with ⟨new, hnew⟩
    refine ⟨above, new, rest.splitOn '\n', habove rest, ?_⟩
    rw [List.append_assoc, habove, hnew, List.append_assoc]
  · -- the line feed of the block closes the last line
    refine ⟨lead.splitOn '\n', lines.splitOn '\n', [], ?_, ?_⟩
    · rw [List.append_nil, List.append_nil]
    · rw [List.append_nil, List.append_nil, List.splitOn_append_cons_self]

/-! ## Lines without their endings -/

@[simp] theorem stripLast?_eq_some_iff {c : Char} {cs rest : List Char} :
    stripLast? c cs = some rest ↔ cs = rest ++ [c] := by
  unfold stripLast?
  constructor
  · intro h
    split at h
    · next hlast =>
      rcases List.getLast?_eq_some_iff.1 hlast with ⟨front, rfl⟩
      rw [List.dropLast_concat] at h
      rw [Option.some.inj h]
    · cases h
  · rintro rfl
    rw [if_pos List.getLast?_concat, List.dropLast_concat]

@[simp] theorem after?_eq_some_iff {lead : String} {cs rest : List Char} :
    after? lead cs = some rest ↔ cs = lead.toList ++ rest := by
  unfold after?
  constructor
  · intro h
    split at h
    · next hprefix =>
      rcases List.isPrefixOf_iff_prefix.1 hprefix with ⟨tail, rfl⟩
      rw [List.drop_left] at h
      rw [Option.some.inj h]
    · cases h
  · rintro rfl
    rw [if_pos (List.isPrefixOf_iff_prefix.2 (List.prefix_append _ _)), List.drop_left]

/-- The ending of a line is blank, so it makes no difference to a trimmed line. -/
theorem trimmed_chomp (piece : List Char) : trimmed (chomp piece) = trimmed piece := by
  have hblankFeed : isBlank '\n' = true := by decide
  have hblankReturn : isBlank '\r' = true := by decide
  unfold chomp
  split
  · rfl
  · -- the line feed goes away, and then a carriage return if there is one
    next line hfeed =>
    rw [stripLast?_eq_some_iff.1 hfeed, trimmed_append_blank hblankFeed]
    cases hreturn : stripLast? '\r' line with
    | none => rfl
    | some rest =>
      rw [stripLast?_eq_some_iff.1 hreturn, trimmed_append_blank hblankReturn]
      rfl

end CallLint.Text
