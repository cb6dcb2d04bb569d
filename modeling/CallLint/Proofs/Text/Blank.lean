import Mathlib.Data.List.TakeWhile
import CallLint.Text.Blank

/-!
# Trimming

What is left of a text without the blanks at both ends. Trimming looks at the ends alone, so blanks
that are added there make no difference, and a text whose ends are not blank stays as it is.

* `trimmed_around`: blanks around a text go away.
* `trimmed_eq_self`: a text with ends that are not blank stays.
* `trimmed_eq_iff`: what a text is trimmed to has only blanks around it.
* `append_inj_of_blanks`: where the blanks in front of a text end.
* `trim_trim`: what has been trimmed stays, so trimming twice is trimming once.
* `trim_eq_empty_iff`: nothing is left of a text of blanks, and of no other text.
-/

namespace CallLint.Text

/-- Whether a text has no characters but blanks. -/
def AllBlank (cs : List Char) : Prop := ∀ c ∈ cs, isBlank c = true

instance (cs : List Char) : Decidable (AllBlank cs) :=
  decidable_of_iff (cs.all isBlank = true) List.all_eq_true

@[simp] theorem allBlank_nil : AllBlank [] := List.forall_mem_nil _

@[simp] theorem allBlank_append_iff {a b : List Char} :
    AllBlank (a ++ b) ↔ AllBlank a ∧ AllBlank b :=
  List.forall_mem_append

/-- The printable ASCII characters other than the space are not blank. -/
theorem isBlank_eq_false {c : Char} (hlow : 0x20 < c.toNat) (hhigh : c.toNat < 0x7F) :
    isBlank c = false := by
  rw [isBlank, List.any_eq_false]
  intro r hr
  simp only [blankRanges, List.mem_cons, List.not_mem_nil, or_false] at hr
  -- every range of blanks ends at the space or before, or starts behind the last ASCII character
  have hrange : r.2 ≤ 0x20 ∨ 0x7F ≤ r.1 := by
    rcases hr with rfl | rfl | rfl | rfl | rfl | rfl | rfl | rfl | rfl | rfl <;> decide
  simp only [Bool.and_eq_true, decide_eq_true_eq]
  omega

/-! Nothing is left of blanks, whichever end is trimmed. -/

theorem trimLeft_eq_nil_iff {cs : List Char} : trimLeft cs = [] ↔ ∀ c ∈ cs, isBlank c = true := by
  rw [trimLeft, List.dropWhile_eq_nil_iff]

theorem trimRight_eq_nil_iff {cs : List Char} : trimRight cs = [] ↔ ∀ c ∈ cs, isBlank c = true := by
  rw [trimRight, List.reverse_eq_nil_iff, List.dropWhile_eq_nil_iff]
  simp only [List.mem_reverse]

theorem trimmed_eq_nil_iff {cs : List Char} : trimmed cs = [] ↔ ∀ c ∈ cs, isBlank c = true := by
  rw [trimmed, trimRight_eq_nil_iff]
  constructor
  · intro h
    -- what is left after trimming the front does not start with a blank
    have hnil : trimLeft cs = [] := by
      cases hleft : trimLeft cs with
      | nil => rfl
      | cons c rest =>
        have hblank : isBlank c = true := h c (by simp [hleft])
        have hlead := List.head?_dropWhile_not isBlank cs
        rw [show cs.dropWhile isBlank = c :: rest from hleft, List.head?_cons] at hlead
        simp [hblank] at hlead
    exact trimLeft_eq_nil_iff.1 hnil
  · intro h c hc
    rw [trimLeft_eq_nil_iff.2 h] at hc
    cases hc

/-- Trimming leaves nothing of a text of blanks, and something of every other text. -/
theorem trim_eq_empty_iff {s : String} : trim s = "" ↔ ∀ c ∈ s.toList, isBlank c = true := by
  rw [trim, String.ofList_eq_empty_iff, trimmed_eq_nil_iff]

/-- Trimming the end leaves the front as it is. -/
theorem trimRight_prefix (cs : List Char) : trimRight cs <+: cs := by
  have hsuffix := List.dropWhile_suffix (l := cs.reverse) isBlank
  rw [← List.reverse_prefix, List.reverse_reverse] at hsuffix
  exact hsuffix

theorem trimLeft_append_blanks {lead : List Char} (h : AllBlank lead) (cs : List Char) :
    trimLeft (lead ++ cs) = trimLeft cs := List.dropWhile_append_of_pos h

theorem trimRight_append_blanks {tail : List Char} (h : AllBlank tail) (cs : List Char) :
    trimRight (cs ++ tail) = trimRight cs := by
  have hreverse : ∀ c ∈ tail.reverse, isBlank c = true := fun c hc => h c (List.mem_reverse.1 hc)
  rw [trimRight, trimRight, List.reverse_append, List.dropWhile_append_of_pos hreverse]

/-- Blanks at the end make no difference. -/
theorem trimmed_append_blanks {tail : List Char} (h : AllBlank tail) (cs : List Char) :
    trimmed (cs ++ tail) = trimmed cs := by
  by_cases hall : AllBlank cs
  · -- nothing is left of either text
    rw [trimmed_eq_nil_iff.2 (allBlank_append_iff.2 ⟨hall, h⟩), trimmed_eq_nil_iff.2 hall]
  · -- the front stays the same, and then the blanks are at the end of what is left
    have hleft : trimLeft (cs ++ tail) = trimLeft cs ++ tail := by
      have hne : ¬ (cs.dropWhile isBlank).isEmpty = true := by
        rw [List.isEmpty_iff]
        exact fun hnil => hall (trimLeft_eq_nil_iff.1 hnil)
      rw [trimLeft, trimLeft, List.dropWhile_append, if_neg hne]
    rw [trimmed, trimmed, hleft, trimRight_append_blanks h]

theorem trimmed_append_blank {c : Char} (h : isBlank c = true) (cs : List Char) :
    trimmed (cs ++ [c]) = trimmed cs := trimmed_append_blanks (List.forall_mem_singleton.2 h) cs

/-- Blanks around a text make no difference. -/
theorem trimmed_around {lead tail : List Char} (hlead : AllBlank lead) (htail : AllBlank tail)
    (cs : List Char) : trimmed (lead ++ cs ++ tail) = trimmed cs := by
  rw [trimmed_append_blanks htail, trimmed, trimLeft_append_blanks hlead]
  rfl

/-- A text that neither starts nor ends with a blank stays as it is. -/
theorem trimmed_eq_self {cs : List Char} (hlead : ∀ c ∈ cs.head?, isBlank c = false)
    (hlast : ∀ c ∈ cs.getLast?, isBlank c = false) : trimmed cs = cs := by
  have hkeep : ∀ l : List Char, (∀ c ∈ l.head?, isBlank c = false) → l.dropWhile isBlank = l := by
    intro l hl
    cases l with
    | nil => rfl
    | cons c rest => exact List.dropWhile_cons_of_neg (by simp [hl c rfl])
  have hleft : trimLeft cs = cs := hkeep cs hlead
  have hright : trimRight cs = cs := by
    rw [trimRight, hkeep cs.reverse (by rwa [List.head?_reverse]), List.reverse_reverse]
  rw [trimmed, hleft, hright]

/-- What is left behind the blanks at the front does not start with one. -/
theorem not_blank_of_mem_head?_dropWhile {cs : List Char} {c : Char}
    (h : c ∈ (cs.dropWhile isBlank).head?) : isBlank c = false := by
  have hlead := List.head?_dropWhile_not isBlank cs
  rw [Option.mem_def.1 h] at hlead
  simpa using hlead

/-- Trimming twice is trimming once. -/
@[simp] theorem trimmed_trimmed (cs : List Char) : trimmed (trimmed cs) = trimmed cs := by
  apply trimmed_eq_self
  · intro c hc
    -- what is left at the end does not change the front
    have hlead : c ∈ (trimLeft cs).head? := by
      rcases trimRight_prefix (trimLeft cs) with ⟨rest, hrest⟩
      have hright : (trimRight (trimLeft cs)).head? = some c := hc
      rw [← hrest, List.head?_append, hright]
      rfl
    exact not_blank_of_mem_head?_dropWhile hlead
  · -- the end has been trimmed last
    intro c hc
    rw [trimmed, trimRight, List.getLast?_reverse] at hc
    exact not_blank_of_mem_head?_dropWhile hc

@[simp] theorem trim_trim (s : String) : trim (trim s) = trim s := by
  rw [trim, trim, String.toList_ofList, trimmed_trimmed]

/-! ## Blanks around a text -/

theorem trimLeft_cons_of_not_blank {c : Char} (h : isBlank c = false) (cs : List Char) :
    trimLeft (c :: cs) = c :: cs := List.dropWhile_cons_of_neg (by simp [h])

/-- A text falls in only one way into blanks and a rest that does not start with a blank. -/
theorem append_inj_of_blanks {a b x y : List Char} (h : a ++ x = b ++ y) (ha : AllBlank a)
    (hb : AllBlank b) (hx : trimLeft x = x) (hy : trimLeft y = y) : a = b ∧ x = y := by
  -- both rests are what trimming the front leaves
  have hrest : x = y := by
    rw [← hx, ← hy, ← trimLeft_append_blanks ha, h, trimLeft_append_blanks hb]
  rw [hrest] at h
  exact ⟨List.append_cancel_right h, hrest⟩

/-- What is trimmed away are blanks. -/
theorem exists_around_trimmed (cs : List Char) :
    ∃ lead tail, AllBlank lead ∧ AllBlank tail ∧ cs = lead ++ trimmed cs ++ tail := by
  have hblank : ∀ l : List Char, AllBlank (l.takeWhile isBlank) :=
    fun l c hc => List.mem_takeWhile_imp hc
  refine ⟨cs.takeWhile isBlank, ((trimLeft cs).reverse.takeWhile isBlank).reverse, hblank cs, ?_,
    ?_⟩
  · intro c hc
    exact hblank _ c (List.mem_reverse.1 hc)
  · have hright :
        trimmed cs ++ ((trimLeft cs).reverse.takeWhile isBlank).reverse = trimLeft cs := by
      rw [trimmed, trimRight, ← List.reverse_append, List.takeWhile_append_dropWhile,
        List.reverse_reverse]
    rw [List.append_assoc, hright, trimLeft, List.takeWhile_append_dropWhile]

/-- What a text is trimmed to stays when it is trimmed, and only blanks are around it. -/
theorem trimmed_eq_iff {cs t : List Char} :
    trimmed cs = t ↔
      trimmed t = t ∧ ∃ lead tail, AllBlank lead ∧ AllBlank tail ∧ cs = lead ++ t ++ tail := by
  constructor
  · rintro rfl
    exact ⟨trimmed_trimmed cs, exists_around_trimmed cs⟩
  · rintro ⟨ht, lead, tail, hlead, htail, rfl⟩
    rw [trimmed_around hlead htail, ht]

/-- Trimming the front first makes no difference. -/
@[simp] theorem trimmed_trimLeft (cs : List Char) : trimmed (trimLeft cs) = trimmed cs := by
  have hlead : AllBlank (cs.takeWhile isBlank) := fun c hc => List.mem_takeWhile_imp hc
  have hsplit : cs.takeWhile isBlank ++ trimLeft cs ++ [] = cs := by
    rw [trimLeft, List.append_nil, List.takeWhile_append_dropWhile]
  have haround := trimmed_around hlead allBlank_nil (trimLeft cs)
  rw [hsplit] at haround
  exact haround.symm

/-- In front of a last character that is not blank, only the blanks at the start go away. -/
theorem trimmed_concat {c : Char} (h : isBlank c = false) (cs : List Char) :
    trimmed (cs ++ [c]) = trimLeft cs ++ [c] := by
  have hleft : trimLeft (cs ++ [c]) = trimLeft cs ++ [c] := by
    rw [trimLeft, trimLeft, List.dropWhile_append]
    split
    · -- only blanks are in front of the last character
      next hnil =>
      rw [List.isEmpty_iff.1 hnil]
      exact trimLeft_cons_of_not_blank h []
    · rfl
  have hright : trimRight (trimLeft cs ++ [c]) = trimLeft cs ++ [c] := by
    rw [trimRight, List.reverse_append, List.reverse_singleton, List.singleton_append,
      List.dropWhile_cons_of_neg (by simp [h]), List.reverse_cons, List.reverse_reverse]
  rw [trimmed, hleft, hright]

end CallLint.Text
