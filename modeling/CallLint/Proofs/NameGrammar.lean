import CallLint.QualifiedName

/-!
# The grammar of qualified names

Names are recognised from left to right, and the reader only knows whether it is at the start of a
segment or inside of one. What it accepts is told here by the grammar: a name that is cut at every
dot falls into segments. No segment is empty, and each character of a name is a visible one of
ASCII.

* `IsSegment`, `IsName`: the grammar.
* `isWellFormed_iff_isName`: the reader accepts the names of the grammar, and no other texts.
* `getLast?_splitOn_dot`: what follows the last dot is the last segment.
-/

namespace CallLint.QualifiedName

/-- The ASCII letters, the underscore and the dollar sign. -/
def Leads (c : Char) : Prop := 'A' ≤ c ∧ c ≤ 'Z' ∨ 'a' ≤ c ∧ c ≤ 'z' ∨ c = '_' ∨ c = '$'

/-- The characters that lead, and the ASCII digits. -/
def GoesOn (c : Char) : Prop := Leads c ∨ '0' ≤ c ∧ c ≤ '9'

/-- Some characters of which the first one leads and the others go on. -/
inductive IsSegment : List Char → Prop
  | intro {c : Char} {cs : List Char} (hlead : Leads c) (hparts : ∀ d ∈ cs, GoesOn d) :
    IsSegment (c :: cs)

/-- Whether all that stands between the dots of a text are segments. -/
def IsName (name : String) : Prop := ∀ segment ∈ name.toList.splitOn '.', IsSegment segment

/-! ## Characters -/

@[simp] theorem isLead_iff {c : Char} : isLead c = true ↔ Leads c := by
  have hranges : isLead c =
      (decide ('A' ≤ c ∧ c ≤ 'Z') || (decide ('a' ≤ c) && decide (c ≤ 'z')) || c = '_' ||
        c = '$') := rfl
  rw [hranges, Bool.or_eq_true, Bool.or_eq_true, Bool.or_eq_true, Bool.and_eq_true,
    decide_eq_true_eq, decide_eq_true_eq, decide_eq_true_eq, decide_eq_true_eq, decide_eq_true_eq,
    or_assoc, or_assoc]
  exact Iff.rfl

@[simp] theorem isPart_iff {c : Char} : isPart c = true ↔ GoesOn c := by
  rw [isPart, Bool.or_eq_true, isLead_iff, GoesOn, Char.isDigit, Bool.and_eq_true,
    decide_eq_true_eq, decide_eq_true_eq]
  rfl

@[simp] theorem not_isSegment_nil : ¬ IsSegment [] := nofun

@[simp] theorem isSegment_cons_iff {c : Char} {cs : List Char} :
    IsSegment (c :: cs) ↔ Leads c ∧ ∀ d ∈ cs, GoesOn d := by
  constructor
  · rintro ⟨hlead, hparts⟩
    exact ⟨hlead, hparts⟩
  · rintro ⟨hlead, hparts⟩
    exact ⟨hlead, hparts⟩

/-- What leads also goes on. -/
theorem IsSegment.goesOn {segment : List Char} (h : IsSegment segment) :
    ∀ c ∈ segment, GoesOn c := by
  rcases h with ⟨hlead, hparts⟩
  intro c hc
  rcases List.mem_cons.1 hc with rfl | hc
  · exact .inl hlead
  · exact hparts c hc

/-- All characters of names are visible ASCII characters. -/
theorem GoesOn.visible {c : Char} (h : GoesOn c) : 0x20 < c.toNat ∧ c.toNat < 0x7F := by
  have hrange : ∀ first last : Char, 0x20 < first.toNat → last.toNat < 0x7F → first ≤ c ∧ c ≤ last →
      0x20 < c.toNat ∧ c.toNat < 0x7F := by
    intro first last hfirst hlast hc
    exact ⟨Nat.lt_of_lt_of_le hfirst hc.1, Nat.lt_of_le_of_lt hc.2 hlast⟩
  -- three ranges, and two characters of their own
  rcases h with (hupper | hlower | rfl | rfl) | hdigit
  · exact hrange 'A' 'Z' (by decide) (by decide) hupper
  · exact hrange 'a' 'z' (by decide) (by decide) hlower
  · decide
  · decide
  · exact hrange '0' '9' (by decide) (by decide) hdigit

/-! ## Segments -/

/-- Whether the parts of a text are the rest of a segment, and then segments. -/
def Continues : List (List Char) → Prop
  | [] => False
  | first :: rest => (∀ c ∈ first, GoesOn c) ∧ ∀ segment ∈ rest, IsSegment segment

/-- What the reader accepts in either state. -/
theorem reads_iff (cs : List Char) :
    (startsSegment cs = true ↔ ∀ segment ∈ cs.splitOn '.', IsSegment segment) ∧
      (continuesSegment cs = true ↔ Continues (cs.splitOn '.')) := by
  -- either state may lead to the other one, so both are told at once
  induction cs with
  | nil =>
    rw [List.splitOn_nil]
    constructor
    · simp [startsSegment]
    · simp [continuesSegment, Continues]
  | cons c cs ih =>
    rcases List.exists_cons_of_ne_nil (List.splitOn_ne_nil '.' cs) with ⟨first, rest, hsplit⟩
    rw [startsSegment, continuesSegment, List.splitOn_cons_eq_if_modifyHead]
    by_cases hdot : c = '.'
    · -- a dot ends a segment, so none may start with it
      have hlead : isLead c = false := by
        rw [hdot]
        decide
      rw [if_pos (beq_iff_eq.2 hdot), if_pos hdot, hlead, ih.1]
      constructor
      · simp
      · simp [Continues]
    · -- any other character belongs to the first part, with which the reader goes on
      rw [hsplit] at ih ⊢
      rw [if_neg (mt beq_iff_eq.1 hdot), if_neg hdot, List.modifyHead_cons, Bool.and_eq_true,
        Bool.and_eq_true, isLead_iff, isPart_iff, ih.2]
      constructor
      · simp [Continues, and_assoc]
      · simp [Continues, and_assoc]

/-- The well-formed names are the names of the grammar. -/
theorem isWellFormed_iff_isName {name : String} : isWellFormed name = true ↔ IsName name :=
  (reads_iff name.toList).1

/-- A character that is no dot stands in a part between dots. -/
theorem exists_part_of_mem {cs : List Char} {c : Char} (hc : c ∈ cs) (hdot : c ≠ '.') :
    ∃ part ∈ cs.splitOn '.', c ∈ part := by
  induction cs with
  | nil => cases hc
  | cons d cs ih =>
    rw [List.splitOn_cons_eq_if_modifyHead]
    by_cases hd : d = '.'
    · rw [if_pos (beq_iff_eq.2 hd)]
      rcases List.mem_cons.1 hc with rfl | hc
      · exact absurd hd hdot
      · rcases ih hc with ⟨part, hpart, hc⟩
        exact ⟨part, List.mem_cons_of_mem _ hpart, hc⟩
    · rcases List.exists_cons_of_ne_nil (List.splitOn_ne_nil '.' cs) with ⟨first, rest, hsplit⟩
      rw [hsplit] at ih ⊢
      rw [if_neg (mt beq_iff_eq.1 hd), List.modifyHead_cons]
      rcases List.mem_cons.1 hc with rfl | hc
      · exact ⟨_, List.mem_cons_self, List.mem_cons_self⟩
      · rcases ih hc with ⟨part, hpart, hc⟩
        rcases List.mem_cons.1 hpart with rfl | hpart
        · exact ⟨_, List.mem_cons_self, List.mem_cons_of_mem d hc⟩
        · exact ⟨part, List.mem_cons_of_mem _ hpart, hc⟩

/-- So are all characters of a name: a dot is one too. -/
theorem IsName.visible {name : String} (h : IsName name) :
    ∀ c ∈ name.toList, 0x20 < c.toNat ∧ c.toNat < 0x7F := by
  intro c hc
  by_cases hdot : c = '.'
  · rw [hdot]
    decide
  · rcases exists_part_of_mem hc hdot with ⟨segment, hsegment, hc⟩
    exact ((h segment hsegment).goesOn c hc).visible

/-! ## The last segment -/

/-- What follows the last dot is the last part of a text that is cut at every dot. -/
theorem getLast?_splitOn_dot (name : String) :
    (name.toList.splitOn '.').getLast? = some (lastSegment name).toList := by
  have htail : (lastSegment name).toList = (name.toList.reverse.takeWhile (· ≠ '.')).reverse := by
    rw [lastSegment, String.toList_ofList]
  have hdots : '.' ∉ (lastSegment name).toList := by
    rw [htail, List.mem_reverse]
    intro hdot
    have hpassed :=
      List.all_takeWhile (p := fun c : Char => decide (c ≠ '.')) (l := name.toList.reverse)
    simpa using List.all_eq_true.1 hpassed '.' hdot
  have hname : name.toList =
      (name.toList.reverse.dropWhile (· ≠ '.')).reverse ++ (lastSegment name).toList := by
    rw [htail, ← List.reverse_append, List.takeWhile_append_dropWhile, List.reverse_reverse]
  cases hfront : name.toList.reverse.dropWhile (· ≠ '.') with
  | nil =>
    -- no dot at all
    rw [hfront, List.reverse_nil, List.nil_append] at hname
    rw [hname, List.splitOn_eq_singleton hdots]
    rfl
  | cons c front =>
    -- the first character that is passed over is the last dot
    have hdot : c = '.' := by
      have hhead := List.head?_dropWhile_not (fun c : Char => decide (c ≠ '.')) name.toList.reverse
      rw [hfront] at hhead
      simpa using hhead
    rw [hfront, List.reverse_cons, List.append_assoc, List.singleton_append, hdot] at hname
    rw [hname, List.splitOn_append_cons_self, List.splitOn_eq_singleton hdots, List.getLast?_concat]

/-- So the last segment of a name is one. -/
theorem IsName.lastSegment {name : String} (h : IsName name) :
    IsSegment (lastSegment name).toList :=
  h _ (List.mem_of_getLast? (getLast?_splitOn_dot name))

end CallLint.QualifiedName
