import CallLint.Codec.Config
import CallLint.Codec.Diagnostic
import CallLint.Proofs.Sorted.Map
import CallLint.Proofs.Sorted.Set

/-!
# Reading back what is written

A reader and a writer for the same values. Writing loses nothing of what has been read if every
value that the reader gives for some document is read back from what the writer writes for it. This
holds of the parts that all records are made of, and it carries over from the parts to lists, sets,
maps and optional values.

* `ReadBack`, `Lossless`: for one value, and for all values that can be read.
* `lossless_listOf`, `lossless_textSet`, `lossless_mapOf`, `lossless_orNull`: how it carries over.
* `fields?_object`: what is found in an object with different names.
* `exists_of_required`, `exists_of_withDefault`: reading a record goes from field to field, and each
  field that has been read is read back.
-/

namespace CallLint

variable {α β : Type}

/-- A value is read back from what is written for it. -/
def ReadBack (read : Json → Option α) (write : α → Json) (a : α) : Prop := read (write a) = some a

/-- Every value that is read is read back from what is written for it. -/
def Lossless (read : Json → Option α) (write : α → Json) : Prop :=
  ∀ v a, read v = some a → ReadBack read write a

namespace Json

/-- An item is no deeper than all items together. -/
theorem depth_le_depthOfItems {items : List Json} {v : Json} (h : v ∈ items) :
    v.depth ≤ depthOfItems items := by
  induction items with
  | nil => cases h
  | cons w items ih =>
    rw [depthOfItems]
    rcases List.mem_cons.1 h with rfl | h
    · exact Nat.le_max_left _ _
    · exact Nat.le_trans (ih h) (Nat.le_max_right _ _)

/-- So is the value of a field. -/
theorem depth_le_depthOfFields {fields : List (String × Json)} {name : String} {v : Json}
    (h : (name, v) ∈ fields) : v.depth ≤ depthOfFields fields := by
  induction fields with
  | nil => cases h
  | cons field fields ih =>
    rw [depthOfFields]
    rcases List.mem_cons.1 h with rfl | h
    · exact Nat.le_max_left _ _
    · exact Nat.le_trans (ih h) (Nat.le_max_right _ _)

end Json

/-! ## Single values -/

theorem lossless_text : Lossless DataFormat.text? .text := fun _ _ _ => rfl

theorem lossless_bool : Lossless DataFormat.bool? .bool := fun _ _ _ => rfl

/-- A number that has been read is small enough to be read again. -/
theorem lossless_nat : Lossless DataFormat.nat? .nat := by
  intro v n h
  cases v with
  | nat m =>
    have hlimit : (if m < wordLimit then some m else none) = some n := h
    split at hlimit
    · next hm =>
      cases hlimit
      exact if_pos hm
    · cases hlimit
  | _ => cases h

/-- Looking for the word of a case that has been found by a word finds the case. -/
theorem find?_word_of_find? {cases : List α} {word : α → String} {name : String} {a : α}
    (h : cases.find? (word · = name) = some a) : cases.find? (word · = word a) = some a := by
  have hname : word a = name := by simpa using List.find?_some h
  rw [hname, h]

/-- A case is written as the word that it is read from. -/
theorem lossless_caseOf (cases : List α) (word : α → String) :
    Lossless (caseOf? cases word) fun a => .text (word a) := by
  intro v a h
  rcases Option.bind_eq_some_iff.1 h with ⟨name, -, hfind⟩
  exact find?_word_of_find? hfind

/-! ## Lists, sets and maps -/

/-- What is read back one by one is read back as a list. -/
theorem mapM_map_eq_some {read : β → Option α} {write : α → β} {l : List α}
    (h : ∀ a ∈ l, read (write a) = some a) : (l.map write).mapM read = some l := by
  induction l with
  | nil => rfl
  | cons a l ih =>
    have ha := h a List.mem_cons_self
    have hl := ih fun b hb => h b (List.mem_cons_of_mem a hb)
    rw [List.map_cons, List.mapM_cons, ha, hl]
    rfl

/-- Every member of a list that has been read has been read from a value. -/
theorem exists_of_mem_mapM {read : β → Option α} {vs : List β} {l : List α}
    (h : vs.mapM read = some l) {a : α} (ha : a ∈ l) : ∃ v ∈ vs, read v = some a := by
  induction vs generalizing l with
  | nil =>
    cases h
    cases ha
  | cons v vs ih =>
    rw [List.mapM_cons] at h
    rcases Option.bind_eq_some_iff.1 h with ⟨b, hb, h⟩
    rcases Option.bind_eq_some_iff.1 h with ⟨bs, hbs, h⟩
    cases h
    rcases List.mem_cons.1 ha with rfl | ha
    · exact ⟨v, List.mem_cons_self, hb⟩
    · rcases ih hbs ha with ⟨w, hw, hread⟩
      exact ⟨w, List.mem_cons_of_mem v hw, hread⟩

variable {read : Json → Option α} {write : α → Json}

/-- The items of a list that has been read. -/
theorem readBack_of_mem_listOf (h : Lossless read write) {v : Json} {l : List α}
    (hl : listOf? read v = some l) : ∀ a ∈ l, ReadBack read write a := by
  intro a ha
  rcases Option.bind_eq_some_iff.1 hl with ⟨items, -, hitems⟩
  rcases exists_of_mem_mapM hitems ha with ⟨item, -, hitem⟩
  exact h item a hitem

/-- A list is read back if its items are. -/
theorem readBack_listOf {l : List α} (h : ∀ a ∈ l, ReadBack read write a) :
    ReadBack (listOf? read) (fun l => .list (l.map write)) l := mapM_map_eq_some h

/-- So lists lose nothing if their items do not. -/
theorem lossless_listOf (h : Lossless read write) :
    Lossless (listOf? read) fun l => .list (l.map write) :=
  fun _ _ hl => readBack_listOf (readBack_of_mem_listOf h hl)

/-- The members of a set are written in their order, and make the same set again. -/
theorem lossless_setOf [Ord α] [Std.TransOrd α] (h : Lossless read write) :
    Lossless (fun v => (listOf? read v).map SortedSet.ofList) fun s =>
      .list (s.toList.map write) := by
  intro v s hs
  rcases Option.map_eq_some_iff.1 hs with ⟨l, hl, rfl⟩
  -- the members come from the list that has been read, so they are read back
  have hmembers :
      ReadBack (listOf? read) (fun l => .list (l.map write)) (SortedSet.ofList l).toList :=
    readBack_listOf fun a ha =>
      readBack_of_mem_listOf h hl a (SortedSet.mem_of_mem_toList_ofList ha)
  have hread := congrArg (Option.map SortedSet.ofList) hmembers
  rwa [Option.map_some, SortedSet.ofList_toList] at hread

theorem lossless_textSet : Lossless textSet? encodeTextSet := lossless_setOf lossless_text

/-- The entries of a map are written in the order of their keys, and make the same map again. -/
theorem lossless_mapOf (h : Lossless read write) : Lossless (mapOf? read) (encodeMap write) := by
  intro v m hm
  rcases Option.bind_eq_some_iff.1 hm with ⟨fields, -, hm⟩
  rcases Option.bind_eq_some_iff.1 hm with ⟨entries, hentries, hm⟩
  cases hm
  -- the values come from the fields that have been read, and the keys are written as they are
  have hvalue : ∀ e ∈ (SortedMap.ofList entries).toList, ReadBack read write e.2 := by
    intro e he
    rcases SortedMap.value_of_mem_toList_ofList he with ⟨x, hx, hvalue⟩
    rcases exists_of_mem_mapM hentries hx with ⟨field, -, hfield⟩
    rcases Option.bind_eq_some_iff.1 hfield with ⟨a, ha, hpair⟩
    cases hpair
    rw [hvalue]
    exact h field.2 a ha
  have hback : ((SortedMap.ofList entries).toList.map fun e => (e.1, write e.2)).mapM
      (fun field : String × Json => do return (field.1, ← read field.2)) =
        some (SortedMap.ofList entries).toList := by
    apply mapM_map_eq_some
    intro e he
    rw [hvalue e he]
    rfl
  have hobject : DataFormat.entries? (encodeMap write (SortedMap.ofList entries)) =
      some ((SortedMap.ofList entries).toList.map fun e => (e.1, write e.2)) := rfl
  rw [ReadBack, mapOf?]
  refine Option.bind_eq_some_iff.2 ⟨_, hobject, Option.bind_eq_some_iff.2 ⟨_, hback, ?_⟩⟩
  exact congrArg some (SortedMap.ofList_toList _)

/-- A value that may be absent is read back if what is written for it is never null. -/
theorem lossless_orNull (h : Lossless read write)
    (hnull : ∀ a, DataFormat.isNull (write a) = false) :
    Lossless (Slot.orNull read) (.ofOption write) := by
  intro v a ha
  cases a with
  | none => rfl
  | some a =>
    -- there is a value, so it has not been null, and what is written for it is not either
    have hread : read v = some a := by
      unfold Slot.orNull at ha
      split at ha
      · cases ha
      · simpa using ha
    have hback : read (write a) = some a := h v a hread
    show (if DataFormat.isNull (write a) then some none else (read (write a)).map some) =
        some (some a)
    rw [if_neg (by simp [hnull]), hback]
    rfl

theorem lossless_optionalText : Lossless (Slot.orNull DataFormat.text?) encodeOptionalText :=
  lossless_orNull lossless_text fun _ => rfl

theorem lossless_texts : Lossless texts? encodeTexts := lossless_listOf lossless_text

/-! ## Records -/

/-- What an object holds under a name. -/
def slotIn (fields : List (String × Json)) (name : String) : Slot Json :=
  match fields.lookup name with
  | some v => .given v
  | none => .omitted

/-- Where all names are different, one field at most has a given name. -/
theorem namedSlot?_eq_some {fields : List (String × Json)} (h : (fields.map (·.1)).Nodup)
    (name : String) : Record.namedSlot? fields name = some (slotIn fields name) := by
  unfold Record.namedSlot? slotIn
  induction fields with
  | nil => rfl
  | cons field fields ih =>
    rcases List.nodup_cons.1 (show (field.1 :: fields.map (·.1)).Nodup from h) with ⟨hnew, hrest⟩
    rw [List.lookup_cons]
    by_cases hname : field.1 = name
    · -- the later fields have other names
      have hothers : fields.filter (·.1 = name) = [] := by
        rw [List.filter_eq_nil_iff]
        intro other hother
        rw [decide_eq_true_eq, ← hname]
        intro heq
        exact hnew (heq ▸ List.mem_map_of_mem hother)
      rw [List.filter_cons_of_pos (by simpa using hname), hothers]
      simp [hname]
    · -- the first field is passed over
      have hdiffers : (name == field.1) = false := by
        simpa using fun heq : name = field.1 => hname heq.symm
      rw [List.filter_cons_of_neg (by simpa using hname), hdiffers]
      exact ih hrest

/-- What is found in an object whose fields have different names. -/
theorem fields?_object {fields : List (String × Json)} (h : (fields.map (·.1)).Nodup)
    (names : List String) :
    fields? names (Json.object fields) = some (names.map (slotIn fields)) := by
  show names.mapM (Record.namedSlot? fields) = _
  induction names with
  | nil => rfl
  | cons name names ih =>
    rw [List.mapM_cons, namedSlot?_eq_some h, ih]
    rfl

variable {slot : Slot Json} {usual : α} {next : α → Option β} {a : α} {b : β}

/-- A field that has to be there has been read, and is read back. -/
theorem exists_of_required (h : Lossless read write) (hb : slot.required read >>= next = some b) :
    ∃ a, ReadBack read write a ∧ next a = some b := by
  rcases Option.bind_eq_some_iff.1 hb with ⟨a, ha, hnext⟩
  cases slot with
  | given v => exact ⟨a, h v a ha, hnext⟩
  | omitted => cases ha
  | cutOff => cases ha

/-- A field with a default has been read or has its default, and either is read back. -/
theorem exists_of_withDefault (h : Lossless read write)
    (hb : slot.withDefault usual read >>= next = some b)
    (husual : ReadBack read write usual) : ∃ a, ReadBack read write a ∧ next a = some b := by
  rcases Option.bind_eq_some_iff.1 hb with ⟨a, ha, hnext⟩
  cases slot with
  | given v => exact ⟨a, h v a ha, hnext⟩
  | omitted =>
    cases ha
    exact ⟨usual, husual, hnext⟩
  | cutOff =>
    cases ha
    exact ⟨usual, husual, hnext⟩

/-- Reading an object with different names starts with what is found under each of them. -/
theorem read_object {names : List String} {fields : List (String × Json)}
    {next : List (Slot Json) → Option β}
    (hnames : names.Nodup) (hfields : (fields.map (·.1)).Sublist names)
    (hb : next (names.map (slotIn fields)) = some b) :
    fields? names (Json.object fields) >>= next = some b := by
  rw [fields?_object (hfields.nodup hnames)]
  exact hb

/-! The way back: the reader goes on with each field that is read back. -/

theorem read_required (h : ReadBack read write a) (hb : next a = some b) :
    (Slot.given (write a)).required read >>= next = some b := by
  rw [Slot.required, h]
  exact hb

theorem read_withDefault (h : ReadBack read write a) (hb : next a = some b) :
    (Slot.given (write a)).withDefault usual read >>= next = some b := by
  rw [Slot.withDefault, h]
  exact hb

/-- What is found for a field that is left out if it has no value. -/
def slotIfAny : Option Json → Slot Json
  | none => .omitted
  | some v => .given v

theorem read_orNull {a : Option α} {next : Option α → Option β}
    (h : ReadBack (Slot.orNull read) (.ofOption write) a) (hb : next a = some b) :
    (slotIfAny (a.map write)).withDefault none (Slot.orNull read) >>= next = some b := by
  cases a with
  | none => exact hb
  | some a => exact read_withDefault h hb

end CallLint
