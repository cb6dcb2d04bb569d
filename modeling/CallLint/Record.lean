/-!
# Reading records

Documents are read in more than one data format. A format answers what a value may stand for; a
decoder asks and has no answer where the format has none. A record is written with the names of its
fields or as the list of its fields in the order of their declaration.

* `Record.slots?` refuses a record that gives one of its fields twice, or more fields than there
  are.
* A field left out by name may be optional; a list may stop early only before fields with a default.
-/

namespace CallLint

/-- The fields of a record, by name or in order. -/
inductive Record (ν : Type) where
  | named (fields : List (String × ν))
  | ordered (items : List ν)

/-- The first number that needs more than 64 bits. -/
def wordLimit : Nat := Nat.pow 2 64

/-- What a value of a data format may stand for. -/
class DataFormat (ν : Type) where
  isNull : ν → Bool
  bool? : ν → Option Bool
  /-- An unsigned number of at most 64 bits. -/
  nat? : ν → Option Nat
  text? : ν → Option String
  /-- The name of a case of an enumeration. -/
  name? : ν → Option String
  list? : ν → Option (List ν)
  /-- The entries of a map whose keys are texts. -/
  entries? : ν → Option (List (String × ν))
  record? : ν → Option (Record ν)

/-- What a record holds for one of its fields. -/
inductive Slot (ν : Type) where
  | given (v : ν)
  /-- The fields are written by name, and this one is not among them. -/
  | omitted
  /-- The fields are written in order, and the list stops before this one. -/
  | cutOff

namespace Record

variable {ν : Type}

/-- What a list holds for each of `names`, from the first on. -/
def orderedSlots? : List String → List ν → Option (List (Slot ν))
  | [], [] => some []
  | [], _ :: _ => none
  | _ :: names, [] => (orderedSlots? names []).map (.cutOff :: ·)
  | _ :: names, v :: items => (orderedSlots? names items).map (.given v :: ·)

/-- What some fields hold for a name; none if it occurs twice. -/
def namedSlot? (fields : List (String × ν)) (name : String) : Option (Slot ν) :=
  match fields.filter (·.1 = name) with
  | [] => some .omitted
  | [f] => some (.given f.2)
  | _ => none

/-- What the record holds for each of `names`. Fields by other names are passed over. -/
def slots? (names : List String) : Record ν → Option (List (Slot ν))
  | .named fields => names.mapM (namedSlot? fields)
  | .ordered items => orderedSlots? names items

end Record

namespace Slot

variable {ν α : Type} [DataFormat ν]

omit [DataFormat ν] in
/-- A field that has to be there. -/
def required (decode : ν → Option α) : Slot ν → Option α
  | .given v => decode v
  | _ => none

/-- A value that may be absent. -/
def orNull (decode : ν → Option α) (v : ν) : Option (Option α) :=
  if DataFormat.isNull v then some none else (decode v).map some

/-- A field that may be absent. -/
def optional (decode : ν → Option α) : Slot ν → Option (Option α)
  | .given v => orNull decode v
  | .omitted => some none
  | .cutOff => none

omit [DataFormat ν] in
/-- A field with a default. -/
def withDefault (default : α) (decode : ν → Option α) : Slot ν → Option α
  | .given v => decode v
  | _ => some default

end Slot

/-- The slots of the record that a value stands for. -/
def fields? {ν : Type} [DataFormat ν] (names : List String) (v : ν) : Option (List (Slot ν)) := do
  (← DataFormat.record? v).slots? names

/-- A list whose items are all read in the same way. -/
def listOf? {ν α : Type} [DataFormat ν] (decode : ν → Option α) (v : ν) : Option (List α) := do
  (← DataFormat.list? v).mapM decode

/-- The case of an enumeration that has this word. -/
def caseOf? {ν α : Type} [DataFormat ν] (cases : List α) (word : α → String) (v : ν) : Option α :=
  do
  let name ← DataFormat.name? v
  cases.find? (word · = name)

end CallLint
