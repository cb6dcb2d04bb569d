import CallLint.Yaml.Token

/-!
# Yaml nodes

What a document says, without how it is laid out: scalars, sequences, mappings and references. An
anchor gives a node a number: how many names have been given before. A name that is given again does
not count again, so later anchors may give the same number, and a reference stands for the last node
that has it.

* `Yaml.Document.ofTokens?` reads the only document of a text.
* `Yaml.Document.parse?` reads a text.
-/

namespace CallLint.Yaml

/-- A node of a document. -/
inductive Node where
  | scalar (style : ScalarStyle) (tag : Option (List UInt8)) (text : String)
  | sequence (items : List Node)
  | mapping (entries : List (Node × Node))
  /-- A reference to the node with a number. -/
  | reference (number : Nat)
deriving Inhabited

/-- What a text says. -/
structure Document where
  root : Node
  /-- The nodes with anchors and their numbers, the last one first. -/
  anchored : List (Nat × Node)

namespace Node

/-- A node where nothing is written. -/
def empty : Node := .scalar .plain none ""

/-- What is known while tokens are read. -/
structure Reading where
  rest : List Token
  /-- The names of anchors and the numbers that they stand for. -/
  names : List (String × Nat)
  /-- The nodes with anchors and their numbers, the last one first. -/
  anchored : List (Nat × Node)
  /-- What the handles of tags stand for. -/
  handles : List (String × List UInt8)

/-- Reads some tokens, or finds an error. -/
abbrev Read (α : Type) : Type := StateT Reading Option α

/-- The token that comes next. -/
def peek : Read (Option Token) := return (← get).rest.head?

/-- Goes on behind the token that comes next. -/
def advance : Read Unit := modify fun r => { r with rest := r.rest.tail }

/-- Whether one of some marks comes next. -/
def atMark (marks : List Mark) : Read Bool := do
  match ← peek with
  | some (.mark m) => return marks.contains m
  | _ => return false

/-- Goes on behind a mark if it comes next, and says whether it does. -/
def accept (m : Mark) : Read Bool := do
  let found ← atMark [m]
  if found then advance
  return found

/-- A node, or an empty one where some mark comes next. -/
def orEmpty (marks : List Mark) (node : Read Node) : Read Node := do
  if ← atMark marks then return empty else node

/-- The value of an entry, empty if nothing is written for it. -/
def valueOrEmpty (marks : List Mark) (node : Read Node) : Read Node := do
  if ← accept .value then orEmpty marks node else return empty

/-- The comma in front of an item, unless it is the first one. -/
def separator (first : Bool) : Read Unit := do
  if first then return ()
  unless ← accept .comma do failure

/-! ## References -/

/-- Gives a number to the node that begins here, and says how many nodes have one so far. -/
def openAnchor (name : String) : Read Nat := do
  let r ← get
  let number := r.names.length
  set { r with
    names := (name, number) :: r.names.filter (·.1 ≠ name)
    anchored := (number, empty) :: r.anchored }
  return r.anchored.length

/-- Says what the node is that was given a number after `count` others. -/
def closeAnchor (count : Nat) (node : Node) : Read Unit :=
  modify fun r =>
    let place := r.anchored.length - 1 - count
    { r with anchored := r.anchored.modify place fun (number, _) => (number, node) }

/-- A reference to the node that a name stands for here. -/
def refer (name : String) : Read Node := do
  match (← get).names.lookup name with
  | some number => return .reference number
  | none => failure

/-- What a tag is in full. -/
def fullTag (handle : String) (suffix : List UInt8) : Read (List UInt8) := do
  if handle.isEmpty then return suffix
  match (← get).handles.lookup handle with
  | some expansion => return expansion ++ suffix
  | none => failure

/-- An anchor and a tag in front of a node, in any order. -/
def properties : Read (Option String × Option (List UInt8)) := do
  let anchor : Read (Option String) := do
    match ← peek with
    | some (.anchor name) => advance; return some name
    | _ => return none
  let tag : Read (Option (List UInt8)) := do
    match ← peek with
    | some (.tag handle suffix) => advance; return some (← fullTag handle suffix)
    | _ => return none
  let early ← anchor
  let tag ← tag
  let late ← if early.isNone then anchor else pure none
  return (early.or late, tag)

/-! ## Nodes of each kind -/

mutual

/-- A node. Blocks are nodes only where `block` says so, and a sequence without an indentation of
its own only where `dashes` says so. -/
def node (steps : Nat) (block dashes : Bool) : Read Node :=
  match steps with
  | 0 => failure
  | steps + 1 => do
    match ← peek with
    | some (.reference name) => advance; refer name
    | _ =>
      let (anchor, tag) ← properties
      match anchor with
      | none => content steps block dashes tag false
      | some name =>
        let n ← openAnchor name
        let found ← content steps block dashes tag true
        closeAnchor n found
        return found

/-- What a node consists of, behind its anchor and its tag. -/
def content (steps : Nat) (block dashes : Bool) (tag : Option (List UInt8)) (anchored : Bool) :
    Read Node :=
  match steps with
  | 0 => failure
  | steps + 1 => do
    match ← peek with
    | some (.scalar style text) => advance; return .scalar style tag text
    | some (.mark .flowSequence) => advance; return .sequence (← flowItems steps true)
    | some (.mark .flowMapping) => advance; return .mapping (← flowEntries steps true)
    | some (.mark m) =>
      if dashes && m = .dash then return .sequence (← dashItems steps)
      else if block && m = .blockSequence then advance; return .sequence (← blockItems steps)
      else if block && m = .blockMapping then advance; return .mapping (← blockEntries steps)
      else if anchored || tag.isSome then return .scalar .plain tag ""
      else failure
    | _ => if anchored || tag.isSome then return .scalar .plain tag "" else failure

/-- The items of a sequence in a block of its own. -/
def blockItems (steps : Nat) : Read (List Node) :=
  match steps with
  | 0 => failure
  | steps + 1 => do
    if ← accept .dash then
      let item ← orEmpty [.dash, .blockEnd] (node steps true false)
      return item :: (← blockItems steps)
    else if ← accept .blockEnd then return []
    else failure

/-- The items of a sequence that is indented like the key before it. -/
def dashItems (steps : Nat) : Read (List Node) :=
  match steps with
  | 0 => failure
  | steps + 1 => do
    if ← accept .dash then
      let item ← orEmpty [.dash, .key, .value, .blockEnd] (node steps true false)
      return item :: (← dashItems steps)
    else return []

/-- The entries of a mapping in a block. -/
def blockEntries (steps : Nat) : Read (List (Node × Node)) :=
  match steps with
  | 0 => failure
  | steps + 1 => do
    let marks := [.key, .value, .blockEnd]
    if ← accept .key then
      let key ← orEmpty marks (node steps true true)
      let value ← valueOrEmpty marks (node steps true true)
      return (key, value) :: (← blockEntries steps)
    else if ← accept .blockEnd then return []
    else failure

/-- The items of a sequence in brackets. An item may be a mapping with one entry; if the key of that
is empty, the token behind it is passed over. -/
def flowItems (steps : Nat) (first : Bool) : Read (List Node) :=
  match steps with
  | 0 => failure
  | steps + 1 => do
    if ← accept .flowSequenceEnd then return []
    separator first
    if ← accept .key then
      let key ←
        if ← atMark [.value, .comma, .flowSequenceEnd] then advance; pure empty
        else node steps false false
      let value ← valueOrEmpty [.comma, .flowSequenceEnd] (node steps false false)
      return .mapping [(key, value)] :: (← flowItems steps false)
    if ← accept .flowSequenceEnd then return []
    let item ← node steps false false
    return item :: (← flowItems steps false)

/-- The entries of a mapping in braces. -/
def flowEntries (steps : Nat) (first : Bool) : Read (List (Node × Node)) :=
  match steps with
  | 0 => failure
  | steps + 1 => do
    if ← accept .flowMappingEnd then return []
    separator first
    if ← accept .key then
      let key ← orEmpty [.value, .comma, .flowMappingEnd] (node steps false false)
      let value ← valueOrEmpty [.comma, .flowMappingEnd] (node steps false false)
      return (key, value) :: (← flowEntries steps false)
    if ← accept .flowMappingEnd then return []
    let key ← node steps false false
    return (key, empty) :: (← flowEntries steps false)

end

/-! ## Documents -/

/-- The directives in front of a document. -/
def leadingDirectives : List Token → List Directive
  | .directive d :: rest => d :: leadingDirectives rest
  | _ => []

/-- The handles that directives give a meaning to; none if one has two, or if a version is not
known. -/
def handles? (directives : List Directive) : Option (List (String × List UInt8)) := do
  let versions := directives.filterMap fun
    | .version major minor => some (major, minor)
    | _ => none
  let handles := directives.filterMap fun
    | .handle name expansion => some (name, expansion)
    | _ => none
  let known := versions.all fun v => v = (1, 1) || v = (1, 2)
  if versions.length ≤ 1 && known && (handles.map (·.1)).Nodup then
    return handles ++ [("!", Text.bytes ['!']), ("!!", Text.bytes "tag:yaml.org,2002:".toList)]
  else none

/-- Whether a document ends at a token. -/
def endsDocument : Option Token → Bool
  | none => true
  | some (.directive _) => true
  | some (.mark .documentStart) => true
  | some (.mark .documentEnd) => true
  | _ => false

/-- A document, in at most so many steps. -/
def document (steps : Nat) : Read Node := do
  let r ← get
  let directives := leadingDirectives r.rest
  let some handles := handles? directives | failure
  set { r with rest := r.rest.drop directives.length, handles }
  if ← accept .documentStart then
    if endsDocument (← peek) then return empty else node steps true false
  else if directives.isEmpty then
    if (← peek).isNone then return empty else node steps true false
  else failure

end Node

namespace Document

/-- The only document; a text without any token is an empty document. -/
def ofTokens? (tokens : List Token) : Option Document := do
  let (root, r) ← (Node.document (4 * tokens.length + 4)).run ⟨tokens, [], [], []⟩
  if r.rest.all (· = .mark .documentEnd) then some ⟨root, r.anchored⟩ else none

/-- The only document of a text. -/
def parse? (s : String) : Option Document := do
  ofTokens? (← tokens? s)

end Document

end CallLint.Yaml
