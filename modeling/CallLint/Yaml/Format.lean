import CallLint.Record
import CallLint.Yaml.View

/-!
# Yaml as a data format

What a node may stand for. Any scalar is a text, but only a plain one is a number or a truth value.
An empty plain scalar is an empty list or an empty record. Records are written by name only.

* `instDataFormatNode`: the answers that decoders get.
-/

namespace CallLint.Yaml.Node

/-- The text of a scalar that is plain, or else a literal block with a standard tag. -/
def bareText? (kind : String) : Node → Option String
  | .scalar .plain _ text => some text
  | .scalar .literal (some tag) text =>
    if tag = Text.bytes ("tag:yaml.org,2002:" ++ kind).toList then some text else none
  | _ => none

/-- The truth value that a text is. -/
def truth? (s : String) : Option Bool :=
  if ["true", "True", "TRUE"].contains s then some true
  else if ["false", "False", "FALSE"].contains s then some false
  else none

/-- The number that digits stand for in a base; there has to be one. -/
def digits? (base : Nat) (digits : List Char) : Option Nat :=
  if digits.isEmpty then none else numeral? base digits

/-- The number that a text is, with a plus sign or not, in the base that its first letters say. -/
def unsigned? (s : String) : Option Nat :=
  let cs := s.toList
  let cs := if startsWithChar '+' cs then cs.drop 1 else cs
  match cs with
  | '0' :: 'x' :: cs => digits? 16 cs
  | '0' :: 'o' :: cs => digits? 8 cs
  | '0' :: 'b' :: cs => digits? 2 cs
  | ['0'] => some 0
  | '0' :: _ => none
  | cs => digits? 10 cs

/-- Whether nothing is written for a node. -/
def isBare : Node → Bool
  | .scalar .plain _ text => text.isEmpty
  | _ => false

/-- Whether a scalar stands for nothing. -/
def isNothing (n : Node) : Bool :=
  (bareText? "null" n).any (["", "~", "null", "Null", "NULL"].contains ·)

/-- The name in a tag of its own, which is an exclamation mark and a text. -/
def tagName? (tag : Option (List UInt8)) : Option String :=
  match tag with
  | some (mark :: name) =>
    if [mark] = Text.bytes ['!'] then String.fromUTF8? ⟨name.toArray⟩ else none
  | _ => none

/-- The name of a case: the text, or the tag before nothing. -/
def name? (n : Node) : Option String :=
  match n with
  | .scalar style tag text =>
    match tagName? tag with
    | none => some text
    | some name => if style = .plain && n.isNothing then some name else none
  | _ => none

/-- The entries of a mapping whose keys are scalars. -/
def textEntries? (entries : List (Node × Node)) : Option (List (String × Node)) :=
  entries.mapM fun (key, value) => do return (← key.text?, value)

/-- The entries of a map. -/
def entries? (n : Node) : Option (List (String × Node)) :=
  match n with
  | .mapping entries => textEntries? entries
  | _ => if n.isBare then some [] else none

instance : DataFormat Node where
  isNull := isNothing
  bool? n := (bareText? "bool" n).bind truth?
  nat? n := do
    let k ← (bareText? "int" n).bind unsigned?
    if k < wordLimit then some k else none
  text? := text?
  name? := name?
  list?
    | .sequence items => some items
    | n => if n.isBare then some [] else none
  entries? := entries?
  record? n := n.entries?.map .named

end CallLint.Yaml.Node
