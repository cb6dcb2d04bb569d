/-!
# Json values

A value keeps the fields of an object in the order in which they were written, repeated names
included; a decoder decides what a repetition means. Unsigned numbers are numbers, any other number
is kept as it was written: nothing in this library reads it.

* `Json.compact` writes a value without blanks, `Json.pretty` with two blanks for each level.
-/

namespace CallLint

/-- A value of the Json data format. -/
inductive Json where
  | null
  | bool (b : Bool)
  /-- A number written with digits alone. -/
  | nat (n : Nat)
  /-- A number written with a sign, a fraction or an exponent. -/
  | number (literal : String)
  | text (s : String)
  | list (items : List Json)
  | object (fields : List (String × Json))
deriving BEq, Repr, Inhabited

namespace Json

mutual

/-- How many containers are open at the deepest point of a value. -/
def depth : Json → Nat
  | .list items => depthOfItems items + 1
  | .object fields => depthOfFields fields + 1
  | _ => 0

/-- The depth of the deepest item. -/
def depthOfItems : List Json → Nat
  | [] => 0
  | v :: items => max v.depth (depthOfItems items)

/-- The depth of the deepest field. -/
def depthOfFields : List (String × Json) → Nat
  | [] => 0
  | (_, v) :: fields => max v.depth (depthOfFields fields)

end

/-- A value that may be absent, written as `null` then. -/
def ofOption {α : Type} (write : α → Json) : Option α → Json
  | none => .null
  | some a => write a

/-! ## Writing -/

/-- The last hexadecimal digit of a number, with small letters. -/
def hexDigit (n : Nat) : Char := Nat.digitChar (n % 16)

/-- A character inside a quoted text: control characters, quotes and backslashes are escaped, all
other characters stand for themselves. -/
def escape (c : Char) : List Char :=
  match c with
  | '"' => ['\\', '"']
  | '\\' => ['\\', '\\']
  | '\n' => ['\\', 'n']
  | '\r' => ['\\', 'r']
  | '\t' => ['\\', 't']
  | '\x08' => ['\\', 'b']
  | '\x0c' => ['\\', 'f']
  | c =>
    if c.toNat < 0x20 then ['\\', 'u', '0', '0', hexDigit (c.toNat / 16), hexDigit c.toNat]
    else [c]

/-- A text in quotes. -/
def quoted (s : String) : String := .ofList ('"' :: s.toList.flatMap escape ++ ['"'])

mutual

/-- A value on one line without blanks. -/
def compact : Json → String
  | .null => "null"
  | .bool b => if b then "true" else "false"
  | .nat n => toString n
  | .number literal => literal
  | .text s => quoted s
  | .list items => "[" ++ ",".intercalate (compactItems items) ++ "]"
  | .object fields => "\x7b" ++ ",".intercalate (compactFields fields) ++ "\x7d"

/-- The items of a list, each on its own. -/
def compactItems : List Json → List String
  | [] => []
  | v :: items => v.compact :: compactItems items

/-- The fields of an object, each on its own. -/
def compactFields : List (String × Json) → List String
  | [] => []
  | (name, v) :: fields => (quoted name ++ ":" ++ v.compact) :: compactFields fields

end

/-- Lines between an opening and a closing bracket, one level deeper than these. -/
def block (level : Nat) (opening closing : String) (lines : List String) : String :=
  if lines.isEmpty then opening ++ closing
  else
    let inner := "\n" ++ "".pushn ' ' (2 * (level + 1))
    opening ++ inner ++ ("," ++ inner).intercalate lines ++ "\n" ++ "".pushn ' ' (2 * level) ++
      closing

mutual

/-- A value with every item and field on a line of its own, from a given level on. -/
def prettyAt (level : Nat) : Json → String
  | .list items => block level "[" "]" (prettyItems (level + 1) items)
  | .object fields => block level "\x7b" "\x7d" (prettyFields (level + 1) fields)
  | v => v.compact

/-- The items of a list, each on its own. -/
def prettyItems (level : Nat) : List Json → List String
  | [] => []
  | v :: items => prettyAt level v :: prettyItems level items

/-- The fields of an object, each on its own. -/
def prettyFields (level : Nat) : List (String × Json) → List String
  | [] => []
  | (name, v) :: fields => (quoted name ++ ": " ++ prettyAt level v) :: prettyFields level fields

end

/-- A value with every item and field on a line of its own. -/
def pretty (v : Json) : String := prettyAt 0 v

end Json

end CallLint
