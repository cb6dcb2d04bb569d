import CallLint.Json.Token
import CallLint.Outline

/-!
# Reading Json texts

The tokens of a text are put together with a stack of the containers that are still open. The reader
is strict: one value, no comma after the last item, at most 127 containers inside each other, and no
text or number that cannot be held. Where nobody looks, only the signs have to be in order.

* `Json.ofText?` has no answer for any other text.
* `Json.ofTextFor?` reads what a decoder looks at, and leaves out the fields that it passes over.
-/

namespace CallLint.Json

/-- A container that is still open, with its contents so far in reverse. -/
inductive Open where
  | list (a : Attention) (items : List Json)
  | object (a : Attention) (fields : List (String × Json)) (name : String)

/-- How much is looked at in the part that is read now. -/
def Open.attention : Open → Attention
  | .list (.within (.record fields)) items => (Attention.within (.record fields)).item items.length
  | .list a _ => a.item 0
  | .object a _ name => a.field name

/-- What may follow. -/
inductive Expected where
  | value
  | valueOrClose
  | name (done : List (String × Json))
  | nameOrClose
  | colon (done : List (String × Json)) (name : String)
  | commaOrClose
  | nothing (result : Json)

/-- How many containers may be open at once. -/
def maxDepth : Nat := 127

/-- How much is looked at in the value that is read now. -/
def attention (whole : Attention) : List Open → Attention
  | [] => whole
  | o :: _ => o.attention

/-- A value is complete: it goes into the innermost open container. -/
def complete (v : Json) : List Open → List Open × Expected
  | [] => ([], .nothing v)
  | .list a items :: stack => (.list a (v :: items) :: stack, .commaOrClose)
  | .object a fields name :: stack =>
    let fields := if (a.field name).isNothing then fields else (name, v) :: fields
    (.object a fields name :: stack, .commaOrClose)

/-- A value begins with this token. -/
def beginValue (a : Attention) (stack : List Open) (t : Token) : Option (List Open × Expected) :=
  let mayOpen := a.isNothing || stack.length < maxDepth
  match t with
  | .leaf v => some (complete v stack)
  | .openList => if mayOpen then some (.list a [] :: stack, .valueOrClose) else none
  | .openObject => if mayOpen then some (.object a [] "" :: stack, .nameOrClose) else none
  | .brokenText => if a.isNothing then some (complete .null stack) else none
  | .hugeNumber => if a.isNothing then some (complete .null stack) else none
  | _ => none

/-- The name of a field begins with this token. -/
def beginField (a : Attention) (done : List (String × Json)) : Token → Option Expected
  | .leaf (.text name) => some (.colon done name)
  | .brokenText => if a.isNothing then some (.colon done "") else none
  | _ => none

/-- Reads one token of a value in which so much is looked at. -/
def step (whole : Attention) : List Open × Expected → Token → Option (List Open × Expected)
  | (stack, .value), t => beginValue (attention whole stack) stack t
  | (.list _ items :: stack, .valueOrClose), .closeList =>
    some (complete (.list items.reverse) stack)
  | (stack, .valueOrClose), t => beginValue (attention whole stack) stack t
  | (.object _ fields _ :: stack, .nameOrClose), .closeObject =>
    some (complete (.object fields.reverse) stack)
  | (.object a fields name :: stack, .nameOrClose), t =>
    (beginField a fields t).map (.object a fields name :: stack, ·)
  | (.object a fields name :: stack, .name done), t =>
    (beginField a done t).map (.object a fields name :: stack, ·)
  | (.object a _ _ :: stack, .colon done name), .colon =>
    some (.object a done name :: stack, .value)
  | (.list a items :: stack, .commaOrClose), .comma => some (.list a items :: stack, .value)
  | (.list _ items :: stack, .commaOrClose), .closeList =>
    some (complete (.list items.reverse) stack)
  | (.object a fields name :: stack, .commaOrClose), .comma =>
    some (.object a fields name :: stack, .name fields)
  | (.object _ fields _ :: stack, .commaOrClose), .closeObject =>
    some (complete (.object fields.reverse) stack)
  | _, _ => none

/-- The value that a text holds, and nothing else, without what nobody looks at; none if the text is
malformed. -/
def ofTextFor? (whole : Attention) (s : String) : Option Json := do
  match ← (← Token.ofText? s).foldlM (step whole) ([], .value) with
  | (_, .nothing v) => some v
  | _ => none

/-- The value that a text holds, and nothing else; none if the text is malformed. -/
def ofText? (s : String) : Option Json := ofTextFor? .everything s

mutual

/-- The same value with the last of the fields that share a name in each object. -/
def withoutRepeats : Json → Json
  | .list items => .list (itemsWithoutRepeats items)
  | .object fields => .object (fieldsWithoutRepeats fields)
  | v => v

/-- The items, each without repeated fields. -/
def itemsWithoutRepeats : List Json → List Json
  | [] => []
  | v :: items => v.withoutRepeats :: itemsWithoutRepeats items

/-- The fields of which no later one has the same name. -/
def fieldsWithoutRepeats : List (String × Json) → List (String × Json)
  | [] => []
  | (name, v) :: fields =>
    if fields.any (·.1 == name) then fieldsWithoutRepeats fields
    else (name, v.withoutRepeats) :: fieldsWithoutRepeats fields

end

end CallLint.Json
