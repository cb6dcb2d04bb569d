import CallLint.Json.Basic
import CallLint.Record

/-!
# Json as a data format

What a Json value may stand for. A case of an enumeration is written as its name, or as an object
whose only field has that name and holds nothing.

* `instDataFormatJson`: the answers that decoders get.
-/

namespace CallLint.Json

instance : DataFormat Json where
  isNull
    | .null => true
    | _ => false
  bool?
    | .bool b => some b
    | _ => none
  nat?
    | .nat n => if n < wordLimit then some n else none
    | _ => none
  text?
    | .text s => some s
    | _ => none
  name?
    | .text s => some s
    | .object [(name, .null)] => some name
    | _ => none
  list?
    | .list items => some items
    | _ => none
  entries?
    | .object fields => some fields
    | _ => none
  record?
    | .list items => some (.ordered items)
    | .object fields => some (.named fields)
    | _ => none

end CallLint.Json
