import BehaviorTree.Json.Token

/-! JSON values and how they are read off tokens: one token at a time, with a stack of what is open. -/
namespace BehaviorTree

/-- A JSON value. Strings and keys keep their escapes, numbers their spelling. -/
inductive Json where
  | null
  | bool (value : Bool)
  | number (literal : List Char)
  | string (raw : List Char)
  | array (items : List Json)
  | object (fields : List (List Char × Json))

namespace Json

/-- An open array or object with what it holds so far, newest first; an object waits for the value of
its latest key. -/
inductive Frame where
  | array (items : List Json)
  | object (fields : List (List Char × Json)) (key : List Char)

/-- What may come next. -/
inductive Place where
  | value (stack : List Frame)
  /-- The first item of an array or its end. -/
  | arrayStart (stack : List Frame)
  /-- The first key of an object or its end. -/
  | objectStart (stack : List Frame)
  | key (fields : List (List Char × Json)) (stack : List Frame)
  | colon (fields : List (List Char × Json)) (key : List Char) (stack : List Frame)
  /-- A comma or the end of an array. -/
  | afterItem (items : List Json) (stack : List Frame)
  /-- A comma or the end of an object. -/
  | afterField (fields : List (List Char × Json)) (stack : List Frame)
  | done (value : Json)

/-- The place after a complete value. -/
def Place.after (v : Json) : List Frame → Place
  | [] => .done v
  | .array items :: stack => .afterItem (v :: items) stack
  | .object fields k :: stack => .afterField ((k, v) :: fields) stack

/-- A token where a value must come. -/
def Place.valueStep (stack : List Frame) : Token → Option Place
  | .null => some (.after .null stack)
  | .bool b => some (.after (.bool b) stack)
  | .number n => some (.after (.number n) stack)
  | .string s => some (.after (.string s) stack)
  | .openArray => some (.arrayStart stack)
  | .openObject => some (.objectStart stack)
  | _ => none

/-- The place after one more token. -/
def Place.step : Place → Token → Option Place
  | .value stack, t => valueStep stack t
  | .arrayStart stack, .closeArray => some (.after (.array []) stack)
  | .arrayStart stack, t => valueStep (.array [] :: stack) t
  | .objectStart stack, .closeObject => some (.after (.object []) stack)
  | .objectStart stack, .string k => some (.colon [] k stack)
  | .key fields stack, .string k => some (.colon fields k stack)
  | .colon fields k stack, .colon => some (.value (.object fields k :: stack))
  | .afterItem items stack, .comma => some (.value (.array items :: stack))
  | .afterItem items stack, .closeArray => some (.after (.array items.reverse) stack)
  | .afterField fields stack, .comma => some (.key fields stack)
  | .afterField fields stack, .closeObject => some (.after (.object fields.reverse) stack)
  | _, _ => none

/-- The value that the tokens spell. -/
def ofTokens? (ts : List Token) : Option Json :=
  match ts.foldlM Place.step (.value []) with
  | some (.done v) => some v
  | _ => none

def parse? (cs : List Char) : Option Json := do ofTokens? (← scan cs)

end Json
end BehaviorTree
