import Componentry.Number.Shortest
import Componentry.OrderedMap

/-!
# JSON values

An object is a list of fields in their order. A document as read may repeat a key; `merged` gives
a repeated key its first place and its last value, at every level.
-/

namespace Componentry

/-- A JSON number: an integer where the text has neither fraction nor exponent and fits 64 bits,
else a double-precision number. -/
inductive JsonNumber where
  | integer (value : Int)
  | float (value : Double)
deriving DecidableEq, Repr

/-- A document. Objects keep the order of their fields, and may repeat them. -/
inductive Json where
  | null
  | bool (value : Bool)
  | number (value : JsonNumber)
  | string (value : String)
  | array (items : List Json)
  | object (fields : List (String × Json))

namespace Json

instance : Inhabited Json := ⟨.null⟩

mutual

/-- The value in which no object repeats a key. -/
def merged : Json → Json
  | .array items => .array (mergedItems items)
  | .object fields => .object (mergedFields fields [])
  | .null => .null
  | .bool value => .bool value
  | .number value => .number value
  | .string value => .string value

def mergedItems : List Json → List Json
  | [] => []
  | item :: rest => item.merged :: mergedItems rest

/-- Adds fields to those already merged. -/
def mergedFields : List (String × Json) → List (String × Json) → List (String × Json)
  | [], done => done
  | (key, value) :: rest, done => mergedFields rest (upsert key value.merged done)

end

/-- The value of a field of an object. -/
def get? (key : String) : Json → Option Json
  | .object fields => lookup key fields
  | _ => none

/-- A list of texts. -/
def strings (texts : List String) : Json :=
  .array (texts.map .string)

/-- A text, or null where there is none. -/
def ofOption : Option String → Json
  | some text => .string text
  | none => .null

end Json

end Componentry
