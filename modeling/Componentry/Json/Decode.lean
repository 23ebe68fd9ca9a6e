import Componentry.Json.Shape
import Componentry.Json.Value

/-!
# Taking JSON values apart

The shapes that records, lists, maps and choices take in JSON documents. A record is an object:
fields that it does not know are ignored, a known field that is repeated is refused. `none` says
that a value does not have the shape asked for.
-/

namespace Componentry.Json

/-- A value inside a list of fields, small enough to recurse on. -/
abbrev FieldOf (fields : List (String × Json)) := { value : Json // sizeOf value < sizeOf fields }

/-- The values of a key, in order. -/
def occurrences (key : String) : (fields : List (String × Json)) → List (FieldOf fields)
  | [] => []
  | (name, value) :: rest =>
    let later : List (FieldOf ((name, value) :: rest)) :=
      (occurrences key rest).map fun found => ⟨found.1, by
        have := found.2
        simp only [List.cons.sizeOf_spec]
        omega⟩
    if name = key then
      ⟨value, by simp only [List.cons.sizeOf_spec, Prod.mk.sizeOf_spec]; omega⟩ :: later
    else later

/-- The value of a field that has to be there, once. -/
def required (key : String) (fields : List (String × Json)) : Option (FieldOf fields) :=
  match occurrences key fields with
  | [value] => some value
  | _ => none

/-- The value of a field that may be missing. -/
def optional (key : String) (fields : List (String × Json)) : Option (Option (FieldOf fields)) :=
  match occurrences key fields with
  | [] => some none
  | [value] => some (some value)
  | _ => none

def asBool? : Json → Option Bool
  | .bool value => some value
  | _ => none

def asString? : Json → Option String
  | .string value => some value
  | _ => none

def asArray? : Json → Option (List Json)
  | .array items => some items
  | _ => none

def asObject? : Json → Option (List (String × Json))
  | .object fields => some fields
  | _ => none

/-- An unsigned 64-bit integer. -/
def asWord? : Json → Option Nat
  | .number (.integer value) => if 0 ≤ value then some value.toNat else none
  | _ => none

/-- Any number, as a double-precision one. -/
def asDouble? : Json → Option Double
  | .number (.integer value) => Double.ofInt? value
  | .number (.float value) => some value
  | _ => none

/-- The name of a choice without content: a string, or an object whose one field is null. -/
def asChoice? : Json → Option String
  | .string name => some name
  | .object [(name, .null)] => some name
  | _ => none

/-- The name of a choice without content inside a tagged record, where an empty object may stand for
the content too. -/
def asInnerChoice? : Json → Option String
  | .object [(name, .object [])] => some name
  | value => value.asChoice?

/-- A list of values of one shape. -/
def listOf? (decode : Json → Option α) (value : Json) : Option (List α) := do
  (← value.asArray?).mapM decode

/-- A map from names to values of one shape. -/
def mapOf? (decode : Json → Option α) (value : Json) : Option (OrderedMap α) := do
  let entries ← (← value.asObject?).mapM fun (key, item) =>
    (decode item).map fun item => (key, item)
  return OrderedMap.ofList entries

/-- A value that null may stand in for. -/
def nullable? (decode : Json → Option α) : Json → Option (Option α)
  | .null => some none
  | value => (decode value).map some

/-- A field that has to be there. -/
def field? (key : String) (fields : List (String × Json)) (decode : Json → Option α) :
    Option α := do
  decode (← required key fields).1

/-- A field that has a default value if it is missing. -/
def fieldOr? (key : String) (fields : List (String × Json)) (fallback : α)
    (decode : Json → Option α) : Option α := do
  match ← optional key fields with
  | none => some fallback
  | some value => decode value.1

/-- A field that may be missing or null. -/
def fieldOpt? (key : String) (fields : List (String × Json)) (decode : Json → Option α) :
    Option (Option α) :=
  fieldOr? key fields none (nullable? decode)

/-- A flag that is off unless it is given. -/
def flag? (key : String) (fields : List (String × Json)) : Option Bool :=
  fieldOr? key fields false asBool?

end Componentry.Json
