import Componentry.OrderedMap

/-!
# Shapes of documents

Which parts of a JSON document someone reads. A record has fields that are known by name; any other
field of it is passed over, whatever its value.
-/

namespace Componentry.Json

inductive Shape where
  /-- A value of which everything is read. -/
  | whole
  /-- A list of values of one shape. -/
  | list (item : Shape)
  /-- An object whose fields all have values of one shape. -/
  | map (value : Shape)
  /-- An object with known fields. -/
  | record (fields : List (String × Shape))

namespace Shape

/-- The shape of the items, if the value is a list. -/
def item : Shape → Shape
  | .list shape => shape
  | _ => .whole

/-- The shape of the value of a field, if the value is an object; `none` for a field that is
passed over. -/
def field? (shape : Shape) (key : String) : Option Shape :=
  match shape with
  | .record fields => lookup key fields
  | .map value => some value
  | _ => some .whole

/-- A record with some fields of special shapes and others that are read as a whole. -/
def recordOf (plain : List String) (special : List (String × Shape)) : Shape :=
  .record (plain.map (fun key => (key, .whole)) ++ special)

end Shape

end Componentry.Json
