import Componentry.Json.Decode
import Componentry.TypeExpr.Basic

/-!
# Type expressions as JSON

A type expression is an object with a field `kind`. Writing gives every field in a fixed order;
reading fills in what is missing and ignores what it does not know.
-/

namespace Componentry

/-- The kinds of type expressions, in declaration order. -/
inductive TypeKind where
  | primitive
  | literal
  | array
  | struct
  | reference
  | union
  | intersection
  | mapped
  | generic
  | function
  | conditional
  | any
  | unknown
  | null
deriving DecidableEq, Repr

namespace TypeKind

def all : List TypeKind :=
  [.primitive, .literal, .array, .struct, .reference, .union, .intersection, .mapped, .generic,
    .function, .conditional, .any, .unknown, .null]

def name : TypeKind → String
  | .primitive => "primitive"
  | .literal => "literal"
  | .array => "array"
  | .struct => "struct"
  | .reference => "reference"
  | .union => "union"
  | .intersection => "intersection"
  | .mapped => "mapped"
  | .generic => "generic"
  | .function => "function"
  | .conditional => "conditional"
  | .any => "any"
  | .unknown => "unknown"
  | .null => "null"

def ofName? (text : String) : Option TypeKind :=
  all.find? (·.name == text)

/-- The kind that a `kind` field gives: by name, and inside another type also by number. -/
def ofJson? (nested : Bool) : Json → Option TypeKind
  | .string text => ofName? text
  | .number (.integer index) => if nested && 0 ≤ index then all[index.toNat]? else none
  | _ => none

@[simp]
theorem ofName?_name (kind : TypeKind) : ofName? kind.name = some kind := by
  cases kind <;> decide

end TypeKind

def Primitive.toJson (primitive : Primitive) : Json :=
  .string primitive.keyword

def Primitive.ofJson? (value : Json) : Option Primitive := do
  Primitive.ofKeyword? (← value.asInnerChoice?)

def Literal.toJson : Literal → Json
  | .boolean value => .bool value
  | .number value => .number (.float value)
  | .string value => .string value

def Literal.ofJson? : Json → Option Literal
  | .bool value => some (.boolean value)
  | .string value => some (.string value)
  | value => value.asDouble?.map .number

namespace TypeExpr

/-- An object of a kind. -/
def tagged (kind : TypeKind) (fields : List (String × Json)) : Json :=
  .object (("kind", .string kind.name) :: fields)

mutual

/-- The JSON form of a type. -/
def toJson : TypeExpr → Json
  | .primitive name => tagged .primitive [("name", name.toJson)]
  | .literal value => tagged .literal [("value", value.toJson)]
  | .array element => tagged .array [("element", element.toJson)]
  | .struct name typeArgs members =>
    tagged .struct [("name", .ofOption name), ("typeArgs", .array (toJsonAll typeArgs)),
      ("members", .array (toJsonMembers members))]
  | .reference name args =>
    tagged .reference [("name", .string name), ("args", .array (toJsonAll args))]
  | .union members => tagged .union [("members", .array (toJsonAll members))]
  | .intersection members => tagged .intersection [("members", .array (toJsonAll members))]
  | .mapped wrapper args =>
    tagged .mapped [("wrapper", .string wrapper), ("args", .array (toJsonAll args))]
  | .generic name none => tagged .generic [("name", .string name), ("constraint", .null)]
  | .generic name (some constraint) =>
    tagged .generic [("name", .string name), ("constraint", constraint.toJson)]
  | .function params returns =>
    tagged .function [("params", .array (toJsonParams params)), ("returns", returns.toJson)]
  | .conditional text none => tagged .conditional [("text", .string text), ("resolved", .null)]
  | .conditional text (some branch) =>
    tagged .conditional [("text", .string text), ("resolved", branch.toJson)]
  | .any => tagged .any []
  | .unknown => tagged .unknown []
  | .null => tagged .null []

def toJsonAll : List TypeExpr → List Json
  | [] => []
  | type :: rest => type.toJson :: toJsonAll rest

def toJsonMembers : List Member → List Json
  | [] => []
  | ⟨name, type, optional, readonly⟩ :: rest =>
    .object [("name", .string name), ("type", type.toJson), ("optional", .bool optional),
      ("readonly", .bool readonly)] :: toJsonMembers rest

def toJsonParams : List Parameter → List Json
  | [] => []
  | ⟨name, type, optional⟩ :: rest =>
    .object [("name", .string name), ("type", type.toJson), ("optional", .bool optional)] ::
      toJsonParams rest

end

theorem sizeOf_rest_lt (fields : List (String × Json)) (rest : List Json) :
    sizeOf rest < sizeOf (Json.object fields :: rest) := by
  simp only [List.cons.sizeOf_spec]
  omega

theorem sizeOf_lt_of_field {fields : List (String × Json)} {value : Json}
    (smaller : sizeOf value < sizeOf fields) (rest : List Json) :
    sizeOf value < sizeOf (Json.object fields :: rest) := by
  simp only [List.cons.sizeOf_spec, Json.object.sizeOf_spec]
  omega

mutual

/-- The type that a JSON value describes. -/
def decode (nested : Bool) (value : Json) : Option TypeExpr :=
  match value with
  | .object fields => do
    let kind ← TypeKind.ofJson? nested (← Json.required "kind" fields).1
    match kind with
    | .primitive => return .primitive (← Json.field? "name" fields Primitive.ofJson?)
    | .literal => return .literal (← Json.field? "value" fields Literal.ofJson?)
    | .array => do
      let ⟨element, _⟩ ← Json.required "element" fields
      return .array (← decode true element)
    | .struct => do
      let name ← Json.fieldOpt? "name" fields Json.asString?
      let typeArgs ← decodeListOr (← Json.optional "typeArgs" fields)
      let members ← decodeMembersOr (← Json.optional "members" fields)
      return .struct name typeArgs members
    | .reference => do
      let name ← Json.field? "name" fields Json.asString?
      return .reference name (← decodeListOr (← Json.optional "args" fields))
    | .union => do
      let ⟨members, _⟩ ← Json.required "members" fields
      return .union (← decodeList members)
    | .intersection => do
      let ⟨members, _⟩ ← Json.required "members" fields
      return .intersection (← decodeList members)
    | .mapped => do
      let wrapper ← Json.field? "wrapper" fields Json.asString?
      return .mapped wrapper (← decodeListOr (← Json.optional "args" fields))
    | .generic => do
      let name ← Json.field? "name" fields Json.asString?
      return .generic name (← decodeOpt (← Json.optional "constraint" fields))
    | .function => do
      let params ← decodeParamsOr (← Json.optional "params" fields)
      let ⟨returns, _⟩ ← Json.required "returns" fields
      return .function params (← decode true returns)
    | .conditional => do
      let text ← Json.field? "text" fields Json.asString?
      return .conditional text (← decodeOpt (← Json.optional "resolved" fields))
    | .any => return .any
    | .unknown => return .unknown
    | .null => return .null
  | _ => none
termination_by sizeOf value

/-- A type inside a type that may be missing or null. -/
def decodeOpt {fields : List (String × Json)} (found : Option (Json.FieldOf fields)) :
    Option (Option TypeExpr) :=
  match found with
  | none => some none
  | some ⟨.null, _⟩ => some none
  | some ⟨value, _⟩ => (decode true value).map some
termination_by sizeOf fields

/-- A list of types inside a type. -/
def decodeList (value : Json) : Option (List TypeExpr) :=
  match value with
  | .array items => decodeItems items
  | _ => none
termination_by sizeOf value

/-- A list of types inside a type that may be missing. -/
def decodeListOr {fields : List (String × Json)} (found : Option (Json.FieldOf fields)) :
    Option (List TypeExpr) :=
  match found with
  | none => some []
  | some ⟨value, _⟩ => decodeList value
termination_by sizeOf fields

def decodeItems (items : List Json) : Option (List TypeExpr) :=
  match items with
  | [] => some []
  | item :: rest => do return (← decode true item) :: (← decodeItems rest)
termination_by sizeOf items

def decodeMembersOr {fields : List (String × Json)} (found : Option (Json.FieldOf fields)) :
    Option (List Member) :=
  match found with
  | none => some []
  | some ⟨.array items, _⟩ => decodeMembers items
  | some _ => none
termination_by sizeOf fields
decreasing_by
  rename_i smaller
  simp only [Json.array.sizeOf_spec] at smaller
  omega

def decodeMembers (items : List Json) : Option (List Member) :=
  match items with
  | [] => some []
  | .object fields :: rest => do
    let name ← Json.field? "name" fields Json.asString?
    let ⟨type, _⟩ ← Json.required "type" fields
    let optional ← Json.flag? "optional" fields
    let readonly ← Json.flag? "readonly" fields
    return ⟨name, ← decode true type, optional, readonly⟩ :: (← decodeMembers rest)
  | _ => none
termination_by sizeOf items
decreasing_by
  · exact sizeOf_lt_of_field ‹_› rest
  · exact sizeOf_rest_lt fields rest

def decodeParamsOr {fields : List (String × Json)} (found : Option (Json.FieldOf fields)) :
    Option (List Parameter) :=
  match found with
  | none => some []
  | some ⟨.array items, _⟩ => decodeParams items
  | some _ => none
termination_by sizeOf fields
decreasing_by
  rename_i smaller
  simp only [Json.array.sizeOf_spec] at smaller
  omega

def decodeParams (items : List Json) : Option (List Parameter) :=
  match items with
  | [] => some []
  | .object fields :: rest => do
    let name ← Json.field? "name" fields Json.asString?
    let ⟨type, _⟩ ← Json.required "type" fields
    let optional ← Json.flag? "optional" fields
    return ⟨name, ← decode true type, optional⟩ :: (← decodeParams rest)
  | _ => none
termination_by sizeOf items
decreasing_by
  · exact sizeOf_lt_of_field ‹_› rest
  · exact sizeOf_rest_lt fields rest

end

/-- The type that a JSON value describes on its own. -/
def ofJson? (value : Json) : Option TypeExpr :=
  decode false value

end TypeExpr

end Componentry
