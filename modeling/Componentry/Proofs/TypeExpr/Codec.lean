import Componentry.TypeExpr.Codec
import Componentry.Proofs.Json.Codec

/-!
# Types are read back

Reading the document of a type gives the type, at the top and inside another
type. The proof follows the types; lists of types, members and parameters are
read back item by item.
-/

namespace Componentry

theorem Primitive.ofJson?_toJson (primitive : Primitive) :
    Primitive.ofJson? primitive.toJson = some primitive := by
  simp [Primitive.ofJson?, Primitive.toJson, Json.asInnerChoice?, Json.asChoice?]

theorem Literal.ofJson?_toJson (value : Literal) : Literal.ofJson? value.toJson = some value := by
  cases value with
  | boolean value => rfl
  | number value => rfl
  | string value => rfl

theorem TypeKind.ofJson?_name (nested : Bool) (kind : TypeKind) :
    TypeKind.ofJson? nested (.string kind.name) = some kind := by
  rw [TypeKind.ofJson?, TypeKind.ofName?_name]

namespace TypeExpr

theorem exists_fields (type : TypeExpr) : ∃ fields, type.toJson = .object fields := by
  cases type with
  | generic name constraint => cases constraint <;> exact ⟨_, rfl⟩
  | conditional text resolved => cases resolved <;> exact ⟨_, rfl⟩
  | _ => exact ⟨_, rfl⟩

/-- A type is never written as null. -/
theorem decodeOpt_toJson {fields : List (String × Json)} (type : TypeExpr)
    (smaller : sizeOf type.toJson < sizeOf fields) :
    decodeOpt (some (⟨type.toJson, smaller⟩ : Json.FieldOf fields)) =
      (decode true type.toJson).map some := by
  rcases type.exists_fields with ⟨written, document_eq⟩
  simp only [document_eq, decodeOpt]

section

attribute [local simp] tagged TypeKind.ofJson?_name Primitive.ofJson?_toJson
  Literal.ofJson?_toJson Json.nullable?_ofOption Json.required Json.optional Json.occurrences
  Json.field? Json.fieldOr? Json.fieldOpt? Json.flag? Json.asString? Json.asBool?

mutual

/-- Types are read back from their documents. -/
theorem decode_toJson (nested : Bool) (type : TypeExpr) :
    decode nested type.toJson = some type := by
  cases type with
  | primitive name | literal value => simp [toJson, decode]
  | array element => simp [toJson, decode, decode_toJson true element]
  | struct name typeArgs members =>
    simp [toJson, decode, decodeListOr, decodeList, decodeMembersOr,
      decodeItems_toJsonAll typeArgs, decodeMembers_toJsonMembers members]
  | reference name args =>
    simp [toJson, decode, decodeListOr, decodeList, decodeItems_toJsonAll args]
  | union members | intersection members =>
    simp [toJson, decode, decodeList, decodeItems_toJsonAll members]
  | mapped wrapper args =>
    simp [toJson, decode, decodeListOr, decodeList, decodeItems_toJsonAll args]
  | generic name constraint =>
    cases constraint with
    | none => simp [toJson, decode, decodeOpt]
    | some constraint => simp [toJson, decode, decodeOpt_toJson, decode_toJson true constraint]
  | function params returns =>
    simp [toJson, decode, decodeParamsOr, decodeParams_toJsonParams params,
      decode_toJson true returns]
  | conditional text resolved =>
    cases resolved with
    | none => simp [toJson, decode, decodeOpt]
    | some branch => simp [toJson, decode, decodeOpt_toJson, decode_toJson true branch]
  | any | unknown | null => simp [toJson, decode]

theorem decodeItems_toJsonAll (types : List TypeExpr) :
    decodeItems (toJsonAll types) = some types := by
  cases types with
  | nil => simp [toJsonAll, decodeItems]
  | cons type rest =>
    simp [toJsonAll, decodeItems, decode_toJson true type, decodeItems_toJsonAll rest]

theorem decodeMembers_toJsonMembers (members : List Member) :
    decodeMembers (toJsonMembers members) = some members := by
  cases members with
  | nil => simp [toJsonMembers, decodeMembers]
  | cons member rest =>
    cases member with
    | mk name type optional readonly =>
      simp [toJsonMembers, decodeMembers, decode_toJson true type,
        decodeMembers_toJsonMembers rest]

theorem decodeParams_toJsonParams (params : List Parameter) :
    decodeParams (toJsonParams params) = some params := by
  cases params with
  | nil => simp [toJsonParams, decodeParams]
  | cons param rest =>
    cases param with
    | mk name type optional =>
      simp [toJsonParams, decodeParams, decode_toJson true type,
        decodeParams_toJsonParams rest]

end

theorem decode_array (nested : Bool) (element : Json) :
    decode nested (tagged .array [("element", element)]) = (decode true element).map .array := by
  have step : decode nested (tagged .array [("element", element)]) =
      (decode true element).bind fun inner => some (.array inner) := by
    simp [decode]
  rw [step]
  cases decode true element <;> rfl

/-- A reference may be written without its arguments. -/
theorem decode_reference (nested : Bool) (name : String) :
    decode nested (tagged .reference [("name", .string name)]) = some (.reference name []) := by
  simp [decode, decodeListOr]

end

theorem ofJson?_toJson (type : TypeExpr) : ofJson? type.toJson = some type :=
  decode_toJson false type

end TypeExpr

end Componentry
