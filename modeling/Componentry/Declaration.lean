import Componentry.TypeExpr.Codec
import Componentry.TypeExpr.Print

/-!
# Declarations and the type model

A type model is what the types of a component may refer to: named interfaces, classes, aliases and
enumerations. There is one declaration of a name; declaring a name again replaces the declaration
and keeps its place.
-/

namespace Componentry

/-- A type parameter `T extends Constraint = Default`. -/
structure TypeParam where
  name : String
  constraint : Option TypeExpr := none
  default : Option TypeExpr := none

namespace TypeParam

/-- The parameter as TypeScript declares it. -/
def print (param : TypeParam) : String :=
  let bound := match param.constraint with
    | some type => " extends " ++ type.print
    | none => ""
  let fallback := match param.default with
    | some type => " = " ++ type.print
    | none => ""
  param.name ++ bound ++ fallback

def toJson (param : TypeParam) : Json :=
  .object [("name", .string param.name),
    ("constraint", (param.constraint.map TypeExpr.toJson).getD .null),
    ("default", (param.default.map TypeExpr.toJson).getD .null)]

/-- The fields that are read. -/
def shape : Json.Shape :=
  .recordOf ["name", "constraint", "default"] []

def ofJson? (value : Json) : Option TypeParam := do
  let fields ← value.asObject?
  return {
    name := ← Json.field? "name" fields Json.asString?
    constraint := ← Json.fieldOpt? "constraint" fields TypeExpr.ofJson?
    default := ← Json.fieldOpt? "default" fields TypeExpr.ofJson? }

end TypeParam

/-- What a declaration declares. -/
inductive DeclarationKind where
  | interface
  | classType
  | typeAlias
  | enumeration
deriving DecidableEq, Repr

namespace DeclarationKind

def all : List DeclarationKind := [.interface, .classType, .typeAlias, .enumeration]

def name : DeclarationKind → String
  | .interface => "interface"
  | .classType => "class"
  | .typeAlias => "alias"
  | .enumeration => "enum"

def ofJson? (value : Json) : Option DeclarationKind := do
  let text ← value.asChoice?
  all.find? (·.name == text)

end DeclarationKind

/-- A named declaration. -/
structure Declaration where
  name : String
  kind : DeclarationKind
  typeParams : List TypeParam := []
  /-- The shape of an interface or class, or the type that an alias stands for. -/
  body : TypeExpr := .any
  /-- The values of an enumeration. -/
  enumValues : List Literal := []
  exported : Bool := false
  /-- Whether the declaration belongs to a library; such types are never expanded. -/
  library : Bool := false
  /-- The note of a deprecated declaration. -/
  deprecated : Option String := none
  source : Option String := none

namespace Declaration

/-- An exported interface. -/
def ofInterface (name : String) (members : List Member) : Declaration :=
  { name, kind := .interface, body := .namedStruct name members, exported := true }

/-- An exported alias. -/
def ofAlias (name : String) (body : TypeExpr) : Declaration :=
  { name, kind := .typeAlias, body, exported := true }

/-- An exported enumeration. -/
def ofEnum (name : String) (values : List Literal) : Declaration :=
  { name, kind := .enumeration, enumValues := values, exported := true }

def toJson (declaration : Declaration) : Json :=
  .object [("name", .string declaration.name), ("kind", .string declaration.kind.name),
    ("typeParams", .array (declaration.typeParams.map TypeParam.toJson)),
    ("body", declaration.body.toJson),
    ("enumValues", .array (declaration.enumValues.map Literal.toJson)),
    ("exported", .bool declaration.exported), ("library", .bool declaration.library),
    ("deprecated", .ofOption declaration.deprecated), ("source", .ofOption declaration.source)]

/-- The fields that are read. -/
def shape : Json.Shape :=
  .recordOf ["name", "kind", "body", "enumValues", "exported", "library", "deprecated", "source"]
    [("typeParams", .list TypeParam.shape)]

def ofJson? (value : Json) : Option Declaration := do
  let fields ← value.asObject?
  return {
    name := ← Json.field? "name" fields Json.asString?
    kind := ← Json.field? "kind" fields DeclarationKind.ofJson?
    typeParams := ← Json.fieldOr? "typeParams" fields [] (Json.listOf? TypeParam.ofJson?)
    body := ← Json.fieldOr? "body" fields .any TypeExpr.ofJson?
    enumValues := ← Json.fieldOr? "enumValues" fields [] (Json.listOf? Literal.ofJson?)
    exported := ← Json.flag? "exported" fields
    library := ← Json.flag? "library" fields
    deprecated := ← Json.fieldOpt? "deprecated" fields Json.asString?
    source := ← Json.fieldOpt? "source" fields Json.asString? }

end Declaration

/-- The declarations that types may refer to, by name. -/
structure TypeModel where
  byName : OrderedMap Declaration
  keyed : ∀ entry ∈ byName.entries, entry.1 = entry.2.name

namespace TypeModel

def empty : TypeModel :=
  ⟨.empty, by simp [OrderedMap.empty]⟩

/-- Declares a name, in place of an earlier declaration of it. -/
def insert (model : TypeModel) (declaration : Declaration) : TypeModel :=
  ⟨model.byName.insert declaration.name declaration, by
    intro entry mem
    rcases mem_upsert mem with rfl | mem
    · rfl
    · exact model.keyed entry mem⟩

def ofList (declarations : List Declaration) : TypeModel :=
  declarations.foldl insert empty

/-- The declarations in the order in which their names were first declared. -/
def declarations (model : TypeModel) : List Declaration :=
  model.byName.values

/-- The declaration of a name. -/
def find? (model : TypeModel) (name : String) : Option Declaration :=
  model.byName.get? name

/-- The names that the model declares. -/
def names (model : TypeModel) : List String :=
  model.byName.keys

/-- How many references and wrappers `members` looks through. -/
def memberSteps : Nat := 32

/-- The members of an object type, through so many references and wrappers. -/
def membersWithin (model : TypeModel) : Nat → TypeExpr → Option (List Member)
  | 0, _ => none
  | steps + 1, type =>
    match type with
    | .struct _ _ members => some members
    | .reference name _ =>
      match model.find? name with
      | some declaration => membersWithin model steps declaration.body
      | none => none
    | .mapped _ (inner :: _) => membersWithin model steps inner
    | _ => none

/-- The members of an object type, looked up through references and wrappers. -/
def members (model : TypeModel) (type : TypeExpr) : Option (List Member) :=
  model.membersWithin memberSteps type

/-- A model as a document: the list of its declarations. -/
def toJson (model : TypeModel) : Json :=
  .object [("declarations", .array (model.declarations.map Declaration.toJson))]

/-- The fields that are read. -/
def shape : Json.Shape :=
  .record [("declarations", .list Declaration.shape)]

/-- Reads a model from a document. A later declaration of a name replaces an earlier one. -/
def ofJson? (value : Json) : Option TypeModel := do
  let fields ← value.asObject?
  let declarations ← Json.fieldOr? "declarations" fields [] (Json.listOf? Declaration.ofJson?)
  return ofList declarations

end TypeModel

end Componentry
