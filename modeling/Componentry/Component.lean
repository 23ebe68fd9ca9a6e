import Componentry.Declaration
import Componentry.Text.Blank
import Componentry.Text.UpperCase

/-!
# Components

The declared public surface of a user interface component: properties, events, slots, definitions
of dynamic slots and methods, each with its type and its documentation tags as written.
-/

namespace Componentry

/-- A place in a source file. Lines count from one, columns from zero. -/
structure Location where
  filename : String := ""
  line : Nat := 0
  column : Nat := 0
deriving DecidableEq, Repr

namespace Location

def isUnknown (location : Location) : Bool :=
  location.filename == "" && location.line == 0 && location.column == 0

def print (location : Location) : String :=
  if location.isUnknown then "<unknown>"
  else location.filename ++ ":" ++ toString location.line ++ ":" ++ toString location.column

def toJson (location : Location) : Json :=
  .object [("filename", .string location.filename), ("line", .number (.integer location.line)),
    ("col", .number (.integer location.column))]

/-- The fields that are read. -/
def shape : Json.Shape :=
  .recordOf ["filename", "line", "col"] []

def ofJson? (value : Json) : Option Location := do
  let fields ← value.asObject?
  return {
    filename := ← Json.field? "filename" fields Json.asString?
    line := ← Json.fieldOr? "line" fields 0 Json.asWord?
    column := ← Json.fieldOr? "col" fields 0 Json.asWord? }

end Location

/-- The documentation tags of a declaration, as written. -/
structure DocTags where
  description : Option String := none
  deprecated : Option String := none
  since : Option String := none
  default : Option String := none
  displayName : Option String := none
  /-- All other tags, in order. -/
  tags : OrderedMap String := .empty

namespace DocTags

/-- Tags as a document. -/
def toJson (docs : DocTags) : Json :=
  .object [("description", .ofOption docs.description), ("deprecated", .ofOption docs.deprecated),
    ("since", .ofOption docs.since), ("default", .ofOption docs.default),
    ("displayName", .ofOption docs.displayName),
    ("tags", .object (docs.tags.entries.map fun (key, text) => (key, .string text)))]

/-- The fields that are read. -/
def shape : Json.Shape :=
  .recordOf ["description", "deprecated", "since", "default", "displayName", "tags"] []

/-- Reads tags from a document. All fields may be missing. -/
def ofJson? (value : Json) : Option DocTags := do
  let fields ← value.asObject?
  return {
    description := ← Json.fieldOpt? "description" fields Json.asString?
    deprecated := ← Json.fieldOpt? "deprecated" fields Json.asString?
    since := ← Json.fieldOpt? "since" fields Json.asString?
    default := ← Json.fieldOpt? "default" fields Json.asString?
    displayName := ← Json.fieldOpt? "displayName" fields Json.asString?
    tags := ← Json.fieldOr? "tags" fields .empty (Json.mapOf? Json.asString?) }

end DocTags

/-- What the slots that a property names are filled from. -/
inductive DynamicSlotKind where
  | slot
  | templateSlot
deriving DecidableEq, Repr

namespace DynamicSlotKind

def all : List DynamicSlotKind := [.slot, .templateSlot]

/-- The name in documents. -/
def key : DynamicSlotKind → String
  | .slot => "slot"
  | .templateSlot => "templateSlot"

/-- The name in messages. -/
def label : DynamicSlotKind → String
  | .slot => "dynamic slot"
  | .templateSlot => "dynamic template slot"

def ofKey? (text : String) : Option DynamicSlotKind :=
  all.find? (·.key == text)

def ofJson? (value : Json) : Option DynamicSlotKind := do
  ofKey? (← value.asChoice?)

end DynamicSlotKind

/-- A property as declared. -/
structure Property where
  type : TypeExpr
  optional : Bool := false
  readOnly : Bool := false
  /-- Whether the component changes the property itself and reports that by an event. -/
  writeback : Bool := false
  dynamicSlot : Option DynamicSlotKind := none
  /-- The definition of dynamic slots that the property fills. -/
  dynamicSlotKey : Option String := none
  docs : DocTags := {}

namespace Property

def toJson (property : Property) : Json :=
  .object [("type", property.type.toJson), ("optional", .bool property.optional),
    ("readOnly", .bool property.readOnly), ("writeback", .bool property.writeback),
    ("dynamicSlot", .ofOption (property.dynamicSlot.map DynamicSlotKind.key)),
    ("dynamicSlotKey", .ofOption property.dynamicSlotKey), ("docs", property.docs.toJson)]

/-- The fields that are read. -/
def shape : Json.Shape :=
  .recordOf ["type", "optional", "readOnly", "writeback", "dynamicSlot", "dynamicSlotKey"]
    [("docs", DocTags.shape)]

def ofJson? (value : Json) : Option Property := do
  let fields ← value.asObject?
  return {
    type := ← Json.field? "type" fields TypeExpr.ofJson?
    optional := ← Json.flag? "optional" fields
    readOnly := ← Json.flag? "readOnly" fields
    writeback := ← Json.flag? "writeback" fields
    dynamicSlot := ← Json.fieldOpt? "dynamicSlot" fields DynamicSlotKind.ofJson?
    dynamicSlotKey := ← Json.fieldOpt? "dynamicSlotKey" fields Json.asString?
    docs := ← Json.fieldOr? "docs" fields {} DocTags.ofJson? }

end Property

/-- An event as declared. -/
structure Event where
  detail : Option TypeExpr := none
  /-- The property whose changes the event reports. -/
  writebackFor : Option String := none
  bubbles : Bool := false
  cancelable : Bool := false
  docs : DocTags := {}

namespace Event

def toJson (event : Event) : Json :=
  .object [("detail", (event.detail.map TypeExpr.toJson).getD .null),
    ("writebackFor", .ofOption event.writebackFor), ("bubbles", .bool event.bubbles),
    ("cancelable", .bool event.cancelable), ("docs", event.docs.toJson)]

/-- The fields that are read. -/
def shape : Json.Shape :=
  .recordOf ["detail", "writebackFor", "bubbles", "cancelable"] [("docs", DocTags.shape)]

def ofJson? (value : Json) : Option Event := do
  let fields ← value.asObject?
  return {
    detail := ← Json.fieldOpt? "detail" fields TypeExpr.ofJson?
    writebackFor := ← Json.fieldOpt? "writebackFor" fields Json.asString?
    bubbles := ← Json.flag? "bubbles" fields
    cancelable := ← Json.flag? "cancelable" fields
    docs := ← Json.fieldOr? "docs" fields {} DocTags.ofJson? }

end Event

/-- A slot, or a definition of dynamic slots, as declared. -/
structure Slot where
  type : Option TypeExpr := none
  docs : DocTags := {}

namespace Slot

def toJson (slot : Slot) : Json :=
  .object [("type", (slot.type.map TypeExpr.toJson).getD .null), ("docs", slot.docs.toJson)]

/-- The fields that are read. -/
def shape : Json.Shape :=
  .recordOf ["type"] [("docs", DocTags.shape)]

def ofJson? (value : Json) : Option Slot := do
  let fields ← value.asObject?
  return {
    type := ← Json.fieldOpt? "type" fields TypeExpr.ofJson?
    docs := ← Json.fieldOr? "docs" fields {} DocTags.ofJson? }

end Slot

/-- A parameter of a method. -/
structure MethodParam where
  name : String
  type : TypeExpr
  optional : Bool := false
  docs : DocTags := {}

namespace MethodParam

def toJson (param : MethodParam) : Json :=
  .object [("name", .string param.name), ("type", param.type.toJson),
    ("optional", .bool param.optional), ("docs", param.docs.toJson)]

/-- The fields that are read. -/
def shape : Json.Shape :=
  .recordOf ["name", "type", "optional"] [("docs", DocTags.shape)]

def ofJson? (value : Json) : Option MethodParam := do
  let fields ← value.asObject?
  return {
    name := ← Json.field? "name" fields Json.asString?
    type := ← Json.field? "type" fields TypeExpr.ofJson?
    optional := ← Json.flag? "optional" fields
    docs := ← Json.fieldOr? "docs" fields {} DocTags.ofJson? }

end MethodParam

/-- A method as declared. -/
structure Method where
  params : List MethodParam := []
  returns : Option TypeExpr := none
  docs : DocTags := {}

namespace Method

def toJson (method : Method) : Json :=
  .object [("params", .array (method.params.map MethodParam.toJson)),
    ("returns", (method.returns.map TypeExpr.toJson).getD .null), ("docs", method.docs.toJson)]

/-- The fields that are read. -/
def shape : Json.Shape :=
  .recordOf ["returns"] [("params", .list MethodParam.shape), ("docs", DocTags.shape)]

def ofJson? (value : Json) : Option Method := do
  let fields ← value.asObject?
  return {
    params := ← Json.fieldOr? "params" fields [] (Json.listOf? MethodParam.ofJson?)
    returns := ← Json.fieldOpt? "returns" fields TypeExpr.ofJson?
    docs := ← Json.fieldOr? "docs" fields {} DocTags.ofJson? }

end Method

/-- The declared surface of a component. -/
structure Component where
  /-- The name of the class. -/
  name : String
  /-- The name of the element. -/
  tagName : String
  /-- The version that introduced the component. -/
  since : Option String := none
  location : Location := {}
  docs : DocTags := {}
  generics : List TypeParam := []
  /-- The type that the component extends. -/
  base : Option String := none
  properties : OrderedMap Property := .empty
  events : OrderedMap Event := .empty
  slots : OrderedMap Slot := .empty
  dynamicSlots : OrderedMap Slot := .empty
  methods : OrderedMap Method := .empty

namespace Component

/-- A map as an object. -/
def mapToJson (encode : α → Json) (map : OrderedMap α) : Json :=
  .object (map.entries.map fun (key, item) => (key, encode item))

/-- A component as a document. -/
def toJson (component : Component) : Json :=
  .object [("name", .string component.name), ("tagName", .string component.tagName),
    ("since", .ofOption component.since), ("location", component.location.toJson),
    ("docs", component.docs.toJson),
    ("generics", .array (component.generics.map TypeParam.toJson)),
    ("base", .ofOption component.base),
    ("properties", mapToJson Property.toJson component.properties),
    ("events", mapToJson Event.toJson component.events),
    ("slots", mapToJson Slot.toJson component.slots),
    ("dynamicSlots", mapToJson Slot.toJson component.dynamicSlots),
    ("methods", mapToJson Method.toJson component.methods)]

/-- The fields that are read. -/
def shape : Json.Shape :=
  .recordOf ["name", "tagName", "since", "base"]
    [("location", Location.shape), ("docs", DocTags.shape),
      ("generics", .list TypeParam.shape), ("properties", .map Property.shape),
      ("events", .map Event.shape), ("slots", .map Slot.shape),
      ("dynamicSlots", .map Slot.shape), ("methods", .map Method.shape)]

/-- Reads a component from a document. Only its name and its tag must be there. -/
def ofJson? (value : Json) : Option Component := do
  let fields ← value.asObject?
  return {
    name := ← Json.field? "name" fields Json.asString?
    tagName := ← Json.field? "tagName" fields Json.asString?
    since := ← Json.fieldOpt? "since" fields Json.asString?
    location := ← Json.fieldOr? "location" fields {} Location.ofJson?
    docs := ← Json.fieldOr? "docs" fields {} DocTags.ofJson?
    generics := ← Json.fieldOr? "generics" fields [] (Json.listOf? TypeParam.ofJson?)
    base := ← Json.fieldOpt? "base" fields Json.asString?
    properties := ← Json.fieldOr? "properties" fields .empty (Json.mapOf? Property.ofJson?)
    events := ← Json.fieldOr? "events" fields .empty (Json.mapOf? Event.ofJson?)
    slots := ← Json.fieldOr? "slots" fields .empty (Json.mapOf? Slot.ofJson?)
    dynamicSlots := ← Json.fieldOr? "dynamicSlots" fields .empty (Json.mapOf? Slot.ofJson?)
    methods := ← Json.fieldOr? "methods" fields .empty (Json.mapOf? Method.ofJson?) }

end Component

/-- Upper-cases the first character. -/
def capitalize : List Char → List Char
  | [] => []
  | first :: rest => Text.upperCase first ++ rest

/-- The name of a tag in which each part between dashes and underscores starts in upper case:
`my-button` becomes `MyButton`. -/
def pascalCase (tag : String) : String :=
  let parts := Text.pieces (fun c => c == '-' || c == '_') tag.toList
  String.ofList (parts.flatMap capitalize)

end Componentry
