import Componentry.Json.Writer
import Componentry.Resolved

/-!
# Metadata

The two tiers of metadata of a resolved component, as JSON objects. Runtime metadata says what a
validator of properties has to know; design-time metadata says that and adds documentation,
optionality, editors and the members of array elements.
-/

namespace Componentry

/-- Who reads the metadata. -/
inductive Tier where
  | runtime
  | designTime
deriving DecidableEq, Repr

namespace Tier

/-- How the file of a tier ends. -/
def fileSuffix : Tier → String
  | .runtime => "rt.json"
  | .designTime => "dt.json"

end Tier

/-- The fields of an object in order; a key that is put again keeps its place. -/
abbrev Fields := List (String × Json)

namespace Fields

/-- Puts fields one after the other. -/
def putAll (fields additions : Fields) : Fields :=
  additions.foldl (fun fields (key, value) => upsert key value fields) fields

/-- Puts a field unless there is one with its key. -/
def putNew (fields : Fields) (key : String) (value : Json) : Fields :=
  if (lookup key fields).isSome then fields else fields ++ [(key, value)]

/-- A field, if it is wanted. -/
def only (wanted : Bool) (key : String) (value : Json) : Fields :=
  if wanted then [(key, value)] else []

/-- A text field, if there is a text. -/
def text (key : String) : Option String → Fields
  | some value => [(key, .string value)]
  | none => []

end Fields

namespace Annotations

/-- The fields of documentation, without the tags that are passed on. -/
def fields (docs : Annotations) : Fields :=
  Fields.text "description" docs.description ++
    (match docs.deprecated with
      | some note => [("deprecated", if note.isEmpty then .bool true else .string note)]
      | none => []) ++
    Fields.text "since" docs.since ++ Fields.text "displayName" docs.displayName

/-- Adds documentation to the fields of a member; a tag never replaces a field. -/
def addTo (docs : Annotations) (out : Fields) : Fields :=
  docs.tags.entries.foldl (fun out (tag, text) => out.putNew tag (.string text))
    (out.putAll docs.fields)

end Annotations

namespace Tier

/-- The fields of a signature. -/
def signatureFields (tier : Tier) (signature : Signature) : Fields :=
  let values (list : Option (List String)) : Fields :=
    match list with
    | some list => [("enumValues", .strings list)]
    | none => []
  match tier with
  | .runtime => ("type", .string signature.display) :: values signature.runtimeEnumValues
  | .designTime =>
    ("type", .string signature.display) :: values signature.enumValues ++
      [("docType", .string signature.doc)] ++
      Fields.only signature.isArrayOfObject "isArrayOfObject" (.bool true) ++
      Fields.only signature.nullable "nullable" (.bool true)

/-- What both tiers say of a property beside its signature and its members. -/
def propertyFlags (property : ResolvedProperty) : Fields :=
  (match property.docs.defaultValue with
    | some value => [("defaultValue", value)]
    | none => []) ++
    Fields.only property.readOnly "readOnly" (.bool true) ++
    Fields.only property.writeback "writeback" (.bool true)

/-- What design tools learn of a property before the members of its elements. -/
def editingFields (property : ResolvedProperty) : Fields :=
  ("optional", .bool property.optional) ::
    Fields.text "typedef" property.signature.typedef ++
    (match property.signature.designOnlyEnum, property.signature.enumValues with
      | true, some values => [("propertyEditorValues", .strings values)]
      | _, _ => []) ++
    Fields.text "propertyEditor" property.docs.editor

/-- What design tools learn of a property after the members of its elements. -/
def bookkeepingFields (property : ResolvedProperty) : Fields :=
  Fields.only property.circular "circularRef" (.bool true) ++
    Fields.text "dynamicSlot" (property.dynamicSlot.map DynamicSlotKind.key) ++
    Fields.text "dynamicSlotKey" property.dynamicSlotKey ++
    Fields.only (!property.bindings.isEmpty) "genericBindings"
      (.array (property.bindings.map Binding.toJson))

/-- A field with members, if there are any. -/
def memberFields (key : String) : Option Fields → Fields
  | some members => [(key, .object members)]
  | none => []

/-- The object of a property from those of its members. -/
def propertyWith (tier : Tier) (property : ResolvedProperty) (members items : Option Fields) :
    Json :=
  let shared := ((tier.signatureFields property.signature).putAll (propertyFlags property)).putAll
    (memberFields "properties" members)
  match tier with
  | .runtime => .object shared
  | .designTime =>
    .object (property.docs.addTo (((shared.putAll (editingFields property)).putAll
      (memberFields "itemProperties" items)).putAll (bookkeepingFields property)))

mutual

/-- The object of a property. -/
def property (tier : Tier) : ResolvedProperty → Json
  | ⟨signature, declared, properties, itemProperties, readOnly, writeback, optional, docs,
      dynamicSlot, dynamicSlotKey, circular, bindings⟩ =>
    tier.propertyWith ⟨signature, declared, none, none, readOnly, writeback, optional, docs,
      dynamicSlot, dynamicSlotKey, circular, bindings⟩
      (tier.optionalProperties properties) (tier.optionalProperties itemProperties)

def optionalProperties (tier : Tier) : Option (List (String × ResolvedProperty)) → Option Fields
  | none => none
  | some entries => some (tier.properties entries)

/-- The objects of properties, by name. -/
def properties (tier : Tier) : List (String × ResolvedProperty) → Fields
  | [] => []
  | (name, member) :: rest => (name, tier.property member) :: tier.properties rest

end

/-- The metadata of an event. -/
def event (tier : Tier) (event : ResolvedEvent) : Json :=
  let items := match tier with
    | .runtime => none
    | .designTime => event.expansion.itemProperties
  let detail : Fields := match event.detail with
    | some signature =>
      [("detail", .object (((tier.signatureFields signature).putAll
        (memberFields "properties" (tier.optionalProperties event.expansion.properties))).putAll
        (memberFields "itemProperties" (tier.optionalProperties items))))]
    | none => []
  let shared := detail.putAll (Fields.text "writebackFor" event.writebackFor)
  match tier with
  | .runtime => .object shared
  | .designTime =>
    .object (event.docs.addTo (shared.putAll
      [("bubbles", .bool event.bubbles), ("cancelable", .bool event.cancelable)]))

/-- The metadata of a slot. -/
def slot (tier : Tier) (slot : ResolvedSlot) : Json :=
  let shared := (slot.signature.map tier.signatureFields).getD []
  match tier with
  | .runtime => .object shared
  | .designTime => .object (slot.docs.addTo shared)

def param (tier : Tier) (param : ResolvedParam) : Json :=
  let shared := Fields.putAll [("name", .string param.name)] (tier.signatureFields param.signature)
  match tier with
  | .runtime => .object shared
  | .designTime => .object (param.docs.addTo (shared.putAll [("optional", .bool param.optional)]))

/-- The metadata of a method. -/
def method (tier : Tier) (method : ResolvedMethod) : Json :=
  let shared : Fields := [("params", .array (method.params.map tier.param)),
    ("returns", .object (tier.signatureFields method.returns))]
  match tier with
  | .runtime => .object shared
  | .designTime => .object (method.docs.addTo shared)

/-- The entries of a map as the fields of an object. -/
def mapped (encode : α → Json) (map : OrderedMap α) : Json :=
  .object (map.entries.map fun (name, item) => (name, encode item))

/-- What design tools learn of a component beside its members. -/
def componentFields (component : ResolvedComponent) : Fields :=
  let typedefs := component.typedefs
  (component.docs.addTo (Fields.putAll
      [("name", .string component.name), ("tag", .string component.tagName)]
      (Fields.text "since" component.since))).putAll
    (Fields.only (!component.generics.isEmpty) "generics" component.generics.toJson ++
      Fields.only (!typedefs.isEmpty) "typedefs" (.strings typedefs))

/-- The metadata of a component. -/
def project (tier : Tier) (component : ResolvedComponent) : Json :=
  let head : Fields := match tier with
    | .runtime => [("name", .string component.name), ("tag", .string component.tagName)]
    | .designTime => componentFields component
  let dynamicSlots : Fields := match tier with
    | .runtime => []
    | .designTime =>
      Fields.only (!component.dynamicSlots.entries.isEmpty) "dynamicSlots"
        (mapped tier.slot component.dynamicSlots)
  .object (head.putAll
    ([("properties", .object (tier.properties component.properties.entries)),
      ("events", mapped tier.event component.events),
      ("slots", mapped tier.slot component.slots)] ++ dynamicSlots ++
      [("methods", mapped tier.method component.methods)]))

end Tier

end Componentry
