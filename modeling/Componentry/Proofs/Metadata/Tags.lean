import Componentry.Proofs.Metadata.Objects
import Componentry.Proofs.Metadata.Tagged

/-!
# What tags add to design-time metadata

`withoutTags` leaves out the tags of a component that are passed on, at every
level, and `tagsAt` finds the tags of the object at a place in the metadata. The
metadata of a component is that of the component without tags, with tags added.
So tags take nothing away and change nothing, but where the projection leaves
out a field, a tag may put it in.

The proof goes through the kinds of objects. Each of them puts the same fields
with and without tags, apart from the members that stand in it.
-/

namespace Componentry

open Json (Step Tagged)

/-! ## Components without tags -/

mutual

/-- A property without the tags of it and of all members below it. -/
def ResolvedProperty.withoutTags : ResolvedProperty → ResolvedProperty
  | ⟨signature, declared, properties, itemProperties, readOnly, writeback, optional, docs,
      dynamicSlot, dynamicSlotKey, circular, bindings⟩ =>
    ⟨signature, declared, untaggedBlock? properties, untaggedBlock? itemProperties, readOnly,
      writeback, optional, docs.withoutTags, dynamicSlot, dynamicSlotKey, circular, bindings⟩

def untaggedBlock? : Option (List (String × ResolvedProperty)) →
    Option (List (String × ResolvedProperty))
  | none => none
  | some block => some (untaggedBlock block)

def untaggedBlock : List (String × ResolvedProperty) → List (String × ResolvedProperty)
  | [] => []
  | (name, member) :: rest => (name, member.withoutTags) :: untaggedBlock rest

end

theorem untaggedBlock_eq_map (block : PropertyList) :
    untaggedBlock block = block.map fun entry => (entry.1, entry.2.withoutTags) := by
  induction block with
  | nil => rw [untaggedBlock, List.map_nil]
  | cons entry rest ih => rw [untaggedBlock, ih, List.map_cons]

theorem untaggedBlock?_eq_map (block : Option PropertyList) :
    untaggedBlock? block = block.map untaggedBlock := by
  cases block with
  | none => rw [untaggedBlock?, Option.map_none]
  | some block => rw [untaggedBlock?, Option.map_some]

theorem ResolvedProperty.withoutTags_eq (property : ResolvedProperty) :
    property.withoutTags = { property with
      properties := property.properties.map untaggedBlock
      itemProperties := property.itemProperties.map untaggedBlock
      docs := property.docs.withoutTags } := by
  rw [← untaggedBlock?_eq_map, ← untaggedBlock?_eq_map]
  cases property
  rw [withoutTags]

/-- The values are changed, and the keys and their order are kept. -/
def OrderedMap.mapValues {α β : Type} (change : α → β) (map : OrderedMap α) : OrderedMap β :=
  ⟨map.entries.map fun entry => (entry.1, change entry.2), by
    rw [List.map_map]
    exact map.nodup⟩

def Expansion.withoutTags (expansion : Expansion) : Expansion where
  properties := expansion.properties.map untaggedBlock
  itemProperties := expansion.itemProperties.map untaggedBlock

/-- An event without the tags of it and of the members of its detail. -/
def ResolvedEvent.withoutTags (event : ResolvedEvent) : ResolvedEvent :=
  { event with expansion := event.expansion.withoutTags, docs := event.docs.withoutTags }

/-- A slot without its tags. -/
def ResolvedSlot.withoutTags (slot : ResolvedSlot) : ResolvedSlot :=
  { slot with docs := slot.docs.withoutTags }

def ResolvedParam.withoutTags (param : ResolvedParam) : ResolvedParam :=
  { param with docs := param.docs.withoutTags }

/-- A method without the tags of it and of its parameters. -/
def ResolvedMethod.withoutTags (method : ResolvedMethod) : ResolvedMethod :=
  { method with
    params := method.params.map ResolvedParam.withoutTags
    docs := method.docs.withoutTags }

/-- The component without the tags that are passed on, at every level. -/
def ResolvedComponent.withoutTags (component : ResolvedComponent) : ResolvedComponent :=
  { component with
    docs := component.docs.withoutTags
    properties := component.properties.mapValues ResolvedProperty.withoutTags
    events := component.events.mapValues ResolvedEvent.withoutTags
    slots := component.slots.mapValues ResolvedSlot.withoutTags
    dynamicSlots := component.dynamicSlots.mapValues ResolvedSlot.withoutTags
    methods := component.methods.mapValues ResolvedMethod.withoutTags }

/-! ## The tags of the objects of metadata -/

/-- The members that stand under a key of the object of a property or a detail. -/
def Expansion.blockAt? (expansion : Expansion) (key : String) : Option PropertyList :=
  if key = "properties" then expansion.properties
  else if key = "itemProperties" then expansion.itemProperties
  else none

/-- The tags of the object at a place below the object of a property. -/
def ResolvedProperty.tagsAt : ResolvedProperty → List Step → OrderedMap String
  | property, [] => property.docs.tags
  | property, .key key :: .key name :: way =>
    match (property.expansion.blockAt? key).bind (lookup name) with
    | some member => member.tagsAt way
    | none => .empty
  | _, _ => .empty

/-- The tags of the objects of named items. -/
def entryTagsAt {α : Type} (tagsAt : α → List Step → OrderedMap String)
    (entries : List (String × α)) : List Step → OrderedMap String
  | .key name :: way => ((lookup name entries).map fun item => tagsAt item way).getD .empty
  | _ => .empty

def Expansion.tagsAt (expansion : Expansion) : List Step → OrderedMap String
  | .key key :: way =>
    ((expansion.blockAt? key).map fun block =>
      entryTagsAt ResolvedProperty.tagsAt block way).getD .empty
  | _ => .empty

/-- The tags that the metadata of an event has at a place. -/
def ResolvedEvent.tagsAt (event : ResolvedEvent) : List Step → OrderedMap String
  | [] => event.docs.tags
  | .key key :: way => if key = "detail" then event.expansion.tagsAt way else .empty
  | _ => .empty

/-- The tags that the metadata of a slot has at a place. -/
def ResolvedSlot.tagsAt (slot : ResolvedSlot) : List Step → OrderedMap String
  | [] => slot.docs.tags
  | _ => .empty

def ResolvedParam.tagsAt (param : ResolvedParam) : List Step → OrderedMap String
  | [] => param.docs.tags
  | _ => .empty

/-- The tags that the metadata of a method has at a place. -/
def ResolvedMethod.tagsAt (method : ResolvedMethod) : List Step → OrderedMap String
  | [] => method.docs.tags
  | .key key :: .item index :: way =>
    if key = "params" then (method.params[index]?.map fun param => param.tagsAt way).getD .empty
    else .empty
  | _ => .empty

/-- The tags of the object at a place in the metadata of a component. -/
def ResolvedComponent.tagsAt (component : ResolvedComponent) : List Step → OrderedMap String
  | [] => component.docs.tags
  | .key key :: way =>
    if key = "properties" then entryTagsAt ResolvedProperty.tagsAt component.properties.entries way
    else if key = "events" then entryTagsAt ResolvedEvent.tagsAt component.events.entries way
    else if key = "slots" then entryTagsAt ResolvedSlot.tagsAt component.slots.entries way
    else if key = "dynamicSlots" then
      entryTagsAt ResolvedSlot.tagsAt component.dynamicSlots.entries way
    else if key = "methods" then entryTagsAt ResolvedMethod.tagsAt component.methods.entries way
    else .empty
  | _ => .empty

theorem ResolvedProperty.tagsAt_key (property : ResolvedProperty) (key : String)
    (way : List Step) :
    property.tagsAt (.key key :: way) = property.expansion.tagsAt (.key key :: way) := by
  rw [Expansion.tagsAt]
  rcases way with _ | ⟨step, way⟩
  · rw [tagsAt]
    · cases property.expansion.blockAt? key <;> rfl
    · exact nofun
    · exact nofun
  · cases step with
    | item index =>
      rw [tagsAt]
      · cases property.expansion.blockAt? key <;> rfl
      · exact nofun
      · exact nofun
    | key name =>
      rw [tagsAt]
      cases property.expansion.blockAt? key with
      | none => rfl
      | some block =>
        rw [Option.bind_some, Option.map_some, Option.getD_some, entryTagsAt]
        cases lookup name block <;> rfl

theorem Expansion.tagsAt_of_not_mem (expansion : Expansion) {key : String}
    (other : key ∉ ["properties", "itemProperties"]) (way : List Step) :
    expansion.tagsAt (.key key :: way) = .empty := by
  simp only [List.mem_cons, List.not_mem_nil, or_false, not_or] at other
  rw [tagsAt, blockAt?, if_neg other.1, if_neg other.2]
  rfl

namespace Tier

/-! ## Members -/

theorem tagged_entries {α : Type} {encode : α → Json} {strip : α → α}
    {tagsAt : α → List Step → OrderedMap String} {entries : List (String × α)}
    (each : ∀ entry ∈ entries,
      Tagged (tagsAt entry.2) (encode (strip entry.2)) (encode entry.2)) :
    Tagged (entryTagsAt tagsAt entries)
      (.object (entries.map fun entry => (entry.1, encode (strip entry.2))))
      (.object (entries.map fun entry => (entry.1, encode entry.2))) := by
  have lookup_map (encode : α → Json) (name : String) :
      lookup name (entries.map fun entry => (entry.1, encode entry.2)) =
        (lookup name entries).map encode :=
    get?_object_map encode entries name
  apply FieldsTagged.object
  constructor
  · intro name value found
    rw [lookup_map fun item => encode (strip item), Option.map_eq_some_iff] at found
    rcases found with ⟨item, item_found, rfl⟩
    refine ⟨encode item, ?_, ?_⟩
    · rw [lookup_map, item_found, Option.map_some]
    · simp only [entryTagsAt, item_found, Option.map_some, Option.getD_some]
      exact each (name, item) (mem_of_lookup_eq_some item_found)
  · intro name absent
    rw [lookup_map fun item => encode (strip item), Option.map_eq_none_iff] at absent
    rw [lookup_map, absent]
    rfl

/-- The object of a property is that without tags, with tags added. -/
abbrev PropertyTagged (property : ResolvedProperty) : Prop :=
  Tagged property.tagsAt (designTime.property property.withoutTags) (designTime.property property)

theorem tagged_block {expansion : Expansion} {key : String} {block : PropertyList}
    (found : expansion.blockAt? key = some block)
    (each : ∀ entry ∈ block, PropertyTagged entry.2) :
    Tagged (fun way => expansion.tagsAt (.key key :: way))
      (.object (designTime.properties (untaggedBlock block)))
      (.object (designTime.properties block)) := by
  have tags_eq : (fun way => expansion.tagsAt (.key key :: way)) =
      entryTagsAt ResolvedProperty.tagsAt block := by
    funext way
    rw [Expansion.tagsAt, found, Option.map_some, Option.getD_some]
  have bare_eq : designTime.properties (untaggedBlock block) =
      block.map fun entry => (entry.1, designTime.property entry.2.withoutTags) := by
    rw [properties_eq_map, untaggedBlock_eq_map, List.map_map]
    rfl
  rw [tags_eq, bare_eq, properties_eq_map]
  exact tagged_entries each

theorem tagged_memberFields (expansion : Expansion) (key : String) {block : Option PropertyList}
    (at_key : expansion.blockAt? key = block)
    (each : ∀ members ∈ block.toList, ∀ entry ∈ members, PropertyTagged entry.2) :
    List.Forall₂ (fun field other => field.1 = other.1 ∧
        Tagged (fun way => expansion.tagsAt (.key field.1 :: way)) field.2 other.2)
      (memberFields key ((block.map untaggedBlock).map designTime.properties))
      (memberFields key (block.map designTime.properties)) := by
  cases block with
  | none => exact .nil
  | some members => exact .cons ⟨rfl, tagged_block at_key (each members (by simp))⟩ .nil

/-- What is said of a type, with the members below it. -/
theorem fieldsTagged_typedFields (expansion : Expansion) (signature : Signature) {flags : Fields}
    (flags_in : Fields.KeysIn flagKeys flags)
    (each : ∀ block ∈ expansion.blocks, ∀ entry ∈ block, PropertyTagged entry.2) :
    FieldsTagged .empty (fun key way => expansion.tagsAt (.key key :: way))
      (designTime.typedFields signature flags (expansion.properties.map untaggedBlock))
      (designTime.typedFields signature flags expansion.properties) := by
  have untagged {keys : List String}
      (others : ∀ key ∈ keys, key ∉ ["properties", "itemProperties"]) :
      ∀ key ∈ keys, ∀ way, expansion.tagsAt (.key key :: way) = .empty :=
    fun key mem => expansion.tagsAt_of_not_mem (others key mem)
  have signature_same : FieldsTagged .empty (fun key way => expansion.tagsAt (.key key :: way))
      (designTime.signatureFields signature) (designTime.signatureFields signature) :=
    .same (keysIn_designSignatureFields signature) (untagged (by decide))
  apply (signature_same.putAll_same flags_in (untagged (by decide))).putAll
  exact tagged_memberFields _ _ rfl fun block mem => each block (List.mem_append_left _ mem)

/-- One level of the tree. -/
theorem propertyTagged_of_blocks {property : ResolvedProperty}
    (each : ∀ block ∈ property.blocks, ∀ entry ∈ block, PropertyTagged entry.2) :
    PropertyTagged property := by
  have untagged {keys : List String}
      (others : ∀ key ∈ keys, key ∉ ["properties", "itemProperties"]) :
      ∀ key ∈ keys, ∀ way, property.expansion.tagsAt (.key key :: way) = .empty :=
    fun key mem => property.expansion.tagsAt_of_not_mem (others key mem)
  have typed := fieldsTagged_typedFields property.expansion property.signature
    (keysIn_propertyFlags property) each
  have items := tagged_memberFields property.expansion "itemProperties" rfl
    fun block mem => each block (List.mem_append_right _ mem)
  have listed := ((typed.putAll_same (keysIn_editingFields property) (untagged (by decide))).putAll
    items).putAll_same (keysIn_bookkeepingFields property) (untagged (by decide))
  have documented := listed.addTo property.docs (untagged (by decide))
  rw [PropertyTagged, property_designTime, property_designTime, property.withoutTags_eq]
  apply FieldsTagged.object
  simp only [property.tagsAt_key]
  exact documented

theorem sizeOf_lt_of_mem_blocks {property : ResolvedProperty} {block : PropertyList}
    (block_mem : block ∈ property.blocks) {entry : String × ResolvedProperty}
    (entry_mem : entry ∈ block) : sizeOf entry.2 < sizeOf property := by
  have entry_lt := List.sizeOf_lt_of_mem entry_mem
  rcases entry with ⟨name, member⟩
  cases property
  simp only [Prod.mk.sizeOf_spec] at entry_lt
  rcases List.mem_append.1 block_mem with mem | mem <;>
    · simp only [Option.mem_toList] at mem
      subst mem
      simp only [ResolvedProperty.mk.sizeOf_spec, Option.some.sizeOf_spec]
      omega

/-- By recursion on the tree of the property. -/
theorem propertyTagged (property : ResolvedProperty) : PropertyTagged property := by
  apply propertyTagged_of_blocks
  intro block block_mem entry entry_mem
  exact propertyTagged entry.2
termination_by sizeOf property
decreasing_by exact sizeOf_lt_of_mem_blocks block_mem entry_mem

/-! ## Events, slots and methods -/

theorem tagged_detail (signature : Signature) (expansion : Expansion) :
    Tagged expansion.tagsAt
      (.object ((designTime.typedFields signature []
        (expansion.properties.map untaggedBlock)).putAll (memberFields "itemProperties"
        ((expansion.itemProperties.map untaggedBlock).map designTime.properties))))
      (.object ((designTime.typedFields signature [] expansion.properties).putAll
        (memberFields "itemProperties" (expansion.itemProperties.map designTime.properties)))) := by
  apply FieldsTagged.object
  apply (fieldsTagged_typedFields expansion signature Fields.keysIn_nil
    fun _ _ entry _ => propertyTagged entry.2).putAll
  exact tagged_memberFields expansion _ rfl fun _ _ entry _ => propertyTagged entry.2

theorem fieldsTagged_detail (event : ResolvedEvent) :
    FieldsTagged .empty (fun key way => event.tagsAt (.key key :: way))
      (memberFields "detail" (designTime.detailFields event.withoutTags))
      (memberFields "detail" (designTime.detailFields event)) := by
  apply FieldsTagged.of_forall₂
  simp only [detailFields, ResolvedEvent.withoutTags, Expansion.withoutTags]
  cases event.detail with
  | none => exact .nil
  | some signature => exact .cons ⟨rfl, tagged_detail signature event.expansion⟩ .nil

theorem tagged_event (event : ResolvedEvent) :
    Tagged event.tagsAt (designTime.event event.withoutTags) (designTime.event event) := by
  have untagged {keys : List String} (others : ∀ key ∈ keys, key ≠ "detail") :
      ∀ key ∈ keys, ∀ way, event.tagsAt (.key key :: way) = .empty := by
    intro key mem way
    rw [ResolvedEvent.tagsAt, if_neg (others key mem)]
  have text_in : Fields.KeysIn ["writebackFor"] (Fields.text "writebackFor" event.writebackFor) :=
    Fields.keysIn_text (by decide) event.writebackFor
  have marks_in : Fields.KeysIn ["bubbles", "cancelable"]
      [("bubbles", .bool event.bubbles), ("cancelable", .bool event.cancelable)] :=
    Fields.keysIn_cons (by decide) (Fields.keysIn_cons (by decide) Fields.keysIn_nil)
  have listed :=
    ((fieldsTagged_detail event).putAll_same text_in (untagged (by decide))).putAll_same
    marks_in (untagged (by decide))
  rw [event_designTime, event_designTime]
  exact (listed.addTo event.docs (untagged (by decide))).object

theorem tagged_slot (slot : ResolvedSlot) :
    Tagged slot.tagsAt (designTime.slot slot.withoutTags) (designTime.slot slot) := by
  have shared : FieldsTagged .empty (fun key way => slot.tagsAt (.key key :: way))
      ((slot.signature.map designTime.signatureFields).getD [])
      ((slot.signature.map designTime.signatureFields).getD []) := by
    cases slot.signature with
    | none => exact .of_forall₂ .nil
    | some signature => exact .same (keysIn_designSignatureFields signature) fun _ _ _ => rfl
  exact (shared.addTo slot.docs fun _ _ _ => rfl).object

theorem tagged_param (param : ResolvedParam) :
    Tagged param.tagsAt (designTime.param param.withoutTags) (designTime.param param) := by
  have name_in : Fields.KeysIn ["name"] [("name", .string param.name)] :=
    Fields.keysIn_cons (by decide) Fields.keysIn_nil
  have optional_in : Fields.KeysIn ["optional"] [("optional", .bool param.optional)] :=
    Fields.keysIn_cons (by decide) Fields.keysIn_nil
  have named : FieldsTagged .empty (fun key way => param.tagsAt (.key key :: way))
      [("name", .string param.name)] [("name", .string param.name)] :=
    .same name_in fun _ _ _ => rfl
  have shared := (named.putAll_same (keysIn_designSignatureFields param.signature)
    fun _ _ _ => rfl).putAll_same optional_in fun _ _ _ => rfl
  exact (shared.addTo param.docs fun _ _ _ => rfl).object

theorem tagged_params (method : ResolvedMethod) :
    Tagged (fun way => method.tagsAt (.key "params" :: way))
      (.array (method.withoutTags.params.map designTime.param))
      (.array (method.params.map designTime.param)) := by
  have params_eq : method.withoutTags.params.map designTime.param =
      method.params.map fun param => designTime.param param.withoutTags :=
    List.map_map
  rw [params_eq]
  refine .array (by rw [List.length_map, List.length_map]) ?_
  intro index item other item_found other_found
  rw [List.getElem?_map, Option.map_eq_some_iff] at item_found other_found
  rcases item_found with ⟨param, found, rfl⟩
  rcases other_found with ⟨same, same_found, rfl⟩
  rw [found] at same_found
  cases same_found
  simp only [ResolvedMethod.tagsAt, if_true, found, Option.map_some, Option.getD_some]
  exact tagged_param param

theorem tagged_method (method : ResolvedMethod) :
    Tagged method.tagsAt (designTime.method method.withoutTags) (designTime.method method) := by
  have untagged {key : String} (other : key ≠ "params") (way : List Step) :
      method.tagsAt (.key key :: way) = .empty := by
    rcases way with _ | ⟨_ | index, way⟩
    · rfl
    · rfl
    · rw [ResolvedMethod.tagsAt, if_neg other]
  have returns : Tagged (fun way => method.tagsAt (.key "returns" :: way))
      (.object (designTime.signatureFields method.returns))
      (.object (designTime.signatureFields method.returns)) :=
    .same (untagged (by decide)) _
  have shared : FieldsTagged .empty (fun key way => method.tagsAt (.key key :: way))
      [("params", .array (method.withoutTags.params.map designTime.param)),
        ("returns", .object (designTime.signatureFields method.returns))]
      [("params", .array (method.params.map designTime.param)),
        ("returns", .object (designTime.signatureFields method.returns))] :=
    .of_forall₂ (.cons ⟨rfl, tagged_params method⟩ (.cons ⟨rfl, returns⟩ .nil))
  have keys_untagged : ∀ key ∈ Annotations.keys, ∀ way, method.tagsAt (.key key :: way) = .empty :=
    fun key mem => untagged ((by decide : ∀ key ∈ Annotations.keys, key ≠ "params") key mem)
  exact (shared.addTo method.docs keys_untagged).object

/-! ## Components -/

theorem tagged_mapped {α : Type} {encode : α → Json} {strip : α → α}
    {tagsAt : α → List Step → OrderedMap String}
    (each : ∀ item, Tagged (tagsAt item) (encode (strip item)) (encode item)) (map : OrderedMap α) :
    Tagged (entryTagsAt tagsAt map.entries) (mapped encode (map.mapValues strip))
      (mapped encode map) := by
  have bare_eq : mapped encode (map.mapValues strip) =
      .object (map.entries.map fun entry => (entry.1, encode (strip entry.2))) := by
    rw [mapped, OrderedMap.mapValues, List.map_map]
    rfl
  rw [bare_eq]
  exact tagged_entries fun entry _ => each entry.2

theorem typedefs_withoutTags (component : ResolvedComponent) :
    component.withoutTags.typedefs = component.typedefs := by
  have values_mapValues {α : Type} (change : α → α) (map : OrderedMap α) :
      (map.mapValues change).values = map.values.map change := by
    simp only [OrderedMap.values, OrderedMap.mapValues, List.map_map]
    rfl
  have signature_eq : ResolvedProperty.signature ∘ ResolvedProperty.withoutTags =
      ResolvedProperty.signature := by
    funext property
    rw [Function.comp_apply, property.withoutTags_eq]
  have signatures_eq :
      component.withoutTags.documentedSignatures = component.documentedSignatures := by
    simp only [ResolvedComponent.documentedSignatures, ResolvedComponent.withoutTags,
      values_mapValues, List.map_map, List.filterMap_map, List.flatMap_map, signature_eq,
      ResolvedMethod.withoutTags]
    rfl
  rw [ResolvedComponent.typedefs, signatures_eq, ResolvedComponent.typedefs]

section Component

variable (component : ResolvedComponent)

/-- The keys of a component's objects under which members stand. -/
def groupKeys : List String :=
  ["properties", "events", "slots", "dynamicSlots", "methods"]

theorem tagsAt_of_not_mem_groupKeys {key : String} (other : key ∉ groupKeys) (way : List Step) :
    component.tagsAt (.key key :: way) = .empty := by
  simp only [groupKeys, List.mem_cons, List.not_mem_nil, or_false, not_or] at other
  simp only [ResolvedComponent.tagsAt, other, if_false]

/-- The tags of a component are put before what only depends on its types. -/
theorem fieldsTagged_componentFields :
    FieldsTagged component.docs.tags (fun key way => component.tagsAt (.key key :: way))
      (componentFields component.withoutTags) (componentFields component) := by
  have untagged {keys : List String} (others : ∀ key ∈ keys, key ∉ groupKeys) :
      ∀ key ∈ keys, ∀ way, component.tagsAt (.key key :: way) = .empty :=
    fun key mem => tagsAt_of_not_mem_groupKeys component (others key mem)
  have head_in : Fields.KeysIn headKeys
      [("name", .string component.name), ("tag", .string component.tagName)] :=
    Fields.keysIn_cons (by decide) (Fields.keysIn_cons (by decide) Fields.keysIn_nil)
  have since_in : Fields.KeysIn ["since"] (Fields.text "since" component.since) :=
    Fields.keysIn_text (by decide) component.since
  have lists_in : Fields.KeysIn ["generics", "typedefs"]
      (Fields.only (!component.generics.isEmpty) "generics" component.generics.toJson ++
        Fields.only (!component.typedefs.isEmpty) "typedefs" (.strings component.typedefs)) :=
    Fields.keysIn_append (Fields.keysIn_only (by decide) _ _) (Fields.keysIn_only (by decide) _ _)
  have named : FieldsTagged .empty (fun key way => component.tagsAt (.key key :: way))
      [("name", .string component.name), ("tag", .string component.tagName)]
      [("name", .string component.name), ("tag", .string component.tagName)] :=
    .same head_in (untagged (by decide))
  have documented := (named.putAll_same since_in (untagged (by decide))).addTo component.docs
    (untagged (by decide))
  simp only [componentFields, typedefs_withoutTags]
  exact documented.putAll_same lists_in (untagged (by decide))

/-- Design-time metadata without tags is that of the component without tags. -/
theorem tagged_project :
    Tagged component.tagsAt (designTime.project component.withoutTags)
      (designTime.project component) := by
  have properties_eq (properties : OrderedMap ResolvedProperty) :
      Json.object (designTime.properties properties.entries) =
        mapped designTime.property properties := by
    rw [properties_eq_map]
    rfl
  have dynamicSlots : List.Forall₂ (fun field other => field.1 = other.1 ∧
      Tagged (fun way => component.tagsAt (.key field.1 :: way)) field.2 other.2)
      (Fields.only (!component.withoutTags.dynamicSlots.entries.isEmpty) "dynamicSlots"
        (mapped designTime.slot component.withoutTags.dynamicSlots))
      (Fields.only (!component.dynamicSlots.entries.isEmpty) "dynamicSlots"
        (mapped designTime.slot component.dynamicSlots)) := by
    have empty_eq : component.withoutTags.dynamicSlots.entries.isEmpty =
        component.dynamicSlots.entries.isEmpty :=
      List.isEmpty_map
    rw [empty_eq]
    cases component.dynamicSlots.entries.isEmpty with
    | true => exact .nil
    | false => exact .cons ⟨rfl, tagged_mapped tagged_slot component.dynamicSlots⟩ .nil
  simp only [project, properties_eq, Fields.putAll_append]
  apply FieldsTagged.object
  refine FieldsTagged.putAll ?_ (.cons ⟨rfl, tagged_mapped tagged_method component.methods⟩ .nil)
  refine FieldsTagged.putAll ?_ dynamicSlots
  apply (fieldsTagged_componentFields component).putAll
  exact .cons ⟨rfl, tagged_mapped propertyTagged component.properties⟩
    (.cons ⟨rfl, tagged_mapped tagged_event component.events⟩
      (.cons ⟨rfl, tagged_mapped tagged_slot component.slots⟩ .nil))

end Component

theorem exists_levelTagged {component : ResolvedComponent} {way : List Step} {value : Json}
    (found : (designTime.project component.withoutTags).at? way = some value) :
    ∃ shown, (designTime.project component).at? way = some shown ∧
      value.LevelTagged (component.tagsAt way) shown := by
  rcases (tagged_project component).at? found with ⟨shown, shown_found, tagged⟩
  have level := tagged.level
  rw [List.append_nil] at level
  exact ⟨shown, shown_found, level⟩

/-- Two components that differ only in tags have the metadata of the component without tags in
common. At every place of it both have a value, each with the tags of its own object added: a tag
replaces no field, and puts one in that is missing. -/
theorem tags_fill_gaps_only (left right : ResolvedComponent)
    (same : left.withoutTags = right.withoutTags) (way : List Step) (value : Json)
    (found : (designTime.project left.withoutTags).at? way = some value) :
    ∃ leftValue rightValue, (designTime.project left).at? way = some leftValue ∧
      (designTime.project right).at? way = some rightValue ∧
      value.LevelTagged (left.tagsAt way) leftValue ∧
      value.LevelTagged (right.tagsAt way) rightValue := by
  rcases exists_levelTagged found with ⟨leftValue, left_found, left_level⟩
  rw [same] at found
  rcases exists_levelTagged found with ⟨rightValue, right_found, right_level⟩
  exact ⟨leftValue, rightValue, left_found, right_found, left_level, right_level⟩

/-- A component with a text property that has the tags. -/
def labelled (tags : OrderedMap String) : ResolvedComponent where
  name := "Label"
  tagName := "my-label"
  properties := .ofList [("text",
    { signature := .documented "string" "string"
      declared := "string"
      docs := { tags } })]

def textWay : List Step :=
  [.key "properties", .key "text"]

def textFields : Fields :=
  [("type", .string "string"), ("docType", .string "string"), ("optional", .bool false)]

theorem tags_fill_gaps_only_labelled :
    let plain := labelled (.ofList [("type", "number")])
    let forged := labelled (.ofList [("nullable", "yes")])
    plain.withoutTags = forged.withoutTags ∧
      (designTime.project plain.withoutTags).at? textWay = some (.object textFields) ∧
      ∃ plainValue forgedValue, (designTime.project plain).at? textWay = some plainValue ∧
        (designTime.project forged).at? textWay = some forgedValue ∧
        (Json.object textFields).LevelTagged (.ofList [("type", "number")]) plainValue ∧
        (Json.object textFields).LevelTagged (.ofList [("nullable", "yes")]) forgedValue := by
  intro plain forged
  have same : plain.withoutTags = forged.withoutTags := rfl
  have found : (designTime.project plain.withoutTags).at? textWay = some (.object textFields) := by
    cbv
  exact ⟨same, found, tags_fill_gaps_only plain forged same textWay _ found⟩

/-- A tag puts in a field that says of a text property that it may be `null`. -/
theorem tag_forges_nullable :
    let plain := labelled .empty
    let forged := labelled (.ofList [("nullable", "yes")])
    plain.withoutTags = forged.withoutTags ∧
      ((designTime.project plain).at? textWay).bind (Json.get? "nullable") = none ∧
      ((designTime.project forged).at? textWay).bind (Json.get? "nullable") =
        some (.string "yes") :=
  ⟨rfl, rfl, rfl⟩

end Tier

end Componentry
