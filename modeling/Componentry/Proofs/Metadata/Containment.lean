import Mathlib.Data.List.Permutation
import Componentry.Proofs.Assembly
import Componentry.Proofs.Expansion.Blocks
import Componentry.Proofs.Metadata.Fields

/-!
# Runtime metadata within design-time metadata

Design-time metadata says everything that runtime metadata says. A JSON value
is within another one (`Json.Within`) if they are equal, if they are arrays of
the same length with each item within its counterpart, or if they are objects,
neither of which repeats a key, and each field of the first is a field of the
second with a value that it is within.

Objects are built by putting fields one after the other, and user-chosen tags
are put among them. The proof keeps one relation between the fields put so far
in the two tiers (`FieldsWithin`) and shows that it survives each kind of
step: the same keys put in both tiers, keys of design tools put in one, and
documentation, whose tags take no key that is there already.
-/

namespace Componentry

namespace Json

/-- A value says nothing that the other value does not say in the same place. -/
inductive Within : Json → Json → Prop
  | same (value : Json) : Within value value
  | array {items others : List Json} (each : List.Forall₂ Within items others) :
      Within (.array items) (.array others)
  | object {fields others : List (String × Json)} (nodup : (fields.map Prod.fst).Nodup)
      (others_nodup : (others.map Prod.fst).Nodup)
      (present : ∀ key value, lookup key fields = some value → (lookup key others).isSome = true)
      (within : ∀ key value other, lookup key fields = some value →
        lookup key others = some other → Within value other) :
      Within (.object fields) (.object others)

end Json

/-- Each field is a field of the others with a value that it is within. -/
def FieldsWithin (fields others : Fields) : Prop :=
  ∀ key value, lookup key fields = some value →
    ∃ other, lookup key others = some other ∧ value.Within other

namespace FieldsWithin

variable {fields others additions otherAdditions : Fields}

theorem refl (fields : Fields) : FieldsWithin fields fields :=
  fun _ value found => ⟨value, found, .same value⟩

theorem object (within : FieldsWithin fields others) (nodup : (fields.map Prod.fst).Nodup)
    (others_nodup : (others.map Prod.fst).Nodup) :
    (Json.object fields).Within (.object others) := by
  refine .object nodup others_nodup ?_ ?_
  · intro key value found
    rcases within key value found with ⟨other, other_found, _⟩
    simp [other_found]
  · intro key value other found other_found
    rcases within key value found with ⟨found_other, found_eq, value_within⟩
    rw [other_found] at found_eq
    cases found_eq
    exact value_within

theorem upsert {key : String} {value other : Json} (within : FieldsWithin fields others)
    (value_within : value.Within other) :
    FieldsWithin (upsert key value fields) (Componentry.upsert key other others) := by
  intro found_key found_value found
  rw [lookup_upsert] at found ⊢
  split at found
  · rename_i same
    cases found
    rw [if_pos same]
    exact ⟨other, rfl, value_within⟩
  · rename_i different
    rw [if_neg different]
    exact within found_key found_value found

theorem putAll (within : FieldsWithin fields others)
    (each : List.Forall₂ (fun field other => field.1 = other.1 ∧ field.2.Within other.2)
      additions otherAdditions) :
    FieldsWithin (fields.putAll additions) (others.putAll otherAdditions) := by
  induction each generalizing fields others with
  | nil => exact within
  | @cons field other additions otherAdditions here _ ih =>
    rcases field with ⟨key, value⟩
    rcases other with ⟨otherKey, otherValue⟩
    rcases here with ⟨same, value_within⟩
    simp only at same
    subst same
    exact ih (within.upsert value_within)

theorem putAll_same (within : FieldsWithin fields others) (additions : Fields) :
    FieldsWithin (fields.putAll additions) (others.putAll additions) := by
  apply within.putAll
  rw [List.forall₂_same]
  intro field _
  exact ⟨rfl, .same field.2⟩

theorem of_forall₂
    (each : List.Forall₂ (fun field other => field.1 = other.1 ∧ field.2.Within other.2)
      fields others) : FieldsWithin fields others := by
  induction each with
  | nil => exact refl []
  | @cons field other fields others here _ ih =>
    rcases here with ⟨same, value_within⟩
    intro key value found
    rw [lookup_cons] at found ⊢
    rw [← same]
    split at found
    · rename_i found_here
      cases found
      rw [if_pos found_here]
      exact ⟨other.2, rfl, value_within⟩
    · rename_i found_later
      rw [if_neg found_later]
      exact ih key value found

/-- A group of fields may be put in both tiers if its design-time keys are other ones. -/
theorem putAll_group {keys otherKeys : List String} (within : FieldsWithin fields others)
    (group : FieldsWithin additions otherAdditions) (fields_in : Fields.KeysIn keys fields)
    (additions_in : Fields.KeysIn otherKeys otherAdditions)
    (disjoint : ∀ key ∈ keys, key ∉ otherKeys) (nodup : (additions.map Prod.fst).Nodup)
    (other_nodup : (otherAdditions.map Prod.fst).Nodup) :
    FieldsWithin (fields.putAll additions) (others.putAll otherAdditions) := by
  intro key value found
  rw [Fields.lookup_putAll nodup, Option.or_eq_some_iff] at found
  rw [Fields.lookup_putAll other_nodup]
  rcases found with found | ⟨_, found⟩
  · rcases group key value found with ⟨other, other_found, value_within⟩
    exact ⟨other, by simp [other_found], value_within⟩
  · have absent : lookup key otherAdditions = none :=
      additions_in.lookup_eq_none (disjoint key (fields_in.mem_of_lookup found))
    rw [absent, Option.none_or]
    exact within key value found

/-- Fields of design tools may be put beside fields whose keys are other ones. -/
theorem putAll_right {keys otherKeys : List String} (within : FieldsWithin fields others)
    (fields_in : Fields.KeysIn keys fields) (additions_in : Fields.KeysIn otherKeys additions)
    (disjoint : ∀ key ∈ keys, key ∉ otherKeys) :
    FieldsWithin fields (others.putAll additions) := by
  intro key value found
  have absent : key ∉ additions.map Prod.fst :=
    additions_in.not_mem (disjoint key (fields_in.mem_of_lookup found))
  rw [Fields.lookup_putAll_of_not_mem absent]
  exact within key value found

/-- Documentation may be added whatever its tags are called. -/
theorem addTo {keys : List String} (within : FieldsWithin fields others)
    (fields_in : Fields.KeysIn keys fields) (disjoint : ∀ key ∈ keys, key ∉ Annotations.keys)
    (docs : Annotations) : FieldsWithin fields (docs.addTo others) := by
  intro key value found
  rcases within key value found with ⟨other, other_found, value_within⟩
  have kept := docs.lookup_addTo other_found (disjoint key (fields_in.mem_of_lookup found))
  exact ⟨other, kept, value_within⟩

end FieldsWithin

/-- Objects with the same unrepeated keys are within each other if their values are. -/
theorem within_object_map {α : Type} {entries : List (String × α)} {encode design : α → Json}
    (nodup : (entries.map Prod.fst).Nodup)
    (each : ∀ entry ∈ entries, (encode entry.2).Within (design entry.2)) :
    (Json.object (entries.map fun entry => (entry.1, encode entry.2))).Within
      (.object (entries.map fun entry => (entry.1, design entry.2))) := by
  have keys_eq (form : α → Json) :
      (entries.map fun entry => (entry.1, form entry.2)).map Prod.fst = entries.map Prod.fst := by
    simp
  apply FieldsWithin.object
  · intro key value found
    rcases List.mem_map.1 (mem_of_lookup_eq_some found) with ⟨entry, entry_mem, entry_eq⟩
    simp only [Prod.mk.injEq] at entry_eq
    rcases entry_eq with ⟨rfl, rfl⟩
    refine ⟨design entry.2, ?_, each entry entry_mem⟩
    apply lookup_eq_some_of_mem
    · rw [keys_eq design]
      exact nodup
    · exact List.mem_map.2 ⟨entry, entry_mem, rfl⟩
  · rw [keys_eq encode]
    exact nodup
  · rw [keys_eq design]
    exact nodup

namespace Tier

/-! ## Signatures -/

theorem fieldsWithin_signatureFields (signature : Signature) :
    FieldsWithin (runtime.signatureFields signature) (designTime.signatureFields signature) := by
  intro key value found
  refine ⟨value, ?_, .same value⟩
  simp only [signatureFields] at found ⊢
  rw [lookup_cons] at found
  rw [List.cons_append, List.cons_append, List.cons_append, lookup_cons]
  split at found
  · rename_i type_key
    rw [if_pos type_key]
    exact found
  · rename_i other_key
    rw [if_neg other_key]
    cases values : signature.runtimeEnumValues with
    | none => simp [values, lookup] at found
    | some list =>
      -- Enumeration values that are enforced are all the enumeration values.
      have values_eq : signature.enumValues = some list := by
        unfold Signature.runtimeEnumValues at values
        split at values
        · simp at values
        · exact values
      simp only [values] at found
      simp only [values_eq, lookup_append, found, Option.some_or]

/-! ## Properties -/

/-- Inline members are put in both tiers under the same key. -/
theorem fieldsWithin_typedFields (signature : Signature) (flags : Fields)
    {members : Option PropertyList}
    (each : ∀ block ∈ members.toList,
      (Json.object (runtime.properties block)).Within (.object (designTime.properties block))) :
    FieldsWithin (runtime.typedFields signature flags members)
      (designTime.typedFields signature flags members) := by
  apply ((fieldsWithin_signatureFields signature).putAll_same flags).putAll
  cases members with
  | none => exact .nil
  | some block => exact .cons ⟨rfl, each block (by simp)⟩ .nil

def editingKeys : List String :=
  ["optional", "typedef", "propertyEditorValues", "propertyEditor"]

theorem keysIn_editingFields (property : ResolvedProperty) :
    Fields.KeysIn editingKeys (editingFields property) := by
  unfold editingFields
  apply Fields.keysIn_append
  · apply Fields.keysIn_append
    · exact Fields.keysIn_cons (by decide) (Fields.keysIn_text (by decide) _)
    · split
      · exact Fields.keysIn_cons (by decide) Fields.keysIn_nil
      · exact Fields.keysIn_nil
  · exact Fields.keysIn_text (by decide) _

def bookkeepingKeys : List String :=
  ["circularRef", "dynamicSlot", "dynamicSlotKey", "genericBindings"]

theorem keysIn_bookkeepingFields (property : ResolvedProperty) :
    Fields.KeysIn bookkeepingKeys (bookkeepingFields property) := by
  unfold bookkeepingFields
  apply Fields.keysIn_append
  · apply Fields.keysIn_append
    · apply Fields.keysIn_append
      · exact Fields.keysIn_only (by decide) _ _
      · exact Fields.keysIn_text (by decide) _
    · exact Fields.keysIn_text (by decide) _
  · exact Fields.keysIn_only (by decide) _ _

theorem property_within {property : ResolvedProperty}
    (each : ∀ block ∈ property.blocks,
      (Json.object (runtime.properties block)).Within (.object (designTime.properties block))) :
    (runtime.property property).Within (designTime.property property) := by
  have typed_within := fieldsWithin_typedFields property.signature (propertyFlags property)
    fun block mem => each block (List.mem_append_left _ mem)
  have typed_in := keysIn_typedFields (keysIn_propertyFlags property) property.signature
    property.properties
  rw [property_runtime, property_designTime]
  apply FieldsWithin.object
  · apply FieldsWithin.addTo _ typed_in (by decide)
    apply FieldsWithin.putAll_right _ typed_in (keysIn_bookkeepingFields property) (by decide)
    apply FieldsWithin.putAll_right _ typed_in
      (keysIn_memberFields (List.mem_singleton.2 rfl) _) (by decide)
    exact typed_within.putAll_right typed_in (keysIn_editingFields property) (by decide)
  · exact nodup_typedFields _ _ _ _
  · apply Annotations.nodup_addTo
    apply Fields.nodup_putAll
    apply Fields.nodup_putAll
    apply Fields.nodup_putAll
    exact nodup_typedFields _ _ _ _

/-- By induction on the tree: the blocks of each property are within each other, so the property
is, and so is the block that it stands in. -/
theorem properties_within {block : PropertyList} (keyed : KeyedBlock block) :
    (Json.object (runtime.properties block)).Within (.object (designTime.properties block)) := by
  induction keyed with
  | intro nodup inner ih =>
    rw [properties_eq_map, properties_eq_map]
    apply within_object_map nodup
    intro entry entry_mem
    exact property_within (ih entry entry_mem)

/-! ## Events -/

def eventKeys : List String :=
  ["detail", "writebackFor"]

theorem detail_within (signature : Signature) {members : Option PropertyList}
    (keyed : ∀ block ∈ members.toList, KeyedBlock block) (items : Option Fields) :
    (Json.object (runtime.typedFields signature [] members)).Within
      (.object ((designTime.typedFields signature [] members).putAll
        (memberFields "itemProperties" items))) := by
  have typed_within := fieldsWithin_typedFields signature [] fun block mem =>
    properties_within (keyed block mem)
  apply FieldsWithin.object
  · exact typed_within.putAll_right (keysIn_typedFields Fields.keysIn_nil signature members)
      (keysIn_memberFields (List.mem_singleton.2 rfl) items) (by decide)
  · exact nodup_typedFields _ _ _ _
  · exact Fields.nodup_putAll (nodup_typedFields _ _ _ _) _

theorem fieldsWithin_detailFields {event : ResolvedEvent}
    (keyed : ∀ block ∈ event.expansion.blocks, KeyedBlock block) :
    FieldsWithin (memberFields "detail" (runtime.detailFields event))
      (memberFields "detail" (designTime.detailFields event)) := by
  have members_keyed : ∀ block ∈ event.expansion.properties.toList, KeyedBlock block :=
    fun block mem => keyed block (List.mem_append_left _ mem)
  unfold detailFields
  cases event.detail with
  | none => exact .refl []
  | some signature => exact .of_forall₂ (.cons ⟨rfl, detail_within signature members_keyed _⟩ .nil)

theorem event_within {event : ResolvedEvent}
    (keyed : ∀ block ∈ event.expansion.blocks, KeyedBlock block) :
    (runtime.event event).Within (designTime.event event) := by
  have shared_in : Fields.KeysIn eventKeys ((memberFields "detail"
      (runtime.detailFields event)).putAll (Fields.text "writebackFor" event.writebackFor)) :=
    Fields.keysIn_putAll (keysIn_memberFields (by decide) _) (Fields.keysIn_text (by decide) _)
  have marks_in : Fields.KeysIn ["bubbles", "cancelable"]
      [("bubbles", .bool event.bubbles), ("cancelable", .bool event.cancelable)] :=
    Fields.keysIn_cons (by decide) (Fields.keysIn_cons (by decide) Fields.keysIn_nil)
  rw [event_runtime, event_designTime]
  apply FieldsWithin.object
  · apply FieldsWithin.addTo _ shared_in (by decide)
    apply FieldsWithin.putAll_right _ shared_in marks_in (by decide)
    exact (fieldsWithin_detailFields keyed).putAll_same _
  · exact Fields.nodup_putAll (nodup_memberFields _ _) _
  · apply Annotations.nodup_addTo
    exact Fields.nodup_putAll (Fields.nodup_putAll (nodup_memberFields _ _) _) _

/-! ## Slots and methods -/

theorem slot_within (slot : ResolvedSlot) : (runtime.slot slot).Within (designTime.slot slot) := by
  simp only [Tier.slot]
  cases slot.signature with
  | none =>
    apply FieldsWithin.object
    · exact (FieldsWithin.refl []).addTo (@Fields.keysIn_nil []) (by decide) _
    · exact .nil
    · exact Annotations.nodup_addTo _ .nil
  | some signature =>
    simp only [Option.map_some, Option.getD_some]
    apply FieldsWithin.object
    · exact (fieldsWithin_signatureFields signature).addTo (keysIn_signatureFields signature)
        (by decide) _
    · exact nodup_signatureFields _ _
    · exact Annotations.nodup_addTo _ (nodup_signatureFields _ _)

def designSignatureKeys : List String :=
  ["type", "enumValues", "docType", "isArrayOfObject", "nullable"]

theorem keysIn_designSignatureFields (signature : Signature) :
    Fields.KeysIn designSignatureKeys (designTime.signatureFields signature) := by
  apply Fields.keysIn_append
  · apply Fields.keysIn_append
    · apply Fields.keysIn_append
      · apply Fields.keysIn_cons (by decide)
        cases signature.enumValues with
        | none => exact Fields.keysIn_nil
        | some values => exact Fields.keysIn_cons (by decide) Fields.keysIn_nil
      · exact Fields.keysIn_cons (by decide) Fields.keysIn_nil
    · exact Fields.keysIn_only (by decide) _ _
  · exact Fields.keysIn_only (by decide) _ _

theorem param_within (param : ResolvedParam) :
    (runtime.param param).Within (designTime.param param) := by
  have name_in : Fields.KeysIn ["name"] [("name", .string param.name)] :=
    Fields.keysIn_cons (by decide) Fields.keysIn_nil
  have name_nodup (value : Json) : ([("name", value)].map Prod.fst).Nodup := by
    simp
  have shared_in : Fields.KeysIn ["name", "type", "enumValues"]
      (Fields.putAll [("name", .string param.name)] (runtime.signatureFields param.signature)) :=
    Fields.keysIn_putAll (name_in.mono (by decide))
      ((keysIn_signatureFields param.signature).mono (by decide))
  simp only [Tier.param]
  apply FieldsWithin.object
  · apply FieldsWithin.addTo _ shared_in (by decide)
    apply FieldsWithin.putAll_right _ shared_in
      (Fields.keysIn_cons (List.mem_singleton.2 rfl) Fields.keysIn_nil) (by decide)
    exact (FieldsWithin.refl _).putAll_group (fieldsWithin_signatureFields param.signature) name_in
      (keysIn_designSignatureFields param.signature) (by decide) (nodup_signatureFields _ _)
      (nodup_signatureFields _ _)
  · exact Fields.nodup_putAll (name_nodup _) _
  · apply Annotations.nodup_addTo
    exact Fields.nodup_putAll (Fields.nodup_putAll (name_nodup _) _) _

theorem method_within (method : ResolvedMethod) :
    (runtime.method method).Within (designTime.method method) := by
  have params : (Json.array (method.params.map runtime.param)).Within
      (.array (method.params.map designTime.param)) := by
    apply Json.Within.array
    rw [List.forall₂_map_left_iff, List.forall₂_map_right_iff, List.forall₂_same]
    intro param _
    exact param_within param
  have returns : (Json.object (runtime.signatureFields method.returns)).Within
      (.object (designTime.signatureFields method.returns)) :=
    (fieldsWithin_signatureFields _).object (nodup_signatureFields _ _) (nodup_signatureFields _ _)
  have shared_in (list fields : Json) :
      Fields.KeysIn ["params", "returns"] [("params", list), ("returns", fields)] :=
    Fields.keysIn_cons (by decide) (Fields.keysIn_cons (by decide) Fields.keysIn_nil)
  simp only [Tier.method]
  apply FieldsWithin.object
  · apply FieldsWithin.addTo _ (shared_in _ _) (by decide)
    exact .of_forall₂ (.cons ⟨rfl, params⟩ (.cons ⟨rfl, returns⟩ .nil))
  · simp
  · apply Annotations.nodup_addTo
    simp

/-! ## Components -/

theorem mapped_within {α : Type} {encode design : α → Json} (map : OrderedMap α)
    (each : ∀ entry ∈ map.entries, (encode entry.2).Within (design entry.2)) :
    (mapped encode map).Within (mapped design map) :=
  within_object_map map.nodup each

def headKeys : List String :=
  ["name", "tag"]

theorem nodup_componentFields (component : ResolvedComponent) :
    ((componentFields component).map Prod.fst).Nodup := by
  apply Fields.nodup_putAll
  apply Annotations.nodup_addTo
  apply Fields.nodup_putAll
  simp

/-- The tags of a component stand before its members, but not before its name. -/
theorem fieldsWithin_componentFields (component : ResolvedComponent) :
    FieldsWithin [("name", .string component.name), ("tag", .string component.tagName)]
      (componentFields component) := by
  have head_in : Fields.KeysIn headKeys
      [("name", .string component.name), ("tag", .string component.tagName)] :=
    Fields.keysIn_cons (by decide) (Fields.keysIn_cons (by decide) Fields.keysIn_nil)
  have lists_in : Fields.KeysIn ["generics", "typedefs"]
      (Fields.only (!component.generics.isEmpty) "generics" component.generics.toJson ++
        Fields.only (!component.typedefs.isEmpty) "typedefs" (.strings component.typedefs)) :=
    Fields.keysIn_append (Fields.keysIn_only (by decide) _ _) (Fields.keysIn_only (by decide) _ _)
  apply FieldsWithin.putAll_right _ head_in lists_in (by decide)
  apply FieldsWithin.addTo _ head_in (by decide)
  exact (FieldsWithin.refl _).putAll_right head_in
    (Fields.keysIn_text (List.mem_singleton.2 rfl) component.since) (by decide)

/-- Whatever is in the runtime metadata is in the design-time metadata as well. -/
theorem project_within {component : ResolvedComponent}
    (properties : KeyedBlock component.properties.entries)
    (events : ∀ entry ∈ component.events.entries, ∀ block ∈ entry.2.expansion.blocks,
      KeyedBlock block) :
    (runtime.project component).Within (designTime.project component) := by
  have events_within := mapped_within component.events fun entry entry_mem =>
    event_within (events entry entry_mem)
  have slots_within := mapped_within component.slots fun entry _ => slot_within entry.2
  have methods_within := mapped_within component.methods fun entry _ => method_within entry.2
  have head_in : Fields.KeysIn ["name", "tag", "properties", "events", "slots"]
      (Fields.putAll [("name", .string component.name), ("tag", .string component.tagName)]
        [("properties", .object (runtime.properties component.properties.entries)),
          ("events", mapped runtime.event component.events),
          ("slots", mapped runtime.slot component.slots)]) := by
    intro key mem
    exact mem
  simp only [Tier.project, List.append_nil, Fields.putAll_append]
  apply FieldsWithin.object
  · refine FieldsWithin.putAll ?_ (.cons ⟨rfl, methods_within⟩ .nil)
    apply FieldsWithin.putAll_right _ head_in
      (Fields.keysIn_only (List.mem_singleton.2 rfl) _ _) (by decide)
    apply (fieldsWithin_componentFields component).putAll
    exact .cons ⟨rfl, properties_within properties⟩
      (.cons ⟨rfl, events_within⟩ (.cons ⟨rfl, slots_within⟩ .nil))
  · apply Fields.nodup_putAll
    apply Fields.nodup_putAll
    simp
  · apply Fields.nodup_putAll
    apply Fields.nodup_putAll
    apply Fields.nodup_putAll
    exact nodup_componentFields component

end Tier

namespace Assembler

variable {assembler : Assembler} {model : TypeModel} {config : Config} {component : Component}
  {resolved : ResolvedComponent}

/-- What holds of all blocks that expansion makes holds of those of an accepted component. -/
theorem holds_of_component_blocks {Holds : PropertyList → Prop}
    (accepted : (assembler.assemble model config component).1 = .ok resolved)
    (expanded : ∀ (path : PropertyPath) (members : List Member) (block : PropertyList),
      ((Scope.ofConfig model config).expandMembers path members []).outcome = .ok block →
        Holds block) :
    ∀ block ∈ resolved.blocks, Holds block := by
  intro block block_mem
  simp only [ResolvedComponent.blocks, OrderedMap.values, List.mem_append, List.mem_flatMap,
    List.mem_map] at block_mem
  rcases block_mem with ⟨_, ⟨entry, entry_mem, rfl⟩, block_mem⟩ |
    ⟨_, ⟨entry, entry_mem, rfl⟩, block_mem⟩
  · have traversed := (traversed_of_accepted accepted).properties
    rcases Attempt.exists_step_of_mem_traverseMap traversed entry_mem with ⟨property, step_ok⟩
    rcases Scope.expansion_of_assembleProperty step_ok with
      ⟨expansion, expansion_ok, properties_eq, items_eq⟩
    apply Scope.holds_of_mem_blocks expanded expansion_ok
    rw [ResolvedProperty.blocks, properties_eq, items_eq] at block_mem
    exact block_mem
  · have traversed := (traversed_of_accepted accepted).events
    rcases Attempt.exists_step_of_mem_traverseMap traversed entry_mem with ⟨event, step_ok⟩
    rcases Scope.expansion_of_assembleEvent step_ok with empty | ⟨type, expansion_ok⟩
    · rw [empty] at block_mem
      simp [Expansion.blocks] at block_mem
    · exact Scope.holds_of_mem_blocks expanded expansion_ok block block_mem

theorem keyedBlock_component
    (accepted : (assembler.assemble model config component).1 = .ok resolved) :
    ∀ block ∈ resolved.blocks, KeyedBlock block :=
  holds_of_component_blocks accepted fun _ _ _ ok => Scope.keyedBlock_of_expandMembers ok

theorem keyedBlock_properties
    (accepted : (assembler.assemble model config component).1 = .ok resolved) :
    KeyedBlock resolved.properties.entries := by
  refine .intro resolved.properties.nodup ?_
  intro entry entry_mem block block_mem
  apply keyedBlock_component accepted
  apply List.mem_append_left
  exact List.mem_flatMap.2 ⟨entry.2, List.mem_map_of_mem entry_mem, block_mem⟩

theorem keyedBlock_events
    (accepted : (assembler.assemble model config component).1 = .ok resolved)
    {entry : String × ResolvedEvent} (entry_mem : entry ∈ resolved.events.entries) :
    ∀ block ∈ entry.2.expansion.blocks, KeyedBlock block := by
  intro block block_mem
  apply keyedBlock_component accepted
  apply List.mem_append_right
  exact List.mem_flatMap.2 ⟨entry.2, List.mem_map_of_mem entry_mem, block_mem⟩

/-- Runtime metadata of an accepted component is within its design-time metadata. -/
theorem runtime_within_designTime
    (accepted : (assembler.assemble model config component).1 = .ok resolved) :
    (Tier.runtime.project resolved).Within (Tier.designTime.project resolved) :=
  Tier.project_within (keyedBlock_properties accepted) fun _ entry_mem =>
    keyedBlock_events accepted entry_mem

def badgeTypes : TypeModel :=
  .ofList [.ofInterface "Style"
    [⟨"color", .union [.stringLiteral "red", .stringLiteral "blue"], true, false⟩]]

/-- A component whose tags are called like the fields of its metadata. -/
def badge : Component where
  name := "Badge"
  tagName := "my-badge"
  docs := { tags := .ofList [("name", "badge"), ("properties", "one")] }
  properties := .ofList [("style",
    { type := .named "Style"
      docs := { tags := .ofList [("type", "css"), ("properties", "color")] } })]
  methods := .ofList [("restyle",
    { params := [
        { name := "style"
          type := .named "Style"
          docs := { tags := .ofList [("name", "look")] } }] })]

def styleSignature : Signature :=
  { (Signature.documented "object" "Style") with
    isStruct := true
    typeName := some "Style"
    requiresTypedef := true
    typedef := some "Style" }

def resolvedBadge : ResolvedComponent where
  name := "Badge"
  tagName := "my-badge"
  docs := { tags := .ofList [("name", "badge"), ("properties", "one")] }
  properties := .ofList [("style",
    { signature := styleSignature
      declared := "Style"
      properties := some [("color",
        { signature := { (Signature.documented "string" "\"red\"|\"blue\"") with
            enumValues := some ["red", "blue"] }
          declared := "\"red\" | \"blue\""
          optional := true })]
      docs := { tags := .ofList [("type", "css"), ("properties", "color")] } })]
  methods := .ofList [("restyle",
    { params := [
        { name := "style"
          signature := styleSignature
          declared := "Style"
          docs := { tags := .ofList [("name", "look")] } }]
      returns := .documented "void" "void"
      declaredReturn := "void" })]

theorem runtime_within_designTime_badge :
    (({} : Assembler).assemble badgeTypes {} badge).1 = .ok resolvedBadge ∧
      (Tier.runtime.project resolvedBadge).Within (Tier.designTime.project resolvedBadge) := by
  have accepted : (({} : Assembler).assemble badgeTypes {} badge).1 = .ok resolvedBadge := by cbv
  exact ⟨accepted, runtime_within_designTime accepted⟩

end Assembler

end Componentry
