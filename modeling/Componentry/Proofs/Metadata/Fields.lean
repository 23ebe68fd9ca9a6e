import Componentry.Metadata

/-!
# Fields of metadata objects

Objects of metadata are built by putting fields one after the other. Putting
fields never makes an object repeat a key, a field that is put under another
key leaves a value as it is, and the tags of documentation replace nothing.
-/

namespace Componentry

theorem lookup_eq_none_of_not_mem {α : Type} {key : String} {entries : List (String × α)}
    (absent : key ∉ entries.map Prod.fst) : lookup key entries = none := by
  cases found : lookup key entries with
  | none => rfl
  | some value => exact absurd (List.mem_map_of_mem (mem_of_lookup_eq_some found)) absent

theorem lookup_append {α : Type} (key : String) (left right : List (String × α)) :
    lookup key (left ++ right) = (lookup key left).or (lookup key right) := by
  induction left with
  | nil => simp [lookup]
  | cons entry rest ih =>
    rw [List.cons_append, lookup_cons, lookup_cons, ih]
    split
    · rfl
    · rfl

namespace Fields

variable {key : String} {value : Json}

variable {fields additions : Fields}

theorem putAll_cons (fields : Fields) (key : String) (value : Json) (rest : Fields) :
    fields.putAll ((key, value) :: rest) = Fields.putAll (upsert key value fields) rest :=
  rfl

theorem putAll_append (fields left right : Fields) :
    fields.putAll (left ++ right) = (fields.putAll left).putAll right := by
  simp [putAll]

theorem nodup_putAll (nodup : (fields.map Prod.fst).Nodup) (additions : Fields) :
    ((fields.putAll additions).map Prod.fst).Nodup := by
  induction additions generalizing fields with
  | nil => exact nodup
  | cons entry rest ih => exact ih (upsert_keys_nodup entry.1 entry.2 fields nodup)

theorem lookup_putAll_of_not_mem (absent : key ∉ additions.map Prod.fst) :
    lookup key (fields.putAll additions) = lookup key fields := by
  induction additions generalizing fields with
  | nil => rfl
  | cons entry rest ih =>
    simp only [List.map_cons, List.mem_cons, not_or] at absent
    rw [putAll_cons, ih absent.2, lookup_upsert, if_neg absent.1]

theorem lookup_putAll (additions_nodup : (additions.map Prod.fst).Nodup) (key : String) :
    lookup key (fields.putAll additions) = (lookup key additions).or (lookup key fields) := by
  induction additions generalizing fields with
  | nil => rfl
  | cons entry rest ih =>
    simp only [List.map_cons, List.nodup_cons] at additions_nodup
    rw [putAll_cons, ih additions_nodup.2, lookup_upsert, lookup_cons]
    by_cases same : key = entry.1
    · have absent : lookup key rest = none :=
        lookup_eq_none_of_not_mem (same ▸ additions_nodup.1)
      rw [if_pos same, if_pos same.symm, absent]
      rfl
    · rw [if_neg same, if_neg (Ne.symm same)]

theorem nodup_putNew (nodup : (fields.map Prod.fst).Nodup) (key : String) (value : Json) :
    ((fields.putNew key value).map Prod.fst).Nodup := by
  unfold putNew
  split
  · exact nodup
  · rename_i absent
    have key_absent : key ∉ fields.map Prod.fst := by
      intro mem
      rcases List.mem_map.1 mem with ⟨⟨_, present⟩, entry_mem, rfl⟩
      rw [lookup_eq_some_of_mem nodup entry_mem] at absent
      simp at absent
    rw [← upsert_of_not_mem key value fields key_absent]
    exact upsert_keys_nodup key value fields nodup

theorem lookup_putNew_of_eq_some (found : lookup key fields = some value) (other : String)
    (text : Json) :
    lookup key (fields.putNew other text) = some value := by
  unfold putNew
  split
  · exact found
  · rw [lookup_append, found]
    rfl

/-- All keys of the fields are among the given ones. -/
def KeysIn (keys : List String) (fields : Fields) : Prop :=
  ∀ key ∈ fields.map Prod.fst, key ∈ keys

variable {keys : List String}

theorem KeysIn.mono {wider : List String} (within : KeysIn keys fields) (subset : keys ⊆ wider) :
    KeysIn wider fields :=
  fun key mem => subset (within key mem)

theorem KeysIn.not_mem (within : KeysIn keys fields) (absent : key ∉ keys) :
    key ∉ fields.map Prod.fst :=
  fun mem => absent (within key mem)

theorem KeysIn.lookup_eq_none (within : KeysIn keys fields) (absent : key ∉ keys) :
    lookup key fields = none :=
  lookup_eq_none_of_not_mem (within.not_mem absent)

theorem KeysIn.mem_of_lookup (within : KeysIn keys fields)
    (found : lookup key fields = some value) :
    key ∈ keys :=
  within key (List.mem_map_of_mem (mem_of_lookup_eq_some found))

theorem keysIn_nil : KeysIn keys [] := by
  simp [KeysIn]

theorem keysIn_cons (mem : key ∈ keys) (rest : KeysIn keys fields) :
    KeysIn keys ((key, value) :: fields) := by
  intro other other_mem
  rcases List.mem_cons.1 other_mem with rfl | later
  · exact mem
  · exact rest other later

theorem keysIn_append (left : KeysIn keys fields) (right : KeysIn keys additions) :
    KeysIn keys (fields ++ additions) := by
  intro key key_mem
  rw [List.map_append, List.mem_append] at key_mem
  rcases key_mem with mem | mem
  · exact left key mem
  · exact right key mem

theorem keysIn_only (mem : key ∈ keys) (wanted : Bool) (value : Json) :
    KeysIn keys (only wanted key value) := by
  cases wanted with
  | false => exact keysIn_nil
  | true => exact keysIn_cons mem keysIn_nil

theorem keysIn_text (mem : key ∈ keys) (value : Option String) :
    KeysIn keys (text key value) := by
  cases value with
  | none => exact keysIn_nil
  | some value => exact keysIn_cons mem keysIn_nil

theorem nodup_text (key : String) (value : Option String) :
    ((text key value).map Prod.fst).Nodup := by
  cases value with
  | none => simp [text]
  | some value => simp [text]

theorem lookup_text (key : String) (value : Option String) :
    lookup key (text key value) = value.map Json.string := by
  cases value with
  | none => rfl
  | some value => simp [text, lookup_cons]

theorem keysIn_putAll (old : KeysIn keys fields) (new : KeysIn keys additions) :
    KeysIn keys (fields.putAll additions) := by
  induction additions generalizing fields with
  | nil => exact old
  | cons entry rest ih =>
    apply ih
    · intro key key_mem
      rw [upsert_keys] at key_mem
      split at key_mem
      · exact old key key_mem
      · rcases List.mem_append.1 key_mem with mem | mem
        · exact old key mem
        · rw [List.mem_singleton] at mem
          exact mem ▸ new entry.1 (by simp)
    · intro key key_mem
      exact new key (List.mem_cons_of_mem _ key_mem)

end Fields

namespace Annotations

/-- The keys under which documentation is written, apart from the tags that are passed on. -/
def keys : List String :=
  ["description", "deprecated", "since", "displayName"]

theorem keysIn_fields (docs : Annotations) : Fields.KeysIn keys docs.fields := by
  unfold fields
  apply Fields.keysIn_append
  · apply Fields.keysIn_append
    · apply Fields.keysIn_append
      · exact Fields.keysIn_text (by decide) docs.description
      · cases docs.deprecated with
        | none => exact Fields.keysIn_nil
        | some note => exact Fields.keysIn_cons (by decide) Fields.keysIn_nil
    · exact Fields.keysIn_text (by decide) docs.since
  · exact Fields.keysIn_text (by decide) docs.displayName

theorem nodup_addTo (docs : Annotations) {out : Fields} (nodup : (out.map Prod.fst).Nodup) :
    ((docs.addTo out).map Prod.fst).Nodup := by
  have tagged (tags : List (String × String)) (fields : Fields)
      (fields_nodup : (fields.map Prod.fst).Nodup) :
      ((tags.foldl (fun (out : Fields) tag => out.putNew tag.1 (.string tag.2)) fields).map
        Prod.fst).Nodup := by
    induction tags generalizing fields with
    | nil => exact fields_nodup
    | cons entry rest ih => exact ih _ (Fields.nodup_putNew fields_nodup entry.1 _)
  exact tagged docs.tags.entries _ (Fields.nodup_putAll nodup docs.fields)

/-- Documentation replaces no field but those under its own keys, whatever the tags are called. -/
theorem lookup_addTo (docs : Annotations) {out : Fields} {key : String} {value : Json}
    (found : lookup key out = some value) (other : key ∉ keys) :
    lookup key (docs.addTo out) = some value := by
  have tagged (tags : List (String × String)) (fields : Fields)
      (fields_found : lookup key fields = some value) :
      lookup key (tags.foldl (fun (out : Fields) tag => out.putNew tag.1 (.string tag.2)) fields) =
        some value := by
    induction tags generalizing fields with
    | nil => exact fields_found
    | cons entry rest ih => exact ih _ (Fields.lookup_putNew_of_eq_some fields_found entry.1 _)
  apply tagged docs.tags.entries
  rw [Fields.lookup_putAll_of_not_mem (docs.keysIn_fields.not_mem other)]
  exact found

end Annotations

namespace Tier

def signatureKeys : List String :=
  ["type", "enumValues"]

theorem keysIn_signatureFields (signature : Signature) :
    Fields.KeysIn signatureKeys (runtime.signatureFields signature) := by
  apply Fields.keysIn_cons (by decide)
  cases signature.runtimeEnumValues with
  | none => exact Fields.keysIn_nil
  | some values => exact Fields.keysIn_cons (by decide) Fields.keysIn_nil

theorem nodup_signatureFields (tier : Tier) (signature : Signature) :
    ((tier.signatureFields signature).map Prod.fst).Nodup := by
  cases tier with
  | runtime =>
    simp only [signatureFields]
    cases signature.runtimeEnumValues with
    | none => simp
    | some values => simp
  | designTime =>
    simp only [signatureFields]
    cases signature.enumValues <;> cases signature.isArrayOfObject <;>
      cases signature.nullable <;> simp [Fields.only]

def flagKeys : List String :=
  ["defaultValue", "readOnly", "writeback"]

theorem keysIn_propertyFlags (property : ResolvedProperty) :
    Fields.KeysIn flagKeys (propertyFlags property) := by
  unfold propertyFlags
  apply Fields.keysIn_append
  · apply Fields.keysIn_append
    · cases property.docs.defaultValue with
      | none => exact Fields.keysIn_nil
      | some value => exact Fields.keysIn_cons (by decide) Fields.keysIn_nil
    · exact Fields.keysIn_only (by decide) _ _
  · exact Fields.keysIn_only (by decide) _ _

theorem keysIn_memberFields {keys : List String} {key : String} (mem : key ∈ keys)
    (members : Option Fields) : Fields.KeysIn keys (memberFields key members) := by
  cases members with
  | none => exact Fields.keysIn_nil
  | some members => exact Fields.keysIn_cons mem Fields.keysIn_nil

theorem nodup_memberFields (key : String) (members : Option Fields) :
    ((memberFields key members).map Prod.fst).Nodup := by
  cases members with
  | none | some members => simp [memberFields]

theorem lookup_memberFields (key : String) (members : Option Fields) :
    lookup key (memberFields key members) = members.map Json.object := by
  cases members with
  | none => rfl
  | some members => simp [memberFields, lookup_cons]

theorem properties_eq_map (tier : Tier) (entries : PropertyList) :
    tier.properties entries = entries.map fun entry => (entry.1, tier.property entry.2) := by
  induction entries with
  | nil => rw [properties, List.map_nil]
  | cons entry rest ih => rw [properties, ih, List.map_cons]

theorem optionalProperties_eq_map (tier : Tier) (entries : Option PropertyList) :
    tier.optionalProperties entries = entries.map tier.properties := by
  cases entries with
  | none => rw [optionalProperties, Option.map_none]
  | some entries => rw [optionalProperties, Option.map_some]

theorem property_eq_propertyWith (tier : Tier) (property : ResolvedProperty) :
    tier.property property = tier.propertyWith property
      (property.properties.map tier.properties) (property.itemProperties.map tier.properties) := by
  rw [← optionalProperties_eq_map, ← optionalProperties_eq_map]
  cases property
  rw [Tier.property]
  rfl

/-- What a tier says of something with a type: its signature, its flags and its inline members. -/
def typedFields (tier : Tier) (signature : Signature) (flags : Fields)
    (members : Option PropertyList) : Fields :=
  ((tier.signatureFields signature).putAll flags).putAll
    (memberFields "properties" (members.map tier.properties))

def typedKeys : List String :=
  signatureKeys ++ flagKeys ++ ["properties"]

theorem keysIn_typedFields {flags : Fields} (flags_in : Fields.KeysIn flagKeys flags)
    (signature : Signature) (members : Option PropertyList) :
    Fields.KeysIn typedKeys (runtime.typedFields signature flags members) := by
  apply Fields.keysIn_putAll
  · apply Fields.keysIn_putAll
    · exact (keysIn_signatureFields signature).mono (by decide)
    · exact flags_in.mono (by decide)
  · exact keysIn_memberFields (by decide) _

theorem nodup_typedFields (tier : Tier) (signature : Signature) (flags : Fields)
    (members : Option PropertyList) :
    ((tier.typedFields signature flags members).map Prod.fst).Nodup :=
  Fields.nodup_putAll (Fields.nodup_putAll (nodup_signatureFields _ _) _) _

theorem property_runtime (property : ResolvedProperty) :
    runtime.property property = .object (runtime.typedFields property.signature
      (propertyFlags property) property.properties) :=
  property_eq_propertyWith runtime property

theorem property_designTime (property : ResolvedProperty) :
    designTime.property property = .object (property.docs.addTo ((((designTime.typedFields
      property.signature (propertyFlags property) property.properties).putAll
      (editingFields property)).putAll
      (memberFields "itemProperties" (property.itemProperties.map designTime.properties))).putAll
      (bookkeepingFields property))) :=
  property_eq_propertyWith designTime property

/-- What a tier says of the detail of an event, if the event has one. -/
def detailFields (tier : Tier) (event : ResolvedEvent) : Option Fields :=
  event.detail.map fun signature =>
    let typed := tier.typedFields signature [] event.expansion.properties
    match tier with
    | .runtime => typed
    | .designTime => typed.putAll (memberFields "itemProperties"
        (event.expansion.itemProperties.map designTime.properties))

theorem event_runtime (event : ResolvedEvent) :
    runtime.event event = .object ((memberFields "detail" (runtime.detailFields event)).putAll
      (Fields.text "writebackFor" event.writebackFor)) := by
  simp only [Tier.event, detailFields, optionalProperties_eq_map]
  cases event.detail with
  | none => rfl
  | some signature => rfl

theorem event_designTime (event : ResolvedEvent) :
    designTime.event event = .object (event.docs.addTo (((memberFields "detail"
      (designTime.detailFields event)).putAll
      (Fields.text "writebackFor" event.writebackFor)).putAll
      [("bubbles", .bool event.bubbles), ("cancelable", .bool event.cancelable)])) := by
  simp only [Tier.event, detailFields, optionalProperties_eq_map]
  cases event.detail with
  | none => rfl
  | some signature => rfl

end Tier

end Componentry
