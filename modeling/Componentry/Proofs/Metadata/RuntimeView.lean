import Mathlib.Data.List.Forall2
import Mathlib.Data.Option.Basic
import Componentry.Proofs.Metadata.Fields

/-!
# What runtime metadata depends on

Runtime metadata shows nothing that is meant for design tools. Two components
agree (`ResolvedComponent.Agrees`) if they have the same name and tag, the same
names of members in the same order, signatures with the same display type and
the same enforced enumeration values, and the same defaults, flags and inline
members. Documentation types, advisory enumeration values, optionality, members
of elements, bindings and documentation may differ in any way.

Agreement is exactly what runtime metadata can tell: two components have equal
runtime metadata if and only if they agree. Each kind of object is taken apart
by looking up its keys, and the statement for a property follows from the one
for the members of its type.
-/

namespace Componentry

/-- Signatures that a runtime validator cannot tell apart. -/
structure Signature.Agrees (left right : Signature) : Prop where
  display : left.display = right.display
  enumValues : left.runtimeEnumValues = right.runtimeEnumValues

/-- Entries with the same key whose values agree. -/
inductive EntryAgrees {α : Type} (agree : α → α → Prop) : String × α → String × α → Prop
  | intro (key : String) {value other : α} (values : agree value other) :
      EntryAgrees agree (key, value) (key, other)

/-- Properties that look the same at run time, down to the members of their types. -/
inductive ResolvedProperty.Agrees : ResolvedProperty → ResolvedProperty → Prop
  | intro {left right : ResolvedProperty} (signature : left.signature.Agrees right.signature)
      (defaultValue : left.docs.defaultValue = right.docs.defaultValue)
      (readOnly : left.readOnly = right.readOnly) (writeback : left.writeback = right.writeback)
      (members : Option.Rel (List.Forall₂ (EntryAgrees Agrees)) left.properties right.properties) :
      Agrees left right

/-- Entries with the same keys in the same order whose values agree. -/
abbrev EntriesAgree {α : Type} (agree : α → α → Prop) (left right : List (String × α)) : Prop :=
  List.Forall₂ (EntryAgrees agree) left right

/-- Inline members that are there in both or in neither, and agree. -/
abbrev MembersAgree (left right : Option PropertyList) : Prop :=
  Option.Rel (EntriesAgree ResolvedProperty.Agrees) left right

/-- Members of a detail that is absent are not looked at. -/
inductive ResolvedEvent.DetailAgrees (left right : ResolvedEvent) : Prop
  | absent (left_none : left.detail = none) (right_none : right.detail = none)
  | present {signature other : Signature} (left_some : left.detail = some signature)
      (right_some : right.detail = some other) (signatures : signature.Agrees other)
      (members : MembersAgree left.expansion.properties right.expansion.properties)

/-- Events that look the same at run time. -/
structure ResolvedEvent.Agrees (left right : ResolvedEvent) : Prop where
  detail : left.DetailAgrees right
  writebackFor : left.writebackFor = right.writebackFor

/-- Slots that look the same at run time. -/
def ResolvedSlot.Agrees (left right : ResolvedSlot) : Prop :=
  Option.Rel Signature.Agrees left.signature right.signature

structure ResolvedParam.Agrees (left right : ResolvedParam) : Prop where
  name : left.name = right.name
  signature : left.signature.Agrees right.signature

/-- Methods that look the same at run time. -/
structure ResolvedMethod.Agrees (left right : ResolvedMethod) : Prop where
  params : List.Forall₂ ResolvedParam.Agrees left.params right.params
  returns : left.returns.Agrees right.returns

/-- Components that differ at most in what only design tools are told. -/
structure ResolvedComponent.Agrees (left right : ResolvedComponent) : Prop where
  name : left.name = right.name
  tagName : left.tagName = right.tagName
  properties : EntriesAgree ResolvedProperty.Agrees left.properties.entries right.properties.entries
  events : EntriesAgree ResolvedEvent.Agrees left.events.entries right.events.entries
  slots : EntriesAgree ResolvedSlot.Agrees left.slots.entries right.slots.entries
  methods : EntriesAgree ResolvedMethod.Agrees left.methods.entries right.methods.entries

/-! ## Lists, options and texts -/

theorem map_eq_map_iff_forall₂ {α β : Type} {encode : α → β} {agree : α → α → Prop}
    {left right : List α}
    (each : ∀ item ∈ left, ∀ other, encode item = encode other ↔ agree item other) :
    left.map encode = right.map encode ↔ List.Forall₂ agree left right := by
  induction left generalizing right with
  | nil => cases right <;> simp
  | cons item rest ih =>
    cases right with
    | nil => simp
    | cons other others =>
      rw [List.map_cons, List.map_cons, List.cons.injEq, List.forall₂_cons]
      apply and_congr
      · exact each item List.mem_cons_self other
      · exact ih fun item mem => each item (List.mem_cons_of_mem _ mem)

theorem map_eq_map_iff_entriesAgree {α : Type} {encode : α → Json} {agree : α → α → Prop}
    {left right : List (String × α)}
    (each : ∀ entry ∈ left, ∀ other, encode entry.2 = encode other ↔ agree entry.2 other) :
    (left.map fun entry => (entry.1, encode entry.2)) =
        (right.map fun entry => (entry.1, encode entry.2)) ↔
      EntriesAgree agree left right := by
  apply map_eq_map_iff_forall₂
  rintro ⟨key, value⟩ mem ⟨otherKey, other⟩
  rw [Prod.mk.injEq]
  constructor
  · rintro ⟨rfl, equal⟩
    exact .intro key ((each _ mem other).1 equal)
  · rintro ⟨_, values⟩
    exact ⟨rfl, (each _ mem other).2 values⟩

theorem option_map_eq_map_iff_rel {α β : Type} {encode : α → β} {agree : α → α → Prop}
    {left right : Option α}
    (each : ∀ item ∈ left.toList, ∀ other, encode item = encode other ↔ agree item other) :
    left.map encode = right.map encode ↔ Option.Rel agree left right := by
  cases left with
  | none =>
    cases right with
    | none => exact ⟨fun _ => .none, fun _ => rfl⟩
    | some other => exact ⟨nofun, nofun⟩
  | some item =>
    cases right with
    | none => exact ⟨nofun, nofun⟩
    | some other =>
      rw [Option.map_some, Option.map_some, Option.some.injEq, each item (by simp)]
      exact ⟨.some, fun | .some agrees => agrees⟩

theorem Json.strings_injective : Function.Injective Json.strings := by
  intro left right equal
  simp only [strings, array.injEq] at equal
  exact (List.map_injective_iff.2 fun _ _ => Json.string.inj) equal

theorem ResolvedProperty.sizeOf_lt_of_mem (property : ResolvedProperty) {block : PropertyList}
    (block_mem : block ∈ property.properties.toList) {entry : String × ResolvedProperty}
    (entry_mem : entry ∈ block) : sizeOf entry.2 < sizeOf property := by
  have entry_lt := List.sizeOf_lt_of_mem entry_mem
  rcases entry with ⟨name, member⟩
  cases property
  simp only [Option.mem_toList] at block_mem
  subst block_mem
  simp only [Prod.mk.sizeOf_spec] at entry_lt
  simp only [ResolvedProperty.mk.sizeOf_spec, Option.some.sizeOf_spec]
  omega

namespace Tier

/-! ## Signatures -/

theorem lookup_type (signature : Signature) :
    lookup "type" (runtime.signatureFields signature) = some (.string signature.display) :=
  rfl

theorem lookup_enumValues (signature : Signature) :
    lookup "enumValues" (runtime.signatureFields signature) =
      signature.runtimeEnumValues.map Json.strings := by
  simp only [signatureFields]
  cases signature.runtimeEnumValues with
  | none => rfl
  | some values => rfl

theorem agrees_of_lookup_signatureFields {left right : Signature}
    (same : ∀ key ∈ signatureKeys, lookup key (runtime.signatureFields left) =
      lookup key (runtime.signatureFields right)) : left.Agrees right := by
  constructor
  · have types := same "type" (by decide)
    rw [lookup_type, lookup_type] at types
    simpa using types
  · have values := same "enumValues" (by decide)
    rw [lookup_enumValues, lookup_enumValues] at values
    exact Option.map_injective Json.strings_injective values

theorem signatureFields_eq_iff (left right : Signature) :
    runtime.signatureFields left = runtime.signatureFields right ↔ left.Agrees right := by
  constructor
  · intro equal
    apply agrees_of_lookup_signatureFields
    intro key _
    rw [equal]
  · rintro ⟨display, enumValues⟩
    simp only [signatureFields, display, enumValues]

/-! ## Properties -/

section TypedFields

variable {signature : Signature} {flags : Fields} {members : Option PropertyList} {key : String}

theorem lookup_typedFields_of_ne (ne : key ≠ "properties") :
    lookup key (runtime.typedFields signature flags members) =
      lookup key ((runtime.signatureFields signature).putAll flags) := by
  have members_in : Fields.KeysIn ["properties"]
      (memberFields "properties" (members.map runtime.properties)) :=
    keysIn_memberFields (by decide) _
  rw [typedFields, Fields.lookup_putAll_of_not_mem (members_in.not_mem (by simpa using ne))]

theorem lookup_typedFields_signature (flags_in : Fields.KeysIn flagKeys flags)
    (key_mem : key ∈ signatureKeys) :
    lookup key (runtime.typedFields signature flags members) =
      lookup key (runtime.signatureFields signature) := by
  have apart : key ≠ "properties" ∧ key ∉ flagKeys :=
    (by decide : ∀ key ∈ signatureKeys, key ≠ "properties" ∧ key ∉ flagKeys) key key_mem
  rw [lookup_typedFields_of_ne apart.1,
    Fields.lookup_putAll_of_not_mem (flags_in.not_mem apart.2)]

theorem lookup_typedFields_flag (flags_nodup : (flags.map Prod.fst).Nodup)
    (key_mem : key ∈ flagKeys) :
    lookup key (runtime.typedFields signature flags members) = lookup key flags := by
  have apart : key ≠ "properties" ∧ key ∉ signatureKeys :=
    (by decide : ∀ key ∈ flagKeys, key ≠ "properties" ∧ key ∉ signatureKeys) key key_mem
  rw [lookup_typedFields_of_ne apart.1, Fields.lookup_putAll flags_nodup,
    (keysIn_signatureFields signature).lookup_eq_none apart.2, Option.or_none]

theorem lookup_typedFields_properties (flags_in : Fields.KeysIn flagKeys flags) :
    lookup "properties" (runtime.typedFields signature flags members) =
      (members.map runtime.properties).map Json.object := by
  have before_in : Fields.KeysIn (signatureKeys ++ flagKeys)
      ((runtime.signatureFields signature).putAll flags) :=
    Fields.keysIn_putAll ((keysIn_signatureFields signature).mono (by decide))
      (flags_in.mono (by decide))
  rw [typedFields, Fields.lookup_putAll (nodup_memberFields _ _), lookup_memberFields,
    before_in.lookup_eq_none (by decide), Option.or_none]

end TypedFields

theorem of_typedFields_eq {left right : Signature} {flags others : Fields}
    {members otherMembers : Option PropertyList} (flags_in : Fields.KeysIn flagKeys flags)
    (others_in : Fields.KeysIn flagKeys others) (flags_nodup : (flags.map Prod.fst).Nodup)
    (others_nodup : (others.map Prod.fst).Nodup)
    (equal : runtime.typedFields left flags members =
      runtime.typedFields right others otherMembers) :
    left.Agrees right ∧ (∀ key ∈ flagKeys, lookup key flags = lookup key others) ∧
      members.map runtime.properties = otherMembers.map runtime.properties := by
  refine ⟨?_, ?_, ?_⟩
  · apply agrees_of_lookup_signatureFields
    intro key key_mem
    rw [← lookup_typedFields_signature flags_in key_mem, equal,
      lookup_typedFields_signature others_in key_mem]
  · intro key key_mem
    rw [← lookup_typedFields_flag flags_nodup key_mem, equal,
      lookup_typedFields_flag others_nodup key_mem]
  · have properties_eq := congrArg (lookup "properties") equal
    rw [lookup_typedFields_properties flags_in, lookup_typedFields_properties others_in]
      at properties_eq
    exact Option.map_injective (fun _ _ => Json.object.inj) properties_eq

theorem nodup_propertyFlags (property : ResolvedProperty) :
    ((propertyFlags property).map Prod.fst).Nodup := by
  unfold propertyFlags
  cases property.docs.defaultValue <;> cases property.readOnly <;> cases property.writeback <;>
    simp [Fields.only]

theorem lookup_propertyFlags (property : ResolvedProperty) :
    lookup "defaultValue" (propertyFlags property) = property.docs.defaultValue ∧
      lookup "readOnly" (propertyFlags property) =
        (if property.readOnly then some (.bool true) else none) ∧
      lookup "writeback" (propertyFlags property) =
        (if property.writeback then some (.bool true) else none) := by
  unfold propertyFlags
  cases property.docs.defaultValue <;> cases property.readOnly <;> cases property.writeback <;>
    exact ⟨rfl, rfl, rfl⟩

theorem flags_agree_of_lookup {left right : ResolvedProperty}
    (same : ∀ key ∈ flagKeys, lookup key (propertyFlags left) = lookup key (propertyFlags right)) :
    left.docs.defaultValue = right.docs.defaultValue ∧ left.readOnly = right.readOnly ∧
      left.writeback = right.writeback := by
  have of_ite {wanted other : Bool} (equal : (if wanted then some (Json.bool true) else none) =
      if other then some (Json.bool true) else none) : wanted = other := by
    cases wanted <;> cases other <;> simp_all
  rcases lookup_propertyFlags left with ⟨left_default, left_readOnly, left_writeback⟩
  rcases lookup_propertyFlags right with ⟨right_default, right_readOnly, right_writeback⟩
  refine ⟨?_, of_ite ?_, of_ite ?_⟩
  · rw [← left_default, same _ (by decide), right_default]
  · rw [← left_readOnly, same _ (by decide), right_readOnly]
  · rw [← left_writeback, same _ (by decide), right_writeback]

/-- One level of the tree, whatever it takes for the members of the two types to agree. -/
theorem property_eq_iff_of_members {left right : ResolvedProperty}
    (members : left.properties.map runtime.properties = right.properties.map runtime.properties ↔
      MembersAgree left.properties right.properties) :
    runtime.property left = runtime.property right ↔ left.Agrees right := by
  rw [property_runtime, property_runtime, Json.object.injEq]
  constructor
  · intro equal
    rcases of_typedFields_eq (keysIn_propertyFlags left) (keysIn_propertyFlags right)
      (nodup_propertyFlags left) (nodup_propertyFlags right) equal with
      ⟨signature, flags, members_eq⟩
    rcases flags_agree_of_lookup flags with ⟨defaultValue, readOnly, writeback⟩
    exact .intro signature defaultValue readOnly writeback (members.1 members_eq)
  · rintro ⟨signature, defaultValue, readOnly, writeback, members_agree⟩
    have flags_eq : propertyFlags left = propertyFlags right := by
      simp only [propertyFlags, defaultValue, readOnly, writeback]
    rw [typedFields, typedFields, (signatureFields_eq_iff _ _).2 signature, flags_eq,
      members.2 members_agree]

theorem members_eq_iff {left right : Option PropertyList}
    (each : ∀ block ∈ left.toList, ∀ entry ∈ block, ∀ other,
      runtime.property entry.2 = runtime.property other ↔ entry.2.Agrees other) :
    left.map runtime.properties = right.map runtime.properties ↔ MembersAgree left right := by
  apply option_map_eq_map_iff_rel
  intro block block_mem other
  rw [properties_eq_map, properties_eq_map]
  exact map_eq_map_iff_entriesAgree (each block block_mem)

/-- By recursion on the tree of the first property. -/
theorem property_eq_iff (left right : ResolvedProperty) :
    runtime.property left = runtime.property right ↔ left.Agrees right := by
  apply property_eq_iff_of_members
  apply members_eq_iff
  intro block block_mem entry entry_mem other
  exact property_eq_iff entry.2 other
termination_by sizeOf left
decreasing_by exact left.sizeOf_lt_of_mem block_mem entry_mem

theorem members_eq_iff_membersAgree (left right : Option PropertyList) :
    left.map runtime.properties = right.map runtime.properties ↔ MembersAgree left right :=
  members_eq_iff fun _ _ entry _ other => property_eq_iff entry.2 other

/-! ## Events, slots and methods -/

theorem detailFields_eq_iff (left right : ResolvedEvent) :
    runtime.detailFields left = runtime.detailFields right ↔ left.DetailAgrees right := by
  unfold detailFields
  constructor
  · intro equal
    cases left_detail : left.detail with
    | none =>
      cases right_detail : right.detail with
      | none => exact .absent left_detail right_detail
      | some other => simp [left_detail, right_detail] at equal
    | some signature =>
      cases right_detail : right.detail with
      | none => simp [left_detail, right_detail] at equal
      | some other =>
        rw [left_detail, right_detail, Option.map_some, Option.map_some,
          Option.some.injEq] at equal
        rcases of_typedFields_eq Fields.keysIn_nil Fields.keysIn_nil .nil .nil equal with
          ⟨signatures, _, members_eq⟩
        exact .present left_detail right_detail signatures
          ((members_eq_iff_membersAgree _ _).1 members_eq)
  · intro agrees
    cases agrees with
    | absent left_none right_none => rw [left_none, right_none, Option.map_none, Option.map_none]
    | present left_some right_some signatures members =>
      rw [left_some, right_some, Option.map_some, Option.map_some, typedFields, typedFields,
        (signatureFields_eq_iff _ _).2 signatures, (members_eq_iff_membersAgree _ _).2 members]

theorem lookup_event_detail (detail : Option Fields) (writebackFor : Option String) :
    lookup "detail" ((memberFields "detail" detail).putAll
      (Fields.text "writebackFor" writebackFor)) = detail.map Json.object := by
  have text_in : Fields.KeysIn ["writebackFor"] (Fields.text "writebackFor" writebackFor) :=
    Fields.keysIn_text (by decide) writebackFor
  rw [Fields.lookup_putAll_of_not_mem (text_in.not_mem (by decide)), lookup_memberFields]

theorem lookup_event_writebackFor (detail : Option Fields) (writebackFor : Option String) :
    lookup "writebackFor" ((memberFields "detail" detail).putAll
      (Fields.text "writebackFor" writebackFor)) = writebackFor.map Json.string := by
  have detail_in : Fields.KeysIn ["detail"] (memberFields "detail" detail) :=
    keysIn_memberFields (by decide) detail
  rw [Fields.lookup_putAll (Fields.nodup_text _ _), Fields.lookup_text,
    detail_in.lookup_eq_none (by decide), Option.or_none]

theorem event_eq_iff (left right : ResolvedEvent) :
    runtime.event left = runtime.event right ↔ left.Agrees right := by
  rw [event_runtime, event_runtime, Json.object.injEq]
  constructor
  · intro equal
    have details := congrArg (lookup "detail") equal
    have writebacks := congrArg (lookup "writebackFor") equal
    rw [lookup_event_detail, lookup_event_detail] at details
    rw [lookup_event_writebackFor, lookup_event_writebackFor] at writebacks
    constructor
    · rw [← detailFields_eq_iff]
      exact Option.map_injective (fun _ _ => Json.object.inj) details
    · exact Option.map_injective (fun _ _ => Json.string.inj) writebacks
  · rintro ⟨detail, writebackFor⟩
    rw [(detailFields_eq_iff _ _).2 detail, writebackFor]

theorem slot_eq_iff (left right : ResolvedSlot) :
    runtime.slot left = runtime.slot right ↔ left.Agrees right := by
  have signatures : left.signature.map runtime.signatureFields =
      right.signature.map runtime.signatureFields ↔ left.Agrees right :=
    option_map_eq_map_iff_rel fun signature _ other => signatureFields_eq_iff signature other
  rw [← signatures]
  simp only [Tier.slot, Json.object.injEq]
  -- A slot without a type has no fields, and every signature has some.
  cases left.signature <;> cases right.signature <;> simp [signatureFields]

theorem lookup_param_name (name : String) (signature : Signature) :
    lookup "name" (Fields.putAll [("name", .string name)] (runtime.signatureFields signature)) =
      some (.string name) := by
  rw [Fields.lookup_putAll_of_not_mem ((keysIn_signatureFields signature).not_mem (by decide))]
  rfl

theorem lookup_param_signature {key : String} (key_mem : key ∈ signatureKeys) (name : String)
    (signature : Signature) :
    lookup key (Fields.putAll [("name", .string name)] (runtime.signatureFields signature)) =
      lookup key (runtime.signatureFields signature) := by
  have not_name : key ∉ [("name", Json.string name)].map Prod.fst :=
    (by decide : ∀ key ∈ signatureKeys, key ∉ ["name"]) key key_mem
  rw [Fields.lookup_putAll (nodup_signatureFields _ _), lookup_eq_none_of_not_mem not_name,
    Option.or_none]

theorem param_eq_iff (left right : ResolvedParam) :
    runtime.param left = runtime.param right ↔ left.Agrees right := by
  simp only [Tier.param, Json.object.injEq]
  constructor
  · intro equal
    constructor
    · have names := congrArg (lookup "name") equal
      rw [lookup_param_name, lookup_param_name] at names
      simpa using names
    · apply agrees_of_lookup_signatureFields
      intro key key_mem
      rw [← lookup_param_signature key_mem left.name, equal, lookup_param_signature key_mem]
  · rintro ⟨name, signature⟩
    rw [name, (signatureFields_eq_iff _ _).2 signature]

theorem method_eq_iff (left right : ResolvedMethod) :
    runtime.method left = runtime.method right ↔ left.Agrees right := by
  have params : left.params.map runtime.param = right.params.map runtime.param ↔
      List.Forall₂ ResolvedParam.Agrees left.params right.params :=
    map_eq_map_iff_forall₂ fun param _ other => param_eq_iff param other
  simp only [Tier.method, Json.object.injEq, List.cons.injEq, Prod.mk.injEq, Json.array.injEq,
    true_and, and_true, params, signatureFields_eq_iff]
  constructor <;>
    · rintro ⟨params, returns⟩
      exact ⟨params, returns⟩

/-! ## Components -/

theorem mapped_eq_iff {α : Type} {encode : α → Json} {agree : α → α → Prop}
    (each : ∀ item other, encode item = encode other ↔ agree item other)
    (left right : OrderedMap α) :
    mapped encode left = mapped encode right ↔ EntriesAgree agree left.entries right.entries := by
  rw [mapped, mapped, Json.object.injEq]
  exact map_eq_map_iff_entriesAgree fun entry _ other => each entry.2 other

theorem project_runtime (component : ResolvedComponent) :
    runtime.project component = .object [("name", .string component.name),
      ("tag", .string component.tagName),
      ("properties", mapped runtime.property component.properties),
      ("events", mapped runtime.event component.events),
      ("slots", mapped runtime.slot component.slots),
      ("methods", mapped runtime.method component.methods)] := by
  rw [mapped, ← properties_eq_map]
  rfl

/-- Components have equal runtime metadata if and only if they agree. -/
theorem runtime_project_eq_iff (left right : ResolvedComponent) :
    runtime.project left = runtime.project right ↔ left.Agrees right := by
  simp only [project_runtime, Json.object.injEq, List.cons.injEq, Prod.mk.injEq, true_and, and_true,
    Json.string.injEq, mapped_eq_iff property_eq_iff, mapped_eq_iff event_eq_iff,
    mapped_eq_iff slot_eq_iff, mapped_eq_iff method_eq_iff]
  constructor <;>
    · rintro ⟨name, tagName, properties, events, slots, methods⟩
      exact ⟨name, tagName, properties, events, slots, methods⟩

end Tier

end Componentry
