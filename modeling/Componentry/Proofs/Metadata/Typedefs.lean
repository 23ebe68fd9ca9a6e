import Componentry.Proofs.Expansion.Shape
import Componentry.Proofs.Lists
import Componentry.Proofs.Metadata.Tagged
import Componentry.Proofs.Resolution.Consistency

/-!
# Type definitions that documentation needs

Resolution asks for a type definition wherever a type refers to an exported
object type. A resolved component shows the signatures of its properties, event
details, slots and methods, and those of the members of properties and details.
Members are written out where they stand and ask for no definition, so what is
asked for is found by going through the signatures on top.

The list of definitions is made of all of these but those of slots: a name that
only the data of slots asks for is not listed.
-/

namespace Componentry

/-- The component declares the type at the position. -/
def Component.Declares (component : Component) : Position → TypeExpr → Prop
  | .property, type => ∃ property ∈ component.properties.values, property.type = type
  | .eventDetail, type => ∃ event ∈ component.events.values, event.detail = some type
  | .slotData, type =>
    ∃ slot ∈ component.slots.values ++ component.dynamicSlots.values, slot.type = some type
  | .parameter, type =>
    ∃ method ∈ component.methods.values, ∃ param ∈ method.params, param.type = type
  | .returned, type => ∃ method ∈ component.methods.values, method.returns.getD .void = type

namespace ResolvedComponent

/-- The component shows the signature at the position. -/
def Shows (component : ResolvedComponent) : Position → Signature → Prop
  | .property, signature =>
    ∃ property ∈ component.properties.values, property.signature = signature
  | .eventDetail, signature => ∃ event ∈ component.events.values, event.detail = some signature
  | .slotData, signature =>
    ∃ slot ∈ component.slots.values ++ component.dynamicSlots.values,
      slot.signature = some signature
  | .parameter, signature =>
    ∃ method ∈ component.methods.values, ∃ param ∈ method.params, param.signature = signature
  | .returned, signature => ∃ method ∈ component.methods.values, method.returns = signature

/-- A signature at the position asks for a type definition of the name. -/
def AsksFor (component : ResolvedComponent) (position : Position) (name : String) : Prop :=
  ∃ signature, component.Shows position signature ∧ signature.typedef = some name

/-- The names that the data of slots asks for. -/
def slotTypedefs (component : ResolvedComponent) : List String :=
  (component.slots.values ++ component.dynamicSlots.values).filterMap fun slot =>
    slot.signature.bind Signature.typedef

variable {component : ResolvedComponent}

theorem mem_documentedSignatures {signature : Signature} :
    signature ∈ component.documentedSignatures ↔
      ∃ position, position ≠ .slotData ∧ component.Shows position signature := by
  simp only [documentedSignatures, List.mem_append, List.mem_map, List.mem_filterMap,
    List.mem_flatMap, List.mem_singleton]
  constructor
  · rintro ((⟨property, mem, rfl⟩ | ⟨event, mem, detail⟩) | ⟨method, mem, listed | rfl⟩)
    · exact ⟨.property, by decide, property, mem, rfl⟩
    · exact ⟨.eventDetail, by decide, event, mem, detail⟩
    · exact ⟨.parameter, by decide, method, mem, listed⟩
    · exact ⟨.returned, by decide, method, mem, rfl⟩
  · rintro ⟨position, outside, shows⟩
    cases position with
    | property => exact .inl (.inl shows)
    | eventDetail => exact .inl (.inr shows)
    | slotData => exact absurd rfl outside
    | parameter =>
      rcases shows with ⟨method, mem, listed⟩
      exact .inr ⟨method, mem, .inl listed⟩
    | returned =>
      rcases shows with ⟨method, mem, rfl⟩
      exact .inr ⟨method, mem, .inr rfl⟩

theorem mem_typedefs {name : String} :
    name ∈ component.typedefs ↔
      ∃ position, position ≠ .slotData ∧ component.AsksFor position name := by
  rw [typedefs, List.mem_eraseDups, List.mem_filterMap]
  constructor
  · rintro ⟨signature, mem, asks⟩
    rcases mem_documentedSignatures.1 mem with ⟨position, outside, shows⟩
    exact ⟨position, outside, signature, shows, asks⟩
  · rintro ⟨position, outside, signature, shows, asks⟩
    exact ⟨signature, mem_documentedSignatures.2 ⟨position, outside, shows⟩, asks⟩

theorem mem_slotTypedefs {name : String} :
    name ∈ component.slotTypedefs ↔ component.AsksFor .slotData name := by
  simp only [slotTypedefs, List.mem_filterMap, Option.bind_eq_some_iff]
  constructor
  · rintro ⟨slot, mem, signature, shown, asks⟩
    exact ⟨signature, ⟨slot, mem, shown⟩, asks⟩
  · rintro ⟨signature, ⟨slot, mem, shown⟩, asks⟩
    exact ⟨slot, mem, signature, shown, asks⟩

/-- Nothing is missing from the list just if slots ask for nothing of their own. -/
theorem typedefs_complete_iff :
    (∀ position name, component.AsksFor position name → name ∈ component.typedefs) ↔
      component.slotTypedefs ⊆ component.typedefs := by
  constructor
  · intro complete name mem
    exact complete .slotData name (mem_slotTypedefs.1 mem)
  · intro covered position name asks
    by_cases slot : position = .slotData
    · subst slot
      exact covered (mem_slotTypedefs.2 asks)
    · exact mem_typedefs.2 ⟨position, slot, asks⟩

end ResolvedComponent

/-- No member of a tree asks for a type definition. -/
inductive InlinedBlock : PropertyList → Prop
  | intro {block : PropertyList} (here : ∀ entry ∈ block, entry.2.signature.typedef = none)
      (inner : ∀ entry ∈ block, ∀ inner ∈ entry.2.blocks, InlinedBlock inner) : InlinedBlock block

/-! ## Signatures of an accepted component -/

namespace Scope

variable {scope : Scope} {name : String} {signature : Signature}

theorem signature_of_assembleProperty {generics : List TypeParam} {property : Property}
    {resolved : ResolvedProperty}
    (ok : (scope.assembleProperty generics name property).outcome = .ok resolved) :
    resolved.signature = signature ↔
      (scope.resolve ⟨.property, false⟩ property.type).outcome = .ok signature := by
  simp only [assembleProperty, Attempt.outcome_bind_eq_ok, Attempt.outcome_pure,
    Except.ok.injEq] at ok
  rcases ok with ⟨shown, shown_ok, docs, _, expansion, _, bindings, _, rfl⟩
  rw [shown_ok, Except.ok.injEq]

theorem detail_signature_of_assembleEvent {event : Event} {resolved : ResolvedEvent}
    (ok : (scope.assembleEvent name event).outcome = .ok resolved) :
    resolved.detail = some signature ↔ ∃ type, event.detail = some type ∧
      (scope.resolve ⟨.eventDetail, false⟩ type).outcome = .ok signature := by
  rcases detail_of_assembleEvent ok with
    ⟨missing, absent, _⟩ | ⟨type, found, declared, shown, found_ok, _⟩
  · simp [missing, absent]
  · simp [declared, shown, found_ok]

theorem signature_of_assembleSlot {slot : Slot} {resolved : ResolvedSlot}
    (ok : (scope.assembleSlot name slot).outcome = .ok resolved) :
    resolved.signature = some signature ↔ ∃ type, slot.type = some type ∧
      (scope.resolve ⟨.slotData, false⟩ type).outcome = .ok signature := by
  simp only [assembleSlot, Attempt.outcome_bind_eq_ok, Attempt.outcome_pure,
    Except.ok.injEq] at ok
  rcases ok with ⟨shown, shown_ok, docs, _, rfl⟩
  cases data : slot.type with
  | none =>
    rw [data] at shown_ok
    cases shown_ok
    simp
  | some type =>
    rw [data] at shown_ok
    simp only [slotSignature, Attempt.outcome_bind_eq_ok, Attempt.outcome_pure,
      Except.ok.injEq] at shown_ok
    rcases shown_ok with ⟨found, found_ok, rfl⟩
    simp [found_ok]

theorem signature_of_assembleParam {param : MethodParam} {resolved : ResolvedParam}
    (ok : (scope.assembleParam name param).outcome = .ok resolved) :
    resolved.signature = signature ↔
      (scope.resolve ⟨.parameter, false⟩ param.type).outcome = .ok signature := by
  simp only [assembleParam, Attempt.outcome_bind_eq_ok, Attempt.outcome_pure,
    Except.ok.injEq] at ok
  rcases ok with ⟨shown, shown_ok, docs, _, rfl⟩
  rw [shown_ok, Except.ok.injEq]

theorem signatures_of_assembleMethod {method : Method} {resolved : ResolvedMethod}
    (ok : (scope.assembleMethod name method).outcome = .ok resolved) :
    ((∃ param ∈ resolved.params, param.signature = signature) ↔ ∃ param ∈ method.params,
      (scope.resolve ⟨.parameter, false⟩ param.type).outcome = .ok signature) ∧
    (resolved.returns = signature ↔
      (scope.resolve ⟨.returned, false⟩ (method.returns.getD .void)).outcome = .ok signature) := by
  simp only [assembleMethod, Attempt.outcome_bind_eq_ok, Attempt.outcome_pure,
    Except.ok.injEq] at ok
  rcases ok with ⟨params, params_ok, shown, shown_ok, docs, _, rfl⟩
  constructor
  · exact exists_mem_iff_of_forall₂ (Attempt.forall₂_of_traverse params_ok)
      fun _ _ param_ok => signature_of_assembleParam param_ok
  · rw [shown_ok, Except.ok.injEq]

/-- The signatures of an assembled component are those of its declared types. -/
theorem Traversed.shows_iff {component : Component} {resolved : ResolvedComponent}
    (traversed : scope.Traversed component resolved) (position : Position) :
    resolved.Shows position signature ↔ ∃ type, component.Declares position type ∧
      (scope.resolve ⟨position, false⟩ type).outcome = .ok signature := by
  cases position with
  | property =>
    have paired := Attempt.forall₂_values_of_traverseMap traversed.properties
    rw [ResolvedComponent.Shows, exists_mem_iff_of_forall₂ paired
      fun _ _ ok => signature_of_assembleProperty ok.choose_spec]
    simp [Component.Declares]
  | eventDetail =>
    have paired := Attempt.forall₂_values_of_traverseMap traversed.events
    rw [ResolvedComponent.Shows, exists_mem_iff_of_forall₂ paired
      fun _ _ ok => detail_signature_of_assembleEvent ok.choose_spec]
    grind [Component.Declares]
  | slotData =>
    have paired := List.rel_append (Attempt.forall₂_values_of_traverseMap traversed.slots)
      (Attempt.forall₂_values_of_traverseMap traversed.dynamicSlots)
    rw [ResolvedComponent.Shows, exists_mem_iff_of_forall₂ paired
      fun _ _ ok => signature_of_assembleSlot ok.choose_spec]
    grind [Component.Declares]
  | parameter =>
    have paired := Attempt.forall₂_values_of_traverseMap traversed.methods
    rw [ResolvedComponent.Shows, exists_mem_iff_of_forall₂ paired
      fun _ _ ok => (signatures_of_assembleMethod ok.choose_spec).1]
    grind [Component.Declares]
  | returned =>
    have paired := Attempt.forall₂_values_of_traverseMap traversed.methods
    rw [ResolvedComponent.Shows, exists_mem_iff_of_forall₂ paired
      fun _ _ ok => (signatures_of_assembleMethod ok.choose_spec).2]
    simp [Component.Declares]

theorem inlinedBlock_of_expandMembers {path : PropertyPath} {members : List Member}
    {block : PropertyList} (ok : (scope.expandMembers path members []).outcome = .ok block) :
    InlinedBlock block := by
  apply expandMembers_induction ?_ ok
  intro path members block ok inner
  refine .intro ?_ inner
  rintro ⟨key, node⟩ mem
  rcases expanded_of_mem ok mem with ⟨member, _, member_ok⟩
  rcases becomes_of_expandMember member_ok with ⟨signature, signature_ok, becomes⟩
  have inlined := ((resolves_of_outcome signature_ok).consistent.inlined rfl).2
  cases becomes with
  | untargeted _ _ | circular _ _ _ | unlisted _ _ _ _ => exact inlined
  | entered _ _ _ _ _ =>
    rw [ResolvedProperty.signature_withMembers]
    exact inlined

end Scope

/-! ## Type definitions in metadata -/

namespace Tier

/-- A tag of that name is shown where there is no list. -/
theorem lookup_typedefs_componentFields (component : ResolvedComponent) :
    lookup "typedefs" (componentFields component) =
      if component.typedefs = [] then (component.docs.tags.get? "typedefs").map .string
      else some (.strings component.typedefs) := by
  have head_in : Fields.KeysIn ["name", "tag", "since"]
      (Fields.putAll [("name", .string component.name), ("tag", .string component.tagName)]
        (Fields.text "since" component.since)) := by
    apply Fields.keysIn_putAll
    · exact Fields.keysIn_cons (by decide) (Fields.keysIn_cons (by decide) Fields.keysIn_nil)
    · exact Fields.keysIn_text (by decide) _
  have generics_in := Fields.keysIn_only (List.mem_singleton.2 (Eq.refl "generics"))
    (!component.generics.isEmpty) component.generics.toJson
  rw [componentFields, Fields.putAll_append]
  split
  · rename_i empty
    rw [empty]
    apply (Fields.lookup_putAll_of_not_mem (generics_in.not_mem (by decide))).trans
    rw [Annotations.lookup_addTo_eq,
      Fields.lookup_putAll_of_not_mem (component.docs.keysIn_fields.not_mem (by decide)),
      head_in.lookup_eq_none (by decide), Option.none_or]
  · rename_i nonempty
    have wanted : (!component.typedefs.isEmpty) = true := by simpa using nonempty
    rw [wanted]
    exact (lookup_upsert ..).trans (if_pos rfl)

theorem get?_typedefs_project (component : ResolvedComponent) :
    (designTime.project component).get? "typedefs" =
      if component.typedefs = [] then (component.docs.tags.get? "typedefs").map .string
      else some (.strings component.typedefs) := by
  have members_in (properties events slots dynamicSlots methods : Json) (dynamic : Bool) :
      Fields.KeysIn ["properties", "events", "slots", "dynamicSlots", "methods"]
        ([("properties", properties), ("events", events), ("slots", slots)] ++
          Fields.only dynamic "dynamicSlots" dynamicSlots ++ [("methods", methods)]) := by
    apply Fields.keysIn_append
    · apply Fields.keysIn_append
      · simp [Fields.KeysIn]
      · exact Fields.keysIn_only (by decide) _ _
    · exact Fields.keysIn_cons (by decide) Fields.keysIn_nil
  rw [← lookup_typedefs_componentFields]
  exact Fields.lookup_putAll_of_not_mem ((members_in _ _ _ _ _ _).not_mem (by decide))

theorem get?_typedefs_project_eq_iff (component : ResolvedComponent) :
    (designTime.project component).get? "typedefs" = some (.strings component.typedefs) ↔
      component.typedefs ≠ [] := by
  rw [get?_typedefs_project]
  split
  · rename_i empty
    cases component.docs.tags.get? "typedefs" <;> simp [empty, Json.strings]
  · rename_i nonempty
    simp [nonempty]

end Tier

namespace Assembler

/-- The list of an accepted component has each name once. It has just the names that the types of
properties, event details, parameters and results ask for when they are resolved, so it is complete
just if the types of slots ask for no other ones. Members ask for nothing, and the design-time
metadata shows the list unless it is empty. -/
theorem typedefs_cover_all_but_slots (assembler : Assembler) (model : TypeModel) (config : Config)
    (component : Component) (resolved : ResolvedComponent)
    (accepted : (assembler.assemble model config component).1 = .ok resolved) :
    resolved.typedefs.Nodup ∧
      (∀ name, name ∈ resolved.typedefs ↔
        ∃ position, position ≠ .slotData ∧ resolved.AsksFor position name) ∧
      ((∀ position name, resolved.AsksFor position name → name ∈ resolved.typedefs) ↔
        resolved.slotTypedefs ⊆ resolved.typedefs) ∧
      (∀ position signature, resolved.Shows position signature ↔
        ∃ type, component.Declares position type ∧
          ((Scope.ofConfig model config).resolve ⟨position, false⟩ type).outcome =
            .ok signature) ∧
      (∀ block ∈ resolved.blocks, InlinedBlock block) ∧
      ((Tier.designTime.project resolved).get? "typedefs" = some (.strings resolved.typedefs) ↔
        resolved.typedefs ≠ []) := by
  refine ⟨nodup_eraseDups _, fun _ => ResolvedComponent.mem_typedefs,
    ResolvedComponent.typedefs_complete_iff, ?_, ?_, Tier.get?_typedefs_project_eq_iff resolved⟩
  · intro position signature
    exact (traversed_of_accepted accepted).shows_iff position
  · exact holds_of_component_blocks accepted fun _ _ _ ok => Scope.inlinedBlock_of_expandMembers ok

/-- Exported types of rows and of the badges on them. -/
def shelfTypes : TypeModel :=
  .ofList [.ofInterface "Badge" [⟨"text", .string, false, false⟩],
    .ofInterface "Row" [⟨"badge", .named "Badge", false, false⟩]]

/-- A component that shows rows in many places and badges only in slots. -/
def shelf : Component where
  name := "Shelf"
  tagName := "my-shelf"
  properties := .ofList [("rows", { type := .array (.named "Row") }),
    ("badgeSlot",
      { type := .string, dynamicSlot := some .slot, dynamicSlotKey := some "badge" })]
  slots := .ofList [("row", { type := some (.named "Row") })]
  dynamicSlots := .ofList [("badge", { type := some (.named "Badge") })]
  methods := .ofList [("first", { returns := some (.union [.named "Row", .null]) })]

theorem typedefs_cover_all_but_slots_shelf :
    ∃ resolved, (({} : Assembler).assemble shelfTypes {} shelf).1 = .ok resolved ∧
      resolved.typedefs = ["Row"] ∧ resolved.slotTypedefs = ["Row", "Badge"] ∧
      (Tier.designTime.project resolved).get? "typedefs" = some (.strings ["Row"]) ∧
      ¬∀ position name, resolved.AsksFor position name → name ∈ resolved.typedefs := by
  have shown : (({} : Assembler).assemble shelfTypes {} shelf).1.toOption.map
      (fun resolved => (resolved.typedefs, resolved.slotTypedefs)) =
        some (["Row"], ["Row", "Badge"]) := by cbv
  cases accepted : (({} : Assembler).assemble shelfTypes {} shelf).1 with
  | error error =>
    rw [accepted] at shown
    cases shown
  | ok resolved =>
    rw [accepted] at shown
    have names_eq := Option.some.inj shown
    have listed : resolved.typedefs = ["Row"] := congrArg Prod.fst names_eq
    have asked : resolved.slotTypedefs = ["Row", "Badge"] := congrArg Prod.snd names_eq
    rcases typedefs_cover_all_but_slots {} shelfTypes {} shelf resolved accepted with
      ⟨_, _, complete_iff, _, _, written_iff⟩
    refine ⟨resolved, rfl, listed, asked, ?_, ?_⟩
    · rw [← listed]
      apply written_iff.2
      simp [listed]
    · rw [complete_iff, listed, asked]
      decide

/-- A slot whose data is an object of an exported type: nothing announces the definition. -/
theorem typedefs_not_announced_by_slots :
    let model := TypeModel.ofList [.ofInterface "Item" [⟨"label", .string, false, false⟩]]
    let panel : Component :=
      { name := "Panel", tagName := "my-panel"
        slots := .ofList [("item", { type := some (.named "Item") })] }
    ∃ resolved, (({} : Assembler).assemble model {} panel).1 = .ok resolved ∧
      resolved.AsksFor .slotData "Item" ∧ resolved.typedefs = [] ∧
      (Tier.designTime.project resolved).get? "typedefs" = none := by
  intro model panel
  have shown : (({} : Assembler).assemble model {} panel).1.toOption.map
      (fun resolved => (resolved.typedefs, resolved.slotTypedefs,
        (Tier.designTime.project resolved).get? "typedefs")) = some ([], ["Item"], none) := by cbv
  cases accepted : (({} : Assembler).assemble model {} panel).1 with
  | error error =>
    rw [accepted] at shown
    cases shown
  | ok resolved =>
    rw [accepted] at shown
    have names_eq := Option.some.inj shown
    have asked : resolved.slotTypedefs = ["Item"] := congrArg (·.2.1) names_eq
    refine ⟨resolved, rfl, ?_, congrArg (·.1) names_eq, congrArg (·.2.2) names_eq⟩
    rw [← ResolvedComponent.mem_slotTypedefs, asked]
    exact List.mem_singleton.2 rfl

end Assembler

end Componentry
