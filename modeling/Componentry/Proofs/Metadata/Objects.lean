import Mathlib.Data.List.Permutation
import Componentry.Proofs.Assembly
import Componentry.Proofs.Expansion.Shape
import Componentry.Proofs.Expansion.Target
import Componentry.Proofs.Metadata.RuntimeView

/-!
# Objects of runtime metadata

A way of names leads through the `properties` of runtime metadata to objects
that stand for a property or a detail and for the members below it. Runtime
metadata shows inline members only, and outside arrays the members of elements
are never inline, so no object with `properties` stands for an array.
-/

namespace Componentry

/-- The object that the names of a way lead to through `properties`. -/
def Json.memberAt? : List String → Json → Option Json
  | [], value => some value
  | key :: way, value => ((value.get? "properties").bind (get? key)).bind (memberAt? way)

/-- The object of the detail of an event. -/
def Json.detailOf? (event : String) (metadata : Json) : Option Json :=
  ((metadata.get? "events").bind (get? event)).bind (get? "detail")

variable {type : TypeExpr} {expansion : Expansion} {way : List String} {object : Json}

namespace Scope

/-- The type that the names of a way lead to through the members of types. -/
def typeAt? (scope : Scope) : List String → TypeExpr → Option TypeExpr
  | [], type => some type
  | key :: way, type =>
    (scope.shownMember? key (scope.membersOf type)).bind fun member => typeAt? scope way member.type

/-- The type is an object type, perhaps a missing one, and no array. -/
structure ObjectTyped (scope : Scope) (type : TypeExpr) : Prop where
  target : ∃ target, scope.target? type = some target ∧ target.array = false
  not_array : ¬scope.model.ArrayTyped type

/-- Every object on a way of `properties` stands for a type of the component, and if it has
`properties` itself, the type is no array. -/
structure Describes (scope : Scope) (component : Component) (metadata : Json) : Prop where
  properties : ∀ name way object, metadata.memberAt? (name :: way) = some object →
    ∃ property type, component.properties.get? name = some property ∧
      scope.typeAt? way property.type = some type ∧
      (object.get? "properties" ≠ none → scope.ObjectTyped type)
  details : ∀ name way detail object, metadata.detailOf? name = some detail →
    detail.memberAt? way = some object →
      ∃ event detailType type, component.events.get? name = some event ∧
        event.detail = some detailType ∧ scope.typeAt? way detailType = some type ∧
        (object.get? "properties" ≠ none → scope.ObjectTyped type)

theorem Shaped.objectTyped {scope : Scope} (shaped : scope.Shaped false type expansion)
    (present : expansion.properties ≠ none) :
    scope.ObjectTyped type := by
  cases shaped with
  | intro _ _ inline _ _ =>
    rcases inline present with ⟨target, found, outside⟩
    have object : target.array = false := by simpa using outside
    refine ⟨⟨target, found, object⟩, ?_⟩
    intro arrayTyped
    simp [(finds_of_targetWithin found).array_of_arrayTyped arrayTyped] at object

theorem Shaped.member {scope : Scope} {block : PropertyList} {key : String}
    {node : ResolvedProperty} (shaped : scope.Shaped false type expansion)
    (found : expansion.properties = some block) (mem : (key, node) ∈ block) :
    ∃ member, scope.shownMember? key (scope.membersOf type) = some member ∧
      scope.Shaped false member.type node.expansion := by
  cases shaped with
  | intro _ _ _ lists inner =>
    rcases (lists false block found).entries key node mem with ⟨member, entry⟩
    exact ⟨member, entry.shown, inner false block found key node member mem entry.shown⟩

end Scope

namespace Tier

theorem get?_object_map {α : Type} (encode : α → Json) (entries : List (String × α))
    (key : String) :
    (Json.object (entries.map fun entry => (entry.1, encode entry.2))).get? key =
      (lookup key entries).map encode := by
  induction entries with
  | nil => rfl
  | cons entry rest ih =>
    rw [Json.get?, List.map_cons, lookup_cons, lookup_cons]
    split
    · rfl
    · exact ih

/-- The object shows the inline members of an expansion, if there are any. -/
def ShowsMembers (object : Json) (expansion : Expansion) : Prop :=
  object.get? "properties" = (expansion.properties.map runtime.properties).map Json.object

theorem showsMembers_property (property : ResolvedProperty) :
    ShowsMembers (runtime.property property) property.expansion := by
  rw [ShowsMembers, property_runtime]
  exact lookup_typedFields_properties (keysIn_propertyFlags property)

theorem showsMembers_detail (signature : Signature) (expansion : Expansion) :
    ShowsMembers (.object (runtime.typedFields signature [] expansion.properties)) expansion :=
  lookup_typedFields_properties Fields.keysIn_nil

/-- By induction on the way: the object at the end of it shows the members of a tree that is outside
blocks of element members. -/
theorem objectTyped_of_memberAt? {scope : Scope} {value : Json}
    (shaped : scope.Shaped false type expansion) (shows : ShowsMembers value expansion)
    (at_way : value.memberAt? way = some object) :
    ∃ memberType, scope.typeAt? way type = some memberType ∧
      (object.get? "properties" ≠ none → scope.ObjectTyped memberType) := by
  induction way generalizing type expansion value with
  | nil =>
    simp only [Json.memberAt?] at at_way
    cases at_way
    refine ⟨type, rfl, ?_⟩
    intro present
    apply shaped.objectTyped
    intro absent
    rw [shows, absent] at present
    exact present rfl
  | cons key way ih =>
    rw [Json.memberAt?, shows] at at_way
    cases found : expansion.properties with
    | none => simp [found] at at_way
    | some block =>
      rw [found, Option.map_some, Option.map_some, Option.bind_some, properties_eq_map,
        get?_object_map] at at_way
      cases entry : lookup key block with
      | none => simp [entry] at at_way
      | some node =>
        rw [entry, Option.map_some, Option.bind_some] at at_way
        rcases shaped.member found (mem_of_lookup_eq_some entry) with
          ⟨member, shown, member_shaped⟩
        rcases ih member_shaped (showsMembers_property node) at_way with
          ⟨memberType, type_eq, object_typed⟩
        refine ⟨memberType, ?_, object_typed⟩
        rw [Scope.typeAt?, shown, Option.bind_some, type_eq]

theorem get?_properties_project (component : ResolvedComponent) :
    (runtime.project component).get? "properties" =
      some (mapped runtime.property component.properties) := by
  rw [project_runtime]
  rfl

theorem get?_events_project (component : ResolvedComponent) :
    (runtime.project component).get? "events" =
      some (mapped runtime.event component.events) := by
  rw [project_runtime]
  rfl

theorem get?_detail_event (event : ResolvedEvent) :
    (runtime.event event).get? "detail" = (runtime.detailFields event).map Json.object := by
  rw [event_runtime]
  exact lookup_event_detail _ _

end Tier

namespace Assembler

variable {assembler : Assembler} {model : TypeModel} {config : Config} {component : Component}
  {resolved : ResolvedComponent}

theorem objectTyped_of_property
    (accepted : (assembler.assemble model config component).1 = .ok resolved) {name : String}
    (at_way : (Tier.runtime.project resolved).memberAt? (name :: way) = some object) :
    ∃ property type, component.properties.get? name = some property ∧
      (Scope.ofConfig model config).typeAt? way property.type = some type ∧
      (object.get? "properties" ≠ none → (Scope.ofConfig model config).ObjectTyped type) := by
  have traversed := (traversed_of_accepted accepted).properties
  rw [Json.memberAt?, Tier.get?_properties_project, Option.bind_some, Tier.mapped,
    Tier.get?_object_map] at at_way
  cases entry : lookup name resolved.properties.entries with
  | none => simp [entry] at at_way
  | some node =>
    rw [entry, Option.map_some, Option.bind_some] at at_way
    rcases Attempt.exists_source_of_mem_traverseMap traversed (mem_of_lookup_eq_some entry) with
      ⟨property, declared, step_ok⟩
    rcases Scope.expansion_of_assembleProperty step_ok with
      ⟨expansion, expansion_ok, properties_eq, items_eq⟩
    have expansion_eq : node.expansion = expansion := by
      rw [ResolvedProperty.expansion, properties_eq, items_eq]
    have shaped := Scope.shaped_of_expand expansion_ok
    rw [← expansion_eq] at shaped
    rcases Tier.objectTyped_of_memberAt? shaped (Tier.showsMembers_property node) at_way with
      ⟨type, type_eq, object_typed⟩
    exact ⟨property, type, declared, type_eq, object_typed⟩

theorem objectTyped_of_detail
    (accepted : (assembler.assemble model config component).1 = .ok resolved) {name : String}
    {detail : Json} (detail_eq : (Tier.runtime.project resolved).detailOf? name = some detail)
    (at_way : detail.memberAt? way = some object) :
    ∃ event detailType type, component.events.get? name = some event ∧
      event.detail = some detailType ∧
      (Scope.ofConfig model config).typeAt? way detailType = some type ∧
      (object.get? "properties" ≠ none → (Scope.ofConfig model config).ObjectTyped type) := by
  have traversed := (traversed_of_accepted accepted).events
  rw [Json.detailOf?, Tier.get?_events_project, Option.bind_some, Tier.mapped,
    Tier.get?_object_map] at detail_eq
  cases entry : lookup name resolved.events.entries with
  | none => simp [entry] at detail_eq
  | some node =>
    rw [entry, Option.map_some, Option.bind_some, Tier.get?_detail_event] at detail_eq
    rcases Attempt.exists_source_of_mem_traverseMap traversed (mem_of_lookup_eq_some entry) with
      ⟨event, declared, step_ok⟩
    rcases Scope.detail_of_assembleEvent step_ok with ⟨_, absent, _⟩ |
      ⟨detailType, signature, type_eq, detail_some, _, expansion_ok⟩
    · have detail_none : node.detail = none := absent
      simp [Tier.detailFields, detail_none] at detail_eq
    · have node_detail : node.detail = some signature := detail_some
      simp only [Tier.detailFields, node_detail, Option.map_some] at detail_eq
      cases detail_eq
      rcases Tier.objectTyped_of_memberAt? (Scope.shaped_of_expand expansion_ok)
        (Tier.showsMembers_detail signature _) at_way with ⟨type, member_eq, object_typed⟩
      exact ⟨event, detailType, type, declared, type_eq, member_eq, object_typed⟩

/-- Expansions are well shaped: the tree is `Shaped` at every level, a type with members that are no
methods has a block, and in the runtime metadata of an accepted component no object with
`properties` stands for an array. -/
theorem expansions_well_shaped (model : TypeModel) (config : Config) :
    (∀ name type expansion,
      ((Scope.ofConfig model config).expand name type).outcome = .ok expansion →
        (Scope.ofConfig model config).Shaped false type expansion ∧
          ((Scope.ofConfig model config).keptNames
            ((Scope.ofConfig model config).membersOf type) ≠ [] → expansion.blocks ≠ [])) ∧
      ∀ assembler component resolved,
        (Assembler.assemble assembler model config component).1 = .ok resolved →
          (Scope.ofConfig model config).Describes component (Tier.runtime.project resolved) := by
  constructor
  · intro name type expansion ok
    exact ⟨Scope.shaped_of_expand ok, Scope.blocks_ne_nil_of_expand ok⟩
  · intro assembler component resolved accepted
    exact ⟨fun _ _ _ => objectTyped_of_property accepted,
      fun _ _ _ _ => objectTyped_of_detail accepted⟩

def gridTypes : TypeModel :=
  .ofList [
    .ofInterface "Column" [⟨"key", .string, false, false⟩,
      ⟨"cells", .array (.named "Cell"), false, false⟩,
      ⟨"select", .function [] .void, false, false⟩],
    .ofInterface "Cell" [⟨"value", .number, false, false⟩]]

/-- A component with an array of objects that have arrays of objects, and with one such object. -/
def grid : Component where
  name := "Grid"
  tagName := "my-grid"
  properties := .ofList [("columns", { type := .array (.named "Column") })]
  events := .ofList [("resize", { detail := some (.named "Column") })]

def cellBlock : PropertyList :=
  [("value", { signature := .simple "number", declared := "number" })]

def keyNode : ResolvedProperty where
  signature := .simple "string"
  declared := "string"

def cellsNode : ResolvedProperty where
  signature := { (Signature.documented "Array<object>" "Array<Cell>") with
    isArrayOfObject := true, typeName := some "Cell" }
  declared := "Cell[]"

/-- Inside the elements of `columns` the members of cells stand inline. -/
def columnsTree : Expansion where
  itemProperties :=
    some [("key", keyNode), ("cells", { cellsNode with properties := some cellBlock })]

/-- In a single column the members of cells stand apart. -/
def columnTree : Expansion where
  properties := some [("key", keyNode),
    ("cells", { cellsNode with itemProperties := some cellBlock })]

def resolvedGrid : ResolvedComponent where
  name := "Grid"
  tagName := "my-grid"
  properties := .ofList [("columns",
    { signature := { (Signature.documented "Array<object>" "Array<Column>") with
        isArrayOfObject := true, typeName := some "Column", requiresTypedef := true,
        typedef := some "Column" }
      declared := "Column[]"
      itemProperties := columnsTree.itemProperties })]
  events := .ofList [("resize",
    { detail := some { (Signature.documented "object" "Column") with
        isStruct := true, typeName := some "Column", requiresTypedef := true,
        typedef := some "Column" }
      declared := some "Column"
      expansion := columnTree })]

theorem expansions_well_shaped_grid :
    ((Scope.ofConfig gridTypes {}).expand "columns" (.array (.named "Column"))).outcome =
        .ok columnsTree ∧
      (({} : Assembler).assemble gridTypes {} grid).1 = .ok resolvedGrid ∧
      (((Tier.runtime.project resolvedGrid).detailOf? "resize").bind
        (Json.get? "properties")).isSome = true ∧
      (Scope.ofConfig gridTypes {}).Shaped false (.array (.named "Column")) columnsTree ∧
      (Scope.ofConfig gridTypes {}).Describes grid (Tier.runtime.project resolvedGrid) := by
  have expanded : ((Scope.ofConfig gridTypes {}).expand "columns"
      (.array (.named "Column"))).outcome = .ok columnsTree := by cbv
  have accepted : (({} : Assembler).assemble gridTypes {} grid).1 = .ok resolvedGrid := by cbv
  have inline : (((Tier.runtime.project resolvedGrid).detailOf? "resize").bind
      (Json.get? "properties")).isSome = true := by cbv
  have shaped := expansions_well_shaped gridTypes {}
  exact ⟨expanded, accepted, inline, (shaped.1 _ _ _ expanded).1, shaped.2 _ _ _ accepted⟩

end Assembler

end Componentry
