import Componentry.Config

/-!
# Invariants of a component's surface

What the members of a component demand of each other. Each check gives the first error that it
finds in the order of declaration, and can be switched off by its category.

* `writebackError?`: a property that is written back has an event that reports it, and such an
  event reports a property that is written back.
* `defaultSlotError?`: the default slot has the reserved type, and nothing else has it.
* `dynamicSlotError?`: at most one property names the slots to fill, of one kind.
* `dynamicSlotDefinitionError?`: the definitions that properties refer to exist, and every
  definition is referred to.
-/

namespace Componentry

namespace TypeExpr

/-- The only member of a union that is not missing, or a type that is no union. -/
def presentMember? : TypeExpr → Option TypeExpr
  | .union members =>
    match members.filter (!·.isNullish) with
    | [single] => some single
    | _ => none
  | type => some type

end TypeExpr

namespace Component

/-- The name of the default slot. -/
def defaultSlot : String := "default"

/-- The type that is reserved for the default slot. -/
def childrenType : String := "Children"

/-- Whether a type is the reserved type or an array of it. -/
def isChildren : TypeExpr → Bool
  | .array element => isChildren element
  | type => type.typeName? == some childrenType

/-- A property that is written back without an event for it, or an event without such a property. -/
def writebackError? (component : Component) : Option StructuralError :=
  let reported (name : String) : Bool :=
    component.events.values.any (·.writebackFor == some name)
  let writtenBack (name : String) : Bool :=
    (component.properties.get? name).any Property.writeback
  let unmatched := component.properties.entries.findSome? fun (name, property) =>
    if property.writeback && !reported name then some (.unmatchedWriteback name) else none
  let orphan := component.events.entries.findSome? fun (name, event) =>
    match event.writebackFor with
    | some target => if writtenBack target then none else some (.orphanWritebackEvent name target)
    | none => none
  unmatched.or orphan

/-- The default slot takes `Children`, and nothing else does. -/
def defaultSlotError? (component : Component) : Option StructuralError :=
  let outside (member : String) : StructuralError := .childrenOutsideDefaultSlot member childrenType
  let slots := component.slots.entries.findSome? fun (name, slot) =>
    let children := slot.type.any isChildren
    if name = defaultSlot then
      if children then none else some (.defaultSlotType childrenType)
    else if children then some (outside ("slot `" ++ name ++ "`")) else none
  let properties := component.properties.entries.findSome? fun (name, property) =>
    if property.type.presentMember?.any isChildren then
      some (outside ("property `" ++ name ++ "`")) else none
  let dynamicSlots := component.dynamicSlots.entries.findSome? fun (key, slot) =>
    if slot.type.any isChildren then some (outside ("dynamic slot `" ++ key ++ "`")) else none
  (slots.or properties).or dynamicSlots

/-- Goes through the properties with those found before that name slots and template slots. -/
def dynamicSlotErrorFrom? (slot template : Option String) :
    List (String × Property) → Option StructuralError
  | [] =>
    match slot, template with
    | some slotProperty, some templateProperty =>
      some (.conflictingDynamicSlots slotProperty templateProperty)
    | _, _ => none
  | (name, property) :: rest =>
    match property.dynamicSlot with
    | none => dynamicSlotErrorFrom? slot template rest
    | some .slot =>
      match slot with
      | some first => some (.duplicateDynamicSlot .slot first name)
      | none => dynamicSlotErrorFrom? (some name) template rest
    | some .templateSlot =>
      match template with
      | some first => some (.duplicateDynamicSlot .templateSlot first name)
      | none => dynamicSlotErrorFrom? slot (some name) rest

/-- At most one property names dynamic slots, of one of the two kinds. -/
def dynamicSlotError? (component : Component) : Option StructuralError :=
  dynamicSlotErrorFrom? none none component.properties.entries

/-- Properties and dynamic slots go together by their keys. -/
def dynamicSlotDefinitionError? (component : Component) : Option StructuralError :=
  let unknown := component.properties.entries.findSome? fun (name, property) =>
    match property.dynamicSlotKey with
    | some key =>
      if component.dynamicSlots.contains key then none else some (.unknownDynamicSlotKey name key)
    | none => none
  let unreferenced := component.dynamicSlots.keys.findSome? fun key =>
    if component.properties.values.any (·.dynamicSlotKey == some key) then none
    else some (.unreferencedDynamicSlot key)
  unknown.or unreferenced

/-- The first error of the checks that are switched on. -/
def invariantError? (component : Component) (config : Config) : Option StructuralError :=
  let checked (category : CheckCategory) (error : Option StructuralError) :=
    if config.isEnabled category then error else none
  (checked .writeback component.writebackError?).or
    ((checked .defaultSlot component.defaultSlotError?).or
      ((checked .dynamicSlot component.dynamicSlotError?).or
        (checked .dynamicSlotDefinitions component.dynamicSlotDefinitionError?)))

end Component

end Componentry
