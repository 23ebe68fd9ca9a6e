import Componentry.Annotation
import Componentry.Generics

/-!
# Resolved components

The public surface of a component with every type resolved and every documentation tag read. The
metadata and the declarations of a component are made from it.
-/

namespace Componentry

/-- A resolved property or a member of one. -/
structure ResolvedProperty where
  signature : Signature
  /-- The declared type as printed. -/
  declared : String
  /-- The members of an object type, in order. -/
  properties : Option (List (String × ResolvedProperty)) := none
  /-- The members of the elements of an array, in order. -/
  itemProperties : Option (List (String × ResolvedProperty)) := none
  readOnly : Bool := false
  writeback : Bool := false
  optional : Bool := false
  docs : Annotations := {}
  dynamicSlot : Option DynamicSlotKind := none
  dynamicSlotKey : Option String := none
  /-- Whether the property stands for a type that is being expanded already. -/
  circular : Bool := false
  bindings : List Binding := []

/-- Resolved properties in the order of their names' first occurrence. -/
abbrev PropertyList := List (String × ResolvedProperty)

instance : Inhabited ResolvedProperty := ⟨{ signature := .any, declared := "" }⟩

/-- The members of the type of a property or an event's detail. -/
structure Expansion where
  properties : Option PropertyList := none
  itemProperties : Option PropertyList := none

/-- An event with its detail resolved. -/
structure ResolvedEvent where
  detail : Option Signature := none
  /-- The declared type of the detail as printed. -/
  declared : Option String := none
  expansion : Expansion := {}
  writebackFor : Option String := none
  bubbles : Bool := false
  cancelable : Bool := false
  docs : Annotations := {}

/-- A slot with the type of its data resolved. -/
structure ResolvedSlot where
  signature : Option Signature := none
  docs : Annotations := {}

/-- A parameter of a method with its type resolved. -/
structure ResolvedParam where
  name : String
  signature : Signature
  declared : String
  optional : Bool := false
  docs : Annotations := {}

/-- A method with the types of its parameters and its result resolved. -/
structure ResolvedMethod where
  params : List ResolvedParam
  returns : Signature
  /-- The declared result type as printed. -/
  declaredReturn : String
  docs : Annotations := {}

/-- The resolved surface of a component. -/
structure ResolvedComponent where
  name : String
  tagName : String
  since : Option String := none
  location : Location := {}
  docs : Annotations := {}
  properties : OrderedMap ResolvedProperty := .empty
  events : OrderedMap ResolvedEvent := .empty
  slots : OrderedMap ResolvedSlot := .empty
  dynamicSlots : OrderedMap ResolvedSlot := .empty
  methods : OrderedMap ResolvedMethod := .empty
  generics : Generics := .declare []

namespace ResolvedComponent

/-- The properties that markup can set. -/
def settableProperties (component : ResolvedComponent) : PropertyList :=
  component.properties.entries.filter (!·.2.readOnly)

/-- The signatures of properties, event details and methods, in order. -/
def documentedSignatures (component : ResolvedComponent) : List Signature :=
  component.properties.values.map ResolvedProperty.signature ++
    component.events.values.filterMap ResolvedEvent.detail ++
    component.methods.values.flatMap fun method =>
      method.params.map ResolvedParam.signature ++ [method.returns]

/-- The names of the types that documentation has to define, each once. -/
def typedefs (component : ResolvedComponent) : List String :=
  (component.documentedSignatures.filterMap Signature.typedef).eraseDups

end ResolvedComponent

end Componentry
