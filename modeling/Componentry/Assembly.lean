import Componentry.Expansion
import Componentry.Invariant
import Componentry.TypeReport

/-!
# Assembly of components

A component is assembled from its declared surface: its invariants are checked, its types resolved
and expanded, its documentation read. The first structural error ends the assembly of the
component; notices raised before it are kept and reported.
-/

namespace Componentry

namespace Scope

/-- Reads documentation tags and raises a notice for each that is dropped. -/
def annotate (member : String) (docs : DocTags) (signature : Option Signature) :
    Attempt Annotations := do
  let (annotations, errors) := Annotations.interpret docs signature
  Attempt.raise (errors.map (.droppedTag member))
  return annotations

/-- The bindings of the parameters of a declaration that a property's type refers to. -/
def propertyBindings (scope : Scope) (type : TypeExpr) (generics : List TypeParam) :
    Attempt (List Binding) :=
  match type.presentMember? with
  | some (.reference name args) =>
    match scope.model.find? name with
    | some declaration => scope.bindParameters declaration args generics
    | none => pure []
  | _ => pure []

def assembleProperty (scope : Scope) (generics : List TypeParam) (name : String)
    (property : Property) : Attempt ResolvedProperty := do
  let signature ← scope.resolve { position := .property } property.type
  let docs ← annotate name property.docs (some signature)
  let expansion ← scope.expand name property.type
  let bindings ← scope.propertyBindings property.type generics
  return {
    signature
    declared := property.type.print
    properties := expansion.properties
    itemProperties := expansion.itemProperties
    readOnly := property.readOnly
    writeback := property.writeback
    optional := property.optional
    docs
    dynamicSlot := property.dynamicSlot
    dynamicSlotKey := property.dynamicSlotKey
    bindings }

/-- The detail of an event: its signature, its declared type and its members. -/
def assembleDetail (scope : Scope) (name : String) (detail : Option TypeExpr) :
    Attempt ResolvedEvent :=
  match detail with
  | none => pure {}
  | some type => do
    let signature ← scope.resolve { position := .eventDetail } type
    let expansion ← scope.expand name type
    return { detail := some signature, declared := some type.print, expansion }

def assembleEvent (scope : Scope) (name : String) (event : Event) : Attempt ResolvedEvent := do
  let resolved ← scope.assembleDetail name event.detail
  let docs ← annotate name event.docs none
  return { resolved with
    writebackFor := event.writebackFor
    bubbles := event.bubbles
    cancelable := event.cancelable
    docs }

/-- The signature of a slot's data, if it has a type. -/
def slotSignature (scope : Scope) : Option TypeExpr → Attempt (Option Signature)
  | none => pure none
  | some type => do
    let signature ← scope.resolve { position := .slotData } type
    return some signature

def assembleSlot (scope : Scope) (name : String) (slot : Slot) : Attempt ResolvedSlot := do
  let signature ← scope.slotSignature slot.type
  let docs ← annotate name slot.docs none
  return { signature, docs }

/-- The resolved form of a parameter of a method. -/
def assembleParam (scope : Scope) (method : String) (param : MethodParam) :
    Attempt ResolvedParam := do
  let signature ← scope.resolve { position := .parameter } param.type
  let docs ← annotate (method ++ "(" ++ param.name ++ ")") param.docs none
  return {
    name := param.name
    signature
    declared := param.type.print
    optional := param.optional
    docs }

/-- The resolved form of a method. One without a result type gives `void`. -/
def assembleMethod (scope : Scope) (name : String) (method : Method) : Attempt ResolvedMethod := do
  let params ← Attempt.traverse (scope.assembleParam name) method.params
  let type := method.returns.getD .void
  let returns ← scope.resolve { position := .returned } type
  let docs ← annotate name method.docs none
  return { params, returns, declaredReturn := type.print, docs }

/-- The error of a component whose base type is unknown. -/
def baseError? (scope : Scope) (component : Component) : Option StructuralError :=
  match component.base with
  | some base =>
    if (scope.model.find? base).isSome || scope.isWellKnown base then none
    else some (.unresolvedBaseType base)
  | none => none

/-- Notes that the component's version cannot be read. -/
def sinceNotices (component : Component) : List Notice :=
  match component.since with
  | some since => if (Version.parse? since).isSome then [] else [.unknownSince since]
  | none => []

/-- Resolves the surface of a component. -/
def assembleSurface (scope : Scope) (component : Component) : Attempt ResolvedComponent := do
  Attempt.raise (sinceNotices component)
  let docs ← annotate "" component.docs none
  let properties ← Attempt.traverseMap (scope.assembleProperty component.generics)
    component.properties
  let events ← Attempt.traverseMap scope.assembleEvent component.events
  let slots ← Attempt.traverseMap scope.assembleSlot component.slots
  let dynamicSlots ← Attempt.traverseMap scope.assembleSlot component.dynamicSlots
  let methods ← Attempt.traverseMap scope.assembleMethod component.methods
  return {
    name := component.name
    tagName := component.tagName
    since := component.since
    location := component.location
    docs
    properties
    events
    slots
    dynamicSlots
    methods
    generics := .declare component.generics }

/-- Checks a component and resolves its surface. -/
def assemble (scope : Scope) (config : Config) (component : Component) :
    Attempt ResolvedComponent := do
  Attempt.require (scope.baseError? component)
  Attempt.require (component.invariantError? config)
  scope.assembleSurface component

end Scope

/-- Whether a notice about a component itself is reported. -/
def Notice.isReported (config : Config) : Notice → Bool
  | .droppedTag _ _ => true
  | .unknownSince _ => config.legacyNameThreshold.isSome
  | .deprecated _ _ => false
  | .degraded _ => false

/-- The warnings about a component itself, without those about types. -/
def componentWarnings (config : Config) (component : Component) (notices : List Notice) :
    Diagnostics :=
  (notices.filter (Notice.isReported config)).map fun notice =>
    { severity := .warning, message := notice.message, component := some component.name,
      location := some component.location }

/-- Assembles one component after the other and gathers what there is to report. -/
structure Assembler where
  warnings : Diagnostics := []
  types : TypeReport := {}

namespace Assembler

/-- Assembles a component and adds what there is to report about it to the report. -/
def assemble (assembler : Assembler) (model : TypeModel) (config : Config)
    (component : Component) : Except ComponentError ResolvedComponent × Assembler :=
  let attempt := (Scope.ofConfig model config).assemble config component
  let outcome := attempt.outcome.mapError fun error =>
    { component := component.name, location := component.location, error : ComponentError }
  (outcome,
    { warnings := assembler.warnings ++ componentWarnings config component attempt.notices
      types := (assembler.types.forComponent component.name).addAll config attempt.notices })

/-- The diagnostics so far: those about components, then those about types. -/
def diagnostics (assembler : Assembler) : Diagnostics :=
  assembler.warnings ++ assembler.types.diagnostics

end Assembler

end Componentry
