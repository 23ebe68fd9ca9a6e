import Componentry.Component

/-!
# Diagnostics

What can be wrong with a component or a build, and how it is reported. Errors are values that say
what is wrong; their wording is in one function each. Checks belong to categories, which a
configuration can switch off.
-/

namespace Componentry

/-- The kinds of checks that can be switched off, in declaration order. -/
inductive CheckCategory where
  | writeback
  | defaultSlot
  | dynamicSlot
  | dynamicSlotDefinitions
  | deprecatedType
  | unsupportedType
deriving DecidableEq, Repr

namespace CheckCategory

/-- All categories, in the order in which they are listed. -/
def all : List CheckCategory :=
  [.writeback, .defaultSlot, .dynamicSlot, .dynamicSlotDefinitions, .deprecatedType,
    .unsupportedType]

def code : CheckCategory → String
  | .writeback => "writeback"
  | .defaultSlot => "default-slot"
  | .dynamicSlot => "dynamic-slot"
  | .dynamicSlotDefinitions => "dynamic-slot-definitions"
  | .deprecatedType => "deprecated-type"
  | .unsupportedType => "unsupported-type"

def ofCode? (text : String) : Option CheckCategory :=
  all.find? (·.code == text)

@[simp]
theorem ofCode?_code (category : CheckCategory) : ofCode? category.code = some category := by
  cases category <;> decide

theorem mem_all (category : CheckCategory) : category ∈ all := by
  cases category <;> decide

end CheckCategory

/-- What makes a component unusable. -/
inductive StructuralError where
  /-- A conditional type without a chosen branch where a concrete type is needed. -/
  | unresolvedConditional (text context : String)
  | unresolvedBaseType (name : String)
  | unmatchedWriteback (property : String)
  | orphanWritebackEvent (event property : String)
  | defaultSlotType (expected : String)
  | childrenOutsideDefaultSlot (member children : String)
  | duplicateDynamicSlot (kind : DynamicSlotKind) (first second : String)
  | conflictingDynamicSlots (slotProperty templateProperty : String)
  | unknownDynamicSlotKey (property key : String)
  | unreferencedDynamicSlot (key : String)
deriving DecidableEq, Repr

namespace StructuralError

def message : StructuralError → String
  | .unresolvedConditional text context =>
    "conditional type `" ++ text ++ "` resolves to no concrete branch in " ++ context ++ " position"
  | .unresolvedBaseType name => "base type `" ++ name ++ "` cannot be resolved"
  | .unmatchedWriteback property =>
    "writeback property `" ++ property ++ "` has no matching change event"
  | .orphanWritebackEvent event property =>
    "event `" ++ event ++ "` writes back `" ++ property ++ "`, which is not a writeback property"
  | .defaultSlotType expected => "default slot must be typed with `" ++ expected ++ "`"
  | .childrenOutsideDefaultSlot member children =>
    member ++ " uses `" ++ children ++ "`, which is reserved for the default slot"
  | .duplicateDynamicSlot kind first second =>
    "properties `" ++ first ++ "` and `" ++ second ++ "` both declare " ++ kind.label ++ " support"
  | .conflictingDynamicSlots slotProperty templateProperty =>
    "property `" ++ slotProperty ++ "` declares dynamic slot support and `" ++ templateProperty ++
      "` declares dynamic template slot support; only one is allowed"
  | .unknownDynamicSlotKey property key =>
    "property `" ++ property ++ "` references unknown dynamic slot definition `" ++ key ++ "`"
  | .unreferencedDynamicSlot key =>
    "dynamic slot definition `" ++ key ++ "` is not referenced by any property"

/-- The category of the check that raises the error, if it can be switched off. -/
def category? : StructuralError → Option CheckCategory
  | .unresolvedConditional _ _ => none
  | .unresolvedBaseType _ => none
  | .unmatchedWriteback _ => some .writeback
  | .orphanWritebackEvent _ _ => some .writeback
  | .defaultSlotType _ => some .defaultSlot
  | .childrenOutsideDefaultSlot _ _ => some .defaultSlot
  | .duplicateDynamicSlot _ _ _ => some .dynamicSlot
  | .conflictingDynamicSlots _ _ => some .dynamicSlot
  | .unknownDynamicSlotKey _ _ => some .dynamicSlotDefinitions
  | .unreferencedDynamicSlot _ => some .dynamicSlotDefinitions

end StructuralError

/-- A structural error and the component that has it. -/
structure ComponentError where
  component : String
  location : Location
  error : StructuralError
deriving DecidableEq, Repr

def ComponentError.message (failure : ComponentError) : String :=
  "component `" ++ failure.component ++ "` (" ++ failure.location.print ++ "): " ++
    failure.error.message

/-- What can be wrong with a documentation tag. -/
inductive AnnotationError where
  | unparsable (tag value reason : String)
  | mistyped (tag value expected : String)
  | invalidVersion (tag value : String)
  | empty (tag : String)
deriving DecidableEq, Repr

/-- The text of a complaint about a tag. -/
def AnnotationError.message : AnnotationError → String
  | .unparsable tag value reason =>
    "@" ++ tag ++ " value `" ++ value ++ "` cannot be parsed: " ++ reason
  | .mistyped tag value expected =>
    "@" ++ tag ++ " value `" ++ value ++ "` does not match type `" ++ expected ++ "`"
  | .invalidVersion tag value => "@" ++ tag ++ " value `" ++ value ++ "` is not a version"
  | .empty tag => "@" ++ tag ++ " is empty"

/-- How much a diagnostic matters. -/
inductive Severity where
  /-- The component or module produced no output. -/
  | error
  /-- The build goes on. -/
  | warning
deriving DecidableEq, Repr

def Severity.name : Severity → String
  | .error => "error"
  | .warning => "warning"

/-- A message about a build. -/
structure Diagnostic where
  severity : Severity
  message : String
  component : Option String := none
  location : Option Location := none
  category : Option CheckCategory := none
deriving DecidableEq, Repr

namespace Diagnostic

/-- The line that reports a diagnostic. -/
def print (diagnostic : Diagnostic) : String :=
  let place := match diagnostic.location with
    | some location => if location.isUnknown then "" else location.print ++ ": "
    | none => ""
  let code := match diagnostic.category with
    | some category => "[" ++ category.code ++ "]"
    | none => ""
  let owner := match diagnostic.component with
    | some component => component ++ ": "
    | none => ""
  place ++ diagnostic.severity.name ++ code ++ ": " ++ owner ++ diagnostic.message

/-- Whether a diagnostic is an error. -/
def isError (diagnostic : Diagnostic) : Bool :=
  diagnostic.severity == .error

/-- Whether a diagnostic is a warning. -/
def isWarning (diagnostic : Diagnostic) : Bool :=
  diagnostic.severity == .warning

/-- The report of a component that cannot be used. -/
def ofFailure (failure : ComponentError) : Diagnostic :=
  { severity := .error, message := failure.error.message, component := some failure.component,
    location := some failure.location, category := failure.error.category? }

end Diagnostic

/-- Diagnostics in the order in which they were raised. -/
abbrev Diagnostics := List Diagnostic

namespace Diagnostics

/-- The number of errors in a report. -/
def errorCount (diagnostics : Diagnostics) : Nat :=
  diagnostics.countP Diagnostic.isError

def warningCount (diagnostics : Diagnostics) : Nat :=
  diagnostics.countP Diagnostic.isWarning

def hasErrors (diagnostics : Diagnostics) : Bool :=
  diagnostics.any Diagnostic.isError

/-- The diagnostics of a component. -/
def ofComponent (diagnostics : Diagnostics) (component : String) : Diagnostics :=
  diagnostics.filter (·.component == some component)

end Diagnostics

end Componentry
