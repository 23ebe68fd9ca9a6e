import Componentry.WrapperChain

/-!
# Signatures

The resolved description of a type: the display type that a runtime validator reads, the
documentation type that design tools show, the values of an enumeration, and what the expansion of
properties and the metadata need to know besides.
-/

namespace Componentry

/-- Where a type stands in a component's surface. -/
inductive Position where
  | property
  | parameter
  | returned
  | eventDetail
  | slotData
deriving DecidableEq, Repr

namespace Position

/-- How messages speak of a position. -/
def label : Position → String
  | .property => "property"
  | .parameter => "parameter"
  | .returned => "return"
  | .eventDetail => "event detail"
  | .slotData => "slot data"

/-- Whether a conditional type needs a chosen branch here. -/
def requiresConcrete : Position → Bool
  | .property => true
  | .eventDetail => true
  | .slotData => true
  | .parameter => false
  | .returned => false

end Position

/-- What a type is resolved for. -/
structure Context where
  position : Position
  /-- Inside an inline expansion nothing needs a type definition and nothing unsupported is
  reported. -/
  inExtension : Bool := false
deriving DecidableEq, Repr

/-- A wrapper as signatures record it, with printed arguments. -/
structure WrapperLayer where
  name : String
  params : List String
deriving DecidableEq, Repr

/-- A wrapper as signatures list it. -/
def Wrapper.layer (wrapper : Wrapper) : WrapperLayer :=
  ⟨wrapper.name, wrapper.params⟩

/-- The resolved description of a type. -/
structure Signature where
  /-- The type that a runtime validator checks. -/
  display : String
  /-- The type that documentation shows. -/
  documentation : Option String
  enumValues : Option (List String) := none
  /-- Whether the enumeration values only advise design tools. -/
  designOnlyEnum : Bool := false
  isArrayOfObject : Bool := false
  /-- Whether documentation has to define the type, and under which name. -/
  requiresTypedef : Bool := false
  typedef : Option String := none
  nullable : Bool := false
  optionalViaUnion : Bool := false
  /-- Whether the type has members to expand. -/
  isStruct : Bool := false
  typeName : Option String := none
  circular : Bool := false
  /-- The wrappers around the resolved type, the outermost first. -/
  wrappers : List WrapperLayer := []
deriving DecidableEq, Repr

namespace Signature

/-- A type that is shown as it is displayed. -/
def simple (display : String) : Signature :=
  { display, documentation := some display }

/-- A type with a documentation type of its own. -/
def documented (display documentation : String) : Signature :=
  { display, documentation := some documentation }

def any : Signature := simple "any"

instance : Inhabited Signature := ⟨any⟩

/-- The documentation type, or else the display type. -/
def doc (signature : Signature) : String :=
  signature.documentation.getD signature.display

/-- The enumeration values that a runtime validator enforces. -/
def runtimeEnumValues (signature : Signature) : Option (List String) :=
  if signature.designOnlyEnum then none else signature.enumValues

/-- Whether the display type is the keyword of a value type. -/
def isPrimitiveDisplay (signature : Signature) : Bool :=
  ["string", "number", "boolean", "bigint", "symbol"].contains signature.display

/-- A literal is displayed as its widened type; a string is its own only value. -/
def ofLiteral (literal : Literal) : Signature :=
  { documented literal.widened.keyword literal.print with
    enumValues := match literal with
      | .string text => some [text]
      | _ => none }

/-- The signature of an array with elements of a signature. -/
def arrayOf (element : Signature) : Signature where
  display := "Array<" ++ element.display ++ ">"
  documentation := some ("Array<" ++ element.doc ++ ">")
  enumValues := element.enumValues
  designOnlyEnum := element.designOnlyEnum
  isArrayOfObject := element.isStruct
  requiresTypedef := element.requiresTypedef
  typedef := element.typedef
  typeName := element.typeName
  circular := element.circular

/-- An enumeration is displayed as `number` if it has values and all are numbers, and as `string`
otherwise. -/
def ofEnumeration (declaration : Declaration) : Signature :=
  let values := declaration.enumValues
  let numeric := !values.isEmpty && values.all (·.widened == .number)
  { documented (if numeric then "number" else "string") declaration.name with
    enumValues := some (values.map Literal.text).eraseDups
    typeName := some declaration.name }

/-- Records that documentation has to define the type. -/
def markTypedef (signature : Signature) (context : Context) (name : String) (exported : Bool) :
    Signature :=
  if context.inExtension then signature
  else
    { signature with
      requiresTypedef := true
      typedef := if exported then some name else signature.typedef }

/-- An object type with a name. -/
def namedObject (context : Context) (printed name : String) (exported : Bool) : Signature :=
  markTypedef { documented "object" printed with isStruct := true, typeName := some name }
    context name exported

/-- The signature of a union from those of its members. A member displayed as `any` absorbs the
rest. Enumeration values are enforced if every member has some, only advise if all other members
share one display type, and are dropped otherwise. -/
def unionOf (members : List Signature) : Signature :=
  let documentation := "|".intercalate (members.map doc).eraseDups
  if members.any (·.display == "any") then documented "any" documentation
  else
    let values := (members.flatMap (·.enumValues.getD [])).eraseDups
    let others := ((members.filter (!·.enumValues.isSome)).map display).eraseDups
    let kept := !values.isEmpty && others.length ≤ 1
    { documented ("|".intercalate (members.map display).eraseDups) documentation with
      requiresTypedef := members.any requiresTypedef
      typedef := members.findSome? typedef
      enumValues := if kept then some values else none
      designOnlyEnum := kept && !others.isEmpty }

/-- Adds what the missing members of a union say to the signature of the others. -/
def withNullish (signature : Signature) (nullable optional : Bool) : Signature :=
  if signature.display == "any" then signature
  else if nullable then
    { signature with
      nullable := true
      display := signature.display ++ "|null"
      documentation := signature.documentation.map (· ++ "|null")
      optionalViaUnion := optional }
  else { signature with optionalViaUnion := optional }

end Signature

end Componentry
