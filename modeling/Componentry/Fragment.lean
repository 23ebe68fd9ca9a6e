import Componentry.Config
import Componentry.Resolved

/-!
# Declaration fragments

The TypeScript declarations of a component: the element's interface, the properties that markup can
set, the map of events, and the registration of the tag. Components older than a configured version
also get aliases named after their class.
-/

namespace Componentry

/-- The names that a fragment declares. -/
structure FragmentNames where
  pascal : String
  element : String
  properties : String
  eventMap : String
deriving DecidableEq, Repr

namespace FragmentNames

/-- The names of a tag. -/
def ofTag (tag : String) : FragmentNames :=
  let pascal := pascalCase tag
  { pascal
    element := "HTML" ++ pascal ++ "Element"
    properties := pascal ++ "Properties"
    eventMap := pascal ++ "EventMap" }

/-- The names after the class, each with the name that it stands for. -/
def legacy (names : FragmentNames) (className : String) : List (String × String) :=
  [(className ++ "Element", names.element), (className ++ "Properties", names.properties),
    (className ++ "EventMap", names.eventMap), (className ++ "IntrinsicProps", names.properties)]

/-- Whether a fragment declares the name anyway. -/
def declares (names : FragmentNames) (name : String) : Bool :=
  name == names.element || name == names.properties || name == names.eventMap

end FragmentNames

/-- The name of the file of a fragment. -/
def fragmentFileName (tag : String) : String :=
  tag ++ ".fragment.d.ts"

/-- Whether a name can stand unquoted as a key. -/
def isIdentifier : List Char → Bool
  | [] => false
  | first :: rest =>
    let starts (c : Char) : Bool := c == '_' || c == '$' || c.isAlpha
    starts first && rest.all fun c => starts c || c.isDigit

/-- A name as a key of an object type. -/
def propertyKey (name : String) : String :=
  if isIdentifier name.toList then name else "\"" ++ name ++ "\""

/-- The lines of a documentation comment. -/
def docLines (docs : Annotations) : List String :=
  (docs.description.map Text.lines).getD [] ++
    match docs.deprecated with
    | some note => [if note.isEmpty then "@deprecated" else "@deprecated " ++ note]
    | none => []

/-- A documentation comment, or nothing if there is nothing to say. -/
def docComment (docs : Annotations) (indent : String) : String :=
  match docLines docs with
  | [] => ""
  | [line] => indent ++ "/** " ++ line ++ " */\n"
  | lines =>
    indent ++ "/**\n" ++ String.join (lines.map fun line => indent ++ " * " ++ line ++ "\n") ++
      indent ++ " */\n"

namespace ResolvedComponent

def fragmentNames (component : ResolvedComponent) : FragmentNames :=
  .ofTag component.tagName

/-- The interface of the element. -/
def elementInterface (component : ResolvedComponent) : String :=
  docComment component.docs "" ++ "export interface " ++ component.fragmentNames.element ++
    component.generics.declaration ++ " extends " ++ component.name ++
    component.generics.forwardedArguments ++ ", HTMLElement \x7b\x7d\n"

/-- The type of the properties that markup can set, all optional. -/
def propertiesType (component : ResolvedComponent) : String :=
  "export type " ++ component.fragmentNames.properties ++ component.generics.declaration ++
    " = \x7b\n" ++
    String.join (component.settableProperties.map fun (name, property) =>
      docComment property.docs "  " ++ "  " ++ propertyKey name ++ "?: " ++ property.declared ++
        ";\n") ++
    "\x7d;\n"

/-- The interface that maps events to their types. -/
def eventMap (component : ResolvedComponent) : String :=
  "export interface " ++ component.fragmentNames.eventMap ++ component.generics.declaration ++
    " \x7b\n" ++
    String.join (component.events.entries.map fun (name, event) =>
      docComment event.docs "  " ++ "  \"" ++ name ++ "\": CustomEvent<" ++
        event.declared.getD "void" ++ ">;\n") ++
    "\x7d\n"

/-- The block that registers the tag. -/
def globalBlock (component : ResolvedComponent) : String :=
  let arguments := component.generics.anyArguments
  let entry (type : String) : String :=
    "    \"" ++ component.tagName ++ "\": " ++ type ++ arguments ++ ";\n"
  "declare global \x7b\n  interface HTMLElementTagNameMap \x7b\n" ++
    entry component.fragmentNames.element ++
    "  \x7d\n  interface IntrinsicProps \x7b\n" ++ entry component.fragmentNames.properties ++
    "  \x7d\n\x7d\n"

/-- The aliases named after the class, without those that are declared anyway. -/
def legacyAliases (component : ResolvedComponent) : String :=
  let names := component.fragmentNames
  let kept := (names.legacy component.name).filter fun (legacy, _) =>
    !(names.declares legacy || legacy == component.name)
  String.join (kept.map fun (legacy, modern) =>
    "/** @deprecated Use `" ++ modern ++ "` instead. */\nexport type " ++ legacy ++
      component.generics.declaration ++ " = " ++ modern ++
      component.generics.forwardedArguments ++ ";\n")

/-- The declaration fragment of a component. -/
def fragment (component : ResolvedComponent) (config : Config) : String :=
  "// <" ++ component.tagName ++ "> declarations\n\n" ++ component.elementInterface ++ "\n" ++
    component.propertiesType ++ "\n" ++ component.eventMap ++ "\n" ++ component.globalBlock ++
    (if config.needsLegacyNames component.since then "\n" ++ component.legacyAliases else "")

end ResolvedComponent

end Componentry
