import Mathlib.Data.List.Basic
import Componentry.Fragment

/-!
# The lines of declaration fragments

A fragment is cut into documentation comments and lines of code. The lines of code
depend on names and printed types only, so they are written as functions of these.
-/

namespace Componentry

/-- The line of a property. -/
def propertyLine (name declared : String) : String :=
  "  " ++ propertyKey name ++ "?: " ++ declared ++ ";\n"

/-- The line of an event. -/
def eventLine (name : String) (declared : Option String) : String :=
  "  \"" ++ name ++ "\": CustomEvent<" ++ declared.getD "void" ++ ">;\n"

namespace ResolvedComponent

variable (component : ResolvedComponent)

/-- The comment that a fragment starts with. -/
def headerLine : String :=
  "// <" ++ component.tagName ++ "> declarations\n"

/-- A line that exports a declaration with the type parameters of the component. -/
def exportLine (kind name rest : String) : String :=
  "export " ++ (kind ++ (" " ++ (name ++ (component.generics.declaration ++ rest))))

def elementLine : String :=
  component.exportLine "interface" component.fragmentNames.element
    (" extends " ++ component.name ++ component.generics.forwardedArguments ++
      ", HTMLElement \x7b\x7d\n")

/-- The line that starts the type of the properties. -/
def propertiesOpening : String :=
  component.exportLine "type" component.fragmentNames.properties " = \x7b\n"

/-- The line that starts the map of events. -/
def eventMapOpening : String :=
  component.exportLine "interface" component.fragmentNames.eventMap " \x7b\n"

def aliasLine (legacy modern : String) : String :=
  component.exportLine "type" legacy
    (" = " ++ modern ++ component.generics.forwardedArguments ++ ";\n")

/-- The names after the class that are declared, each with the name that it stands for. -/
def keptLegacy : List (String × String) :=
  (component.fragmentNames.legacy component.name).filter fun entry =>
    !(component.fragmentNames.declares entry.1 || entry.1 == component.name)

/-- The line that registers the tag with a type. -/
def tagLine (type : String) : String :=
  "    \"" ++ component.tagName ++ "\": " ++ type ++ component.generics.anyArguments ++ ";\n"

theorem elementInterface_eq :
    component.elementInterface = docComment component.docs "" ++ component.elementLine := by
  rw [← String.toList_inj]
  simp [elementInterface, elementLine, exportLine]

theorem propertiesType_eq :
    component.propertiesType =
      component.propertiesOpening ++
        (String.join (component.settableProperties.map fun entry =>
          docComment entry.2.docs "  " ++ propertyLine entry.1 entry.2.declared) ++ "\x7d;\n") := by
  have opening : "export type " = "export " ++ ("type" ++ " ") := by
    decide
  delta propertiesType propertiesOpening exportLine propertyLine
  simp only [opening, String.append_assoc]

theorem eventMap_eq :
    component.eventMap =
      component.eventMapOpening ++
        (String.join (component.events.entries.map fun entry =>
          docComment entry.2.docs "  " ++ eventLine entry.1 entry.2.declared) ++ "\x7d\n") := by
  have opening : "export interface " = "export " ++ ("interface" ++ " ") := by
    decide
  delta eventMap eventMapOpening exportLine eventLine
  simp only [opening, String.append_assoc]

theorem legacyAliases_eq :
    component.legacyAliases =
      String.join (component.keptLegacy.map fun entry =>
        "/** @deprecated Use `" ++ entry.2 ++ "` instead. */\n" ++
          component.aliasLine entry.1 entry.2) := by
  have opening : "` instead. */\nexport type " =
      "` instead. */\n" ++ ("export " ++ ("type" ++ " ")) := by
    decide
  delta legacyAliases keptLegacy exportLine aliasLine
  simp only [opening, String.append_assoc]

theorem globalBlock_eq :
    component.globalBlock =
      "declare global \x7b\n" ++ ("  interface HTMLElementTagNameMap \x7b\n" ++
        (component.tagLine component.fragmentNames.element ++ ("  \x7d\n" ++
          ("  interface IntrinsicProps \x7b\n" ++
            (component.tagLine component.fragmentNames.properties ++
              ("  \x7d\n" ++ "\x7d\n")))))) := by
  have opening : "declare global \x7b\n  interface HTMLElementTagNameMap \x7b\n" =
      "declare global \x7b\n" ++ "  interface HTMLElementTagNameMap \x7b\n" := by
    decide
  have between : "  \x7d\n  interface IntrinsicProps \x7b\n" =
      "  \x7d\n" ++ "  interface IntrinsicProps \x7b\n" := by
    decide
  have closing : "  \x7d\n\x7d\n" = "  \x7d\n" ++ "\x7d\n" := by
    decide
  delta globalBlock tagLine
  simp only [opening, between, closing, String.append_assoc]

theorem fragment_eq (config : Config) :
    component.fragment config =
      component.headerLine ++ ("\n" ++ (component.elementInterface ++ ("\n" ++
        (component.propertiesType ++ ("\n" ++ (component.eventMap ++ ("\n" ++
          (component.globalBlock ++
            if config.needsLegacyNames component.since then "\n" ++ component.legacyAliases
            else "")))))))) := by
  have header_end : "> declarations\n\n" = "> declarations\n" ++ "\n" := by
    decide
  delta fragment headerLine
  simp only [header_end, String.append_assoc]

end ResolvedComponent

end Componentry
