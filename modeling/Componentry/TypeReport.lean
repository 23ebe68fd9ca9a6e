import Componentry.Attempt
import Componentry.Config

/-!
# Reports about types

The notices about types become diagnostics under a configuration: a check that is switched off
reports nothing, and a deprecated type is reported once for each component.
-/

namespace Componentry

/-- What was reported about types so far. -/
structure TypeReport where
  /-- The component that the diagnostics are about. -/
  component : Option String := none
  /-- The deprecated types that were reported for the component. -/
  reported : NameSet := .empty
  diagnostics : Diagnostics := []

namespace TypeReport

/-- Goes on to another component. -/
def forComponent (report : TypeReport) (name : String) : TypeReport :=
  { report with component := some name, reported := .empty }

/-- Adds a warning of a category. -/
def warn (report : TypeReport) (category : CheckCategory) (message : String) : TypeReport :=
  { report with diagnostics := report.diagnostics ++
      [{ severity := .warning, message, component := report.component,
         category := some category }] }

/-- Reports a notice, if it is about a type and the configuration asks for it. -/
def add (config : Config) (report : TypeReport) (notice : Notice) : TypeReport :=
  match notice with
  | .deprecated name _ =>
    if config.isEnabled .deprecatedType && !report.reported.contains name then
      { report with reported := report.reported.insert name }.warn .deprecatedType notice.message
    else report
  | .degraded _ =>
    if config.isEnabled .unsupportedType then report.warn .unsupportedType notice.message
    else report
  | .droppedTag _ _ => report
  | .unknownSince _ => report

/-- Reports notices in order. -/
def addAll (config : Config) (report : TypeReport) (notices : List Notice) : TypeReport :=
  notices.foldl (add config) report

/-- Removes the diagnostics, when they were taken. -/
def cleared (report : TypeReport) : TypeReport :=
  { report with diagnostics := [] }

end TypeReport

end Componentry
