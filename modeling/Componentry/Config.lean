import Componentry.Diagnostic
import Componentry.NameSet
import Componentry.Version

/-!
# Build configuration

What a build can be told: the shape of its output, modules to leave out, checks to switch off, type
names to keep as they are, and the version before which components also get their older names.
-/

namespace Componentry

/-- The shape of assembled declarations. -/
inductive OutputShape where
  /-- Many modules packaged together, each assembled once. -/
  | library
  /-- One self-contained module, without its imports. -/
  | singleComponent
deriving DecidableEq, Repr

namespace OutputShape

def all : List OutputShape := [.library, .singleComponent]

def code : OutputShape → String
  | .library => "library"
  | .singleComponent => "single-component"

def ofCode? (text : String) : Option OutputShape :=
  all.find? (·.code == text)

end OutputShape

/-- How a build is set up. -/
structure Config where
  excludedModules : NameSet := .empty
  legacyNameThreshold : Option String := none
  outputShape : OutputShape := .singleComponent
  /-- The checks that are switched off. -/
  isDisabled : CheckCategory → Bool := fun _ => false
  wellKnownTypes : NameSet := .empty

namespace Config

/-- Switches a check off. -/
def disable (config : Config) (category : CheckCategory) : Config :=
  { config with isDisabled := fun other => other == category || config.isDisabled other }

/-- Whether a check is made. -/
def isEnabled (config : Config) (category : CheckCategory) : Bool :=
  !config.isDisabled category

/-- The checks that are switched off, in declaration order. -/
def disabledChecks (config : Config) : List CheckCategory :=
  CheckCategory.all.filter config.isDisabled

/-- Whether a component of this version also gets its older names. -/
def needsLegacyNames (config : Config) (since : Option String) : Bool :=
  match config.legacyNameThreshold, since with
  | some threshold, some since => Version.compareTexts? since threshold == some .lt
  | _, _ => false

/-- A configuration as a document. -/
def toJson (config : Config) : Json :=
  .object [("excluded-modules", .strings config.excludedModules.toList),
    ("legacy-name-threshold", .ofOption config.legacyNameThreshold),
    ("output-shape", .string config.outputShape.code),
    ("disabled-checks", .strings (config.disabledChecks.map CheckCategory.code)),
    ("well-known-types", .strings config.wellKnownTypes.toList)]

/-- Reads a configuration from a document. All fields may be missing. -/
def ofJson? (value : Json) : Option Config := do
  let fields ← value.asObject?
  let names := Json.listOf? Json.asString?
  let shape := fun value => do OutputShape.ofCode? (← Json.asChoice? value)
  let category := fun value => do CheckCategory.ofCode? (← Json.asChoice? value)
  let excluded ← Json.fieldOr? "excluded-modules" fields [] names
  let threshold ← Json.fieldOpt? "legacy-name-threshold" fields Json.asString?
  let shape ← Json.fieldOr? "output-shape" fields .singleComponent shape
  let disabled ← Json.fieldOr? "disabled-checks" fields [] (Json.listOf? category)
  let wellKnown ← Json.fieldOr? "well-known-types" fields [] names
  return {
    excludedModules := .ofList excluded
    legacyNameThreshold := threshold
    outputShape := shape
    isDisabled := fun category => disabled.contains category
    wellKnownTypes := .ofList wellKnown }

end Config

end Componentry
