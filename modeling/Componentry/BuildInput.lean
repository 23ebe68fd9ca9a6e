import Componentry.Component
import Componentry.FileTree
import Componentry.Json.Reader

/-!
# Build inputs

What a build reads: the type model, the components and the modules. An input is a JSON file, or a
directory whose JSON files are put together in the order of their paths. The files of modules are
seen from the input file that lists them.
-/

namespace Componentry

/-- A module whose declarations are assembled. -/
structure ModuleSpec where
  name : String
  primary : Path
  /-- The components whose fragments the module carries. -/
  components : List String

namespace ModuleSpec

/-- The fields that are read. -/
def shape : Json.Shape :=
  .recordOf ["name", "primary", "components"] []

def ofJson? (value : Json) : Option ModuleSpec := do
  let fields ← value.asObject?
  let name ← Json.field? "name" fields Json.asString?
  let primary ← Json.field? "primary" fields Json.asString?
  let components ← Json.fieldOr? "components" fields [] (Json.listOf? Json.asString?)
  return { name, primary := .ofText primary, components }

/-- The module as seen from a directory. -/
def within (spec : ModuleSpec) (directory : Path) : ModuleSpec :=
  { spec with primary := directory.join spec.primary }

end ModuleSpec

/-- What a build starts from. -/
structure BuildInput where
  model : TypeModel := .empty
  components : List Component := []
  modules : List ModuleSpec := []

/-- Why a build input cannot be used. -/
inductive InputError where
  | unreadable (path : Path) (error : FileError)
  | malformed (path : Path) (reason : String)

namespace BuildInput

/-- The fields that are read. -/
def shape : Json.Shape :=
  .record [("model", TypeModel.shape), ("components", .list Component.shape),
    ("modules", .list ModuleSpec.shape)]

def ofJson? (value : Json) : Option BuildInput := do
  let fields ← value.asObject?
  let model ← Json.fieldOr? "model" fields .empty TypeModel.ofJson?
  let components ← Json.fieldOr? "components" fields [] (Json.listOf? Component.ofJson?)
  let modules ← Json.fieldOr? "modules" fields [] (Json.listOf? ModuleSpec.ofJson?)
  return { model, components, modules }

/-- Reads a JSON file. -/
def loadFile (files : FileTree) (path : Path) : Except InputError BuildInput :=
  match files.readText path with
  | .error error => .error (.unreadable path error)
  | .ok text =>
    match Json.parseShaped shape text with
    | .error reason => .error (.malformed path reason)
    | .ok document =>
      match ofJson? document with
      | none => .error (.malformed path "the document has another shape")
      | some input =>
        .ok { input with modules := input.modules.map (·.within path.directory) }

/-- Adds an input. Its declarations take the places of earlier ones of the same names. -/
def merge (input other : BuildInput) : BuildInput :=
  { model := other.model.declarations.foldl TypeModel.insert input.model
    components := input.components ++ other.components
    modules := input.modules ++ other.modules }

/-- The JSON files below a directory, in order. -/
def jsonFiles (files : FileTree) (path : Path) : List Path :=
  match files.locate path with
  | .error _ => []
  | .ok place =>
    let paths := (files.filesBelow place).map fun (names, _) =>
      names.foldl (fun path name => path.join (.ofText name)) path
    (paths.filter (·.extension? == some "json")).mergeSort Path.precedes

/-- Reads a file, or every JSON file below a directory. -/
def load (files : FileTree) (path : Path) : Except InputError BuildInput :=
  if files.isDirectory path then
    (jsonFiles files path).foldlM (fun input file => (loadFile files file).map input.merge) {}
  else loadFile files path

end BuildInput

end Componentry
