import Componentry.Assembly
import Componentry.Closure
import Componentry.Fragment
import Componentry.Metadata

/-!
# Build sessions

What one build gathers: the metadata of each component that could be assembled, the diagnostics in
the order in which they were raised, and the modules that were assembled. A component or module that
fails leaves an error among the diagnostics and the session goes on.
-/

namespace Componentry

/-- Everything that is made from a component. -/
structure ComponentMetadata where
  component : ResolvedComponent
  runtime : Json
  designTime : Json
  fragment : String

namespace ComponentMetadata

/-- All that is made of a component. -/
def ofComponent (config : Config) (component : ResolvedComponent) : ComponentMetadata :=
  { component
    runtime := Tier.runtime.project component
    designTime := Tier.designTime.project component
    fragment := component.fragment config }

/-- The tag of the component. -/
def tagName (metadata : ComponentMetadata) : String :=
  metadata.component.tagName

/-- The files of a component: their names and their texts. -/
def outputs (metadata : ComponentMetadata) : List (String × String) :=
  let tag := metadata.tagName
  [(tag ++ "." ++ Tier.runtime.fileSuffix, metadata.runtime.pretty ++ "\n"),
    (tag ++ "." ++ Tier.designTime.fileSuffix, metadata.designTime.pretty ++ "\n"),
    (fragmentFileName tag, metadata.fragment)]

end ComponentMetadata

/-- Why a build fails: the number of its errors and the first of them. -/
structure BuildFailure where
  errors : Nat
  first : Diagnostic

def BuildFailure.message (failure : BuildFailure) : String :=
  "build failed with " ++ toString failure.errors ++ " error(s); first: " ++ failure.first.print

/-- The state of a build. -/
structure Session where
  model : TypeModel
  config : Config
  /-- The metadata of components, by the names of their classes. -/
  components : OrderedMap ComponentMetadata := .empty
  diagnostics : Diagnostics := []
  /-- The modules that were assembled. -/
  processed : NameSet := .empty

namespace Session

/-- What has been made of the component of a name. -/
def component? (session : Session) (name : String) : Option ComponentMetadata :=
  session.components.get? name

/-- Makes the metadata of a component. A structural error becomes an error of the session. -/
def processComponent (session : Session) (component : Component) :
    Option ComponentMetadata × Session :=
  let (outcome, assembler) := Assembler.assemble {} session.model session.config component
  let diagnostics := session.diagnostics ++ assembler.diagnostics
  match outcome with
  | .ok resolved =>
    let metadata := ComponentMetadata.ofComponent session.config resolved
    (some metadata,
      { session with
        components := session.components.insert component.name metadata
        diagnostics })
  | .error failure =>
    (none, { session with diagnostics := diagnostics ++ [.ofFailure failure] })

/-- The warning that a module lists a component without metadata. -/
def missingComponent (moduleName name : String) : Diagnostic :=
  { severity := .warning
    message := "module `" ++ moduleName ++ "` lists `" ++ name ++ "`, which produced no metadata"
    component := some name }

/-- The error of a module that cannot be assembled. -/
def moduleFailure (moduleName : String) (error : AssemblyError) : Diagnostic :=
  { severity := .error, message := "module `" ++ moduleName ++ "`: " ++ error.message }

/-- Assembles a module with the fragments of the components that it lists. -/
def assembleModule (session : Session) (input : ModuleInput) (components : List String)
    (files : FileTree) : Option AssembledModule × Session × FileTree :=
  let fragments := components.filterMap fun name =>
    (session.component? name).map ComponentMetadata.fragment
  let missing := components.filter fun name => (session.component? name).isNone
  let diagnostics := session.diagnostics ++ missing.map (missingComponent input.name)
  match input.assemble session.config fragments session.processed files with
  | (.ok assembled, processed, files) =>
    (assembled, { session with diagnostics, processed }, files)
  | (.error error, processed, files) =>
    (none,
      { session with
        diagnostics := diagnostics ++ [moduleFailure input.name error]
        processed },
      files)

/-- The files that the session writes below a directory: their paths and their texts. -/
def outputs (session : Session) (outDirectory : Path) : List (Path × String) :=
  session.components.values.flatMap fun metadata =>
    metadata.outputs.map fun (name, text) => (outDirectory.join (.ofText name), text)

/-- Writes files in order, up to the first that fails. -/
def writeFiles : List (Path × String) → FileTree → Option FileError × FileTree
  | [], files => (none, files)
  | (path, text) :: rest, files =>
    match files.write path (.text text) with
    | .error error => (some error, files)
    | .ok files => writeFiles rest files

/-- Writes the metadata and the fragment of every component into a directory, which is emptied. -/
def writeOutputs (session : Session) (outDirectory : Path) (files : FileTree) :
    Except FileError (List Path) × FileTree :=
  match files.resetDirectory outDirectory with
  | (some error, files) => (.error error, files)
  | (none, files) =>
    let outputs := session.outputs outDirectory
    match writeFiles outputs files with
    | (some error, files) => (.error error, files)
    | (none, files) => (.ok (outputs.map Prod.fst), files)

/-- The failure of the build, if there was an error. -/
def failure? (session : Session) : Option BuildFailure :=
  (session.diagnostics.find? Diagnostic.isError).map fun first =>
    ⟨session.diagnostics.errorCount, first⟩

/-- Forgets everything but the model and the configuration. -/
def reset (session : Session) : Session :=
  { model := session.model, config := session.config }

end Session

end Componentry
