import Componentry.BuildInput
import Componentry.CommandLine.Help
import Componentry.ConfigFile
import Componentry.Session

/-!
# The command line

A run of the program as a function of its arguments and of the files that it sees. Its outcome is
what it prints, its exit code and the files as it leaves them. Diagnostics are printed together at
the end; a run with errors among them fails after it has done all that it could.
-/

namespace Componentry

/-- Why a run stops, with what caused it, from the outside to the inside. -/
structure RunFailure where
  message : String
  causes : List String := []

namespace RunFailure

/-- A cause with its first line marked and the others below it. -/
def indent (mark margin cause : String) : String :=
  "\n" ++ mark ++ ("\n" ++ margin).intercalate (cause.splitOn "\n")

/-- The causes, numbered if there are several. -/
def printCauses : List String → String
  | [] => ""
  | [cause] => "\n\nCaused by:" ++ indent "    " "    " cause
  | causes =>
    "\n\nCaused by:" ++ String.join (causes.mapIdx fun index cause =>
      indent ("    " ++ toString index ++ ": ") "       " cause)

/-- A failure as it is printed, with what caused it. -/
def print (failure : RunFailure) : String :=
  "Error: " ++ failure.message ++ printCauses failure.causes ++ "\n"

/-- A failure to read or write files, during something. -/
def ofFile (message : String) (error : FileError) : RunFailure :=
  { message, causes := [error.report, error.message] }

def ofConfig (path : Path) (error : ConfigError) : RunFailure :=
  let message := "Failed to load config: " ++ path.text
  match error with
  | .file error => ofFile message error
  | other => { message, causes := [other.message] }

/-- The failure of a run whose input cannot be read. -/
def ofInput : InputError → RunFailure
  | .unreadable path error =>
    { message := "Failed to read build input: " ++ path.text, causes := [error.message] }
  | .malformed path reason =>
    { message := "Failed to parse build input: " ++ path.text, causes := [reason] }

def unknownCheck (code : String) : RunFailure :=
  { message := "Unknown check `" ++ code ++ "`\nAvailable checks: " ++
      ", ".intercalate (CheckCategory.all.map CheckCategory.code) }

end RunFailure

/-- What a run prints and leaves behind. -/
structure Outcome where
  exitCode : Nat
  stdout : String := ""
  stderr : String := ""
  files : FileTree

namespace CommandLine

/-- Lines of output. -/
def unlines (lines : List String) : String :=
  String.join (lines.map (· ++ "\n"))

/-! ## Preparation -/

/-- Switches off checks by their codes. -/
def disableAll (config : Config) : List String → Except RunFailure Config
  | [] => .ok config
  | code :: rest =>
    match CheckCategory.ofCode? code with
    | some category => disableAll (config.disable category) rest
    | none => .error (.unknownCheck code)

/-- The configuration of a run. -/
def loadConfig (options : RunOptions) (files : FileTree) : Except RunFailure Config := do
  let config ← match options.config with
    | none => .ok {}
    | some path => (Config.load files path).mapError (RunFailure.ofConfig path)
  disableAll config options.disabled

/-- The configuration and the input of a run. -/
def prepare (options : RunOptions) (shape : Option OutputShape) (files : FileTree) :
    Except RunFailure (Config × BuildInput) := do
  let config ← loadConfig options files
  let input ← (BuildInput.load files options.input).mapError RunFailure.ofInput
  return ({ config with outputShape := shape.getD config.outputShape }, input)

/-! ## Steps -/

/-- Makes the metadata of components: a line or two about each. -/
def processAll (session : Session) : List Component → List String × Session
  | [] => ([], session)
  | component :: rest =>
    let (metadata, after) := session.processComponent component
    let lines := match metadata with
      | some metadata => ["  ✓ <" ++ metadata.tagName ++ "> " ++ component.name]
      | none =>
        let first := (after.diagnostics.ofComponent component.name).find? Diagnostic.isError
        ("  ✗ <" ++ component.tagName ++ "> " ++ component.name) ::
          first.toList.map fun error => "      " ++ error.message
    let (others, done) := processAll after rest
    (lines ++ others, done)

/-- Assembles modules below a directory: a line about each. -/
def assembleAll (out : Path) (session : Session) (files : FileTree) :
    List ModuleSpec → List String × Session × FileTree
  | [] => ([], session, files)
  | spec :: rest =>
    let input : ModuleInput := ⟨spec.name, spec.primary, out.join (.ofText spec.name)⟩
    let (assembled, after, written) := session.assembleModule input spec.components files
    let line := match assembled with
      | some assembled =>
        "  ✓ " ++ spec.name ++ " -> " ++ assembled.output.text ++ " (" ++
          toString assembled.closure.length ++ " dependencies)"
      | none =>
        if session.diagnostics.errorCount < after.diagnostics.errorCount then "  ✗ " ++ spec.name
        else "  - " ++ spec.name ++ " (skipped)"
    let (others, done) := assembleAll out after written rest
    (line :: others, done)

/-- All diagnostics and their numbers; nothing if there are none. -/
def report (diagnostics : Diagnostics) : String :=
  if diagnostics.isEmpty then ""
  else
    unlines ("" :: diagnostics.map Diagnostic.print) ++
      unlines ["", toString diagnostics.errorCount ++ " error(s), " ++
        toString diagnostics.warningCount ++ " warning(s)"]

/-- Ends a run: the report, and either the failure or a last line. -/
def finish (session : Session) (lines : List String) (last : String) (files : FileTree) : Outcome :=
  let reported := report session.diagnostics
  match session.failure? with
  | some failure =>
    { exitCode := 1, stdout := unlines lines, files,
      stderr := reported ++ RunFailure.print { message := failure.message } }
  | none =>
    { exitCode := 0, stdout := unlines (lines ++ ["", last]), stderr := reported, files }

/-! ## Commands -/

/-- Builds the metadata of all components and writes it. -/
def build (options : RunOptions) (target : BuildOptions) (files : FileTree) : Outcome :=
  match prepare options target.shape files with
  | .error failure => { exitCode := 1, stderr := failure.print, files }
  | .ok (config, input) =>
    let opening := "Building metadata for " ++ toString input.components.length ++
      " component(s)..."
    let (lines, session) := processAll { model := input.model, config } input.components
    match session.writeOutputs target.out files with
    | (.error error, files) =>
      let failure := RunFailure.ofFile ("Failed to write outputs to " ++ target.out.text) error
      { exitCode := 1, stdout := unlines (opening :: lines), stderr := failure.print, files }
    | (.ok written, files) =>
      let last := "Build complete: " ++ toString written.length ++ " file(s) written to " ++
        target.out.text
      if input.modules.isEmpty then finish session (opening :: lines) last files
      else
        let out := target.modulesOut.getD (target.out.join (.ofText "modules"))
        let heading := "Assembling " ++ toString input.modules.length ++ " module(s)..."
        let (others, session, files) := assembleAll out session files input.modules
        finish session (opening :: lines ++ "" :: heading :: others) last files

/-- Processes all components and reports on them, but writes nothing. -/
def check (options : RunOptions) (files : FileTree) : Outcome :=
  match prepare options none files with
  | .error failure => { exitCode := 1, stderr := failure.print, files }
  | .ok (config, input) =>
    let opening := "Checking " ++ toString input.components.length ++ " component(s)..."
    let (lines, session) := processAll { model := input.model, config } input.components
    finish session (opening :: lines) "No errors found" files

/-- Runs the program. -/
def run (arguments : List String) (files : FileTree) : Outcome :=
  match Invocation.ofArguments? arguments with
  | none => { exitCode := 2, stderr := usageText, files }
  | some .version => { exitCode := 0, stdout := versionText, files }
  | some (.help topic) => { exitCode := 0, stdout := topic.text, files }
  | some (.run (.build options target)) => build options target files
  | some (.run (.check options)) => check options files

end CommandLine

end Componentry
