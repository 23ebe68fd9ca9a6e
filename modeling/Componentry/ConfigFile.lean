import Componentry.Config
import Componentry.FileTree
import Componentry.Toml.Reader

/-!
# Configuration files

A configuration is written in TOML. Settings that are missing keep their defaults, and keys that are
no settings are ignored.
-/

namespace Componentry

/-- Why a configuration file cannot be used. -/
inductive ConfigError where
  | file (error : FileError)
  /-- The text is no TOML, or a setting has the wrong shape. -/
  | malformed
  | invalidThreshold (path : Path) (threshold : String)

def ConfigError.message : ConfigError → String
  | .file error => error.report
  | .malformed => "Configuration error: TOML parse error"
  | .invalidThreshold path threshold =>
    "Configuration error: " ++ path.text ++ ": legacy-name-threshold `" ++ threshold ++
      "` is not a version"

namespace Config

/-- A setting that may be missing. -/
def setting? (key : String) (fields : List (String × Toml)) (fallback : α)
    (decode : Toml → Option α) : Option α :=
  match lookup key fields with
  | some value => decode value
  | none => some fallback

def ofToml? (document : Toml) : Option Config := do
  let fields ← document.asTable?
  let names := Toml.listOf? Toml.asString?
  let shape := fun value => do OutputShape.ofCode? (← Toml.asChoice? value)
  let category := fun value => do CheckCategory.ofCode? (← Toml.asChoice? value)
  let excluded ← setting? "excluded-modules" fields [] names
  let threshold ← setting? "legacy-name-threshold" fields none fun value => value.asString?.map some
  let shape ← setting? "output-shape" fields .singleComponent shape
  let disabled ← setting? "disabled-checks" fields [] (Toml.listOf? category)
  let wellKnown ← setting? "well-known-types" fields [] names
  return {
    excludedModules := .ofList excluded
    legacyNameThreshold := threshold
    outputShape := shape
    isDisabled := fun category => disabled.contains category
    wellKnownTypes := .ofList wellKnown }

/-- The configuration of a text. -/
def parse? (text : String) : Option Config := do
  ofToml? (← Toml.parse? text)

/-- Checks a configuration that was read from a file. -/
def checked (config : Config) (path : Path) : Except ConfigError Config :=
  match config.legacyNameThreshold with
  | some threshold =>
    if (Version.parse? threshold).isSome then .ok config
    else .error (.invalidThreshold path threshold)
  | none => .ok config

/-- Reads a configuration file. -/
def load (files : FileTree) (path : Path) : Except ConfigError Config :=
  match files.readText path with
  | .error error => .error (.file error)
  | .ok text =>
    match parse? text with
    | some config => config.checked path
    | none => .error .malformed

end Config

end Componentry
