import Componentry.Config
import Componentry.Path

/-!
# Command-line arguments

The grammar of the command line. Arguments are read from left to right, and the first one that asks
for help or for the version decides, unless something before it is wrong. An option is given as
`--name value`, `--name=value`, `-n value`, `-nvalue` or `-n=value`, and the argument `--` ends the
options. A value that is an argument of its own does not start with a dash, though it may be just a
dash.
-/

namespace Componentry

/-- What every command takes: its input and its configuration. -/
structure RunOptions where
  input : Path
  config : Option Path
  /-- The codes of checks to switch off. -/
  disabled : List String

/-- Where a build writes, and the shape of its output. -/
structure BuildOptions where
  out : Path
  /-- The directory of assembled modules, if it is not below the other one. -/
  modulesOut : Option Path
  shape : Option OutputShape

inductive Command where
  | build (options : RunOptions) (target : BuildOptions)
  | check (options : RunOptions)

/-- What help can be asked about. -/
inductive HelpTopic where
  | program
  | build
  | check
  | help
deriving DecidableEq, Repr

/-- What a command line asks for. -/
inductive Invocation where
  | run (command : Command)
  | help (topic : HelpTopic)
  | version

/-- The options that take a value. -/
inductive ValueOption where
  | config
  | disable
  | out
  | modulesOut
  | shape
deriving DecidableEq, Repr

namespace ValueOption

def all : List ValueOption := [.config, .disable, .out, .modulesOut, .shape]

def long : ValueOption → String
  | .config => "config"
  | .disable => "disable"
  | .out => "out"
  | .modulesOut => "modules-out"
  | .shape => "shape"

def short? : ValueOption → Option Char
  | .config => some 'c'
  | .out => some 'o'
  | _ => none

/-- Whether the option is one of a check, too. -/
def isCommon : ValueOption → Bool
  | .config => true
  | .disable => true
  | _ => false

end ValueOption

/-- An argument by its form. -/
inductive Argument where
  | plain (text : String)
  /-- The end of options. -/
  | separator
  | help
  | option (name : ValueOption) (attached : Option String)
  | unknown
deriving DecidableEq, Repr

namespace Argument

/-- Cuts an option at its first equals sign. -/
def cutValue (chars : List Char) : String × Option String :=
  let name := String.ofList (chars.takeWhile (· != '='))
  match chars.dropWhile (· != '=') with
  | [] => (name, none)
  | _ :: value => (name, some (String.ofList value))

/-- An argument that starts with two dashes, after these. -/
def ofLong (options : List ValueOption) (chars : List Char) : Argument :=
  match cutValue chars with
  | ("", none) => .separator
  | ("help", none) => .help
  | (name, value) =>
    match options.find? (·.long == name) with
    | some found => .option found value
    | none => .unknown

/-- An argument that starts with one dash, after it. -/
def ofShort (options : List ValueOption) : List Char → Argument
  | [] => .plain "-"
  | 'h' :: _ => .help
  | c :: rest =>
    match options.find? (·.short? == some c) with
    | none => .unknown
    | some found =>
      match rest with
      | [] => .option found none
      | '=' :: value => .option found (some (String.ofList value))
      | value => .option found (some (String.ofList value))

def ofText (options : List ValueOption) (text : String) : Argument :=
  match text.toList with
  | '-' :: '-' :: rest => ofLong options rest
  | '-' :: rest => ofShort options rest
  | _ => .plain text

/-- Whether a text can be the value of the option before it. -/
def isValue (text : String) : Bool :=
  text == "-" || !"-".isPrefixOf text

end Argument

/-- What the arguments of a command have given so far. -/
structure Given where
  input : Option Path := none
  config : Option Path := none
  disabled : List String := []
  out : Option Path := none
  modulesOut : Option Path := none
  shape : Option OutputShape := none

namespace Given

/-- Sets what can be given once. -/
def once (before : Option α) (value : Option α) : Option (Option α) :=
  match before, value with
  | none, some value => some (some value)
  | _, _ => none

/-- A path that is not empty. -/
def path? (text : String) : Option Path :=
  if text.isEmpty then none else some (.ofText text)

/-- Takes in an option. -/
def addOption (given : Given) (value : String) : ValueOption → Option Given
  | .config => (once given.config (path? value)).map fun config => { given with config }
  | .disable => some { given with disabled := given.disabled ++ [value] }
  | .out => (once given.out (path? value)).map fun out => { given with out }
  | .modulesOut =>
    (once given.modulesOut (path? value)).map fun modulesOut => { given with modulesOut }
  | .shape => (once given.shape (OutputShape.ofCode? value)).map fun shape => { given with shape }

/-- Takes in an argument that is no option. -/
def addInput (given : Given) (text : String) : Option Given :=
  (once given.input (path? text)).map fun input => { given with input }

def runOptions? (given : Given) : Option RunOptions := do
  return { input := ← given.input, config := given.config, disabled := given.disabled }

/-- The directory that a build writes into unless it is told another one. -/
def defaultOut : Path := .ofText "dist/meta"

def buildOptions (given : Given) : BuildOptions :=
  { out := given.out.getD defaultOut, modulesOut := given.modulesOut, shape := given.shape }

end Given

/-- The outcome of reading the arguments of a command. -/
inductive Gathered where
  | help
  | given (given : Given)

namespace Arguments

/-- Reads the arguments that follow the end of options. -/
def gatherPlain (given : Given) : List String → Option Gathered
  | [] => some (.given given)
  | text :: rest => do gatherPlain (← given.addInput text) rest

/-- Reads the arguments of a command. -/
def gather (options : List ValueOption) (given : Given) : List String → Option Gathered
  | [] => some (.given given)
  | text :: rest =>
    match Argument.ofText options text with
    | .help => some .help
    | .unknown => none
    | .separator => gatherPlain given rest
    | .plain input =>
      match given.addInput input with
      | some given => gather options given rest
      | none => none
    | .option name (some value) =>
      match given.addOption value name with
      | some given => gather options given rest
      | none => none
    | .option name none =>
      match rest with
      | [] => none
      | value :: rest =>
        match if Argument.isValue value then given.addOption value name else none with
        | some given => gather options given rest
        | none => none

/-- Reads the arguments of a command that is made of what they give. -/
def command (topic : HelpTopic) (options : List ValueOption) (make : Given → Option Command)
    (arguments : List String) : Option Invocation := do
  match ← gather options {} arguments with
  | .help => return .help topic
  | .given given => return .run (← make given)

/-- The topic that names lead to. -/
def topic? : List String → Option HelpTopic
  | [] => some .program
  | ["build"] => some .build
  | ["check"] => some .check
  | ["help"] => some .help
  | _ => none

end Arguments

/-- Reads the arguments of the program. -/
def Invocation.ofArguments? : List String → Option Invocation
  | "build" :: rest =>
    Arguments.command .build ValueOption.all
      (fun given => given.runOptions?.map fun options => .build options given.buildOptions) rest
  | "check" :: rest =>
    Arguments.command .check (ValueOption.all.filter ValueOption.isCommon)
      (fun given => given.runOptions?.map .check) rest
  | "help" :: rest => (Arguments.topic? rest).map .help
  | "--version" :: _ => some .version
  | text :: _ =>
    match Argument.ofText [] text with
    | .help => some (.help .program)
    | _ => if "-V".isPrefixOf text then some .version else none
  | [] => none

end Componentry
