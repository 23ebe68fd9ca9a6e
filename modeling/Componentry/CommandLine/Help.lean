import Componentry.CommandLine.Arguments

/-!
# Help

The texts that the command line prints about itself.
-/

namespace Componentry

/-- The name and version of the program. -/
def versionText : String := "forge_meta_cli 0.1.0-alpha.1\n"

/-- How the program is called. -/
def usageText : String := "Usage: forge-meta <COMMAND>\n"

namespace HelpTopic

def programLines : List String :=
  ["Generate component metadata and type declarations",
    "",
    "Usage: forge-meta <COMMAND>",
    "",
    "Commands:",
    "  build  Build metadata, fragments and assembled module declarations",
    "  check  Run every check and report diagnostics without writing anything",
    "  help   Print this message or the help of the given subcommand(s)",
    "",
    "Options:",
    "  -h, --help     Print help",
    "  -V, --version  Print version"]

def buildLines : List String :=
  ["Build metadata, fragments and assembled module declarations",
    "",
    "Usage: forge-meta build [OPTIONS] <INPUT>",
    "",
    "Arguments:",
    "  <INPUT>  Build input: a JSON file, or a directory searched for `*.json` files",
    "",
    "Options:",
    "  -c, --config <CONFIG>            Build configuration (TOML)",
    "      --disable <CHECK>            Check category to disable (repeatable), e.g. " ++
      "`dynamic-slot`",
    "  -o, --out <OUT>                  Directory for `\x7btag\x7d.rt.json`, " ++
      "`\x7btag\x7d.dt.json` and fragments [default: dist/meta]",
    "      --modules-out <MODULES_OUT>  Directory assembled modules are written under, one " ++
      "subdirectory per module",
    "      --shape <SHAPE>              Declaration output shape (overrides the config file) " ++
      "[possible values: library, single-component]",
    "  -h, --help                       Print help"]

def checkLines : List String :=
  ["Run every check and report diagnostics without writing anything",
    "",
    "Usage: forge-meta check [OPTIONS] <INPUT>",
    "",
    "Arguments:",
    "  <INPUT>  Build input: a JSON file, or a directory searched for `*.json` files",
    "",
    "Options:",
    "  -c, --config <CONFIG>  Build configuration (TOML)",
    "      --disable <CHECK>  Check category to disable (repeatable), e.g. `dynamic-slot`",
    "  -h, --help             Print help"]

def helpLines : List String :=
  ["Print this message or the help of the given subcommand(s)",
    "",
    "Usage: forge-meta help [COMMAND]...",
    "",
    "Arguments:",
    "  [COMMAND]...  Print help for the subcommand(s)"]

def lines : HelpTopic → List String
  | .program => programLines
  | .build => buildLines
  | .check => checkLines
  | .help => helpLines

def text (topic : HelpTopic) : String :=
  String.join (topic.lines.map (· ++ "\n"))

end HelpTopic

end Componentry
