import Componentry.NameSet
import Componentry.Statement.Pattern
import Componentry.Text.Blank
import Componentry.Text.Word

/-!
# Statements of declaration files

Declaration files are not parsed. Import statements, re-exports and exported declarations are
recognised where a line starts with them; they may span several lines as long as no braces are
nested.
-/

namespace Componentry

namespace Pattern

/-- Blanks, line ends included. -/
def blanks : Pattern := .run 0 Text.isBlank

/-- At least one blank. -/
def someBlanks : Pattern := .run 1 Text.isBlank

/-- Spaces and tabs. -/
def margin : Pattern := .run 0 fun c => c == ' ' || c == '\t'

def keyword (text : String) : Pattern := .word text.toList

/-- A keyword and the blanks that have to follow it. -/
def keywordThen (text : String) : Pattern := .seq (keyword text) someBlanks

/-- A character of a name. -/
def isNameChar (c : Char) : Bool := Text.isWord c || c == '$'

/-- A name. -/
def name : Pattern := .run 1 isNameChar

def isQuote (c : Char) : Bool := c == '\x22' || c == '\x27'

/-- Either quote. -/
def quote : Pattern := .orElse (.word ['\x22']) (.word ['\x27'])

/-- A quoted specifier, kept in a slot; the quotes need not agree. -/
def specifier (slot : Nat) : Pattern :=
  sequence [quote, .capture slot (.run 1 fun c => !isQuote c), quote]

/-- A pair of braces without braces inside. -/
def braced : Pattern :=
  sequence [.word ['\x7b'], .run 0 (fun c => !(c == '\x7b' || c == '\x7d')), .word ['\x7d']]

/-- How a statement ends: a semicolon and the end of the line, both optional. -/
def ending : Pattern :=
  sequence [margin, optional (.word [';']), margin,
    optional (.seq (optional (.word ['\r'])) (.word ['\n']))]

/-- The part of an import statement that names what is imported. -/
def importClause : Pattern :=
  sequence [.run 0 (fun c => isNameChar c || c == '*' || Text.isBlank c || c == ','),
    optional braced, blanks, keywordThen "from"]

/-- An import statement with its specifier in slot 1. -/
def importStatement : Pattern :=
  sequence [margin, keywordThen "import", optional (keywordThen "type"), optional importClause,
    specifier 1, ending]

/-- What a re-export lists: everything, perhaps under a name, or names in braces. -/
def exportClause : Pattern :=
  .orElse
    (.seq (.word ['*']) (optional (sequence [someBlanks, keywordThen "as", name])))
    braced

/-- A re-export with its mark in slot 1, its clause in slot 2 and its specifier in slot 3. -/
def reExport : Pattern :=
  sequence [margin, keywordThen "export", optional (.capture 1 (keywordThen "type")),
    .capture 2 exportClause, blanks, keywordThen "from", specifier 3, ending]

/-- An exported declaration with its name in slot 1. -/
def exportedDeclaration : Pattern :=
  sequence [margin, keywordThen "export", optional (keywordThen "declare"),
    optional (keywordThen "abstract"),
    anyOf ["interface", "type", "class", "const", "let", "var", "function", "enum", "namespace"],
    someBlanks, .capture 1 name]

end Pattern

/-- One name in a re-export. -/
structure ExportSpecifier where
  name : String
  /-- The name after `as`. -/
  newName : Option String := none
  typeOnly : Bool := false
deriving DecidableEq, Repr

namespace ExportSpecifier

/-- The name that importers see. -/
def exportedName (specifier : ExportSpecifier) : String :=
  specifier.newName.getD specifier.name

def print (specifier : ExportSpecifier) : String :=
  (if specifier.typeOnly then "type " else "") ++ specifier.name ++
    match specifier.newName with
    | some other => " as " ++ other
    | none => ""

/-- Reads one entry between commas. -/
def ofEntry (entry : List Char) : ExportSpecifier :=
  let (typeOnly, entry) := match Pattern.dropWord? "type ".toList entry with
    | some rest => (true, Text.trimBlanks rest)
    | none => (false, entry)
  let words := (Text.words entry).map String.ofList
  { name := words.head?.getD ""
    newName := match words with
      | _ :: "as" :: other :: _ => some other
      | _ => none
    typeOnly }

end ExportSpecifier

/-- What a re-export lists. -/
inductive ExportClause where
  /-- Everything, perhaps under a name. -/
  | all (newName : Option String)
  | named (specifiers : List ExportSpecifier)
deriving DecidableEq, Repr

namespace ExportClause

/-- What stands between `export` and `from`. -/
def print : ExportClause → String
  | .all none => "*"
  | .all (some newName) => "* as " ++ newName
  | .named specifiers =>
    "\x7b " ++ ", ".intercalate (specifiers.map ExportSpecifier.print) ++ " \x7d"

/-- The specifiers in a pair of braces. -/
def specifiers (text : List Char) : List ExportSpecifier :=
  let inner := ((text.dropWhile (· == '\x7b')).reverse.dropWhile (· == '\x7d')).reverse
  let entries := ((Text.pieces (· == ',') inner).map Text.trimBlanks).filter (· ≠ [])
  entries.map ExportSpecifier.ofEntry

/-- Reads the text of a clause. -/
def ofText (text : List Char) : ExportClause :=
  match Text.trimBlanks text with
  | '*' :: rest =>
    match Text.words rest with
    | [_, other] => .all (some (String.ofList other))
    | _ => .all none
  | clause => .named (specifiers clause)

end ExportClause

/-- A statement that exports names of another file. -/
structure ReExport where
  typeOnly : Bool
  clause : ExportClause
  /-- The other file, as written. -/
  specifier : String
  /-- Where the statement starts and ends in the text, in bytes. -/
  start : Nat := 0
  stop : Nat := 0
deriving DecidableEq, Repr

namespace ReExport

/-- Reads a re-export off what its pattern has captured. -/
def ofFound (found : Pattern.Found) : ReExport :=
  { typeOnly := (found.captured? 1).isSome
    clause := .ofText ((found.captured? 2).getD [])
    specifier := String.ofList ((found.captured? 3).getD [])
    start := found.start
    stop := found.start + found.byteLength }

/-- Leaves out names that are exported elsewhere; there is nothing left if all are. What exports
everything stays. -/
def without (statement : ReExport) (exported : NameSet) : Option ReExport :=
  match statement.clause with
  | .all _ => some statement
  | .named specifiers =>
    let kept := specifiers.filter fun specifier => !exported.contains specifier.exportedName
    if kept.isEmpty then none else some { statement with clause := .named kept }

/-- The statement on one line. -/
def print (statement : ReExport) : String :=
  "export " ++ (if statement.typeOnly then "type " else "") ++ statement.clause.print ++
    " from \"" ++ statement.specifier ++ "\";"

end ReExport

namespace Statement

/-- Whether a specifier is relative to the file that has it. -/
def isRelative (specifier : String) : Bool :=
  specifier.startsWith "./" || specifier.startsWith "../"

/-- The specifiers of import statements, in order. -/
def importSpecifiers (text : String) : List String :=
  (Pattern.importStatement.findAll text).filterMap fun found =>
    (found.captured? 1).map String.ofList

/-- The text without its import statements. -/
def withoutImports (text : String) : String :=
  Pattern.importStatement.strip text

/-- The re-exports of a text, in order. -/
def reExports (text : String) : List ReExport :=
  (Pattern.reExport.findAll text).map ReExport.ofFound

/-- The text without its re-exports. -/
def withoutReExports (text : String) : String :=
  Pattern.reExport.strip text

/-- The names of exported declarations. -/
def exportedNames (text : String) : NameSet :=
  .ofList ((Pattern.exportedDeclaration.findAll text).filterMap fun found =>
    (found.captured? 1).map String.ofList)

/-- A text without blanks at its ends, if anything is left. -/
def section? (text : String) : List String :=
  let trimmed := Text.trim text
  if trimmed.isEmpty then [] else [trimmed]

/-- Joins a declaration file and fragments. Re-exports move to the end, without names that a
fragment exports; a module that stands alone loses its imports. -/
def merge (standsAlone : Bool) (primary : String) (fragments : List String) : String :=
  let body := if standsAlone then withoutImports primary else primary
  let names := NameSet.ofList (fragments.flatMap fun fragment => (exportedNames fragment).toList)
  let statements := (reExports body).filterMap fun statement =>
    (statement.without names).map ReExport.print
  let sections := section? (withoutReExports body) ++ fragments.flatMap section? ++
    (if statements.isEmpty then [] else ["\n".intercalate statements])
  "\n\n".intercalate sections ++ "\n"

end Statement

end Componentry
