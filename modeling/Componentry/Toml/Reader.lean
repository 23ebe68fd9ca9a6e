import Componentry.Number.Double
import Componentry.Text.Blank
import Componentry.Toml.Table

/-!
# Reading TOML text

A reader of TOML documents, version 1.0. It says only whether a text is a document, not what is
wrong with it. Line feeds may have carriage returns before them, and inside strings such a pair
counts as a line feed. Keys and nested values have a limit of depth.
-/

namespace Componentry.Toml

/-- Reads something off the front of a text and leaves the rest. -/
abbrev Reader := StateT (List Char) Option

namespace Reader

/-- Reads a character. -/
def char (expected : Char) : Reader Unit := fun
  | c :: rest => if c = expected then some ((), rest) else none
  | [] => none

/-- Reads a character if it is the next one. -/
def takes (expected : Char) : Reader Bool := fun
  | c :: rest => some (if c = expected then (true, rest) else (false, c :: rest))
  | [] => some (false, [])

/-- Reads characters of a text that has to be there. -/
def exactly (expected : String) : Reader Unit := fun chars =>
  if expected.toList.isPrefixOf chars then some ((), chars.drop expected.length) else none

/-- Reads all characters of a class. -/
def while? (isMember : Char → Bool) : Reader (List Char) := fun chars =>
  some (chars.takeWhile isMember, chars.dropWhile isMember)

/-- Reads a character of a class. -/
def one (isMember : Char → Bool) : Reader Char := fun
  | c :: rest => if isMember c then some (c, rest) else none
  | [] => none

/-- The next character, which stays. -/
def peek : Reader (Option Char) := fun chars => some (chars.head?, chars)

/-- What a reader reads, as written. -/
def written (reader : Reader α) : Reader String := fun chars => do
  let (_, rest) ← reader chars
  return (String.ofList (chars.take (chars.length - rest.length)), rest)

/-! ## Blanks, lines and comments -/

def isSpace (c : Char) : Bool := c == ' ' || c == '\t'

/-- Characters that comments and strings may hold: no control characters but tabs. -/
def isPlain (c : Char) : Bool := c == '\t' || (0x20 ≤ c.toNat && c.toNat ≠ 0x7F)

def spaces : Reader Unit := do
  let _ ← while? isSpace

def lineBreak : Reader Unit := exactly "\n" <|> exactly "\r\n"

def textEnd : Reader Unit := fun
  | [] => some ((), [])
  | _ => none

/-- The end of a line, which may be the end of the text. -/
def lineEnd : Reader Unit := lineBreak <|> textEnd

def comment : Reader Unit := do
  char '#'
  let _ ← while? isPlain

/-- What may stand behind a value or a header on its line. -/
def lineRest : Reader Unit := do
  spaces
  if (← peek) = some '#' then comment
  lineEnd

/-- Skips blanks, line breaks and comments. -/
def skipGaps : Bool → List Char → Option (List Char)
  | _, [] => some []
  | _, '\r' :: '\n' :: rest => skipGaps false rest
  | inComment, c :: rest =>
    if c = '\n' then skipGaps false rest
    else if inComment then if isPlain c then skipGaps true rest else none
    else if c = '#' then skipGaps true rest
    else if isSpace c then skipGaps false rest
    else some (c :: rest)

def gaps : Reader Unit := fun chars => (skipGaps false chars).map fun rest => ((), rest)

/-! ## Strings -/

/-- The character of so many hexadecimal digits. -/
def codedChar? (count : Nat) (chars : List Char) : Option Char := do
  let digits ← (chars.take count).mapM Text.hexValue?
  let code := digits.foldl (fun code digit => code * 16 + digit) 0
  if digits.length = count ∧ code.isValidChar then some (Char.ofNat code) else none

/-- Reads an escape after its backslash: the character and the number of characters read. -/
def escape? : List Char → Option (Char × Nat)
  | 'b' :: _ => some ('\x08', 1)
  | 't' :: _ => some ('\t', 1)
  | 'n' :: _ => some ('\n', 1)
  | 'f' :: _ => some ('\x0c', 1)
  | 'r' :: _ => some ('\r', 1)
  | '\x22' :: _ => some ('\x22', 1)
  | '\\' :: _ => some ('\\', 1)
  | 'u' :: digits => (codedChar? 4 digits).map fun c => (c, 5)
  | 'U' :: digits => (codedChar? 8 digits).map fun c => (c, 9)
  | _ => none

/-- Which string is read: its quote, and whether backslashes escape in it. -/
structure Quoting where
  quote : Char
  escapes : Bool

def Quoting.basic : Quoting := ⟨'\x22', true⟩

def Quoting.literal : Quoting := ⟨'\x27', false⟩

/-- Reads a string of one line after its quote. The characters read so far are in reverse. -/
def lineFrom (quoting : Quoting) (done : List Char) (rest : List Char) :
    Option (String × List Char) :=
  match rest with
  | [] => none
  | c :: others =>
    if c = quoting.quote then some (String.ofList done.reverse, others)
    else if quoting.escapes ∧ c = '\\' then
      match escape? others with
      | some (decoded, used) => lineFrom quoting (decoded :: done) (others.drop used)
      | none => none
    else if isPlain c then lineFrom quoting (c :: done) others
    else none
termination_by rest.length
decreasing_by
  all_goals simp only [List.length_cons, List.length_drop]
  all_goals omega

/-- The number of characters of blanks and line breaks at the start. -/
def breaksLength : List Char → Nat
  | '\r' :: '\n' :: rest => breaksLength rest + 2
  | c :: rest => if c = '\n' ∨ isSpace c then breaksLength rest + 1 else 0
  | [] => 0

/-- The number of characters after a backslash at the end of a line up to the next text. -/
def continuation? (chars : List Char) : Option Nat :=
  match chars.dropWhile isSpace with
  | '\n' :: _ => some (breaksLength chars)
  | '\r' :: '\n' :: _ => some (breaksLength chars)
  | _ => none

/-- Reads a string of many lines after its quotes. The characters read so far are in reverse. Of
more than two quotes the last three end the string, and it may end in two more. -/
def linesFrom (quoting : Quoting) (done : List Char) (rest : List Char) :
    Option (String × List Char) :=
  match rest with
  | [] => none
  | '\r' :: '\n' :: others => linesFrom quoting ('\n' :: done) others
  | c :: others =>
    if c = quoting.quote then
      if [c, c].isPrefixOf others then
        let more := others.drop 2
        let extra := min (more.takeWhile (· == c)).length 2
        some (String.ofList (done.reverse ++ List.replicate extra c), more.drop extra)
      else linesFrom quoting (c :: done) others
    else if quoting.escapes ∧ c = '\\' then
      match continuation? others with
      | some used => linesFrom quoting done (others.drop used)
      | none =>
        match escape? others with
        | some (decoded, used) => linesFrom quoting (decoded :: done) (others.drop used)
        | none => none
    else if c = '\n' ∨ isPlain c then linesFrom quoting (c :: done) others
    else none
termination_by rest.length
decreasing_by
  all_goals simp only [List.length_cons, List.length_drop]
  all_goals omega

/-- Reads a string of one line. -/
def line (quoting : Quoting) : Reader String := do
  char quoting.quote
  fun rest => lineFrom quoting [] rest

/-- Reads a string of many lines. A line break right behind the quotes does not count. -/
def lines (quoting : Quoting) : Reader String := do
  char quoting.quote
  char quoting.quote
  char quoting.quote
  lineBreak <|> pure ()
  fun rest => linesFrom quoting [] rest

def string (quoting : Quoting) : Reader Toml :=
  (Toml.string <$> lines quoting) <|> (Toml.string <$> line quoting)

/-! ## Numbers and dates -/

/-- Whether single underscores stand only between digits. -/
def separatesDigits : List Char → Bool
  | [] => false
  | [c] => c ≠ '_'
  | c :: next :: rest => (c ≠ '_' || next ≠ '_') && separatesDigits (next :: rest)

/-- Reads digits, with underscores between them, and gives the digits alone. -/
def digits (isDigit : Char → Bool) : Reader (List Char) := do
  let run ← while? fun c => isDigit c || c == '_'
  if run.head? ≠ some '_' ∧ separatesDigits run then return run.filter (· ≠ '_') else failure

/-- Reads a sign: whether it is a minus. -/
def sign : Reader Bool := do
  if ← takes '-' then return true
  let _ ← takes '+'
  return false

/-- Reads a sign and decimal digits without needless zeros in front. -/
def decimal : Reader (Bool × List Char) := do
  let negative ← sign
  if ← takes '0' then return (negative, ['0'])
  return (negative, ← digits Char.isDigit)

def valueOf (base : Nat) (run : List Char) : Nat :=
  run.foldl (fun value c => value * base + (Text.hexValue? c).getD 0) 0

/-- The bounds of 64-bit integers. -/
def integerOf? (value : Int) : Option Toml :=
  if -(Nat.pow 2 63 : Int) ≤ value ∧ value < (Nat.pow 2 63 : Int) then some (.integer value)
  else none

/-- Reads digits of a base after its mark. -/
def based (mark : String) (base : Nat) (isDigit : Char → Bool) : Reader Toml := do
  exactly mark
  let run ← digits isDigit
  integerOf? (valueOf base run)

def integer : Reader Toml :=
  based "0x" 16 (fun c => (Text.hexValue? c).isSome) <|>
  based "0o" 8 (fun c => '0' ≤ c && c ≤ '7') <|>
  based "0b" 2 (fun c => c == '0' || c == '1') <|> do
    let (negative, run) ← decimal
    let value : Int := valueOf 10 run
    integerOf? (if negative then -value else value)

/-- Reads an exponent, from its letter on. -/
def exponent : Reader Int := do
  let _ ← one fun c => c == 'e' || c == 'E'
  let negative ← sign
  let value : Int := valueOf 10 (← digits Char.isDigit)
  return if negative then -value else value

/-- Reads the digits behind a point. -/
def fraction : Reader (List Char) := do
  char '.'
  digits Char.isDigit

/-- Whether a decimal is small enough for a double-precision number. -/
def fitsDouble (run : List Char) (power : Int) : Bool :=
  let significant := run.dropWhile (· == '0')
  let magnitude := significant.length + power
  if significant.isEmpty || magnitude < 300 then true
  else if 310 < magnitude then false
  else
    (Double.ofRatio? false (valueOf 10 run * Nat.pow 10 power.toNat)
      (Nat.pow 10 (-power).toNat)).isSome

/-- Reads a number with a fraction or an exponent. One that is too large is refused, unless it is
negative. -/
def scientific : Reader Unit := do
  let (negative, whole) ← decimal
  let (fractional, power) ← if (← peek) = some '.' then do
      let fractional ← fraction
      pure (fractional, ← exponent <|> pure 0)
    else do pure ([], ← exponent)
  guard (negative || fitsDouble (whole ++ fractional) (power - fractional.length))

/-- Reads infinity or the number that is none. -/
def unusual : Reader Unit := do
  let _ ← sign
  exactly "inf" <|> exactly "nan"

/-- Reads so many digits as a number within bounds. -/
def field (count least greatest : Nat) : Reader Nat := fun chars =>
  let run := chars.take count
  let value := valueOf 10 run
  if run.length = count ∧ run.all Char.isDigit ∧ least ≤ value ∧ value ≤ greatest then
    some (value, chars.drop count)
  else none

def daysInMonth (year month : Nat) : Nat :=
  if month = 2 then
    if year % 4 = 0 ∧ (year % 100 ≠ 0 ∨ year % 400 = 0) then 29 else 28
  else if month = 4 ∨ month = 6 ∨ month = 9 ∨ month = 11 then 30
  else 31

def day : Reader Unit := do
  let year ← field 4 0 9999
  char '-'
  let month ← field 2 1 12
  char '-'
  let _ ← field 2 1 (daysInMonth year month)

/-- Reads a time of day. A second may be a leap second. -/
def time : Reader Unit := do
  let _ ← field 2 0 23
  char ':'
  let _ ← field 2 0 59
  char ':'
  let _ ← field 2 0 60
  if ← takes '.' then
    let _ ← one Char.isDigit
    let _ ← while? Char.isDigit

/-- Reads the distance from universal time. -/
def zone : Reader Unit := do
  let mark ← one fun c => ['Z', 'z', '+', '-'].contains c
  if mark = '+' ∨ mark = '-' then
    let _ ← field 2 0 23
    char ':'
    let _ ← field 2 0 59

/-- Reads the time behind a day. -/
def dayTime : Reader Unit := do
  let _ ← one fun c => c == 'T' || c == 't' || c == ' '
  time
  zone <|> pure ()

def date : Reader Unit :=
  (do day; dayTime <|> pure ()) <|> time

/-- Reads a date or a number. -/
def number : Reader Toml :=
  (Toml.date <$> written date) <|> (Toml.float <$> written (scientific <|> unusual)) <|> integer

/-! ## Keys -/

/-- The depth of keys and of nested values at which reading ends. -/
def maxDepth : Nat := 80

def isBare (c : Char) : Bool := c.isAlphanum || c == '-' || c == '_'

/-- Reads one part of a key, with blanks around it. -/
def keyPart : Reader String := do
  spaces
  let part ← match ← peek with
    | some '\x22' => line .basic
    | some '\x27' => line .literal
    | _ => do
      let run ← while? isBare
      if run.isEmpty then failure else pure (String.ofList run)
  spaces
  return part

/-- Reads the parts of a key up to a bound on their number. -/
def keyParts : Nat → Reader (List String)
  | 0 => failure
  | bound + 1 => do
    let part ← keyPart
    if ← takes '.' then return part :: (← keyParts bound)
    return [part]

/-- Reads a key: the parts before the last one, and that one. -/
def key : Reader (List String × String) := do
  let parts ← keyParts (maxDepth - 1)
  return (parts.dropLast, ← parts.getLast?)

/-! ## Values -/

/-- Reads the items of an array from behind its bracket or a comma. -/
def items (item : Reader Toml) : Nat → Reader (List Toml)
  | 0 => failure
  | bound + 1 => do
    gaps
    if ← takes ']' then return []
    let value ← item
    gaps
    if ← takes ',' then return value :: (← items item bound)
    char ']'
    return [value]

/-- Reads a key and its value into a table. -/
def assignment (item : Reader Toml) (before : Toml) : Reader Toml := do
  let (path, key) ← key
  char '='
  spaces
  Toml.assign path key (← item) before

/-- Reads the pairs of a table between braces, at least one. -/
def pairs (item : Reader Toml) : Nat → Toml → Reader Toml
  | 0, _ => failure
  | bound + 1, before => do
    let after ← assignment item before
    spaces
    if ← takes ',' then pairs item bound after
    else
      char '\x7d'
      return after

/-- Reads a table between braces, after the first of them. -/
def inlineTable (item : Reader Toml) : Reader Toml := do
  spaces
  if ← takes '\x7d' then return .table .inline []
  let rest ← get
  pairs item (rest.length + 1) (.table .inline [])

/-- Reads a value, with the reader of nested values if nesting is still allowed. -/
def valueWith (nested : Option (Reader Toml)) : Reader Toml := do
  match ← peek with
  | some '\x22' => string .basic
  | some '\x27' => string .literal
  | some 't' => do exactly "true"; return .boolean true
  | some 'f' => do exactly "false"; return .boolean false
  | some 'i' => Toml.float <$> written (exactly "inf")
  | some 'n' => Toml.float <$> written (exactly "nan")
  | some '[' => do
    char '['
    let rest ← get
    return .array (← items (← nested) (rest.length + 1))
  | some '\x7b' => do
    char '\x7b'
    inlineTable (← nested)
  | _ => number

/-- Reads a value inside which so many levels of brackets may be open. -/
def value : Nat → Reader Toml
  | 0 => valueWith none
  | levels + 1 => valueWith (some (value levels))

/-! ## Documents -/

/-- What is read so far: the whole table, and the keys that lead to the table of the last header. -/
structure Progress where
  root : Toml := .table .header []
  header : List String := []

/-- Reads a header. -/
def header (progress : Progress) : Reader Progress := do
  char '['
  let repeated ← takes '['
  let (path, key) ← key
  char ']'
  if repeated then char ']'
  lineRest
  let opened :=
    if repeated then progress.root.openItem path key else progress.root.openTable path key
  return { root := ← opened, header := path ++ [key] }

/-- Reads a key and its value into the table of the last header. -/
def entry (progress : Progress) : Reader Progress := do
  let (path, key) ← key
  char '='
  spaces
  let given ← value (maxDepth - 1)
  lineRest
  let root ← progress.root.within .header (Toml.assign path key given) progress.header
  return { progress with root }

/-- Reads lines up to a bound on their number. -/
def document : Nat → Progress → Reader Toml
  | 0, _ => failure
  | bound + 1, progress => do
    spaces
    match ← peek with
    | none => return progress.root
    | some '#' => do
      comment
      lineEnd
      document bound progress
    | some '[' => do document bound (← header progress)
    | some '\n' => do
      lineBreak
      document bound progress
    | some '\r' => do
      lineBreak
      document bound progress
    | _ => do document bound (← entry progress)

end Reader

/-- The table of a document. A byte order mark in front does not count. -/
def parse? (text : String) : Option Toml :=
  let chars := text.toList
  let chars := if chars.head? = some '﻿' then chars.drop 1 else chars
  ((Reader.document (chars.length + 1) {}).run chars).map Prod.fst

end Componentry.Toml
