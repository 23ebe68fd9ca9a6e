import Componentry.Json.Value

/-!
# JSON text

Two layouts of a JSON value: compact, without any blank, and indented by two spaces a level.
Floating-point numbers are written with the shortest digits that read back, always with a
fraction or an exponent, so that they are told apart from integers.
-/

namespace Componentry.Json

/-- The two lower-case hexadecimal digits of a control character. -/
def hexPair (code : Nat) : List Char :=
  [Nat.digitChar (code / 16), Nat.digitChar (code % 16)]

/-- A character as it stands between quotes. -/
def escapeChar (c : Char) : List Char :=
  if c = '"' then ['\\', '"']
  else if c = '\\' then ['\\', '\\']
  else if c = '\n' then ['\\', 'n']
  else if c = '\r' then ['\\', 'r']
  else if c = '\t' then ['\\', 't']
  else if c.toNat = 8 then ['\\', 'b']
  else if c.toNat = 12 then ['\\', 'f']
  else if c.toNat < 32 then ['\\', 'u', '0', '0'] ++ hexPair c.toNat
  else [c]

/-- The quoted text of a string. -/
def quoted (text : String) : String :=
  String.ofList ('"' :: text.toList.flatMap escapeChar ++ ['"'])

/-- The positions of the decimal point for which a float is written positionally. -/
def isPositional (x : Decimal) : Bool :=
  -5 < x.pointPosition && x.pointPosition ≤ 16

/-- The text of a float. -/
def floatText (x : Double) : String :=
  let sign := if x.negative then ['-'] else []
  let magnitude :=
    if x.isZero then ['0', '.', '0']
    else
      let decimal := x.shortest .even
      if isPositional decimal then
        if 0 ≤ decimal.power then decimal.positional ++ ['.', '0'] else decimal.positional
      else decimal.scientific
  String.ofList (sign ++ magnitude)

/-- The text of a number. -/
def numberText : JsonNumber → String
  | .integer value => toString value
  | .float value => floatText value

mutual

/-- The text without blanks. -/
def compact : Json → String
  | .null => "null"
  | .bool value => if value then "true" else "false"
  | .number value => numberText value
  | .string value => quoted value
  | .array items => "[" ++ compactItems items ++ "]"
  | .object fields => "\x7b" ++ compactFields fields ++ "\x7d"

def compactItems : List Json → String
  | [] => ""
  | [item] => item.compact
  | item :: rest => item.compact ++ "," ++ compactItems rest

def compactFields : List (String × Json) → String
  | [] => ""
  | [(key, value)] => quoted key ++ ":" ++ value.compact
  | (key, value) :: rest => quoted key ++ ":" ++ value.compact ++ "," ++ compactFields rest

end

/-- The start of a line at a nesting level. -/
def lineStart (level : Nat) : String :=
  "\n" ++ String.ofList (List.replicate (2 * level) ' ')

mutual

/-- The indented text, for a value that stands at a nesting level. -/
def prettyAt (level : Nat) : Json → String
  | .null => "null"
  | .bool value => if value then "true" else "false"
  | .number value => numberText value
  | .string value => quoted value
  | .array [] => "[]"
  | .array items => "[" ++ prettyItems (level + 1) items ++ lineStart level ++ "]"
  | .object [] => "\x7b\x7d"
  | .object fields => "\x7b" ++ prettyFields (level + 1) fields ++ lineStart level ++ "\x7d"

def prettyItems (level : Nat) : List Json → String
  | [] => ""
  | [item] => lineStart level ++ item.prettyAt level
  | item :: rest => lineStart level ++ item.prettyAt level ++ "," ++ prettyItems level rest

def prettyFields (level : Nat) : List (String × Json) → String
  | [] => ""
  | [(key, value)] => lineStart level ++ quoted key ++ ": " ++ value.prettyAt level
  | (key, value) :: rest =>
    lineStart level ++ quoted key ++ ": " ++ value.prettyAt level ++ "," ++ prettyFields level rest

end

/-- The indented text. -/
def pretty (value : Json) : String :=
  value.prettyAt 0

end Componentry.Json
