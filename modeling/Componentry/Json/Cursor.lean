import Componentry.Text.Blank

/-!
# Places in JSON text

What can be wrong with a JSON text and where. A position is a byte index into the text; a fault
that a character causes points just behind that character, a fault found at the end of the text
points to the end.
-/

namespace Componentry.Json

/-- What can be wrong with a JSON text. -/
inductive Fault where
  | endInValue
  | endInString
  | endInList
  | endInObject
  | expectedValue
  | expectedIdent
  | expectedColon
  | expectedCommaOrBracket
  | expectedCommaOrBrace
  | keyNotString
  | trailingComma
  | trailingCharacters
  | invalidNumber
  | numberOutOfRange
  | invalidEscape
  | controlCharacter
  | loneSurrogate
  | endOfHexEscape
  | tooDeep
deriving DecidableEq, Repr

def Fault.message : Fault → String
  | .endInValue => "EOF while parsing a value"
  | .endInString => "EOF while parsing a string"
  | .endInList => "EOF while parsing a list"
  | .endInObject => "EOF while parsing an object"
  | .expectedValue => "expected value"
  | .expectedIdent => "expected ident"
  | .expectedColon => "expected `:`"
  | .expectedCommaOrBracket => "expected `,` or `]`"
  | .expectedCommaOrBrace => "expected `,` or `\x7d`"
  | .keyNotString => "key must be a string"
  | .trailingComma => "trailing comma"
  | .trailingCharacters => "trailing characters"
  | .invalidNumber => "invalid number"
  | .numberOutOfRange => "number out of range"
  | .invalidEscape => "invalid escape"
  | .controlCharacter => "control character (\\u0000-\\u001F) found while parsing a string"
  | .loneSurrogate => "lone leading surrogate in hex escape"
  | .endOfHexEscape => "unexpected end of hex escape"
  | .tooDeep => "recursion limit exceeded"

/-- A fault and the byte index at which it was found. -/
structure Failure where
  fault : Fault
  index : Nat
deriving DecidableEq, Repr

/-- The text still to be read and the byte index at which it starts. -/
structure Cursor where
  rest : List Char
  index : Nat

namespace Cursor

/-- Fails where the reading stands. -/
def fail (cursor : Cursor) (fault : Fault) : Except Failure α :=
  .error ⟨fault, cursor.index⟩

/-- Fails because of the next byte, or at the end if there is none. -/
def failNext (cursor : Cursor) (fault : Fault) : Except Failure α :=
  .error ⟨fault, if cursor.rest.isEmpty then cursor.index else cursor.index + 1⟩

/-- Moves over characters of one byte each. -/
def advance (cursor : Cursor) (count : Nat) : Cursor :=
  ⟨cursor.rest.drop count, cursor.index + count⟩

def isSpace (c : Char) : Bool :=
  c == ' ' || c == '\n' || c == '\t' || c == '\r'

/-- Moves to the next character that is no white space of JSON. -/
def skipSpace (cursor : Cursor) : Cursor :=
  cursor.advance (cursor.rest.takeWhile isSpace).length

end Cursor

/-- Reads the rest of a name such as `true` whose first letter has been read. -/
def readIdent : List Char → Cursor → Except Failure (Unit × Cursor)
  | [], cursor => .ok ((), cursor)
  | expected :: others, cursor =>
    match cursor.rest with
    | [] => cursor.fail .endInValue
    | c :: rest =>
      let next : Cursor := ⟨rest, cursor.index + c.utf8Size⟩
      if c = expected then readIdent others next
      else .error ⟨.expectedIdent, cursor.index + 1⟩

/-- The number of bytes of a list of characters. -/
def byteLength (chars : List Char) : Nat :=
  chars.foldl (fun total c => total + c.utf8Size) 0

/-- Reads the four hexadecimal digits of an escape. -/
def readHex (rest : List Char) (index : Nat) : Except Failure Nat :=
  let bytes := byteLength (rest.take 4)
  if bytes < 4 then .error ⟨.endInString, index + bytes⟩
  else
    match rest with
    | a :: b :: c :: d :: _ =>
      match Text.hexValue? a, Text.hexValue? b, Text.hexValue? c, Text.hexValue? d with
      | some a, some b, some c, some d => .ok (((a * 16 + b) * 16 + c) * 16 + d)
      | _, _, _, _ => .error ⟨.invalidEscape, index + 4⟩
    | _ => .error ⟨.invalidEscape, index + 4⟩

end Componentry.Json
