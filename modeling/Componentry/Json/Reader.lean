import Componentry.Json.Shape
import Componentry.Json.Skip
import Componentry.Json.Value

/-!
# Reading JSON text

A reader of JSON documents that says what is wrong and where. Nesting is limited, and a number
whose digits do not fit 64 bits is read as a double-precision number from its leading digits. A
shape says which parts of the document are read; the fields that it leaves out are only checked
for their grammar.
-/

namespace Componentry.Json

/-! ## Numbers -/

/-- The largest integer that a 64-bit word holds. -/
def maxWord : Nat := Nat.pow 2 64 - 1

def digitValue (c : Char) : Nat :=
  c.toNat - '0'.toNat

/-- Appends digits to a number as long as it fits a 64-bit word. The second result counts the
digits that were left out. -/
def absorbDigits (value : Nat) : List Char → Nat × Nat
  | [] => (value, 0)
  | c :: rest =>
    let next := value * 10 + digitValue c
    if next ≤ maxWord then absorbDigits next rest else (value, rest.length + 1)

/-- The digits of an exponent as far as they fit a signed 32-bit word: the value and the number of
digits read. `none` in place of the value is an exponent that does not fit. -/
def absorbExponent (value used : Nat) : List Char → Option Nat × Nat
  | [] => (some value, used)
  | c :: rest =>
    let next := value * 10 + digitValue c
    if next < 2 ^ 31 then absorbExponent next (used + 1) rest else (none, used + 1)

/-- The double-precision number of digits and a power of ten. -/
def finishFloat (negative : Bool) (digits : Nat) (power : Int) (cursor : Cursor) :
    Except Failure (JsonNumber × Cursor) :=
  match Double.ofDecimal? negative digits power with
  | some value => .ok (.float value, cursor)
  | none => cursor.fail .numberOutOfRange

/-- Reads the exponent, from its letter on. -/
def readExponent (negative : Bool) (digits : Nat) (power : Int) (cursor : Cursor) :
    Except Failure (JsonNumber × Cursor) :=
  let afterLetter := cursor.advance 1
  let (raised, start) :=
    match afterLetter.rest with
    | '+' :: _ => (true, afterLetter.advance 1)
    | '-' :: _ => (false, afterLetter.advance 1)
    | _ => (true, afterLetter)
  match start.rest with
  | [] => start.fail .endInValue
  | c :: _ =>
    if c.isDigit then
      let run := start.rest.takeWhile Char.isDigit
      match absorbExponent 0 0 run with
      | (some exponent, used) =>
        let total := if raised then power + exponent else power - exponent
        finishFloat negative digits total (start.advance used)
      | (none, used) =>
        if digits ≠ 0 && raised then (start.advance used).fail .numberOutOfRange
        else .ok (.float (Double.zero negative), start.advance run.length)
    else (start.advance 1).fail .invalidNumber

/-- Goes on after the digits: an exponent or the end of the number. -/
def readScale (negative : Bool) (digits : Nat) (power : Int) (cursor : Cursor) :
    Except Failure (JsonNumber × Cursor) :=
  match cursor.rest with
  | 'e' :: _ => readExponent negative digits power cursor
  | 'E' :: _ => readExponent negative digits power cursor
  | _ => finishFloat negative digits power cursor

/-- Reads the fraction, from its point on. -/
def readFraction (negative : Bool) (digits : Nat) (power : Int) (cursor : Cursor) :
    Except Failure (JsonNumber × Cursor) :=
  let start := cursor.advance 1
  let run := start.rest.takeWhile Char.isDigit
  if run.isEmpty then
    if start.rest.isEmpty then start.fail .endInValue else start.failNext .invalidNumber
  else
    let (value, dropped) := absorbDigits digits run
    let used : Nat := run.length - dropped
    readScale negative value (power - used) (start.advance run.length)

/-- The number of an integer text: an integer if it fits, else a double-precision number. Minus
zero is the double-precision one. -/
def integerNumber (negative : Bool) (value : Nat) : Option JsonNumber :=
  if !negative then some (.integer value)
  else if value ≠ 0 && value ≤ Nat.pow 2 63 then some (.integer (-value))
  else (Double.ofRatio? true value 1).map .float

/-- Reads a number after its sign. -/
def readNumber (negative : Bool) (cursor : Cursor) : Except Failure (JsonNumber × Cursor) :=
  let run := cursor.rest.takeWhile Char.isDigit
  match cursor.rest with
  | [] => cursor.fail .endInValue
  | c :: _ =>
    if !c.isDigit then (cursor.advance 1).fail .invalidNumber
    else if c = '0' && 1 < run.length then (cursor.advance 1).failNext .invalidNumber
    else
      let (digits, dropped) := absorbDigits 0 run
      let after := cursor.advance run.length
      match after.rest with
      | '.' :: _ => readFraction negative digits dropped after
      | 'e' :: _ => readExponent negative digits dropped after
      | 'E' :: _ => readExponent negative digits dropped after
      | _ =>
        if dropped = 0 then
          match integerNumber negative digits with
          | some value => .ok (value, after)
          | none => after.fail .numberOutOfRange
        else finishFloat negative digits dropped after

/-! ## Strings -/

/-- Reads the second half of a surrogate pair. The result is the character and the number of
characters read. -/
def readTrail (lead : Nat) (rest : List Char) (index : Nat) : Except Failure (Char × Nat) :=
  match rest with
  | [] => .error ⟨.endInString, index⟩
  | '\\' :: [] => .error ⟨.endInString, index + 1⟩
  | '\\' :: 'u' :: digits => do
    let trail ← readHex digits (index + 2)
    if 0xDC00 ≤ trail && trail ≤ 0xDFFF then
      .ok (Char.ofNat ((lead - 0xD800) * 1024 + (trail - 0xDC00) + 0x10000), 6)
    else .error ⟨.loneSurrogate, index + 6⟩
  | '\\' :: _ => .error ⟨.endOfHexEscape, index + 2⟩
  | _ => .error ⟨.endOfHexEscape, index + 1⟩

/-- Reads an escape after its backslash: the character and the number of characters read. -/
def readEscape (rest : List Char) (index : Nat) : Except Failure (Char × Nat) :=
  match rest with
  | [] => .error ⟨.endInString, index⟩
  | '"' :: _ => .ok ('"', 1)
  | '\\' :: _ => .ok ('\\', 1)
  | '/' :: _ => .ok ('/', 1)
  | 'b' :: _ => .ok (Char.ofNat 8, 1)
  | 'f' :: _ => .ok (Char.ofNat 12, 1)
  | 'n' :: _ => .ok ('\n', 1)
  | 'r' :: _ => .ok ('\r', 1)
  | 't' :: _ => .ok ('\t', 1)
  | 'u' :: digits => do
    let code ← readHex digits (index + 1)
    if 0xDC00 ≤ code && code ≤ 0xDFFF then .error ⟨.loneSurrogate, index + 5⟩
    else if 0xD800 ≤ code && code ≤ 0xDBFF then
      let (c, used) ← readTrail code (digits.drop 4) (index + 5)
      .ok (c, used + 5)
    else .ok (Char.ofNat code, 5)
  | _ => .error ⟨.invalidEscape, index + 1⟩

/-- Reads a string after its opening quote. The characters read so far are in reverse. -/
def readStringFrom (done rest : List Char) (index : Nat) :
    Except Failure (String × Cursor) :=
  match rest with
  | [] => .error ⟨.endInString, index⟩
  | c :: others =>
    if c = '"' then .ok (String.ofList done.reverse, ⟨others, index + 1⟩)
    else if c = '\\' then
      match readEscape others (index + 1) with
      | .error failure => .error failure
      | .ok (decoded, used) =>
        readStringFrom (decoded :: done) (others.drop used) (index + 1 + used)
    else if c.toNat < 32 then .error ⟨.controlCharacter, index + 1⟩
    else readStringFrom (c :: done) others (index + c.utf8Size)
termination_by rest.length
decreasing_by
  · simp only [List.length_cons, List.length_drop]
    omega
  · simp

/-! ## Values -/

/-- Reads the items of an array from behind its opening bracket or behind an item. The bound on the
number of items is never met: every item takes a character. -/
def readItems (item : Cursor → Except Failure (Json × Cursor)) :
    Nat → List Json → Cursor → Except Failure (List Json × Cursor)
  | 0, _, cursor => cursor.fail .endInList
  | bound + 1, done, cursor =>
    let here := cursor.skipSpace
    match here.rest with
    | [] => here.failNext .endInList
    | ']' :: _ => .ok (done.reverse, here.advance 1)
    | c :: _ =>
      if done.isEmpty then do
        let (value, after) ← item here
        readItems item bound (value :: done) after
      else if c = ',' then
        let next := (here.advance 1).skipSpace
        match next.rest with
        | [] => next.failNext .endInValue
        | ']' :: _ => next.failNext .trailingComma
        | _ => do
          let (value, after) ← item next
          readItems item bound (value :: done) after
      else here.failNext .expectedCommaOrBracket

/-- Reads the value of a field, or passes over it if it has no shape. -/
def readKnown (length : Nat) (item : Shape → Cursor → Except Failure (Json × Cursor))
    (key : String) (shape : Option Shape) (cursor : Cursor) :
    Except Failure (Option (String × Json) × Cursor) :=
  match shape with
  | some shape => (item shape cursor).map fun (value, after) => (some (key, value), after)
  | none => (skipValue length cursor).map fun after => (none, after)

/-- Reads a field from its opening quote on. -/
def readField (length : Nat) (shape : Shape)
    (item : Shape → Cursor → Except Failure (Json × Cursor)) (cursor : Cursor) :
    Except Failure (Option (String × Json) × Cursor) := do
  let (key, afterKey) ← readStringFrom [] (cursor.rest.drop 1) (cursor.index + 1)
  let colon := afterKey.skipSpace
  match colon.rest with
  | [] => colon.failNext .endInObject
  | ':' :: _ => readKnown length item key (shape.field? key) (colon.advance 1)
  | _ => colon.failNext .expectedColon

/-- Reads the fields of an object from behind its opening brace or behind a field. -/
def readFields (length : Nat) (shape : Shape)
    (item : Shape → Cursor → Except Failure (Json × Cursor)) :
    Nat → Bool → List (String × Json) → Cursor → Except Failure (List (String × Json) × Cursor)
  | 0, _, _, cursor => cursor.fail .endInObject
  | bound + 1, first, done, cursor =>
    let here := cursor.skipSpace
    match here.rest with
    | [] => here.failNext .endInObject
    | '\x7d' :: _ => .ok (done.reverse, here.advance 1)
    | c :: _ =>
      if first then
        if c = '"' then do
          let (field, after) ← readField length shape item here
          readFields length shape item bound false (field.toList ++ done) after
        else here.failNext .keyNotString
      else if c = ',' then
        let next := (here.advance 1).skipSpace
        match next.rest with
        | [] => next.failNext .endInValue
        | '"' :: _ => do
          let (field, after) ← readField length shape item next
          readFields length shape item bound false (field.toList ++ done) after
        | '\x7d' :: _ => next.failNext .trailingComma
        | _ => next.failNext .keyNotString
      else here.failNext .expectedCommaOrBrace

/-- Reads a value of a text of a length, with the reader of nested values if nesting is still
allowed. -/
def readWith (length : Nat) (nested : Option (Shape → Cursor → Except Failure (Json × Cursor)))
    (shape : Shape) (cursor : Cursor) : Except Failure (Json × Cursor) :=
  let here := cursor.skipSpace
  match here.rest with
  | [] => here.failNext .endInValue
  | 'n' :: _ => (readIdent ['u', 'l', 'l'] (here.advance 1)).map fun (_, after) => (.null, after)
  | 't' :: _ =>
    (readIdent ['r', 'u', 'e'] (here.advance 1)).map fun (_, after) => (.bool true, after)
  | 'f' :: _ =>
    (readIdent ['a', 'l', 's', 'e'] (here.advance 1)).map fun (_, after) => (.bool false, after)
  | '"' :: rest =>
    (readStringFrom [] rest (here.index + 1)).map fun (text, after) => (.string text, after)
  | '-' :: _ => (readNumber true (here.advance 1)).map fun (n, after) => (.number n, after)
  | '[' :: _ =>
    match nested with
    | none => here.failNext .tooDeep
    | some item =>
      (readItems (item shape.item) (length + 1) [] (here.advance 1)).map
        fun (items, after) => (.array items, after)
  | '\x7b' :: _ =>
    match nested with
    | none => here.failNext .tooDeep
    | some item =>
      (readFields length shape item (length + 1) true [] (here.advance 1)).map
        fun (fields, after) => (.object fields, after)
  | c :: _ =>
    if c.isDigit then (readNumber false here).map fun (n, after) => (.number n, after)
    else here.failNext .expectedValue

/-- Reads a value inside which so many levels of brackets may be open. -/
def readValue (length : Nat) : Nat → Shape → Cursor → Except Failure (Json × Cursor)
  | 0, shape, cursor => readWith length none shape cursor
  | levels + 1, shape, cursor => readWith length (some (readValue length levels)) shape cursor

/-- The levels of brackets that may be open at once. -/
def maxLevels : Nat := 127

/-- Reads a text that is one value. -/
def readDocument (shape : Shape) (text : String) : Except Failure Json := do
  let chars := text.toList
  let (value, after) ← readValue chars.length maxLevels shape ⟨chars, 0⟩
  let here := after.skipSpace
  if here.rest.isEmpty then return value else here.failNext .trailingCharacters

/-! ## Positions -/

/-- The line of a byte index and the number of bytes before it on that line. -/
def position (text : List Char) (index : Nat) : Nat × Nat :=
  let rec go : List Char → Nat → Nat × Nat → Nat × Nat
    | [], _, place => place
    | c :: rest, left, (line, column) =>
      if left = 0 then (line, column)
      else if c = '\n' then go rest (left - 1) (line + 1, 0)
      else if left < c.utf8Size then (line, column + left)
      else go rest (left - c.utf8Size) (line, column + c.utf8Size)
  go text index (1, 0)

/-- The description of a failure, with its place in the text. -/
def Failure.describe (failure : Failure) (text : String) : String :=
  let (line, column) := position text.toList failure.index
  failure.fault.message ++ " at line " ++ toString line ++ " column " ++ toString column

/-- The parts of a text that a shape asks for, with the description of what is wrong otherwise. -/
def parseShaped (shape : Shape) (text : String) : Except String Json :=
  match readDocument shape text with
  | .ok value => .ok value
  | .error failure => .error (failure.describe text)

/-- The value of a text, with the description of what is wrong otherwise. -/
def parse (text : String) : Except String Json :=
  parseShaped .whole text

end Componentry.Json
