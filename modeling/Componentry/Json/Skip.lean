import Componentry.Json.Cursor

/-!
# Passing over JSON values

Moves over a value without reading it. The value has to follow the grammar, but what it says does
not matter: a number may have any size, an escape may name half of a surrogate pair, and brackets
may be nested to any depth.
-/

namespace Componentry.Json

/-- Moves over a string after its opening quote. -/
def skipString (rest : List Char) (index : Nat) : Except Failure Cursor :=
  match rest with
  | [] => .error ⟨.endInString, index⟩
  | c :: others =>
    if c = '"' then .ok ⟨others, index + 1⟩
    else if c = '\\' then
      match others with
      | [] => .error ⟨.endInString, index + 1⟩
      | escape :: after =>
        if escape = 'u' then
          match readHex after (index + 2) with
          | .error failure => .error failure
          | .ok _ => skipString (after.drop 4) (index + 6)
        else if escape ∈ ['"', '\\', '/', 'b', 'f', 'n', 'r', 't'] then skipString after (index + 2)
        else .error ⟨.invalidEscape, index + 2⟩
    else if c.toNat < 32 then .error ⟨.controlCharacter, index + 1⟩
    else skipString others (index + c.utf8Size)
termination_by rest.length
decreasing_by
  all_goals simp only [List.length_cons, List.length_drop]
  all_goals omega

/-- Moves over digits, of which there has to be one. -/
def skipDigits (cursor : Cursor) : Except Failure Cursor :=
  let run := cursor.rest.takeWhile Char.isDigit
  if run.isEmpty then cursor.failNext .invalidNumber else .ok (cursor.advance run.length)

/-- Moves over an exponent, if there is one. -/
def skipExponent (cursor : Cursor) : Except Failure Cursor :=
  match cursor.rest with
  | letter :: sign :: _ =>
    if letter = 'e' || letter = 'E' then
      skipDigits (cursor.advance (if sign = '+' || sign = '-' then 2 else 1))
    else .ok cursor
  | [letter] =>
    if letter = 'e' || letter = 'E' then skipDigits (cursor.advance 1) else .ok cursor
  | [] => .ok cursor

/-- Moves over a number after its sign. -/
def skipNumber (cursor : Cursor) : Except Failure Cursor := do
  let after ← skipDigits cursor
  match cursor.rest with
  | '0' :: next :: _ => if next.isDigit then (cursor.advance 1).failNext .invalidNumber
  | _ => pure ()
  match after.rest with
  | '.' :: _ => skipExponent (← skipDigits (after.advance 1))
  | _ => skipExponent after

/-- A value without brackets, from its first character on. `none` says that a bracket opens. -/
def skipScalar (cursor : Cursor) : Option (Except Failure Cursor) :=
  match cursor.rest with
  | [] => some (cursor.fail .endInValue)
  | 'n' :: _ => some ((readIdent ['u', 'l', 'l'] (cursor.advance 1)).map (·.2))
  | 't' :: _ => some ((readIdent ['r', 'u', 'e'] (cursor.advance 1)).map (·.2))
  | 'f' :: _ => some ((readIdent ['a', 'l', 's', 'e'] (cursor.advance 1)).map (·.2))
  | '"' :: rest => some (skipString rest (cursor.index + 1))
  | '-' :: _ => some (skipNumber (cursor.advance 1))
  | '[' :: _ => none
  | '\x7b' :: _ => none
  | c :: _ => some (if c.isDigit then skipNumber cursor else cursor.failNext .expectedValue)

/-- What is open around a value. -/
inductive Bracket where
  | square
  | curly
deriving DecidableEq, Repr

namespace Bracket

def closing : Bracket → Char
  | .square => ']'
  | .curly => '\x7d'

/-- The fault of a text that ends inside the bracket. -/
def atEnd : Bracket → Fault
  | .square => .endInList
  | .curly => .endInObject

/-- The fault of a value that is followed by something else. -/
def afterValue : Bracket → Fault
  | .square => .expectedCommaOrBracket
  | .curly => .expectedCommaOrBrace

/-- Moves to a value inside the bracket: over the key, if there is one. -/
def enter (bracket : Bracket) (cursor : Cursor) : Except Failure Cursor :=
  match bracket with
  | .square => .ok cursor
  | .curly =>
    let here := cursor.skipSpace
    match here.rest with
    | [] => here.fail .endInObject
    | '"' :: rest => do
      let colon := (← skipString rest (here.index + 1)).skipSpace
      match colon.rest with
      | [] => colon.fail .endInObject
      | ':' :: _ => .ok (colon.advance 1)
      | _ => colon.failNext .expectedColon
    | _ => here.failNext .keyNotString

end Bracket

/-- What the text goes on with. -/
inductive Stage where
  | value
  /-- A bracket has been opened. -/
  | opened
  /-- A value has been passed. -/
  | passed

/-- Moves to the end of the outermost value, with the brackets that are open, the innermost first.
The bound on the number of steps is never met: two steps take a character. -/
def skipFrom : Nat → Stage → List Bracket → Cursor → Except Failure Cursor
  | 0, _, _, cursor => cursor.fail .endInValue
  | bound + 1, .value, brackets, cursor =>
    let here := cursor.skipSpace
    match skipScalar here with
    | some (.error failure) => .error failure
    | some (.ok after) => skipFrom bound .passed brackets after
    | none =>
      let bracket := if here.rest.head? = some '[' then .square else .curly
      skipFrom bound .opened (bracket :: brackets) (here.advance 1)
  | _ + 1, _, [], cursor => .ok cursor
  | bound + 1, .opened, bracket :: brackets, cursor =>
    let here := cursor.skipSpace
    if here.rest.head? = some bracket.closing then
      skipFrom bound .passed brackets (here.advance 1)
    else
      match bracket.enter here with
      | .error failure => .error failure
      | .ok after => skipFrom bound .value (bracket :: brackets) after
  | bound + 1, .passed, bracket :: brackets, cursor =>
    let here := cursor.skipSpace
    match here.rest with
    | [] => here.fail bracket.atEnd
    | c :: _ =>
      if c = bracket.closing then skipFrom bound .passed brackets (here.advance 1)
      else if c = ',' then
        match bracket.enter (here.advance 1) with
        | .error failure => .error failure
        | .ok after => skipFrom bound .value (bracket :: brackets) after
      else here.failNext bracket.afterValue

/-- Moves over a value of a text of a length. -/
def skipValue (length : Nat) (cursor : Cursor) : Except Failure Cursor :=
  skipFrom (2 * length + 2) .value [] cursor

end Componentry.Json
