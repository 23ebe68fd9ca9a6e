import Componentry.Text.Blank

/-!
# Versions

Semantic versions, read leniently: blanks around the text and leading `v`s are dropped, and missing
minor and patch numbers are written as zeros before the text is read as a full version. Versions are
ordered by their numbers, then by their pre-release part, where a release comes last, and then by
their build part.
-/

namespace Componentry

/-- An identifier of a pre-release part. -/
inductive PreIdent where
  | numeric (value : Nat)
  | alphanumeric (text : String)
deriving DecidableEq, Repr

/-- A semantic version. -/
structure Version where
  major : Nat
  minor : Nat
  patch : Nat
  pre : List PreIdent := []
  /-- The identifiers of the build part as written; numeric ones may start with zeros. -/
  build : List String := []
deriving DecidableEq, Repr

def PreIdent.print : PreIdent → String
  | .numeric value => toString value
  | .alphanumeric text => text

namespace Version

/-- The text of a version. -/
def print (version : Version) : String :=
  let core := toString version.major ++ "." ++ toString version.minor ++ "." ++
    toString version.patch
  let pre := if version.pre.isEmpty then ""
    else "-" ++ String.intercalate "." (version.pre.map PreIdent.print)
  let build := if version.build.isEmpty then ""
    else "+" ++ String.intercalate "." version.build
  core ++ pre ++ build

/-! ## Reading -/

/-- The value of a run of decimal digits. -/
def digitsValue (digits : List Char) : Nat :=
  digits.foldl (fun value c => value * 10 + (c.toNat - '0'.toNat)) 0

/-- A decimal without leading zeros. -/
def isNumeral (chars : List Char) : Bool :=
  !chars.isEmpty && chars.all Char.isDigit && (chars.length == 1 || chars.head? != some '0')

/-- A number of the core of a version: a decimal without leading zeros that fits 64 bits. -/
def numeral? (chars : List Char) : Option Nat :=
  if isNumeral chars && digitsValue chars < Nat.pow 2 64 then some (digitsValue chars) else none

def isIdentChar (c : Char) : Bool :=
  c.isAlphanum || c == '-'

def isIdent (chars : List Char) : Bool :=
  !chars.isEmpty && chars.all isIdentChar

/-- An identifier of a pre-release part: a numeric one has no leading zeros. -/
def preIdent? (chars : List Char) : Option PreIdent :=
  if !isIdent chars then none
  else if chars.all Char.isDigit then
    if isNumeral chars then some (.numeric (digitsValue chars)) else none
  else some (.alphanumeric (String.ofList chars))

/-- An identifier of a build part. -/
def buildIdent? (chars : List Char) : Option String :=
  if isIdent chars then some (String.ofList chars) else none

/-- The pieces between dots. -/
def dotted (chars : List Char) : List (List Char) :=
  Text.pieces (· == '.') chars

/-- Reads the numbers of a version. -/
def core? (chars : List Char) : Option (Nat × Nat × Nat) := do
  match ← (dotted chars).mapM numeral? with
  | [major, minor, patch] => some (major, minor, patch)
  | _ => none

/-- Reads the build part after its mark, or its absence. -/
def buildPart? : List Char → Option (List String)
  | [] => some []
  | '+' :: rest => (dotted rest).mapM buildIdent?
  | _ => none

/-- Reads the pre-release part after its mark, or its absence. -/
def prePart? : List Char → Option (List PreIdent)
  | [] => some []
  | '-' :: rest => (dotted rest).mapM preIdent?
  | _ => none

/-- Whether a pre-release or build part starts here. -/
def isMark (c : Char) : Bool :=
  c == '-' || c == '+'

/-- Reads a full version. -/
def ofChars? (chars : List Char) : Option Version := do
  let suffix := chars.dropWhile (!isMark ·)
  let (major, minor, patch) ← core? (chars.takeWhile (!isMark ·))
  let pre ← prePart? (suffix.takeWhile (· != '+'))
  let build ← buildPart? (suffix.dropWhile (· != '+'))
  return { major, minor, patch, pre, build }

/-- A text with zeros for the numbers that are missing. The dots before the first mark say how many
numbers there are. -/
def padded (chars : List Char) : List Char :=
  let core := chars.takeWhile (!isMark ·)
  let suffix := chars.dropWhile (!isMark ·)
  match (dotted core).length with
  | 1 => core ++ (".0.0".toList ++ suffix)
  | 2 => core ++ (".0".toList ++ suffix)
  | _ => chars

/-- Reads a version. -/
def parse? (text : String) : Option Version :=
  ofChars? (padded ((Text.trim text).toList.dropWhile (· == 'v')))

/-! ## Order -/

/-- The order of lists by their first difference; a list comes after its beginnings. -/
def compareLists (order : α → α → Ordering) : List α → List α → Ordering
  | [], [] => .eq
  | [], _ :: _ => .lt
  | _ :: _, [] => .gt
  | x :: xs, y :: ys => (order x y).then (compareLists order xs ys)

/-- Numbers come before words. -/
def comparePreIdent : PreIdent → PreIdent → Ordering
  | .numeric x, .numeric y => compare x y
  | .numeric _, .alphanumeric _ => .lt
  | .alphanumeric _, .numeric _ => .gt
  | .alphanumeric x, .alphanumeric y => compare x y

/-- A release comes after its pre-releases. -/
def comparePre : List PreIdent → List PreIdent → Ordering
  | [], [] => .eq
  | [], _ :: _ => .gt
  | _ :: _, [] => .lt
  | left, right => compareLists comparePreIdent left right

/-- Numbers come before words and are ordered by value, then by the number of leading zeros. -/
def compareBuildIdent (left right : String) : Ordering :=
  match left.toList.all Char.isDigit, right.toList.all Char.isDigit with
  | true, true =>
    (compare (digitsValue left.toList) (digitsValue right.toList)).then
      (compare left.toList.length right.toList.length)
  | true, false => .lt
  | false, true => .gt
  | false, false => compare left right

/-- The order of versions. -/
protected def compare (left right : Version) : Ordering :=
  (compare left.major right.major).then <|
    (compare left.minor right.minor).then <|
      (compare left.patch right.patch).then <|
        (comparePre left.pre right.pre).then <|
          compareLists compareBuildIdent left.build right.build

/-- The order of two texts as versions, if both are versions. -/
def compareTexts? (left right : String) : Option Ordering := do
  return Version.compare (← parse? left) (← parse? right)

end Version

end Componentry
