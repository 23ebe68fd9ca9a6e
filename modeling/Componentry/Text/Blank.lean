/-!
# Blanks, lines and digits

Blank characters are those with the Unicode property White_Space. Trimming, words and lines are
defined on the characters of a text; `pieces` is the one way in which this library cuts a text at
separators.
-/

namespace Componentry.Text

/-- A character of the Unicode property White_Space. -/
def isBlank (c : Char) : Bool :=
  let code := c.toNat
  (9 ≤ code && code ≤ 13) || code == 0x20 || code == 0x85 || code == 0xA0 || code == 0x1680 ||
    (0x2000 ≤ code && code ≤ 0x200A) || code == 0x2028 || code == 0x2029 || code == 0x202F ||
    code == 0x205F || code == 0x3000

/-- Drops the blanks at both ends of a list of characters. -/
def trimBlanks (chars : List Char) : List Char :=
  ((chars.dropWhile isBlank).reverse.dropWhile isBlank).reverse

/-- The text without the blanks at its ends. -/
def trim (text : String) : String :=
  String.ofList (trimBlanks text.toList)

/-- The pieces between separators, empty ones included: one more than there are separators. -/
def pieces (isSeparator : Char → Bool) : List Char → List (List Char)
  | [] => [[]]
  | c :: rest =>
    if isSeparator c then [] :: pieces isSeparator rest
    else (pieces isSeparator rest).modifyHead (c :: ·)

theorem pieces_ne_nil (isSeparator : Char → Bool) (chars : List Char) :
    pieces isSeparator chars ≠ [] := by
  induction chars with
  | nil => simp [pieces]
  | cons c rest ih =>
    cases pieces_eq : pieces isSeparator rest with
    | nil => exact absurd pieces_eq ih
    | cons piece others => by_cases h : isSeparator c <;> simp [pieces, h, pieces_eq]

/-- The maximal runs of characters that are not blank. -/
def words (chars : List Char) : List (List Char) :=
  (pieces isBlank chars).filter (· ≠ [])

/-- Drops one carriage return at the end. -/
def dropReturn (chars : List Char) : List Char :=
  if chars.getLast? = some '\r' then chars.dropLast else chars

/-- The lines of a text. A line feed ends a line, a carriage return before it is dropped with it,
and nothing after the last line feed makes no line. -/
def lines (text : String) : List String :=
  let all := pieces (· == '\n') text.toList
  let ended := all.dropLast.map dropReturn
  let unended := (all.getLast?.toList).filter (· ≠ [])
  (ended ++ unended).map String.ofList

/-- The value of a decimal or hexadecimal digit. -/
def hexValue? (c : Char) : Option Nat :=
  if c.isDigit then some (c.toNat - '0'.toNat)
  else if 'a' ≤ c && c ≤ 'f' then some (c.toNat - 'a'.toNat + 10)
  else if 'A' ≤ c && c ≤ 'F' then some (c.toNat - 'A'.toNat + 10)
  else none

end Componentry.Text
