import Componentry.TypeExpr.Basic

/-!
# TypeScript text of type expressions

A type is printed as TypeScript writes it. Members of unions and intersections and elements of
arrays are grouped by parentheses where the text would otherwise read differently. A string
literal is quoted with double quotes, and only the double quotes inside it are escaped.
-/

namespace Componentry

namespace Literal

/-- The primitive to which a literal widens. -/
def widened : Literal → Primitive
  | .boolean _ => .boolean
  | .number _ => .number
  | .string _ => .string

/-- Integers below this magnitude are written without passing through decimal digits. -/
def integerLimit : Nat := Nat.pow 10 15

/-- The text of a number. -/
def numberText (value : Double) : String :=
  match value.toInt? with
  | some integer => if integer.natAbs < integerLimit then toString integer else value.positionalText
  | none => value.positionalText

/-- The text of the value, without quotes. -/
def text : Literal → String
  | .boolean value => if value then "true" else "false"
  | .number value => numberText value
  | .string value => value

/-- A character of a string literal. -/
def escapeQuote (c : Char) : List Char :=
  if c = '"' then ['\\', '"'] else [c]

/-- The literal as a type. -/
def print : Literal → String
  | .string value => String.ofList ('"' :: value.toList.flatMap escapeQuote ++ ['"'])
  | value => value.text

end Literal

namespace TypeExpr

/-- A name with its type arguments. -/
def applied (name : String) (args : List String) : String :=
  if args.isEmpty then name else name ++ "<" ++ String.intercalate ", " args ++ ">"

/-- Whether the text of a type needs parentheses as an operand. -/
def needsParens : TypeExpr → Bool
  | .union members => 1 < members.length
  | .intersection members => 1 < members.length
  | .function _ _ => true
  | .conditional _ _ => true
  | _ => false

/-- The text of a type as an operand. -/
def grouped (type : TypeExpr) (text : String) : String :=
  if type.needsParens then "(" ++ text ++ ")" else text

/-- A member with the text of its type. -/
def memberText (name : String) (optional readonly : Bool) (type : String) : String :=
  (if readonly then "readonly " else "") ++ name ++ (if optional then "?" else "") ++ ": " ++ type

mutual

/-- The TypeScript text of a type. -/
def print : TypeExpr → String
  | .primitive name => name.keyword
  | .literal value => value.print
  | .array element => grouped element element.print ++ "[]"
  | .struct (some name) typeArgs _ => applied name (printAll typeArgs)
  | .struct none _ [] => "\x7b\x7d"
  | .struct none _ members =>
    "\x7b " ++ String.intercalate "; " (printMembers members) ++ " \x7d"
  | .reference name args => applied name (printAll args)
  | .union members => String.intercalate " | " (printOperands members)
  | .intersection members => String.intercalate " & " (printOperands members)
  | .mapped wrapper args => applied wrapper (printAll args)
  | .generic name _ => name
  | .function params returns =>
    "(" ++ String.intercalate ", " (printParams params) ++ ") => " ++ returns.print
  | .conditional text _ => text
  | .any => "any"
  | .unknown => "unknown"
  | .null => "null"

def printAll : List TypeExpr → List String
  | [] => []
  | type :: rest => type.print :: printAll rest

def printOperands : List TypeExpr → List String
  | [] => []
  | type :: rest => grouped type type.print :: printOperands rest

def printMembers : List Member → List String
  | [] => []
  | ⟨name, type, optional, readonly⟩ :: rest =>
    memberText name optional readonly type.print :: printMembers rest

def printParams : List Parameter → List String
  | [] => []
  | ⟨name, type, optional⟩ :: rest =>
    (name ++ (if optional then "?" else "") ++ ": " ++ type.print) :: printParams rest

end

end TypeExpr

/-- The text of a member of an object type. -/
def Member.print (member : Member) : String :=
  TypeExpr.memberText member.name member.optional member.readonly member.type.print

end Componentry
