import Componentry.Diagnostic
import Componentry.Json.Reader
import Componentry.Signature
import Componentry.Version

/-!
# Annotations

The documentation of a member as it is used, read from its tags. A tag that cannot be understood is
dropped and reported; the rest of the documentation stands.
-/

namespace Componentry

/-- The documentation of a member. -/
structure Annotations where
  description : Option String := none
  /-- The note of a deprecated member; it may be empty. -/
  deprecated : Option String := none
  since : Option String := none
  displayName : Option String := none
  defaultValue : Option Json := none
  /-- The editor that design tools offer for the property. -/
  editor : Option String := none
  /-- The tags that are passed on to design tools, in order. -/
  tags : OrderedMap String := .empty

namespace Annotations

instance : Inhabited Annotations := ⟨{}⟩

def isDeprecated (annotations : Annotations) : Bool :=
  annotations.deprecated.isSome

end Annotations

/-! ## Values and display types -/

/-- How far a character takes the nesting of brackets up or down. -/
def nestingStep (c : Char) : Int :=
  if c == '<' || c == '\x7b' || c == '(' then 1
  else if c == '>' || c == '\x7d' || c == ')' then -1
  else 0

/-- Cuts at the bars outside of brackets. The nesting may go below zero, and then a bar outside of
all brackets does not cut. -/
def splitBars (depth : Int) : List Char → List (List Char)
  | [] => [[]]
  | c :: rest =>
    if c == '|' && depth == 0 then [] :: splitBars depth rest
    else (splitBars (depth + nestingStep c) rest).modifyHead (c :: ·)

/-- The alternatives of a display type. -/
def displayParts (display : String) : List String :=
  (splitBars 0 display.toList).map fun part => String.ofList (Text.trimBlanks part)

namespace Json

def isNull : Json → Bool
  | .null => true
  | _ => false

def isBool : Json → Bool
  | .bool _ => true
  | _ => false

def isNumber : Json → Bool
  | .number _ => true
  | _ => false

def isString : Json → Bool
  | .string _ => true
  | _ => false

def isArray : Json → Bool
  | .array _ => true
  | _ => false

def isObject : Json → Bool
  | .object _ => true
  | _ => false

/-- Whether a value is of one alternative of a display type. Types that JSON has no form for are
not checked. -/
def matchesPart (value : Json) (part : String) : Bool :=
  match part with
  | "any" => true
  | "string" => value.isString
  | "number" => value.isNumber
  | "bigint" => value.isNumber || value.isString
  | "boolean" => value.isBool
  | "null" => value.isNull
  | "undefined" => false
  | "void" => false
  | "Function" => false
  | "symbol" => false
  | "object" => value.isObject || value.isNull
  | _ =>
    if part.startsWith "Array<" then value.isArray
    else if part.startsWith "\x7b" then value.isObject
    else true

/-- Whether a value is of a display type such as `string|null`. -/
def matchesDisplay (value : Json) (display : String) : Bool :=
  (displayParts display).any value.matchesPart

end Json

/-! ## Reading tags -/

/-- The text without blanks at its ends, if anything is left. -/
def nonBlank? (text : String) : Option String :=
  let trimmed := Text.trim text
  if trimmed.isEmpty then none else some trimmed

namespace Annotations

/-- The tag that names the editor. -/
def editorTag : String := "editor"

/-- Reads a default value, which has to be of the signature's display type and, if it is a text,
one of the enumeration values that are enforced. -/
def readDefault (raw : String) (signature : Option Signature) : Except AnnotationError Json := do
  let value ← match Json.parse (Text.trim raw) with
    | .ok value => pure value.merged
    | .error reason => throw (.unparsable "default" raw reason)
  match signature with
  | none => throw (.mistyped "default" raw "unknown")
  | some signature =>
    if !value.matchesDisplay signature.display then
      throw (.mistyped "default" raw signature.display)
    else
      match signature.runtimeEnumValues, value with
      | some values, .string text =>
        if values.contains text then return value
        else throw (.mistyped "default" raw signature.doc)
      | _, _ => return value

/-- Reads the tags in turn; the tag of the editor goes to its own field. -/
def readTags : List (String × String) → Annotations × List AnnotationError →
    Annotations × List AnnotationError
  | [], read => read
  | (tag, text) :: rest, (annotations, errors) =>
    if tag = editorTag then
      match nonBlank? text with
      | some editor => readTags rest ({ annotations with editor := some editor }, errors)
      | none => readTags rest (annotations, errors ++ [.empty tag])
    else readTags rest ({ annotations with tags := annotations.tags.insert tag text }, errors)

/-- The value of a tag that is there and was understood. -/
def understood (read : Option (Except AnnotationError α)) : Option α :=
  read.bind Except.toOption

/-- The error of a tag that is there and was not understood. -/
def refused (read : Option (Except AnnotationError α)) : List AnnotationError :=
  match read with
  | some (.error failure) => [failure]
  | _ => []

def readSince (text : String) : Except AnnotationError String :=
  if (Version.parse? text).isSome then .ok (Text.trim text)
  else .error (.invalidVersion "since" text)

def readDisplayName (text : String) : Except AnnotationError String :=
  match nonBlank? text with
  | some name => .ok name
  | none => .error (.empty "displayName")

/-- Reads documentation tags. Without a signature no default value is accepted. -/
def interpret (docs : DocTags) (signature : Option Signature) :
    Annotations × List AnnotationError :=
  let since := docs.since.map readSince
  let displayName := docs.displayName.map readDisplayName
  let defaultValue := docs.default.map (readDefault · signature)
  readTags docs.tags.entries
    ({ description := docs.description.bind nonBlank?
       deprecated := docs.deprecated.map Text.trim
       since := understood since
       displayName := understood displayName
       defaultValue := understood defaultValue },
     refused since ++ refused displayName ++ refused defaultValue)

end Annotations

end Componentry
