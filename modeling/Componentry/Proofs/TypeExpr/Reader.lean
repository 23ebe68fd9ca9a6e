import Componentry.Proofs.TypeExpr.NormalForm
import Componentry.Proofs.Statement.Ways

/-!
# A reader of types

`readType` reads a type at the start of a text and goes through the text once.
An opening parenthesis starts a function type or a group, and the first word
after it decides which: a parameter's name is followed by a colon or a question
mark, and the first operand of a group never is. Brackets after an operand are
counted before the array types are built, since the element of an array is
printed before its brackets.

What follows a type is one of a few characters that no type starts with, so that
it is known where a type ends (`Closes`, `EndsOperand`, `EndsBase`).
-/

namespace Componentry

open Pattern (dropWord?)

namespace TypeExpr

variable {rest : List Char} {name : String} {c : Char}

/-- Reads something at the start of a text and gives it back with the rest of the text. -/
abbrev Reader (α : Type) := List Char → Option (α × List Char)

/-! ## The reader -/

/-- One item or more with separators between them, but no more than `bound`. -/
def readSeparated {α : Type} (read : Reader α) (separator : List Char) : Nat → Reader (List α)
  | 0, _ => none
  | bound + 1, chars => do
    let (first, rest) ← read chars
    match dropWord? separator rest with
    | some rest => do
      let (others, rest) ← readSeparated read separator bound rest
      return (first :: others, rest)
    | none => return ([first], rest)

/-- The type that a word without arguments is. -/
def ofWord (word : String) : TypeExpr :=
  match Primitive.ofKeyword? word with
  | some keyword => .primitive keyword
  | none => (constants.lookup word).getD (.reference word [])

def takeName (chars : List Char) : String :=
  String.ofList (chars.takeWhile isNamePart)

def dropName (chars : List Char) : List Char :=
  chars.dropWhile isNamePart

/-- Wraps a type in an array for each pair of brackets. -/
def readBrackets (type : TypeExpr) : List Char → TypeExpr × List Char
  | '[' :: ']' :: rest => readBrackets (.array type) rest
  | rest => (type, rest)

section Parts

variable (inner : Reader TypeExpr) (bound : Nat)

def readNamed (chars : List Char) : Option (TypeExpr × List Char) :=
  match dropWord? ['<'] (dropName chars) with
  | some rest => do
    let (args, rest) ← readSeparated inner ", ".toList bound rest
    let rest ← dropWord? ['>'] rest
    return (.reference (takeName chars) args, rest)
  | none => some (ofWord (takeName chars), dropName chars)

/-- A name, the mark of an optional part, and a type. -/
def readField : Reader (String × Bool × TypeExpr) := fun chars => do
  let marked := dropWord? ['?'] (dropName chars)
  let rest ← dropWord? [':', ' '] (marked.getD (dropName chars))
  let (type, rest) ← inner rest
  return ((takeName chars, marked.isSome, type), rest)

def readParam : Reader Parameter := fun chars => do
  let ((name, optional, type), rest) ← readField inner chars
  return (⟨name, type, optional⟩, rest)

def readMember : Reader Member := fun chars => do
  let marked := dropWord? "readonly ".toList chars
  let ((name, optional, type), rest) ← readField inner (marked.getD chars)
  return (⟨name, type, optional, marked.isSome⟩, rest)

def readQuoted : Reader TypeExpr := fun chars => do
  let rest ← dropWord? ['"'] (chars.dropWhile (· != '"'))
  return (.literal (.string (String.ofList (chars.takeWhile (· != '"')))), rest)

def readObject : Reader TypeExpr := fun chars =>
  match dropWord? ['\x7d'] chars with
  | some rest => some (.struct none [] [], rest)
  | none => do
    let rest ← dropWord? [' '] chars
    let (members, rest) ← readSeparated (readMember inner) "; ".toList bound rest
    let rest ← dropWord? [' ', '\x7d'] rest
    return (.struct none [] members, rest)

def readGroup : Reader TypeExpr := fun chars => do
  let (type, rest) ← inner chars
  let rest ← dropWord? [')'] rest
  return (type, rest)

/-- A type that stands for itself as an operand, without the brackets after it. -/
def readBase : Reader TypeExpr
  | [] => none
  | c :: rest =>
    if c = '(' then readGroup inner rest
    else if c = '"' then readQuoted rest
    else if c = '\x7b' then readObject inner bound rest
    else readNamed inner bound (c :: rest)

def readOperand : Reader TypeExpr := fun chars => do
  let (type, rest) ← readBase inner bound chars
  return readBrackets type rest

/-- An operand, or a union or intersection of several. -/
def readChain : Reader TypeExpr := fun chars => do
  let (first, rest) ← readOperand inner bound chars
  match dropWord? " | ".toList rest with
  | some rest => do
    let (others, rest) ← readSeparated (readOperand inner bound) " | ".toList bound rest
    return (.union (first :: others), rest)
  | none =>
    match dropWord? " & ".toList rest with
    | some rest => do
      let (others, rest) ← readSeparated (readOperand inner bound) " & ".toList bound rest
      return (.intersection (first :: others), rest)
    | none => return (first, rest)

/-- Whether a text starts with the parameters of a function. -/
def startsFunction : List Char → Bool
  | '(' :: rest => (dropName rest).head?.any fun c => c == ':' || c == '?' || c == ')'
  | _ => false

/-- The rest of a function type after the opening parenthesis. -/
def readFunction : Reader TypeExpr := fun chars => do
  let (params, rest) ←
    if chars.head? = some ')' then some ([], chars)
    else readSeparated (readParam inner) ", ".toList bound chars
  let rest ← dropWord? ") => ".toList rest
  let (returns, rest) ← inner rest
  return (.function params returns, rest)

/-- A type, when the types inside it are read by `inner`. -/
def readStep : Reader TypeExpr := fun chars =>
  if startsFunction chars then readFunction inner bound chars.tail else readChain inner bound chars

end Parts

/-- Reads a type; types may be nested as deep as the budget allows. -/
def readType : Nat → Reader TypeExpr
  | 0 => fun _ => none
  | budget + 1 => readStep (readType budget) budget

/-! ## What follows a type -/

/-- A text that starts with what may stand after a type, if there is anything. -/
def Closes (rest : List Char) : Prop :=
  rest = [] ∨ (∃ c ∈ [')', '>', ',', ';'], rest.head? = some c) ∨
    ∃ tail, rest = ' ' :: '\x7d' :: tail

/-- A text that starts with what may stand after an operand and its brackets. -/
def EndsOperand (rest : List Char) : Prop :=
  Closes rest ∨ ∃ operator ∈ ['|', '&'], ∃ tail, rest = ' ' :: operator :: ' ' :: tail

/-- A text that starts with what may stand after an operand, brackets included. -/
def EndsBase (rest : List Char) : Prop :=
  ∀ c ∈ rest.head?, c ∈ [' ', ')', ',', ';', '>', '[']

theorem Closes.head_mem (closes : Closes rest) :
    ∀ c ∈ rest.head?, c ∈ [' ', ')', ',', ';', '>'] := by
  intro c head
  rcases closes with rfl | ⟨closer, closer_mem, closer_head⟩ | ⟨tail, rfl⟩
  · simp at head
  · rw [closer_head, Option.mem_some_iff] at head
    subst head
    simp only [List.mem_cons, List.not_mem_nil, or_false] at closer_mem
    rcases closer_mem with rfl | rfl | rfl | rfl <;> decide
  · simp only [List.head?_cons, Option.mem_some_iff] at head
    subst head
    decide

theorem EndsOperand.head_mem (ends : EndsOperand rest) :
    ∀ c ∈ rest.head?, c ∈ [' ', ')', ',', ';', '>'] := by
  rcases ends with closes | ⟨operator, _, tail, rfl⟩
  · exact closes.head_mem
  · simp

theorem EndsOperand.endsBase (ends : EndsOperand rest) : EndsBase rest :=
  fun c head => List.mem_append_left ['['] (ends.head_mem c head)

theorem EndsBase.not_isNamePart (ends : EndsBase rest) :
    ∀ c ∈ rest.head?, isNamePart c = false := by
  intro c head
  have c_mem := ends c head
  simp only [List.mem_cons, List.not_mem_nil, or_false] at c_mem
  rcases c_mem with rfl | rfl | rfl | rfl | rfl | rfl <;> decide

theorem dropWord?_of_head {word : List Char} (other : c ∉ rest.head?) :
    dropWord? (c :: word) rest = none := by
  cases rest with
  | nil => rfl
  | cons d tail =>
    rw [dropWord?, if_neg]
    rintro rfl
    simp at other

theorem EndsBase.dropWord? {word : List Char} (ends : EndsBase rest)
    (other : c ∉ [' ', ')', ',', ';', '>', '[']) : Pattern.dropWord? (c :: word) rest = none :=
  dropWord?_of_head fun head => other (ends c head)

theorem Closes.dropWord?_operator (closes : Closes rest) {operator : Char}
    (mem : operator ∈ ['|', '&']) : dropWord? [' ', operator, ' '] rest = none := by
  rcases closes with rfl | ⟨closer, closer_mem, closer_head⟩ | ⟨tail, rfl⟩
  · rfl
  · apply dropWord?_of_head
    intro head
    rw [closer_head, Option.mem_some_iff] at head
    simp [head] at closer_mem
  · simp only [List.mem_cons, List.not_mem_nil, or_false] at mem
    rcases mem with rfl | rfl <;> rfl

/-! ## Names -/

theorem stops_cons (separate : isNamePart c = false) (tail : List Char) :
    ∀ d ∈ (c :: tail).head?, isNamePart d = false := by
  simpa using separate

theorem takeName_append (identifier : isIdentifier name = true)
    (stops : ∀ c ∈ rest.head?, isNamePart c = false) :
    takeName (name.toList ++ rest) = name ∧ dropName (name.toList ++ rest) = rest := by
  simp only [isIdentifier, Bool.and_eq_true, List.all_eq_true] at identifier
  have rest_take : rest.takeWhile isNamePart = [] := by
    cases rest with
    | nil => rfl
    | cons c tail => simp [stops c rfl]
  have rest_drop : rest.dropWhile isNamePart = rest := by
    cases rest with
    | nil => rfl
    | cons c tail => simp [stops c rfl]
  constructor
  · rw [takeName, List.takeWhile_append_of_pos identifier.2, rest_take, List.append_nil,
      String.ofList_toList]
  · rw [dropName, List.dropWhile_append_of_pos identifier.2, rest_drop]

theorem exists_cons_of_isIdentifier (identifier : isIdentifier name = true) :
    ∃ c tail, name.toList = c :: tail ∧ isNamePart c = true := by
  simp only [isIdentifier, Bool.and_eq_true, List.all_eq_true] at identifier
  cases chars : name.toList with
  | nil => simp [chars] at identifier
  | cons c tail => exact ⟨c, tail, rfl, identifier.2 c (by simp [chars])⟩

theorem ofWord_of_isTypeName (typeName : isTypeName name = true) :
    ofWord name = .reference name [] := by
  simp only [isTypeName, Bool.and_eq_true, Option.isNone_iff_eq_none] at typeName
  rw [ofWord, typeName.1.2, typeName.2]
  rfl

theorem isIdentifier_of_isTypeName (typeName : isTypeName name = true) :
    isIdentifier name = true := by
  simp only [isTypeName, Bool.and_eq_true] at typeName
  exact typeName.1.1

/-! ## Lists -/

/-- If each item is read wherever a separator or the end of the list follows it, then the list is
read. -/
theorem readSeparated_intercalate {α β : Type} {read : Reader α} (separator : List Char)
    (text : β → List Char) (value : β → α) (Ends : List Char → Prop) {items : List β} {bound : Nat}
    (nonempty : items ≠ []) (short : items.length ≤ bound)
    (reads : ∀ item ∈ items, ∀ rest, Ends rest → read (text item ++ rest) = some (value item, rest))
    (separates : ∀ tail, Ends (separator ++ tail)) (ends : Ends rest)
    (no_more : dropWord? separator rest = none) :
    readSeparated read separator bound (separator.intercalate (items.map text) ++ rest) =
      some (items.map value, rest) := by
  induction items generalizing bound with
  | nil => exact absurd rfl nonempty
  | cons item others ih =>
    rcases bound with _ | bound
    · simp at short
    · have item_reads := reads item List.mem_cons_self
      cases others with
      | nil => simp [readSeparated, item_reads rest ends, no_more]
      | cons second others =>
        have others_short : (second :: others).length ≤ bound := by
          simpa using short
        have others_read := ih (by simp) others_short
          fun other mem => reads other (List.mem_cons_of_mem item mem)
        simp only [List.map_cons, List.intercalate_cons_cons, List.append_assoc]
          at others_read ⊢
        rw [readSeparated, item_reads _ (separates _)]
        simp [others_read]

theorem length_le_sizeAll (types : List TypeExpr) : types.length ≤ sizeAll types := by
  induction types with
  | nil => simp
  | cons type rest ih =>
    have := type.size_pos
    simp only [List.length_cons, sizeAll]
    omega

theorem sizeMembers_eq_sizeAll (members : List Member) :
    sizeMembers members = sizeAll (members.map Member.type) := by
  induction members with
  | nil => rfl
  | cons member rest ih =>
    rcases member with ⟨name, type, optional, readonly⟩
    simp [sizeMembers, sizeAll, ih]

theorem sizeParams_eq_sizeAll (params : List Parameter) :
    sizeParams params = sizeAll (params.map Parameter.type) := by
  induction params with
  | nil => rfl
  | cons param rest ih =>
    rcases param with ⟨name, type, optional⟩
    simp [sizeParams, sizeAll, ih]

/-! ## Brackets -/

def brackets (count : Nat) : List Char :=
  (List.replicate count ['[', ']']).flatten

def arrays : Nat → TypeExpr → TypeExpr
  | 0, type => type
  | count + 1, type => arrays count (.array type)

theorem readBrackets_brackets (count : Nat) (type : TypeExpr) {rest : List Char}
    (ends : '[' ∉ rest.head?) :
    readBrackets type (brackets count ++ rest) = (arrays count type, rest) := by
  induction count generalizing type with
  | zero =>
    rw [brackets, List.replicate_zero, List.flatten_nil, List.nil_append, arrays, readBrackets]
    rintro tail rfl
    simp at ends
  | succ count ih =>
    simp only [brackets, List.replicate_succ, List.flatten_cons, List.cons_append,
      List.nil_append]
    rw [readBrackets]
    exact ih (.array type)

end TypeExpr

end Componentry
