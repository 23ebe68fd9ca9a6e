import Componentry.Number.Shortest

/-!
# Type expressions

The structural types of a component's public surface, as a front end describes them. A type
expression is only walked, never checked: references are looked up in a type model, mapped
wrappers such as `Partial<T>` and conditional types are kept as written.
-/

namespace Componentry

/-- The types that have a keyword of their own. -/
inductive Primitive where
  | string
  | number
  | boolean
  | bigint
  | symbol
  | void
  | undefined
  | never
  | object
deriving DecidableEq, Repr

namespace Primitive

/-- The primitives in declaration order. -/
def all : List Primitive :=
  [.string, .number, .boolean, .bigint, .symbol, .void, .undefined, .never, .object]

/-- The keyword of a primitive. -/
def keyword : Primitive → String
  | .string => "string"
  | .number => "number"
  | .boolean => "boolean"
  | .bigint => "bigint"
  | .symbol => "symbol"
  | .void => "void"
  | .undefined => "undefined"
  | .never => "never"
  | .object => "object"

/-- The primitive with a keyword. -/
def ofKeyword? (text : String) : Option Primitive :=
  all.find? (·.keyword == text)

theorem mem_all (primitive : Primitive) : primitive ∈ all := by
  cases primitive <;> decide

@[simp]
theorem ofKeyword?_keyword (primitive : Primitive) :
    ofKeyword? primitive.keyword = some primitive := by
  cases primitive <;> decide

end Primitive

/-- The value of a literal type. -/
inductive Literal where
  | boolean (value : Bool)
  | number (value : Double)
  | string (value : String)
deriving DecidableEq, Repr

mutual

/-- A structural type. -/
inductive TypeExpr where
  /-- A primitive such as `string`. -/
  | primitive (name : Primitive)
  /-- A literal such as `"a"` or `42`. -/
  | literal (value : Literal)
  /-- An array `T[]`. -/
  | array (element : TypeExpr)
  /-- An object type, an interface or a class; without a name it is an object literal. -/
  | struct (name : Option String) (typeArgs : List TypeExpr) (members : List Member)
  /-- A named type that the model may declare. -/
  | reference (name : String) (args : List TypeExpr)
  /-- A union `A | B`. -/
  | union (members : List TypeExpr)
  /-- An intersection `A & B`. -/
  | intersection (members : List TypeExpr)
  /-- A wrapper such as `Partial<T>`: its first argument is the wrapped type. -/
  | mapped (wrapper : String) (args : List TypeExpr)
  /-- A type parameter. -/
  | generic (name : String) (constraint : Option TypeExpr)
  /-- A function type. -/
  | function (params : List Parameter) (returns : TypeExpr)
  /-- A conditional type, with the branch that was chosen if one was. -/
  | conditional (text : String) (resolved : Option TypeExpr)
  | any
  | unknown
  | null

/-- A member of an object type. -/
structure Member where
  name : String
  type : TypeExpr
  optional : Bool
  readonly : Bool

/-- A parameter of a function type. -/
structure Parameter where
  name : String
  type : TypeExpr
  optional : Bool

end

namespace TypeExpr

instance : Inhabited TypeExpr := ⟨.any⟩

def isPrimitive : TypeExpr → Bool
  | .primitive _ => true
  | _ => false

/-- Whether a type is `undefined`. -/
def isUndefined : TypeExpr → Bool
  | .primitive .undefined => true
  | _ => false

/-- Whether a type is `null`. -/
def isNull : TypeExpr → Bool
  | .null => true
  | _ => false

/-- The types that say that a value may be missing. -/
def isNullish (type : TypeExpr) : Bool :=
  type.isNull || type.isUndefined

def isFunction : TypeExpr → Bool
  | .function _ _ => true
  | _ => false

/-- The name of an object type or a reference. -/
def typeName? : TypeExpr → Option String
  | .struct name _ _ => name
  | .reference name _ => some name
  | _ => none

/-- The object type without name and members. -/
def isEmptyMarker : TypeExpr → Bool
  | .struct none _ [] => true
  | _ => false

mutual

/-- The members of a list of types in which unions are replaced by their members, at any depth. -/
def flatten : List TypeExpr → List TypeExpr
  | [] => []
  | type :: rest => flattenOne type ++ flatten rest

/-- The members of a union at any depth; any other type is its own only member. -/
def flattenOne : TypeExpr → List TypeExpr
  | .union members => flatten members
  | .primitive name => [.primitive name]
  | .literal value => [.literal value]
  | .array element => [.array element]
  | .struct name typeArgs members => [.struct name typeArgs members]
  | .reference name args => [.reference name args]
  | .intersection members => [.intersection members]
  | .mapped wrapper args => [.mapped wrapper args]
  | .generic name constraint => [.generic name constraint]
  | .function params returns => [.function params returns]
  | .conditional text resolved => [.conditional text resolved]
  | .any => [.any]
  | .unknown => [.unknown]
  | .null => [.null]

end

mutual

/-- The number of nodes of a type. -/
def size : TypeExpr → Nat
  | .primitive _ => 1
  | .literal _ => 1
  | .array element => element.size + 1
  | .struct _ typeArgs members => sizeAll typeArgs + sizeMembers members + 1
  | .reference _ args => sizeAll args + 1
  | .union members => sizeAll members + 1
  | .intersection members => sizeAll members + 1
  | .mapped _ args => sizeAll args + 1
  | .generic _ none => 1
  | .generic _ (some constraint) => constraint.size + 1
  | .function params returns => sizeParams params + returns.size + 1
  | .conditional _ none => 1
  | .conditional _ (some branch) => branch.size + 1
  | .any => 1
  | .unknown => 1
  | .null => 1

/-- The size of several types together. -/
def sizeAll : List TypeExpr → Nat
  | [] => 0
  | type :: rest => type.size + sizeAll rest

def sizeMembers : List Member → Nat
  | [] => 0
  | ⟨_, type, _, _⟩ :: rest => type.size + sizeMembers rest

def sizeParams : List Parameter → Nat
  | [] => 0
  | ⟨_, type, _⟩ :: rest => type.size + sizeParams rest

end

theorem size_pos (type : TypeExpr) : 0 < type.size := by
  cases type with
  | generic name constraint => cases constraint <;> simp [size]
  | conditional text resolved => cases resolved <;> simp [size]
  | _ => simp [size]

theorem sizeAll_append (left right : List TypeExpr) :
    sizeAll (left ++ right) = sizeAll left + sizeAll right := by
  induction left with
  | nil => simp [sizeAll]
  | cons type rest ih => simp [sizeAll, ih, Nat.add_assoc]

theorem size_le_sizeAll {type : TypeExpr} {types : List TypeExpr} (mem : type ∈ types) :
    type.size ≤ sizeAll types := by
  induction types with
  | nil => simp at mem
  | cons head rest ih =>
    rcases List.mem_cons.1 mem with rfl | mem
    · simp [sizeAll]
    · have := ih mem
      simp only [sizeAll]
      omega

theorem size_le_sizeMembers {member : Member} {members : List Member} (mem : member ∈ members) :
    member.type.size ≤ sizeMembers members := by
  induction members with
  | nil => simp at mem
  | cons head rest ih =>
    obtain ⟨name, type, optional, readonly⟩ := head
    rcases List.mem_cons.1 mem with rfl | mem
    · simp [sizeMembers]
    · have := ih mem
      simp only [sizeMembers]
      omega

mutual

theorem sizeAll_flatten_le (types : List TypeExpr) : sizeAll (flatten types) ≤ sizeAll types := by
  match types with
  | [] => simp [flatten, sizeAll]
  | type :: rest =>
    have head := sizeAll_flattenOne_le type
    have tail := sizeAll_flatten_le rest
    simp only [flatten, sizeAll_append, sizeAll]
    omega

theorem sizeAll_flattenOne_le (type : TypeExpr) : sizeAll (flattenOne type) ≤ type.size := by
  match type with
  | .union members =>
    have inner := sizeAll_flatten_le members
    simp only [flattenOne, size]
    omega
  | .primitive _ | .literal _ | .array _ | .struct _ _ _ | .reference _ _ | .intersection _
  | .mapped _ _ | .generic _ _ | .function _ _ | .conditional _ _ | .any | .unknown | .null =>
    simp [flattenOne, sizeAll]

end

/-! ## Constructors for common types -/

def string : TypeExpr := .primitive .string

def number : TypeExpr := .primitive .number

def boolean : TypeExpr := .primitive .boolean

/-- The type of a method without a result. -/
def void : TypeExpr := .primitive .void

def undefined : TypeExpr := .primitive .undefined

/-- The type of one string. -/
def stringLiteral (value : String) : TypeExpr := .literal (.string value)

def numberLiteral (value : Double) : TypeExpr := .literal (.number value)

/-- A reference without type arguments. -/
def named (name : String) : TypeExpr := .reference name []

/-- An object literal. -/
def object (members : List Member) : TypeExpr := .struct none [] members

/-- A named object type without type arguments. -/
def namedStruct (name : String) (members : List Member) : TypeExpr := .struct (some name) [] members

/-- A wrapper around one type. -/
def wrapped (wrapper : String) (inner : TypeExpr) : TypeExpr := .mapped wrapper [inner]

/-- A type parameter without constraint. -/
def parameter (name : String) : TypeExpr := .generic name none

end TypeExpr

end Componentry
