import Componentry.TypeExpr.Print

/-!
# Normal forms of types

The text of a type leaves out some of the type. Object types with a name,
references, wrappers and type parameters are all printed as a name with
arguments, the members of a named object type and the constraint of a type
parameter are not printed, and a union or intersection of one member is printed
as that member. `normalize` takes away what the text leaves out.

Type arguments belong to a name. An object literal has no name, so that its
type arguments mean nothing and are not printed; `normalize` takes them away
too, unless it is told to keep them.

A type is *plain* if its names can be told from the rest of the text.
-/

namespace Componentry

namespace TypeExpr

/-! ## Normal forms -/

mutual

/-- The type as far as it is printed. Object literals lose their type arguments unless `keepArgs`
is set. -/
def normalize (keepArgs : Bool) : TypeExpr → TypeExpr
  | .primitive name => .primitive name
  | .literal value => .literal value
  | .array element => .array (element.normalize keepArgs)
  | .struct (some name) typeArgs _ => .reference name (normalizeAll keepArgs typeArgs)
  | .struct none typeArgs members =>
    .struct none (if keepArgs then normalizeAll keepArgs typeArgs else [])
      (normalizeMembers keepArgs members)
  | .reference name args => .reference name (normalizeAll keepArgs args)
  | .union [member] => member.normalize keepArgs
  | .union members => .union (normalizeAll keepArgs members)
  | .intersection [member] => member.normalize keepArgs
  | .intersection members => .intersection (normalizeAll keepArgs members)
  | .mapped wrapper args => .reference wrapper (normalizeAll keepArgs args)
  | .generic name _ => .reference name []
  | .function params returns =>
    .function (normalizeParams keepArgs params) (returns.normalize keepArgs)
  | .conditional text resolved => .conditional text resolved
  | .any => .any
  | .unknown => .unknown
  | .null => .null

def normalizeAll (keepArgs : Bool) : List TypeExpr → List TypeExpr
  | [] => []
  | type :: rest => type.normalize keepArgs :: normalizeAll keepArgs rest

def normalizeMembers (keepArgs : Bool) : List Member → List Member
  | [] => []
  | ⟨name, type, optional, readonly⟩ :: rest =>
    ⟨name, type.normalize keepArgs, optional, readonly⟩ :: normalizeMembers keepArgs rest

def normalizeParams (keepArgs : Bool) : List Parameter → List Parameter
  | [] => []
  | ⟨name, type, optional⟩ :: rest =>
    ⟨name, type.normalize keepArgs, optional⟩ :: normalizeParams keepArgs rest

end

theorem normalizeAll_eq_map (keepArgs : Bool) (types : List TypeExpr) :
    normalizeAll keepArgs types = types.map (normalize keepArgs) := by
  induction types with
  | nil => rfl
  | cons type rest ih => simp [normalizeAll, ih]

theorem normalizeMembers_eq_map (keepArgs : Bool) (members : List Member) :
    normalizeMembers keepArgs members =
      members.map fun member => { member with type := member.type.normalize keepArgs } := by
  induction members with
  | nil => rfl
  | cons member rest ih =>
    rcases member with ⟨name, type, optional, readonly⟩
    simp [normalizeMembers, ih]

theorem normalizeParams_eq_map (keepArgs : Bool) (params : List Parameter) :
    normalizeParams keepArgs params =
      params.map fun param => { param with type := param.type.normalize keepArgs } := by
  induction params with
  | nil => rfl
  | cons param rest ih =>
    rcases param with ⟨name, type, optional⟩
    simp [normalizeParams, ih]

/-! ## Plain types -/

/-- The characters in the text of a type that belong to no name. -/
def punctuation : List Char :=
  [' ', '"', '&', '(', ')', ',', ':', ';', '<', '=', '>', '?', '[', ']', '\x7b', '|', '\x7d']

def isNamePart (c : Char) : Bool :=
  !punctuation.contains c

/-- Every identifier of TypeScript is one, and so is every other text without punctuation. -/
def isIdentifier (name : String) : Bool :=
  !name.toList.isEmpty && name.toList.all isNamePart

/-- The words that are types by themselves and are not the keyword of a primitive. -/
def constants : List (String × TypeExpr) :=
  [("any", .any), ("unknown", .unknown), ("null", .null),
    ("true", .literal (.boolean true)), ("false", .literal (.boolean false))]

/-- Whether a text can be the name of a type, which no keyword can. -/
def isTypeName (name : String) : Bool :=
  isIdentifier name && (Primitive.ofKeyword? name).isNone && (constants.lookup name).isNone

mutual

/-- Whether the printed part of a type has no conditional type, no number, no empty union or
intersection, no string with a quote in it, and only identifiers for names. -/
def isPlain : TypeExpr → Bool
  | .primitive _ => true
  | .literal (.boolean _) => true
  | .literal (.number _) => false
  | .literal (.string value) => !value.toList.contains '"'
  | .array element => element.isPlain
  | .struct (some name) typeArgs _ => isTypeName name && areAllPlain typeArgs
  | .struct none _ members => areMembersPlain members
  | .reference name args => isTypeName name && areAllPlain args
  | .union members => !members.isEmpty && areAllPlain members
  | .intersection members => !members.isEmpty && areAllPlain members
  | .mapped wrapper args => isTypeName wrapper && areAllPlain args
  | .generic name _ => isTypeName name
  | .function params returns => areParamsPlain params && returns.isPlain
  | .conditional _ _ => false
  | .any => true
  | .unknown => true
  | .null => true

def areAllPlain : List TypeExpr → Bool
  | [] => true
  | type :: rest => type.isPlain && areAllPlain rest

def areMembersPlain : List Member → Bool
  | [] => true
  | ⟨name, type, _, _⟩ :: rest => isIdentifier name && type.isPlain && areMembersPlain rest

def areParamsPlain : List Parameter → Bool
  | [] => true
  | ⟨name, type, _⟩ :: rest => isIdentifier name && type.isPlain && areParamsPlain rest

end

theorem areAllPlain_eq_all (types : List TypeExpr) : areAllPlain types = types.all isPlain := by
  induction types with
  | nil => rfl
  | cons type rest ih => simp [areAllPlain, ih]

theorem areMembersPlain_eq_all (members : List Member) :
    areMembersPlain members =
      members.all fun member => isIdentifier member.name && member.type.isPlain := by
  induction members with
  | nil => rfl
  | cons member rest ih =>
    rcases member with ⟨name, type, optional, readonly⟩
    simp [areMembersPlain, ih]

theorem areParamsPlain_eq_all (params : List Parameter) :
    areParamsPlain params =
      params.all fun param => isIdentifier param.name && param.type.isPlain := by
  induction params with
  | nil => rfl
  | cons param rest ih =>
    rcases param with ⟨name, type, optional⟩
    simp [areParamsPlain, ih]

/-! ## Texts of lists -/

theorem printAll_eq_map (types : List TypeExpr) : printAll types = types.map print := by
  induction types with
  | nil => rfl
  | cons type rest ih => simp [printAll, ih]

/-- The text of a type as an operand. -/
def printOperand (type : TypeExpr) : String :=
  grouped type type.print

theorem printOperands_eq_map (types : List TypeExpr) :
    printOperands types = types.map printOperand := by
  induction types with
  | nil => rfl
  | cons type rest ih => simp [printOperands, printOperand, ih]

theorem printMembers_eq_map (members : List Member) :
    printMembers members = members.map Member.print := by
  induction members with
  | nil => rfl
  | cons member rest ih =>
    rcases member with ⟨name, type, optional, readonly⟩
    simp [printMembers, Member.print, ih]

/-- The text of a parameter of a function type. -/
def printParam (param : Parameter) : String :=
  param.name ++ (if param.optional then "?" else "") ++ ": " ++ param.type.print

theorem printParams_eq_map (params : List Parameter) :
    printParams params = params.map printParam := by
  induction params with
  | nil => rfl
  | cons param rest ih =>
    rcases param with ⟨name, type, optional⟩
    simp [printParams, printParam, ih]

end TypeExpr

end Componentry
