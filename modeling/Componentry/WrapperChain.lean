import Componentry.Declaration

/-!
# Chains of wrappers

A type such as `Readonly<Partial<Foo<T>>>` is a chain of wrappers around a core type. A mapped type
is a wrapper as soon as it has an argument; a reference is one if it has an argument, bears the name
of a standard wrapper, and the model does not declare that name. The first argument is what is
wrapped, the other arguments belong to the wrapper. Unwinding a chain stops at the first type that
is not a wrapper, which is therefore the core, and the core of a wrapped type is smaller than the
type.
-/

namespace Componentry

/-- One layer of a chain: the wrapper's name and its arguments after the wrapped type. -/
structure Wrapper where
  name : String
  args : List TypeExpr

namespace Wrapper

/-- The names of the wrappers that may be written as plain references. -/
def standardNames : List String :=
  ["Partial", "Required", "Readonly", "Pick", "Omit", "NonNullable"]

/-- The printed arguments of a wrapper. -/
def params (wrapper : Wrapper) : List String :=
  wrapper.args.map TypeExpr.print

end Wrapper

namespace TypeExpr

mutual

/-- The names of the type parameters in a type, in the order in which they occur. -/
def parameterNames : TypeExpr → List String
  | .generic name _ => [name]
  | .array element => element.parameterNames
  | .union members => parameterNamesAll members
  | .intersection members => parameterNamesAll members
  | .reference _ args => parameterNamesAll args
  | .mapped _ args => parameterNamesAll args
  | .struct _ typeArgs members => parameterNamesAll typeArgs ++ parameterNamesMembers members
  | .function params returns => parameterNamesParams params ++ returns.parameterNames
  | .primitive _ => []
  | .literal _ => []
  | .conditional _ _ => []
  | .any => []
  | .unknown => []
  | .null => []

/-- The type parameters that several types mention, in order. -/
def parameterNamesAll : List TypeExpr → List String
  | [] => []
  | type :: rest => type.parameterNames ++ parameterNamesAll rest

def parameterNamesMembers : List Member → List String
  | [] => []
  | ⟨_, type, _, _⟩ :: rest => type.parameterNames ++ parameterNamesMembers rest

def parameterNamesParams : List Parameter → List String
  | [] => []
  | ⟨_, type, _⟩ :: rest => type.parameterNames ++ parameterNamesParams rest

end

/-- The type arguments of a reference or an object type. -/
def arguments : TypeExpr → List TypeExpr
  | .reference _ args => args
  | .struct _ typeArgs _ => typeArgs
  | _ => []

/-- The type parameters that the arguments of a type mention, each once. -/
def argumentParameters (type : TypeExpr) : List String :=
  (parameterNamesAll type.arguments).eraseDups

end TypeExpr

namespace TypeModel

/-- Whether a reference with this name is a wrapper. -/
def isWrapperName (model : TypeModel) (name : String) : Bool :=
  Wrapper.standardNames.contains name && !(model.find? name).isSome

/-- Whether a type is a wrapper around another one. -/
def isWrapper (model : TypeModel) : TypeExpr → Bool
  | .mapped _ (_ :: _) => true
  | .reference name (_ :: _) => model.isWrapperName name
  | _ => false

/-- The wrappers around a type, the outermost first. -/
def wrappers (model : TypeModel) : TypeExpr → List Wrapper
  | .mapped name (inner :: extra) => ⟨name, extra⟩ :: model.wrappers inner
  | .reference name (inner :: extra) =>
    if model.isWrapperName name then ⟨name, extra⟩ :: model.wrappers inner else []
  | _ => []
termination_by structural type => type

/-- What is left of a type without its wrappers. -/
def core (model : TypeModel) : TypeExpr → TypeExpr
  | .mapped _ (inner :: _) => model.core inner
  | .reference name (inner :: extra) =>
    if model.isWrapperName name then model.core inner else .reference name (inner :: extra)
  | type => type
termination_by structural type => type

theorem size_core_le (model : TypeModel) (type : TypeExpr) :
    (model.core type).size ≤ type.size := by
  fun_induction core model type with
  | case1 name inner extra ih | case2 name inner extra wrapper ih =>
    simp only [TypeExpr.size, TypeExpr.sizeAll]
    omega
  | case3 name inner extra | case4 type => exact Nat.le_refl _

theorem size_core_lt {model : TypeModel} {type : TypeExpr} (wrapped : model.isWrapper type = true) :
    (model.core type).size < type.size := by
  revert wrapped
  fun_cases isWrapper model type with
  | case1 name inner extra =>
    intro _
    have inner_le := size_core_le model inner
    simp only [core, TypeExpr.size, TypeExpr.sizeAll]
    omega
  | case2 name inner extra =>
    intro wrapper
    have inner_le := size_core_le model inner
    simp only [core, wrapper, if_true, TypeExpr.size, TypeExpr.sizeAll]
    omega
  | case3 => exact nofun

/-- The core of a chain is not itself a wrapper. -/
theorem isWrapper_core (model : TypeModel) (type : TypeExpr) :
    model.isWrapper (model.core type) = false := by
  fun_induction core model type with
  | case1 name inner extra ih => exact ih
  | case2 name inner extra wrapper ih => exact ih
  | case3 name inner extra plain => simpa [isWrapper] using plain
  | case4 type not_mapped not_reference =>
    match type with
    | .mapped name (inner :: extra) => exact absurd rfl (not_mapped name inner extra)
    | .reference name (inner :: extra) => exact absurd rfl (not_reference name inner extra)
    | .mapped _ [] | .reference _ [] => rfl
    | .primitive _ | .literal _ | .array _ | .struct _ _ _ | .union _ | .intersection _
    | .generic _ _ | .function _ _ | .conditional _ _ | .any | .unknown | .null => rfl

end TypeModel

end Componentry
