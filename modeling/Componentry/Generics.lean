import Componentry.Resolution

/-!
# Type parameters

How the type parameters of a component are declared and passed on, and what the parameters of a
declaration that the component uses are bound to.
-/

namespace Componentry

/-- The type parameters of a component. -/
structure Generics where
  /-- The printed parameters, such as `<T extends string = "a", U>`; empty without parameters. -/
  declaration : String
  names : List String
  form : declaration = "" ∨ ∃ inner, declaration = "<" ++ inner ++ ">"
deriving DecidableEq, Repr

namespace Generics

def isEmpty (generics : Generics) : Bool :=
  generics.names.isEmpty

/-- Texts in angle brackets, or nothing if there are none. -/
def bracketed (texts : List String) : String :=
  if texts.isEmpty then "" else "<" ++ ", ".intercalate texts ++ ">"

theorem bracketed_form (texts : List String) :
    bracketed texts = "" ∨ ∃ inner, bracketed texts = "<" ++ inner ++ ">" := by
  rw [bracketed]
  split
  · exact .inl rfl
  · exact .inr ⟨_, rfl⟩

/-- The argument list with `any` for each parameter. -/
def anyArguments (generics : Generics) : String :=
  bracketed (generics.names.map fun _ => "any")

/-- The argument list with the parameters themselves. -/
def forwardedArguments (generics : Generics) : String :=
  bracketed generics.names

/-- The printed form of a list of parameters. -/
def declare (params : List TypeParam) : Generics :=
  { declaration := bracketed (params.map TypeParam.print)
    names := params.map TypeParam.name
    form := bracketed_form _ }

def toJson (generics : Generics) : Json :=
  .object [("declaration", .string generics.declaration), ("names", .strings generics.names)]

end Generics

/-- What a parameter of a declaration is bound to. -/
inductive BindingTarget where
  /-- A parameter of the component. -/
  | component (name : String)
  /-- A type. -/
  | concrete (display documentation : String)
deriving DecidableEq, Repr

def BindingTarget.toJson : BindingTarget → Json
  | .component name => .object [("kind", .string "component"), ("name", .string name)]
  | .concrete display documentation =>
    .object [("kind", .string "concrete"), ("displayType", .string display),
      ("docType", .string documentation)]

/-- The binding of one parameter of a declaration. -/
structure Binding where
  formal : String
  target : BindingTarget
deriving DecidableEq, Repr

def Binding.toJson (binding : Binding) : Json :=
  .object [("formal", .string binding.formal), ("target", binding.target.toJson)]

namespace Scope

/-- The parameter of the component with the name, or else the one at the place. -/
def componentParameter? (generics : List TypeParam) (name : String) (index : Nat) :
    Option BindingTarget :=
  ((generics.find? (·.name == name)).or generics[index]?).map fun param => .component param.name

/-- Binds to the signature of a type. -/
def bindConcrete (scope : Scope) (type : TypeExpr) : Attempt BindingTarget := do
  let signature ← scope.resolve { position := .parameter } type
  return .concrete signature.display signature.doc

/-- Binds one parameter. A missing argument is replaced by the parameter's default; a type parameter
as argument, or the name of a parameter that has neither, is looked up among the component's
parameters by name and then by place. -/
def bindParameter (scope : Scope) (generics : List TypeParam) (formal : TypeParam) (index : Nat)
    (argument : Option TypeExpr) : Attempt BindingTarget :=
  match argument.or formal.default with
  | some (.generic name _) =>
    match componentParameter? generics name index with
    | some target => pure target
    | none => scope.bindConcrete (.parameter name)
  | some type => scope.bindConcrete type
  | none =>
    match componentParameter? generics formal.name index with
    | some target => pure target
    | none => scope.bindConcrete .any

/-- Binds the parameters from a place on, in order. -/
def bindFrom (scope : Scope) (generics : List TypeParam) (args : List TypeExpr) (index : Nat) :
    List TypeParam → Attempt (List Binding)
  | [] => pure []
  | formal :: rest => do
    let target ← scope.bindParameter generics formal index args[index]?
    let others ← bindFrom scope generics args (index + 1) rest
    return ⟨formal.name, target⟩ :: others

/-- Binds the parameters of a declaration that is used with some arguments in a component with some
parameters of its own. -/
def bindParameters (scope : Scope) (declaration : Declaration) (args : List TypeExpr)
    (generics : List TypeParam) : Attempt (List Binding) :=
  scope.bindFrom generics args 0 declaration.typeParams

end Scope

end Componentry
