import Componentry.Diagnostic

/-!
# Attempts

An attempt to describe a part of a component either succeeds or finds a structural error, and in
both cases has raised some notices on the way. Notices are raised without regard to the
configuration; which of them are reported is decided where they become diagnostics.
-/

namespace Componentry

/-- Something about a component that may be worth reporting. -/
inductive Notice where
  /-- A deprecated declaration is used. -/
  | deprecated (name note : String)
  /-- A type has no description of its own and is taken for `object`. -/
  | degraded (reason : String)
  /-- A documentation tag of a member, or of the component if the name is empty, is dropped. -/
  | droppedTag (member : String) (error : AnnotationError)
  /-- The version that introduced the component cannot be read. -/
  | unknownSince (text : String)
deriving DecidableEq, Repr

namespace Notice

/-- The check that reports the notice, if it is about a type. -/
def category? : Notice → Option CheckCategory
  | .deprecated _ _ => some .deprecatedType
  | .degraded _ => some .unsupportedType
  | .droppedTag _ _ => none
  | .unknownSince _ => none

/-- The text that a notice is reported with. -/
def message : Notice → String
  | .deprecated name note =>
    "type `" ++ name ++ "` is deprecated" ++ (if note.isEmpty then "" else ": " ++ note)
  | .degraded reason => reason ++ ", using `object`"
  | .droppedTag member error => (if member.isEmpty then "" else member ++ ": ") ++ error.message
  | .unknownSince text =>
    "since `" ++ text ++ "` is not a version, legacy-named declarations are skipped"

end Notice

/-- A result or a structural error, with the notices raised before it was reached. -/
structure Attempt (α : Type) where
  outcome : Except StructuralError α
  notices : List Notice := []

namespace Attempt

variable {α β : Type}

/-- Goes on with the result, if there is one, and gathers the notices of both steps. -/
def andThen (attempt : Attempt α) (next : α → Attempt β) : Attempt β :=
  match attempt.outcome with
  | .error failure => ⟨.error failure, attempt.notices⟩
  | .ok value =>
    let after := next value
    ⟨after.outcome, attempt.notices ++ after.notices⟩

instance : Monad Attempt where
  pure value := ⟨.ok value, []⟩
  bind := andThen

/-- Raises notices and goes on. -/
def raise (notices : List Notice) : Attempt Unit := ⟨.ok (), notices⟩

def fail (failure : StructuralError) : Attempt α := ⟨.error failure, []⟩

/-- Fails if there is an error. -/
def require (failure : Option StructuralError) : Attempt Unit :=
  match failure with
  | some failure => fail failure
  | none => pure ()

/-- Makes an attempt on each element in order, up to the first that fails. -/
def traverse (step : α → Attempt β) : List α → Attempt (List β)
  | [] => pure []
  | head :: rest => do
    let first ← step head
    let others ← traverse step rest
    return first :: others

/-- Makes an attempt on each entry of a map in order and keeps the keys. -/
def traverseMap (step : String → α → Attempt β) (map : OrderedMap α) : Attempt (OrderedMap β) := do
  let entries ← traverse (fun (key, value) => do
    let result ← step key value
    return (key, result)) map.entries
  return OrderedMap.ofList entries

end Attempt

end Componentry
