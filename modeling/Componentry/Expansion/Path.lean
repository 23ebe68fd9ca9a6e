import Componentry.NameSet

/-!
# Paths through an expansion

The way from a property of a component down to a member of its type. Each branch has a path of its
own: extending a path makes a new one and leaves the old one as it is.
-/

namespace Componentry

/-- A position inside the expansion of a property. -/
structure PropertyPath where
  /-- The property and the members on the way, outermost first. -/
  segments : List String
  /-- The names of the types that were entered on the way. -/
  seen : NameSet := .empty
  /-- The members on the way whose type is an array, outermost first. -/
  arrays : List String := []
deriving DecidableEq

namespace PropertyPath

/-- The path of a property of a component. -/
def root (name : String) : PropertyPath :=
  { segments := [name] }

/-- Goes on to a member. -/
def child (path : PropertyPath) (name : String) : PropertyPath :=
  { path with segments := path.segments ++ [name] }

/-- Enters a named type. -/
def visiting (path : PropertyPath) (typeName : String) : PropertyPath :=
  { path with seen := path.seen.insert typeName }

/-- Enters the type of the elements of an array. -/
def enteringArray (path : PropertyPath) : PropertyPath :=
  { path with arrays := path.arrays ++ [path.segments.getLast?.getD ""] }

/-- Whether a named type was entered on the way. -/
def hasSeen (path : PropertyPath) (typeName : String) : Bool :=
  path.seen.contains typeName

/-- Whether no member on the way is an array. -/
def isOutsideArrays (path : PropertyPath) : Bool :=
  path.arrays.isEmpty

def print (path : PropertyPath) : String :=
  ".".intercalate path.segments

/-- Enters a type if it has a name. -/
def entering (path : PropertyPath) : Option String → PropertyPath
  | some name => path.visiting name
  | none => path

/-- Enters the object type at the end of the path, which may be the element type of an array. -/
def enter (path : PropertyPath) (typeName : Option String) (array : Bool) : PropertyPath :=
  if array then (path.entering typeName).enteringArray else path.entering typeName

theorem subset_visiting (path : PropertyPath) (typeName : String) :
    path.seen.toList ⊆ (path.visiting typeName).seen.toList :=
  fun _ mem => mem_insertName.2 (.inr mem)

theorem mem_visiting (path : PropertyPath) (typeName : String) :
    typeName ∈ (path.visiting typeName).seen.toList :=
  mem_insertName.2 (.inl rfl)

theorem seen_child (path : PropertyPath) (name : String) : (path.child name).seen = path.seen :=
  rfl

theorem seen_enter (path : PropertyPath) (typeName : Option String) (array : Bool) :
    (path.enter typeName array).seen = (path.entering typeName).seen := by
  cases array <;> rfl

theorem subset_enter (path : PropertyPath) (typeName : Option String) (array : Bool) :
    path.seen.toList ⊆ (path.enter typeName array).seen.toList := by
  rw [seen_enter]
  cases typeName with
  | none => exact List.Subset.refl _
  | some name => exact path.subset_visiting name

theorem mem_enter (path : PropertyPath) (typeName : String) (array : Bool) :
    typeName ∈ (path.enter (some typeName) array).seen.toList := by
  rw [seen_enter]
  exact path.mem_visiting typeName

end PropertyPath

end Componentry
