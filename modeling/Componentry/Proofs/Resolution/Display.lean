import Componentry.Proofs.Lists
import Componentry.Proofs.Resolution.Termination

/-!
# Display types

What resolution displays a type as, apart from everything else that it finds out.
`display?_union` is the whole of what it says about a union: one open member makes
all of it open, and otherwise the displays of the members that are not nullish are
joined, each once, with `null` at the end if it is a member.

Most display types are keywords or made of other display types. Only library
types and small object literals are displayed by their own text (`keepsText`), and
`Displayed` lists all the ways in which a type comes to be displayed.
-/

namespace Componentry

namespace Attempt

variable {α β : Type}

/-- The result of an attempt, if it succeeds. -/
def result? (attempt : Attempt α) : Option α :=
  attempt.outcome.toOption

@[simp]
theorem result?_pure (value : α) : (pure value : Attempt α).result? = some value :=
  rfl

@[simp]
theorem result?_bind (attempt : Attempt α) (next : α → Attempt β) :
    (attempt >>= next).result? = attempt.result?.bind fun value => (next value).result? := by
  rcases attempt with ⟨outcome, notices⟩
  cases outcome with
  | error failure => rfl
  | ok value => rfl

@[simp]
theorem result?_map (change : α → β) (attempt : Attempt α) :
    (change <$> attempt).result? = attempt.result?.map change := by
  rw [map_eq_pure_bind, result?_bind]
  cases attempt.result? with
  | none => rfl
  | some value => rfl

end Attempt

variable {type : TypeExpr}

namespace TypeExpr

theorem mem_flatten {types : List TypeExpr} {member : TypeExpr} :
    member ∈ flatten types ↔ ∃ type ∈ types, member ∈ flattenOne type := by
  induction types with
  | nil => simp [flatten]
  | cons type rest ih => simp [flatten, ih]

theorem isNullish_iff :
    type.isNullish = true ↔ type = .null ∨ type = .primitive .undefined := by
  cases type with
  | primitive keyword => cases keyword <;> simp [isNullish, isNull, isUndefined]
  | _ => simp [isNullish, isNull, isUndefined]

theorem any_isNull {types : List TypeExpr} : types.any isNull = true ↔ .null ∈ types := by
  rw [List.any_eq_true]
  constructor
  · rintro ⟨type, mem, null⟩
    cases type <;> simp [isNull] at null
    exact mem
  · exact fun mem => ⟨.null, mem, rfl⟩

end TypeExpr

namespace Scope

variable {scope : Scope} {context : Context} {seen : List String}

/-- The display type of a type, if the type can be resolved. -/
def display? (scope : Scope) (context : Context) (seen : List String) (type : TypeExpr) :
    Option String :=
  (scope.resolveWith context seen type).result?.map Signature.display

theorem result?_noteUse (declaration : Declaration) : (noteUse declaration).result? = some () := by
  rw [noteUse]
  split <;> rfl

theorem display?_array (element : TypeExpr) :
    scope.display? context seen (.array element) =
      (scope.display? context seen element).map fun display => "Array<" ++ display ++ ">" := by
  rw [display?, resolveWith, dif_neg (by simp [TypeModel.isWrapper]), Attempt.result?_bind,
    display?]
  cases (scope.resolveWith context seen element).result? <;> rfl

/-- A name that is kept as it is is displayed with its arguments. -/
theorem display?_reference_of_isWellKnown {name : String} {args : List TypeExpr}
    (bare : ¬ scope.model.isWrapper (.reference name args) = true)
    (known : scope.isWellKnown name = true) :
    scope.display? context seen (.reference name args) =
      some (TypeExpr.reference name args).print := by
  rw [display?, resolveWith, dif_neg bare]
  dsimp only
  split
  · rw [if_pos known]
    rfl
  · rw [Attempt.result?_bind, result?_noteUse, Option.bind_some, if_pos known]
    rfl

/-! ## Unions -/

/-- The display type of a union of members with these display types. -/
def unionDisplay (nullable : Bool) (displays : List String) : String :=
  if "any" ∈ displays then "any"
  else "|".intercalate displays.eraseDups ++ if nullable then "|null" else ""

theorem mapM_display? (types : List TypeExpr) :
    types.mapM (scope.display? context seen) =
      (scope.resolveAll context seen types).result?.map (List.map Signature.display) := by
  induction types with
  | nil => simp [resolveAll]
  | cons type rest ih =>
    rw [List.mapM_cons, ih, resolveAll, Attempt.result?_bind, display?]
    cases (scope.resolveWith context seen type).result? with
    | none => rfl
    | some first => cases others : (scope.resolveAll context seen rest).result? <;> simp [others]

theorem any_display_iff {members : List Signature} :
    members.any (·.display == "any") = true ↔ "any" ∈ members.map Signature.display := by
  simp

theorem intercalate_bar_ne_any {displays : List String} (no_any : "any" ∉ displays) :
    "|".intercalate displays ≠ "any" := by
  match displays with
  | [] => simp
  | [single] =>
    rw [List.mem_singleton] at no_any
    simpa using Ne.symm no_any
  | first :: second :: others =>
    intro same
    have bar : '|' ∈ ("|".intercalate (first :: second :: others)).toList := by
      simp
    rw [same] at bar
    simp at bar

theorem display_withNullish (signature : Signature) (nullable optional : Bool) :
    (signature.withNullish nullable optional).display =
      if signature.display = "any" then "any"
      else signature.display ++ if nullable then "|null" else "" := by
  rw [Signature.withNullish]
  by_cases any : signature.display = "any"
  · simp [any]
  · cases nullable <;> simp [any]

theorem display_unionOf (members : List Signature) (nullable optional : Bool) :
    ((Signature.unionOf members).withNullish nullable optional).display =
      unionDisplay nullable (members.map Signature.display) := by
  rw [display_withNullish, unionDisplay, Signature.unionOf]
  by_cases any : "any" ∈ members.map Signature.display
  · rw [if_pos any, if_pos (any_display_iff.2 any)]
    rfl
  · have joined := intercalate_bar_ne_any (mt List.mem_eraseDups.1 any)
    rw [if_neg any, if_neg (mt any_display_iff.1 any)]
    exact if_neg joined

theorem display_single (single : Signature) (nullable optional : Bool) :
    (single.withNullish nullable optional).display = unionDisplay nullable [single.display] := by
  rw [display_withNullish, unionDisplay]
  by_cases any : single.display = "any"
  · simp [any]
  · simp [any, Ne.symm any, List.eraseDups_cons]

theorem display?_union (members : List TypeExpr) :
    scope.display? context seen (.union members) =
      if (TypeExpr.flatten members).any TypeExpr.isOpen then some "any"
      else if (TypeExpr.presentMembers members).isEmpty then
        some (if (TypeExpr.flatten members).any TypeExpr.isNull then "null" else "undefined")
      else
        ((TypeExpr.presentMembers members).mapM (scope.display? context seen)).map
          (unionDisplay ((TypeExpr.flatten members).any TypeExpr.isNull)) := by
  rw [display?, resolveWith, dif_neg (by simp [TypeModel.isWrapper]), mapM_display?]
  dsimp only
  split
  · rfl
  · split
    · split <;> rfl
    · rw [Attempt.result?_bind]
      cases (scope.resolveAll context seen (TypeExpr.presentMembers members)).result? with
      | none => rfl
      | some signatures =>
        rw [Option.bind_some, Option.map_some, Option.map_some]
        split
        · rw [Attempt.result?_pure, Option.map_some, display_single]
          rfl
        · rw [Attempt.result?_pure, Option.map_some, display_unionOf]

/-! ## What displays are made of -/

/-- Whether a type that is no wrapper is displayed by its own text. -/
def keepsText (scope : Scope) : TypeExpr → Bool
  | .struct none _ members => !members.isEmpty && members.all (scope.isSimple ·.type)
  | .struct (some name) _ _ => scope.isWellKnown name
  | .reference name _ => scope.isWellKnown name
  | _ => false

/-- The display types that are made of no others and of no text. -/
def displayKeywords : List String :=
  "any" :: "null" :: "Function" :: Primitive.all.map Primitive.keyword

/-- The ways in which a type comes to be displayed. -/
inductive Displayed (scope : Scope) (context : Context) (seen : List String) (type : TypeExpr) :
    String → Prop
  | keyword {display : String} (mem : display ∈ displayKeywords) :
      Displayed scope context seen type display
  | text (kept : scope.keepsText type = true) : Displayed scope context seen type type.print
  | passed {innerSeen : List String} {inner : TypeExpr} {display : String}
      (call : scope.Calls (innerSeen, inner) (seen, type))
      (shown : scope.display? context innerSeen inner = some display) :
      Displayed scope context seen type display
  | array {element : TypeExpr} {display : String} (type_eq : type = .array element)
      (shown : scope.display? context seen element = some display) :
      Displayed scope context seen type ("Array<" ++ display ++ ">")
  | union {members : List TypeExpr} {displays : List String} (nullable : Bool)
      (type_eq : type = .union members)
      (shown : (TypeExpr.presentMembers members).mapM (scope.display? context seen) =
        some displays) :
      Displayed scope context seen type (unionDisplay nullable displays)

theorem keyword_mem_displayKeywords (keyword : Primitive) : keyword.keyword ∈ displayKeywords := by
  simp only [displayKeywords, List.mem_cons]
  exact .inr (.inr (.inr (List.mem_map_of_mem keyword.mem_all)))

theorem display_namedObject (printed name : String) (exported : Bool) :
    (Signature.namedObject context printed name exported).display = "object" := by
  rw [Signature.namedObject, Signature.markTypedef]
  split <;> rfl

theorem result?_degrade (reason printed : String) :
    (degrade context reason printed).result? = some (.documented "object" printed) := by
  rw [degrade]
  split <;> rfl

theorem display_aliasSignature (declaration : Declaration) (printed : String) (body : Signature) :
    (aliasSignature context declaration printed body).display = body.display := by
  rw [aliasSignature]
  split
  · rw [Signature.markTypedef]
    split <;> rfl
  · rfl

variable {display : String}

theorem displayed_struct {name : Option String} {typeArgs : List TypeExpr} {members : List Member}
    (shown : scope.display? context seen (.struct name typeArgs members) = some display) :
    Displayed scope context seen (.struct name typeArgs members) display := by
  rw [display?, resolveWith, dif_neg (by simp [TypeModel.isWrapper])] at shown
  have object : "object" ∈ displayKeywords := keyword_mem_displayKeywords .object
  cases name with
  | none =>
    simp only [resolveStruct, Attempt.result?_pure, Option.map_some] at shown
    cases shown
    by_cases readable : (!members.isEmpty && members.all (scope.isSimple ·.type)) = true
    · rw [if_pos readable]
      exact .text readable
    · rw [if_neg readable]
      exact .keyword object
  | some name =>
    simp only [resolveStruct] at shown
    split at shown
    · rename_i known
      cases shown
      exact .text known
    · have display_eq : display = "object" := by
        split at shown
        · simpa [result?_noteUse, display_namedObject] using shown.symm
        · simpa [display_namedObject] using shown.symm
      rw [display_eq]
      exact .keyword object

theorem displayed_enumeration (declaration : Declaration) :
    Displayed scope context seen type (Signature.ofEnumeration declaration).display := by
  apply Displayed.keyword
  change (if _ then "number" else "string") ∈ displayKeywords
  split
  · exact keyword_mem_displayKeywords .number
  · exact keyword_mem_displayKeywords .string

theorem displayed_union {members : List TypeExpr}
    (shown : scope.display? context seen (.union members) = some display) :
    Displayed scope context seen (.union members) display := by
  rw [display?_union] at shown
  split at shown
  · cases shown
    exact .keyword List.mem_cons_self
  · split at shown
    · cases shown
      apply Displayed.keyword
      split <;> decide
    · rw [Option.map_eq_some_iff] at shown
      rcases shown with ⟨displays, own_shown, rfl⟩
      exact .union _ rfl own_shown

theorem displayed_intersection {members : List TypeExpr}
    (shown : scope.display? context seen (.intersection members) = some display) :
    Displayed scope context seen (.intersection members) display := by
  rw [display?, resolveWith, dif_neg (by simp [TypeModel.isWrapper])] at shown
  have object : "object" ∈ displayKeywords := keyword_mem_displayKeywords .object
  dsimp only at shown
  split at shown
  · rename_i candidate branded
    rw [Attempt.result?_bind] at shown
    cases candidate_eq : (scope.resolveWith context seen candidate).result? with
    | none => simp [candidate_eq] at shown
    | some signature =>
      rw [candidate_eq, Option.bind_some] at shown
      cases shown
      split
      · exact .passed (.branded branded) (by simp [display?, candidate_eq])
      · exact .keyword object
  · cases shown
    exact .keyword object

theorem displayed_reference {name : String} {args : List TypeExpr}
    (bare : ¬ scope.model.isWrapper (.reference name args) = true)
    (shown : scope.display? context seen (.reference name args) = some display) :
    Displayed scope context seen (.reference name args) display := by
  have object : "object" ∈ displayKeywords := keyword_mem_displayKeywords .object
  by_cases known : scope.isWellKnown name = true
  · rw [display?_reference_of_isWellKnown bare known] at shown
    cases shown
    exact .text known
  · rw [display?, resolveWith, dif_neg bare] at shown
    dsimp only at shown
    split at shown
    · rw [if_neg known, result?_degrade] at shown
      cases shown
      exact .keyword object
    · rename_i declaration found
      rw [Attempt.result?_bind, result?_noteUse, Option.bind_some, if_neg known] at shown
      cases kind : declaration.kind with
      | enumeration =>
        simp only [kind] at shown
        cases shown
        exact displayed_enumeration declaration
      | interface | classType =>
        simp only [kind, Attempt.result?_pure, Option.map_some, display_namedObject] at shown
        cases shown
        exact .keyword object
      | typeAlias =>
        simp only [kind] at shown
        split at shown
        · cases shown
          exact .keyword List.mem_cons_self
        · rename_i fresh
          apply Displayed.passed (.aliased found kind fresh)
          rw [display?, ← shown, Attempt.result?_bind]
          cases (scope.resolveWith context (name :: seen) declaration.body).result? with
          | none => rfl
          | some body => simp [display_aliasSignature]

theorem displayed_of_display? (shown : scope.display? context seen type = some display) :
    Displayed scope context seen type display := by
  by_cases wrapped : scope.model.isWrapper type = true
  · apply Displayed.passed (.core wrapped)
    rw [display?, resolveWith, dif_pos wrapped] at shown
    rw [display?, ← shown, Attempt.result?_bind]
    cases (scope.resolveWith context seen (scope.model.core type)).result? <;> rfl
  · cases type with
    | struct name typeArgs members => exact displayed_struct shown
    | reference name args => exact displayed_reference wrapped shown
    | union members => exact displayed_union shown
    | intersection members => exact displayed_intersection shown
    | array element =>
      rw [display?_array, Option.map_eq_some_iff] at shown
      rcases shown with ⟨own, own_shown, rfl⟩
      exact .array rfl own_shown
    | conditional text resolved =>
      rw [display?, resolveWith, dif_neg wrapped] at shown
      cases resolved with
      | some branch => exact .passed .branch shown
      | none =>
        dsimp only at shown
        split at shown
        · simp [Attempt.fail, Attempt.result?, Except.toOption] at shown
        · cases shown
          exact .keyword List.mem_cons_self
    | primitive keyword =>
      rw [display?, resolveWith, dif_neg wrapped] at shown
      cases shown
      exact .keyword (keyword_mem_displayKeywords keyword)
    | literal value =>
      rw [display?, resolveWith, dif_neg wrapped] at shown
      cases shown
      exact .keyword (keyword_mem_displayKeywords value.widened)
    | mapped wrapper args =>
      rw [display?, resolveWith, dif_neg wrapped] at shown
      dsimp only at shown
      rw [result?_degrade] at shown
      cases shown
      exact .keyword (keyword_mem_displayKeywords .object)
    | generic name constraint =>
      rw [display?, resolveWith, dif_neg wrapped] at shown
      cases shown
      exact .keyword List.mem_cons_self
    | function params returns =>
      rw [display?, resolveWith, dif_neg wrapped] at shown
      cases shown
      exact .keyword (List.mem_of_elem_eq_true rfl)
    | _ =>
      rw [display?, resolveWith, dif_neg wrapped] at shown
      cases shown
      exact .keyword (by decide)

end Scope

end Componentry
