import Componentry.Attempt
import Componentry.Config
import Componentry.Signature
import Componentry.Unseen

/-!
# Resolution of types

Every type has a signature. What a type model does not explain is taken for `object`, with a
notice; the only structural error is a conditional type without a chosen branch in a position that
needs a concrete type. An alias is followed at most once on a way down, so resolution ends: each
step goes to a smaller type or enters an alias that was not yet followed.
-/

namespace Componentry

namespace TypeExpr

/-- The types that say nothing about a value. -/
def isOpen : TypeExpr → Bool
  | .any => true
  | .unknown => true
  | _ => false

/-- The members of a union that say what a present value is. -/
def presentMembers (members : List TypeExpr) : List TypeExpr :=
  (flatten members).filter (!·.isNullish)

/-- The type that is branded with an empty object type, such as `string` in `string & {}`. -/
def brandedType? : List TypeExpr → Option TypeExpr
  | [left, right] =>
    match left.isEmptyMarker, right.isEmptyMarker with
    | false, true => some left
    | true, false => some right
    | _, _ => none
  | _ => none

theorem sizeAll_presentMembers_le (members : List TypeExpr) :
    sizeAll (presentMembers members) ≤ sizeAll members := by
  have filter_le (types : List TypeExpr) :
      sizeAll (types.filter (!·.isNullish)) ≤ sizeAll types := by
    induction types with
    | nil => simp [sizeAll]
    | cons type rest ih =>
      rw [List.filter_cons]
      split <;> simp only [sizeAll] <;> omega
  exact Nat.le_trans (filter_le (flatten members)) (sizeAll_flatten_le members)

theorem size_brandedType?_le {members : List TypeExpr} {type : TypeExpr}
    (branded : brandedType? members = some type) : type.size ≤ sizeAll members := by
  unfold brandedType? at branded
  split at branded
  · split at branded
    · cases branded
      simp [sizeAll]
    · cases branded
      simp [sizeAll]
    · simp at branded
  · simp at branded

end TypeExpr

theorem TypeModel.mem_names_of_find? {model : TypeModel} {name : String} {declaration : Declaration}
    (found : model.find? name = some declaration) : name ∈ model.names := by
  simp only [TypeModel.find?, OrderedMap.get?, lookup, Option.map_eq_some_iff] at found
  obtain ⟨entry, entry_found, _⟩ := found
  have mem := List.mem_of_find?_eq_some entry_found
  have key := List.find?_some entry_found
  simp only [beq_iff_eq] at key
  exact List.mem_map.2 ⟨entry, mem, key⟩

theorem TypeModel.name_of_find? {model : TypeModel} {name : String} {declaration : Declaration}
    (found : model.find? name = some declaration) : declaration.name = name := by
  simp only [TypeModel.find?, OrderedMap.get?, lookup, Option.map_eq_some_iff] at found
  obtain ⟨entry, entry_found, entry_value⟩ := found
  have mem := List.mem_of_find?_eq_some entry_found
  have key := List.find?_some entry_found
  simp only [beq_iff_eq] at key
  rw [← entry_value, ← model.keyed entry mem, key]

/-- What names mean while types are resolved. -/
structure Scope where
  model : TypeModel
  /-- Further names that are kept as they are. -/
  wellKnown : NameSet := .empty

namespace Scope

/-- The library types that are kept as they are and never expanded. -/
def libraryTypes : List String :=
  ["Date", "Map", "Set", "Promise", "Record", "HTMLElement", "Element", "Node", "Event",
    "CustomEvent", "RegExp", "Error", "ReadonlyArray", "WeakMap", "WeakSet", "File", "Blob"]

/-- What names mean in a model, with the types that a configuration keeps as they are. -/
def ofConfig (model : TypeModel) (config : Config) : Scope :=
  ⟨model, config.wellKnownTypes⟩

/-- Whether a name is kept as it is and never expanded. -/
def isWellKnown (scope : Scope) (name : String) : Bool :=
  libraryTypes.contains name || scope.wellKnown.contains name ||
    (scope.model.find? name).any Declaration.library

/-- Whether a type is short enough to be displayed inside an object literal. -/
def isSimple (scope : Scope) : TypeExpr → Bool
  | .primitive _ => true
  | .literal _ => true
  | .union members => members.all fun
    | .literal _ => true
    | .null => true
    | .primitive _ => true
    | _ => false
  | .reference name _ => (scope.model.find? name).any (·.kind == .enumeration)
  | _ => false

/-- Notes that a declaration is deprecated, if it is. -/
def noteUse (declaration : Declaration) : Attempt Unit :=
  match declaration.deprecated with
  | some note => Attempt.raise [.deprecated declaration.name note]
  | none => pure ()

/-- Takes a type for `object`. -/
def degrade (context : Context) (reason printed : String) : Attempt Signature := do
  if !context.inExtension then Attempt.raise [.degraded reason]
  return .documented "object" printed

/-- The signature of an object type. -/
def resolveStruct (scope : Scope) (context : Context) (name : Option String)
    (members : List Member) (printed : String) : Attempt Signature :=
  match name with
  | none =>
    let readable := !members.isEmpty && members.all (scope.isSimple ·.type)
    return { Signature.documented (if readable then printed else "object") printed with
      isStruct := true }
  | some name =>
    if scope.isWellKnown name then pure (.simple printed)
    else
      match scope.model.find? name with
      | some declaration => do
        noteUse declaration
        return .namedObject context printed name declaration.exported
      | none => pure (.namedObject context printed name false)

/-- The signature of an alias from that of its body: it is documented by its own name, and an
object type without wrappers is named after it. -/
def aliasSignature (context : Context) (declaration : Declaration) (printed : String)
    (body : Signature) : Signature :=
  let signature := { body with documentation := some printed }
  if body.isStruct && body.wrappers.isEmpty then
    { signature with typeName := some declaration.name }.markTypedef context declaration.name
      declaration.exported
  else signature

set_option linter.unusedVariables false in
mutual

/-- The signature of a type, when the aliases in `seen` are being followed already. -/
def resolveWith (scope : Scope) (context : Context) (seen : List String) (type : TypeExpr) :
    Attempt Signature :=
  if wrapped : scope.model.isWrapper type = true then do
    let core ← resolveWith scope context seen (scope.model.core type)
    return { core with
      documentation := some type.print
      wrappers := (scope.model.wrappers type).map Wrapper.layer }
  else
    match type with
    | .primitive name => pure (.simple name.keyword)
    | .literal value => pure (.ofLiteral value)
    | .array element => do
      let element ← resolveWith scope context seen element
      return .arrayOf element
    | .struct name typeArgs members =>
      scope.resolveStruct context name members (TypeExpr.struct name typeArgs members).print
    | .reference name args =>
      let printed := (TypeExpr.reference name args).print
      match found : scope.model.find? name with
      | none =>
        if scope.isWellKnown name then pure (.simple printed)
        else degrade context ("type `" ++ printed ++ "` is not declared in the type model") printed
      | some declaration => do
        noteUse declaration
        if scope.isWellKnown name then return .simple printed
        else
          match declaration.kind with
          | .enumeration => return .ofEnumeration declaration
          | .interface => return .namedObject context printed declaration.name declaration.exported
          | .classType => return .namedObject context printed declaration.name declaration.exported
          | .typeAlias =>
            if followed : name ∈ seen then
              return { Signature.documented "any" printed with circular := true }
            else
              let body ← resolveWith scope context (name :: seen) declaration.body
              return aliasSignature context declaration printed body
    | .union members =>
      let flat := TypeExpr.flatten members
      let nullable := flat.any TypeExpr.isNull
      let optional := context.position == .returned && flat.any TypeExpr.isUndefined
      if flat.any TypeExpr.isOpen then pure .any
      else if (TypeExpr.presentMembers members).isEmpty then
        pure (if nullable then { Signature.simple "null" with optionalViaUnion := optional }
          else .simple "undefined")
      else do
        match ← resolveAll scope context seen (TypeExpr.presentMembers members) with
        | [single] => return single.withNullish nullable optional
        | signatures => return (Signature.unionOf signatures).withNullish nullable optional
    | .intersection members =>
      let whole := Signature.documented "object"
        (" & ".intercalate (members.map fun member => member.typeName?.getD member.print))
      match branded : TypeExpr.brandedType? members with
      | some candidate => do
        let signature ← resolveWith scope context seen candidate
        return if signature.isPrimitiveDisplay then signature else whole
      | none => pure whole
    | .mapped wrapper args =>
      degrade context ("mapped type `" ++ wrapper ++ "` has no type argument")
        (TypeExpr.mapped wrapper args).print
    | .generic name _ => pure (.documented "any" name)
    | .function params returns =>
      pure (.documented "Function" (TypeExpr.function params returns).print)
    | .conditional _ (some branch) => resolveWith scope context seen branch
    | .conditional text none =>
      if context.position.requiresConcrete then
        Attempt.fail (.unresolvedConditional text context.position.label)
      else pure (.documented "any" text)
    | .any => pure .any
    | .unknown => pure .any
    | .null => pure (.simple "null")
termination_by (unseen scope.model.names seen, type.size, 0)
decreasing_by
  · exact Prod.Lex.right _ (Prod.Lex.left _ _ (TypeModel.size_core_lt wrapped))
  · exact Prod.Lex.right _ (Prod.Lex.left _ _ (by simp [TypeExpr.size]))
  · exact Prod.Lex.left _ _ (unseen_lt_of_subset (TypeModel.mem_names_of_find? found)
      (List.subset_cons_self name seen) List.mem_cons_self followed)
  · refine Prod.Lex.right _ (Prod.Lex.left _ _ ?_)
    have := TypeExpr.sizeAll_presentMembers_le members
    simp only [TypeExpr.size]
    omega
  · refine Prod.Lex.right _ (Prod.Lex.left _ _ ?_)
    have := TypeExpr.size_brandedType?_le branded
    simp only [TypeExpr.size]
    omega
  · exact Prod.Lex.right _ (Prod.Lex.left _ _ (by simp [TypeExpr.size]))

/-- The signatures of several types, in order. -/
def resolveAll (scope : Scope) (context : Context) (seen : List String) (types : List TypeExpr) :
    Attempt (List Signature) :=
  match types with
  | [] => pure []
  | type :: rest => do
    let first ← resolveWith scope context seen type
    let others ← resolveAll scope context seen rest
    return first :: others
termination_by (unseen scope.model.names seen, TypeExpr.sizeAll types, 1)
decreasing_by
  · refine Prod.Lex.right _ ?_
    rcases Nat.lt_or_ge type.size (TypeExpr.sizeAll (type :: rest)) with smaller | larger
    · exact Prod.Lex.left _ _ smaller
    · have : type.size = TypeExpr.sizeAll (type :: rest) := by
        simp only [TypeExpr.sizeAll] at larger ⊢
        omega
      rw [this]
      exact Prod.Lex.right _ Nat.zero_lt_one
  · refine Prod.Lex.right _ (Prod.Lex.left _ _ ?_)
    have := type.size_pos
    simp only [TypeExpr.sizeAll]
    omega

end

/-- The signature of a type. -/
def resolve (scope : Scope) (context : Context) (type : TypeExpr) : Attempt Signature :=
  scope.resolveWith context [] type

end Scope

end Componentry
