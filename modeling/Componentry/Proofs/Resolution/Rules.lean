import Componentry.Proofs.Resolution.Outcome

/-!
# Rules of resolution

The signatures that types are resolved to, as a relation: `Resolves` has one rule for each way in
which a type comes to its signature, with the conditions under which it is taken. Resolution follows
the rules (`resolves_of_outcome`), so what every rule keeps holds of all signatures, and is proved
by induction on the rules without looking at the recursion again.

The rules say nothing about the order in which types are visited and about notices.
-/

namespace Componentry

namespace Scope

variable {signature : Signature}

/-- The signatures of types, when the aliases of a list are being followed already. -/
inductive Resolves (scope : Scope) (context : Context) :
    List String → TypeExpr → Signature → Prop
  | wrapper {seen : List String} {type : TypeExpr} {core : Signature}
      (wrapped : scope.model.isWrapper type = true)
      (inner : Resolves scope context seen (scope.model.core type) core) :
      Resolves scope context seen type { core with
        documentation := some type.print
        wrappers := (scope.model.wrappers type).map Wrapper.layer }
  | primitive {seen : List String} {name : Primitive} :
      Resolves scope context seen (.primitive name) (.simple name.keyword)
  | literal {seen : List String} {value : Literal} :
      Resolves scope context seen (.literal value) (.ofLiteral value)
  | array {seen : List String} {element : TypeExpr} {signature : Signature}
      (inner : Resolves scope context seen element signature) :
      Resolves scope context seen (.array element) (.arrayOf signature)
  | object {seen : List String} {typeArgs : List TypeExpr} {members : List Member}
      {printed : String} (text : printed = (TypeExpr.struct none typeArgs members).print) :
      Resolves scope context seen (.struct none typeArgs members)
        { Signature.documented (if scope.isReadable members then printed else "object") printed with
          isStruct := true }
  | kept {seen : List String} {type : TypeExpr} {name : String}
      (named : type.typeName? = some name) (known : scope.isWellKnown name = true) :
      Resolves scope context seen type (.simple type.print)
  | named {seen : List String} {type : TypeExpr} {name : String} {exported : Bool}
      (named : type.typeName? = some name) (unknown : scope.isWellKnown name = false)
      (declared : exported = (scope.model.find? name).any Declaration.exported) :
      Resolves scope context seen type (.namedObject context type.print name exported)
  | undeclared {seen : List String} {name : String} {args : List TypeExpr}
      (absent : scope.model.find? name = none) (unknown : scope.isWellKnown name = false) :
      Resolves scope context seen (.reference name args)
        (.documented "object" (TypeExpr.reference name args).print)
  | enumeration {seen : List String} {name : String} {args : List TypeExpr}
      {declaration : Declaration} (found : scope.model.find? name = some declaration)
      (unknown : scope.isWellKnown name = false) (kind : declaration.kind = .enumeration) :
      Resolves scope context seen (.reference name args) (.ofEnumeration declaration)
  | circular {seen : List String} {name : String} {args : List TypeExpr}
      {declaration : Declaration} (found : scope.model.find? name = some declaration)
      (unknown : scope.isWellKnown name = false) (kind : declaration.kind = .typeAlias)
      (followed : name ∈ seen) :
      Resolves scope context seen (.reference name args)
        { Signature.documented "any" (TypeExpr.reference name args).print with circular := true }
  | aliased {seen : List String} {name : String} {args : List TypeExpr}
      {declaration : Declaration} {body : Signature}
      (found : scope.model.find? name = some declaration)
      (unknown : scope.isWellKnown name = false) (kind : declaration.kind = .typeAlias)
      (fresh : name ∉ seen)
      (inner : Resolves scope context (name :: seen) declaration.body body) :
      Resolves scope context seen (.reference name args)
        (aliasSignature context declaration (TypeExpr.reference name args).print body)
  | openUnion {seen : List String} {members : List TypeExpr}
      (isOpen : (TypeExpr.flatten members).any TypeExpr.isOpen = true) :
      Resolves scope context seen (.union members) .any
  | absentUnion {seen : List String} {members : List TypeExpr}
      (absent : TypeExpr.presentMembers members = []) :
      Resolves scope context seen (.union members)
        (if (TypeExpr.flatten members).any TypeExpr.isNull then
          { Signature.simple "null" with
            optionalViaUnion := context.position == .returned &&
              (TypeExpr.flatten members).any TypeExpr.isUndefined }
        else .simple "undefined")
  | union {seen : List String} {members : List TypeExpr} {signatures : List Signature}
      (present : TypeExpr.presentMembers members ≠ [])
      (lengths : (TypeExpr.presentMembers members).length = signatures.length)
      (inner : ∀ pair ∈ (TypeExpr.presentMembers members).zip signatures,
        Resolves scope context seen pair.1 pair.2) :
      Resolves scope context seen (.union members)
        ((Signature.joined signatures).withNullish ((TypeExpr.flatten members).any TypeExpr.isNull)
          (context.position == .returned && (TypeExpr.flatten members).any TypeExpr.isUndefined))
  | branded {seen : List String} {members : List TypeExpr} {candidate : TypeExpr}
      {signature : Signature} (branded : TypeExpr.brandedType? members = some candidate)
      (primitive : signature.isPrimitiveDisplay = true)
      (inner : Resolves scope context seen candidate signature) :
      Resolves scope context seen (.intersection members) signature
  | intersection {seen : List String} {members : List TypeExpr} {documentation : String}
      (names : documentation =
        " & ".intercalate (members.map fun member => member.typeName?.getD member.print)) :
      Resolves scope context seen (.intersection members) (.documented "object" documentation)
  | bareWrapper {seen : List String} {wrapper : String} {args : List TypeExpr} :
      Resolves scope context seen (.mapped wrapper args)
        (.documented "object" (TypeExpr.mapped wrapper args).print)
  | generic {seen : List String} {name : String} {constraint : Option TypeExpr} :
      Resolves scope context seen (.generic name constraint) (.documented "any" name)
  | function {seen : List String} {params : List Parameter} {returns : TypeExpr} :
      Resolves scope context seen (.function params returns)
        (.documented "Function" (TypeExpr.function params returns).print)
  | branch {seen : List String} {text : String} {branch : TypeExpr} {signature : Signature}
      (inner : Resolves scope context seen branch signature) :
      Resolves scope context seen (.conditional text (some branch)) signature
  | unresolved {seen : List String} {text : String}
      (lenient : context.position.requiresConcrete = false) :
      Resolves scope context seen (.conditional text none) (.documented "any" text)
  | opened {seen : List String} {type : TypeExpr} (isOpen : type.isOpen = true) :
      Resolves scope context seen type .any
  | null {seen : List String} : Resolves scope context seen .null (.simple "null")

/-! ## Resolution follows the rules -/

variable {scope : Scope} {context : Context} {seen : List String}

/-- The calls that are made for a type follow the rules. -/
def CallsResolve (scope : Scope) (context : Context) (seen : List String) (type : TypeExpr) :
    Prop :=
  ∀ innerSeen inner signature, scope.Calls (innerSeen, inner) (seen, type) →
    scope.outcome context innerSeen inner = .ok signature →
      scope.Resolves context innerSeen inner signature

theorem resolves_struct (name : Option String) (typeArgs : List TypeExpr) (members : List Member) :
    scope.Resolves context seen (.struct name typeArgs members)
      (scope.structSignature context name members
        (TypeExpr.struct name typeArgs members).print) := by
  cases name with
  | none => exact .object rfl
  | some name =>
    unfold structSignature
    dsimp only
    split
    · rename_i known
      exact .kept rfl known
    · rename_i unknown
      exact .named rfl (by simpa using unknown) rfl

theorem resolves_declared {name : String} {args : List TypeExpr} {declaration : Declaration}
    (inner : scope.CallsResolve context seen (.reference name args))
    (found : scope.model.find? name = some declaration) (unknown : scope.isWellKnown name = false)
    (resolved : scope.declaredOutcome context seen name declaration
      (TypeExpr.reference name args).print = .ok signature) :
    scope.Resolves context seen (.reference name args) signature := by
  have exported : declaration.exported = (scope.model.find? name).any Declaration.exported := by
    simp [found]
  rw [declaredOutcome, TypeModel.name_of_find? found] at resolved
  split at resolved
  · rename_i kind
    cases resolved
    exact .enumeration found unknown kind
  · cases resolved
    exact .named rfl unknown exported
  · cases resolved
    exact .named rfl unknown exported
  · rename_i kind
    split at resolved
    · rename_i followed
      cases resolved
      exact .circular found unknown kind followed
    · rename_i fresh
      rcases map_eq_ok_iff.1 resolved with ⟨body, body_resolved, rfl⟩
      exact .aliased found unknown kind fresh
        (inner _ _ _ (.aliased found kind fresh) body_resolved)

theorem resolves_reference {name : String} {args : List TypeExpr}
    (bare : scope.model.isWrapper (.reference name args) = false)
    (inner : scope.CallsResolve context seen (.reference name args))
    (resolved : scope.outcome context seen (.reference name args) = .ok signature) :
    scope.Resolves context seen (.reference name args) signature := by
  rw [outcome_reference bare] at resolved
  split at resolved
  · rename_i known
    cases resolved
    exact .kept rfl known
  · rename_i unknown
    rw [Bool.not_eq_true] at unknown
    split at resolved
    · rename_i absent
      cases resolved
      exact .undeclared absent unknown
    · rename_i declaration found
      exact resolves_declared inner found unknown resolved

theorem resolves_union {members : List TypeExpr}
    (inner : scope.CallsResolve context seen (.union members))
    (resolved : scope.outcome context seen (.union members) = .ok signature) :
    scope.Resolves context seen (.union members) signature := by
  rw [outcome_union] at resolved
  split at resolved
  · rename_i isOpen
    cases resolved
    exact .openUnion isOpen
  · split at resolved
    · rename_i absent
      cases resolved
      exact .absentUnion (List.isEmpty_iff.1 absent)
    · rename_i present
      rcases map_eq_ok_iff.1 resolved with ⟨signatures, all_resolved, rfl⟩
      have each := List.forall₂_iff_zip.1 (mapM_eq_ok_iff.1 all_resolved)
      apply Resolves.union _ each.1
      · rintro ⟨member, own⟩ mem
        exact inner _ _ _ (.alternative (List.of_mem_zip mem).1) (each.2 mem)
      · simpa using present

theorem resolves_intersection {members : List TypeExpr}
    (inner : scope.CallsResolve context seen (.intersection members))
    (resolved : scope.outcome context seen (.intersection members) = .ok signature) :
    scope.Resolves context seen (.intersection members) signature := by
  rw [outcome_intersection] at resolved
  split at resolved
  · rename_i candidate branded
    rcases map_eq_ok_iff.1 resolved with ⟨own, own_resolved, rfl⟩
    split
    · rename_i primitive
      exact .branded branded primitive (inner _ _ _ (.branded branded) own_resolved)
    · exact .intersection rfl
  · cases resolved
    exact .intersection rfl

theorem resolves_of_callsResolve {type : TypeExpr} (inner : scope.CallsResolve context seen type)
    (resolved : scope.outcome context seen type = .ok signature) :
    scope.Resolves context seen type signature := by
  by_cases wrapped : scope.model.isWrapper type = true
  · rw [outcome_wrapper wrapped] at resolved
    rcases map_eq_ok_iff.1 resolved with ⟨core, core_resolved, rfl⟩
    exact .wrapper wrapped (inner _ _ _ (.core wrapped) core_resolved)
  · rw [Bool.not_eq_true] at wrapped
    have own {shown : Signature} (shown_eq : type.ownSignature? = some shown) :
        shown = signature := by
      rw [outcome_of_ownSignature? shown_eq] at resolved
      exact Except.ok.inj resolved
    cases type with
    | reference name args => exact resolves_reference wrapped inner resolved
    | union members => exact resolves_union inner resolved
    | intersection members => exact resolves_intersection inner resolved
    | struct name typeArgs members =>
      rw [outcome_struct] at resolved
      cases resolved
      exact resolves_struct name typeArgs members
    | array element =>
      rw [outcome_array] at resolved
      rcases map_eq_ok_iff.1 resolved with ⟨element, element_resolved, rfl⟩
      exact .array (inner _ _ _ .element element_resolved)
    | conditional text branch =>
      cases branch with
      | some branch =>
        rw [outcome_branch] at resolved
        exact .branch (inner _ _ _ .branch resolved)
      | none =>
        rw [outcome_unresolved] at resolved
        split at resolved
        · cases resolved
        · rename_i lenient
          cases resolved
          exact .unresolved (by simpa using lenient)
    | mapped wrapper args =>
      cases args with
      | nil => exact own rfl ▸ .bareWrapper
      | cons first rest => simp [TypeModel.isWrapper] at wrapped
    | primitive name => exact own rfl ▸ .primitive
    | literal value => exact own rfl ▸ .literal
    | generic name constraint => exact own rfl ▸ .generic
    | function params returns => exact own rfl ▸ .function
    | any | unknown => exact own rfl ▸ .opened rfl
    | null => exact own rfl ▸ .null

theorem resolves_of_outcome {type : TypeExpr}
    (resolved : (scope.resolveWith context seen type).outcome = .ok signature) :
    scope.Resolves context seen type signature := by
  induction seen, type using scope.calls_induction generalizing signature with
  | step seen type ih =>
    apply resolves_of_callsResolve _ resolved
    intro innerSeen inner own call own_resolved
    exact ih _ _ call own_resolved

end Scope

end Componentry
