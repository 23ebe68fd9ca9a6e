import Componentry.Proofs.Resolution.Outcome

/-!
# Undecided conditional types

A conditional type without a chosen branch is the only thing that resolution fails at, and only in
positions that need a concrete type. `Meets` lists the ways to such a type: through elements,
branches, wrappers, aliases that are not being followed yet, the present members of a union and
branded types, and through nothing else. Type arguments, the types of functions, other
intersections and unions with a member that says nothing are not looked into.

Only unions lead on to more than one type, so a way is given by the members taken at its unions.
Members are resolved from left to right, and the failure is that of the first way in the
lexicographic order (`First`).
-/

namespace Componentry

namespace Scope

/-- The ways to an undecided conditional type, with the members taken at unions and its text. -/
inductive Meets (scope : Scope) : List String → TypeExpr → List Nat → String → Prop
  | here {seen : List String} {text : String} : Meets scope seen (.conditional text none) [] text
  | branch {seen : List String} {condition text : String} {branch : TypeExpr} {route : List Nat}
      (inner : Meets scope seen branch route text) :
      Meets scope seen (.conditional condition (some branch)) route text
  | element {seen : List String} {element : TypeExpr} {route : List Nat} {text : String}
      (inner : Meets scope seen element route text) : Meets scope seen (.array element) route text
  | core {seen : List String} {type : TypeExpr} {route : List Nat} {text : String}
      (wrapped : scope.model.isWrapper type = true)
      (inner : Meets scope seen (scope.model.core type) route text) :
      Meets scope seen type route text
  | aliased {seen : List String} {name text : String} {args : List TypeExpr}
      {declaration : Declaration} {route : List Nat}
      (found : scope.model.find? name = some declaration)
      (unknown : scope.isWellKnown name = false) (kind : declaration.kind = .typeAlias)
      (fresh : name ∉ seen) (inner : Meets scope (name :: seen) declaration.body route text) :
      Meets scope seen (.reference name args) route text
  | alternative {seen : List String} {members : List TypeExpr} {member : TypeExpr} {index : Nat}
      {route : List Nat} {text : String}
      (closed : (TypeExpr.flatten members).any TypeExpr.isOpen = false)
      (present : (TypeExpr.presentMembers members)[index]? = some member)
      (inner : Meets scope seen member route text) :
      Meets scope seen (.union members) (index :: route) text
  | branded {seen : List String} {members : List TypeExpr} {candidate : TypeExpr}
      {route : List Nat} {text : String}
      (branded : TypeExpr.brandedType? members = some candidate)
      (inner : Meets scope seen candidate route text) :
      Meets scope seen (.intersection members) route text

/-- The way is the first one: every other way is later. -/
structure First (scope : Scope) (seen : List String) (type : TypeExpr) (route : List Nat)
    (text : String) : Prop where
  meets : scope.Meets seen type route text
  least : ∀ other otherText, scope.Meets seen type other otherText →
    (other = route ∧ otherText = text) ∨ List.Lex (· < ·) route other

/-- The failure of a type in a position: that of the first way, if a concrete type is needed. -/
def Undecided (scope : Scope) (position : Position) (seen : List String) (type : TypeExpr)
    (failure : StructuralError) : Prop :=
  position.requiresConcrete = true ∧ ∃ route text, scope.First seen type route text ∧
    failure = .unresolvedConditional text position.label

variable {scope : Scope} {context : Context} {seen innerSeen : List String}
  {type inner : TypeExpr} {route : List Nat} {text : String} {failure : StructuralError}

theorem First.unique {other : List Nat} {otherText : String}
    (first : scope.First seen type route text) (second : scope.First seen type other otherText) :
    otherText = text := by
  rcases first.least other otherText second.meets with ⟨_, same⟩ | later
  · exact same
  · rcases second.least route text first.meets with ⟨_, same⟩ | earlier
    · exact same.symm
    · exact absurd earlier (List.lex_asymm Nat.lt_asymm later)

theorem First.here (seen : List String) (text : String) :
    scope.First seen (.conditional text none) [] text := by
  refine ⟨.here, ?_⟩
  intro other otherText meets
  cases meets with
  | here => exact .inl ⟨rfl, rfl⟩
  | core wrapped _ => cases wrapped

/-- Where there is only one type to go on with, the first way is the same. -/
theorem First.through (first : scope.First innerSeen inner route text)
    (same : ∀ route text,
      scope.Meets seen type route text ↔ scope.Meets innerSeen inner route text) :
    scope.First seen type route text := by
  refine ⟨(same route text).2 first.meets, ?_⟩
  intro other otherText other_meets
  exact first.least other otherText ((same other otherText).1 other_meets)

/-! ## Ways through one type -/

theorem meets_wrapper (wrapped : scope.model.isWrapper type = true) (route : List Nat)
    (text : String) :
    scope.Meets seen type route text ↔ scope.Meets seen (scope.model.core type) route text := by
  constructor
  · intro meets
    cases meets with
    | core _ inner => exact inner
    | aliased found _ _ _ _ =>
      rw [isWrapper_of_find? found] at wrapped
      cases wrapped
    | _ => cases wrapped
  · exact .core wrapped

theorem meets_element (element : TypeExpr) (route : List Nat) (text : String) :
    scope.Meets seen (.array element) route text ↔ scope.Meets seen element route text := by
  constructor
  · intro meets
    cases meets with
    | element inner => exact inner
    | core wrapped _ => cases wrapped
  · exact .element

theorem meets_branch (condition : String) (branch : TypeExpr) (route : List Nat) (text : String) :
    scope.Meets seen (.conditional condition (some branch)) route text ↔
      scope.Meets seen branch route text := by
  constructor
  · intro meets
    cases meets with
    | branch inner => exact inner
    | core wrapped _ => cases wrapped
  · exact .branch

theorem meets_branded {members : List TypeExpr} {candidate : TypeExpr}
    (branded : TypeExpr.brandedType? members = some candidate) (route : List Nat) (text : String) :
    scope.Meets seen (.intersection members) route text ↔
      scope.Meets seen candidate route text := by
  constructor
  · intro meets
    cases meets with
    | branded other inner =>
      rw [branded] at other
      cases other
      exact inner
    | core wrapped _ => cases wrapped
  · exact .branded branded

theorem meets_alias {name : String} {args : List TypeExpr} {declaration : Declaration}
    (found : scope.model.find? name = some declaration) (unknown : scope.isWellKnown name = false)
    (kind : declaration.kind = .typeAlias) (fresh : name ∉ seen) (route : List Nat)
    (text : String) :
    scope.Meets seen (.reference name args) route text ↔
      scope.Meets (name :: seen) declaration.body route text := by
  constructor
  · intro meets
    cases meets with
    | aliased other_found _ _ _ inner =>
      rw [found] at other_found
      cases other_found
      exact inner
    | core wrapped _ =>
      rw [isWrapper_of_find? found] at wrapped
      cases wrapped
  · exact .aliased found unknown kind fresh

/-! ## Resolution fails where there is a way -/

/-- A type that meets an undecided one is an error where a type has to be known. -/
theorem Meets.exists_error (meets : scope.Meets seen type route text)
    (concrete : context.position.requiresConcrete = true) :
    ∃ failure, scope.outcome context seen type = .error failure := by
  induction meets with
  | here => exact ⟨_, by rw [outcome_unresolved, if_pos concrete]⟩
  | branch _ ih =>
    rw [outcome_branch]
    exact ih
  | element _ ih =>
    rcases ih with ⟨failure, failed⟩
    exact ⟨failure, by rw [outcome_array, map_eq_error_iff, failed]⟩
  | core wrapped _ ih =>
    rcases ih with ⟨failure, failed⟩
    exact ⟨failure, by rw [outcome_wrapper wrapped, map_eq_error_iff, failed]⟩
  | aliased found unknown kind fresh _ ih =>
    rcases ih with ⟨failure, failed⟩
    exact ⟨failure, by rw [outcome_alias found unknown kind fresh, map_eq_error_iff, failed]⟩
  | @alternative seen members member index route text closed present _ ih =>
    rcases ih with ⟨failure, failed⟩
    have mem := List.mem_of_getElem? present
    rw [outcome_union, if_neg (by simp [closed]), if_neg (by simpa using List.ne_nil_of_mem mem)]
    cases each : (TypeExpr.presentMembers members).mapM (scope.outcome context seen) with
    | error failure => exact ⟨failure, rfl⟩
    | ok signatures =>
      rcases exists_ok_of_mapM each mem with ⟨signature, resolved⟩
      rw [failed] at resolved
      cases resolved
  | branded branded _ ih =>
    rcases ih with ⟨failure, failed⟩
    exact ⟨failure, by rw [outcome_intersection, branded, map_eq_error_iff, failed]⟩

/-- The first way into the first member with one is the first way into the union. -/
theorem First.alternative {members before after : List TypeExpr} {member : TypeExpr}
    (closed : (TypeExpr.flatten members).any TypeExpr.isOpen = false)
    (split : TypeExpr.presentMembers members = before ++ member :: after)
    (first : scope.First seen member route text)
    (none_before : ∀ earlier ∈ before, ∀ route text, ¬scope.Meets seen earlier route text) :
    scope.First seen (.union members) (before.length :: route) text := by
  refine ⟨.alternative closed (by simp [split]) first.meets, ?_⟩
  intro other otherText other_meets
  cases other_meets with
  | core wrapped _ => cases wrapped
  | @alternative _ _ other_member index other_route _ _ present other_inner =>
    rw [split] at present
    rcases Nat.lt_trichotomy index before.length with earlier | same | later
    · rw [List.getElem?_append_left earlier] at present
      exact absurd other_inner (none_before other_member (List.mem_of_getElem? present) _ _)
    · subst same
      rw [List.getElem?_append_right (Nat.le_refl _), Nat.sub_self, List.getElem?_cons_zero]
        at present
      cases present
      rcases first.least _ _ other_inner with ⟨rfl, rfl⟩ | later
      · exact .inl ⟨rfl, rfl⟩
      · exact .inr (.cons later)
    · exact .inr (.rel later)

/-- Resolution fails only where a concrete type is needed, and with the first way. -/
theorem undecided_of_outcome (failed : scope.outcome context seen type = .error failure) :
    scope.Undecided context.position seen type failure := by
  induction seen, type using scope.calls_induction with
  | step seen type ih =>
    have through {innerSeen : List String} {inner : TypeExpr}
        (call : scope.Calls (innerSeen, inner) (seen, type))
        (inner_failed : scope.outcome context innerSeen inner = .error failure)
        (same : ∀ route text,
          scope.Meets seen type route text ↔ scope.Meets innerSeen inner route text) :
        scope.Undecided context.position seen type failure := by
      rcases ih _ _ call inner_failed with ⟨concrete, route, text, first, rfl⟩
      exact ⟨concrete, route, text, first.through same, rfl⟩
    by_cases wrapped : scope.model.isWrapper type = true
    · rw [outcome_wrapper wrapped, map_eq_error_iff] at failed
      exact through (.core wrapped) failed (meets_wrapper wrapped)
    · cases type with
      | array element =>
        rw [outcome_array, map_eq_error_iff] at failed
        exact through .element failed (meets_element element)
      | struct name typeArgs members =>
        rw [outcome_struct] at failed
        cases failed
      | reference name args =>
        rw [Bool.not_eq_true] at wrapped
        rw [outcome_reference wrapped] at failed
        split at failed
        · cases failed
        · rename_i unknown
          rw [Bool.not_eq_true] at unknown
          split at failed
          · cases failed
          · rename_i declaration found
            rw [declaredOutcome] at failed
            cases kind : declaration.kind with
            | typeAlias =>
              simp only [kind] at failed
              split at failed
              · cases failed
              · rename_i fresh
                rw [map_eq_error_iff] at failed
                exact through (.aliased found kind fresh) failed
                  (meets_alias found unknown kind fresh)
            | _ => simp [kind] at failed
      | union members =>
        rw [outcome_union] at failed
        split at failed
        · cases failed
        · rename_i closed
          rw [Bool.not_eq_true] at closed
          split at failed
          · cases failed
          · rw [map_eq_error_iff, mapM_eq_error_iff] at failed
            rcases failed with ⟨before, member, after, split, member_failed, passed⟩
            have call : scope.Calls (seen, member) (seen, .union members) :=
              .alternative (by simp [split])
            rcases ih _ _ call member_failed with ⟨concrete, route, text, first, rfl⟩
            refine ⟨concrete, _, text, first.alternative closed split ?_, rfl⟩
            intro earlier mem otherRoute otherText meets
            rcases passed earlier mem with ⟨signature, resolved⟩
            rcases meets.exists_error concrete with ⟨failure, earlier_failed⟩
            rw [resolved] at earlier_failed
            cases earlier_failed
      | intersection members =>
        rw [outcome_intersection] at failed
        split at failed
        · rename_i candidate branded
          rw [map_eq_error_iff] at failed
          exact through (.branded branded) failed (meets_branded branded)
        · cases failed
      | conditional condition choice =>
        cases choice with
        | some branch =>
          rw [outcome_branch] at failed
          exact through .branch failed (meets_branch condition branch)
        | none =>
          rw [outcome_unresolved] at failed
          split at failed
          · rename_i concrete
            cases failed
            exact ⟨concrete, [], condition, .here seen condition, rfl⟩
          · cases failed
      | mapped wrapper args =>
        cases args with
        | nil =>
          rw [outcome_of_ownSignature? rfl] at failed
          cases failed
        | cons first extra => exact absurd rfl wrapped
      | _ =>
        rw [outcome_of_ownSignature? rfl] at failed
        cases failed

theorem outcome_eq_error_iff : scope.outcome context seen type = .error failure ↔
    scope.Undecided context.position seen type failure := by
  constructor
  · exact undecided_of_outcome
  · rintro ⟨concrete, route, text, first, rfl⟩
    rcases first.meets.exists_error concrete with ⟨failure, failed⟩
    rcases undecided_of_outcome failed with ⟨_, other, otherText, other_first, rfl⟩
    rw [failed, first.unique other_first]

theorem exists_first_iff : (∃ route text, scope.First seen type route text) ↔
    ∃ route text, scope.Meets seen type route text := by
  constructor
  · rintro ⟨route, text, first⟩
    exact ⟨route, text, first.meets⟩
  · rintro ⟨route, text, meets⟩
    -- Resolution for a property finds the first way.
    have concrete : (Context.mk .property false).position.requiresConcrete = true := rfl
    rcases meets.exists_error concrete with ⟨failure, failed⟩
    rcases undecided_of_outcome failed with ⟨_, route, text, first, _⟩
    exact ⟨route, text, first⟩

theorem exists_error_iff (concrete : context.position.requiresConcrete = true) :
    (∃ failure, scope.outcome context seen type = .error failure) ↔
      ∃ route text, scope.Meets seen type route text := by
  constructor
  · rintro ⟨failure, failed⟩
    rcases undecided_of_outcome failed with ⟨_, route, text, first, _⟩
    exact ⟨route, text, first.meets⟩
  · rintro ⟨route, text, meets⟩
    exact meets.exists_error concrete

end Scope

end Componentry
