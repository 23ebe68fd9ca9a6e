import Componentry.Assembly
import Componentry.Proofs.Assembly.Reserved
import Componentry.Proofs.Expansion.Search

/-!
# Bindings of types in unions

Three parts of assembly ask for the member of a union that is left when those
that stand for a missing value are set aside. Resolution and the search for an
expansion target take the members of inner unions for members of the outer one,
so to them a union is as good as the flat union of all its members. The
parameters of a generic declaration are bound by a look at the outermost union
alone: one more union around the reference, and they are not bound.

The bindings of a union are therefore those of the flat one exactly if no member
is a union itself, or if there is nothing to bind.
-/

namespace Componentry

namespace TypeExpr

variable {members : List TypeExpr} {member : TypeExpr}

mutual

theorem not_isUnion_of_mem_flatten (types : List TypeExpr) :
    ∀ member ∈ flatten types, ¬member.IsUnion := by
  match types with
  | [] => simp [flatten]
  | type :: rest =>
    rw [flatten, List.forall_mem_append]
    exact ⟨not_isUnion_of_mem_flattenOne type, not_isUnion_of_mem_flatten rest⟩

theorem not_isUnion_of_mem_flattenOne (type : TypeExpr) :
    ∀ member ∈ flattenOne type, ¬member.IsUnion := by
  match type with
  | .union members =>
    rw [flattenOne]
    exact not_isUnion_of_mem_flatten members
  | .primitive _ | .literal _ | .array _ | .struct _ _ _ | .reference _ _ | .intersection _
  | .mapped _ _ | .generic _ _ | .function _ _ | .conditional _ _ | .any | .unknown | .null =>
    simp [flattenOne, IsUnion]

end

/-- A union without inner unions is flat. -/
theorem flatten_eq_self (flat : ∀ member ∈ members, ¬member.IsUnion) :
    flatten members = members := by
  induction members with
  | nil => rfl
  | cons member rest ih =>
    rw [List.forall_mem_cons] at flat
    have single : flattenOne member = [member] := by
      apply flattenOne_eq_singleton
      intro inner same
      exact flat.1 ⟨inner, same⟩
    rw [flatten, single, ih flat.2, List.singleton_append]

theorem flatten_flatten (members : List TypeExpr) : flatten (flatten members) = flatten members :=
  flatten_eq_self (not_isUnion_of_mem_flatten members)

theorem presentMembers_flatten (members : List TypeExpr) :
    presentMembers (flatten members) = presentMembers members := by
  rw [presentMembers, presentMembers, flatten_flatten]

/-- The only present member of a union with an inner union is that union, if there is one. -/
theorem isUnion_of_presentMember? {single : TypeExpr} (mem : member ∈ members)
    (inner : member.IsUnion) (present : (TypeExpr.union members).presentMember? = some single) :
    single.IsUnion := by
  rw [presentMember?] at present
  split at present
  · rename_i only filtered
    have kept : member ∈ members.filter (!·.isNullish) := by
      apply List.mem_filter.2
      rcases inner with ⟨others, rfl⟩
      exact ⟨mem, rfl⟩
    rw [filtered, List.mem_singleton] at kept
    rw [Option.some.injEq] at present
    rw [← present, ← kept]
    exact inner
  · simp at present

end TypeExpr

namespace Scope

variable {scope : Scope} {generics : List TypeParam} {members : List TypeExpr}

/-! ## Resolution and expansion -/

theorem resolve_union_flatten (scope : Scope) (context : Context) (members : List TypeExpr) :
    scope.resolve context (.union (TypeExpr.flatten members)) =
      scope.resolve context (.union members) := by
  rw [resolve, resolve]
  conv_lhs => rw [resolveWith, dif_neg (by simp [TypeModel.isWrapper])]
  conv_rhs => rw [resolveWith, dif_neg (by simp [TypeModel.isWrapper])]
  simp only [TypeExpr.flatten_flatten, TypeExpr.presentMembers_flatten]

theorem target?_union_flatten (scope : Scope) (members : List TypeExpr) :
    scope.target? (.union (TypeExpr.flatten members)) = scope.target? (.union members) :=
  (search_union_congr (TypeExpr.presentMembers_flatten members) 32 false).2

/-! ## Bindings -/

/-- All that is present in a union, at any depth, is a reference to a declaration with
parameters. -/
def RefersToGeneric (scope : Scope) (members : List TypeExpr) : Prop :=
  ∃ name args declaration, TypeExpr.presentMembers members = [.reference name args] ∧
    scope.model.find? name = some declaration ∧ declaration.typeParams ≠ []

theorem bindParameters_eq_nil_iff {declaration : Declaration} {args : List TypeExpr} :
    scope.bindParameters declaration args generics = pure [] ↔ declaration.typeParams = [] := by
  rw [bindParameters]
  cases declaration.typeParams with
  | nil => simp [bindFrom]
  | cons formal rest =>
    refine iff_of_false ?_ (by simp)
    intro nothing
    have outcome := congrArg Attempt.outcome nothing
    simp only [bindFrom, Attempt.outcome_bind_eq_ok, Attempt.outcome_pure, Except.ok.injEq]
      at outcome
    rcases outcome with ⟨target, _, others, _, impossible⟩
    cases impossible

theorem propertyBindings_of_inner {member : TypeExpr} (mem : member ∈ members)
    (inner : member.IsUnion) :
    scope.propertyBindings (.union members) generics = pure [] := by
  rw [propertyBindings]
  split
  · rename_i name args present
    rcases TypeExpr.isUnion_of_presentMember? mem inner present with ⟨others, same⟩
    cases same
  · rfl

theorem presentMember?_flatten (members : List TypeExpr) :
    (TypeExpr.union (TypeExpr.flatten members)).presentMember? =
      match TypeExpr.presentMembers members with
      | [single] => some single
      | _ => none :=
  rfl

/-- There is something to bind in a flat union exactly if a reference to a generic declaration is
all that is present. -/
theorem propertyBindings_flatten_eq_nil_iff :
    scope.propertyBindings (.union (TypeExpr.flatten members)) generics = pure [] ↔
      ¬scope.RefersToGeneric members := by
  rw [propertyBindings, presentMember?_flatten]
  constructor
  · rintro nothing ⟨name, args, declaration, present, found, generic⟩
    rw [present] at nothing
    simp only [found] at nothing
    exact generic (bindParameters_eq_nil_iff.1 nothing)
  · intro concrete
    split
    · rename_i name args only
      split
      · rename_i declaration found
        apply bindParameters_eq_nil_iff.2
        by_contra generic
        apply concrete
        split at only
        · rename_i single present
          cases only
          exact ⟨name, args, declaration, present, found, generic⟩
        · cases only
      · rfl
    · rfl

/-- Resolution and expansion take a union for the flat union of all its members, and in the flat
union a reference to a generic declaration that is all that is present is bound. In the union itself
it is bound, as long as none of the members is a union. -/
theorem bindings_of_nested_unions (scope : Scope) (generics : List TypeParam)
    (members : List TypeExpr) :
    let flat := TypeExpr.union (TypeExpr.flatten members)
    (∀ context, scope.resolve context flat = scope.resolve context (.union members)) ∧
      scope.target? flat = scope.target? (.union members) ∧
      (∀ name args declaration, TypeExpr.presentMembers members = [.reference name args] →
        scope.model.find? name = some declaration →
          scope.propertyBindings flat generics =
            scope.bindParameters declaration args generics) ∧
      (scope.propertyBindings (.union members) generics = scope.propertyBindings flat generics ↔
        (∀ member ∈ members, ¬member.IsUnion) ∨ ¬scope.RefersToGeneric members) := by
  intro flat
  refine ⟨fun context => scope.resolve_union_flatten context members,
    scope.target?_union_flatten members, ?_, ?_⟩
  · intro name args declaration present found
    rw [propertyBindings, presentMember?_flatten, present]
    simp only [found]
  · by_cases nested : ∃ member ∈ members, member.IsUnion
    · -- Nothing is bound in the union, so there must be nothing to bind in the flat one.
      rcases nested with ⟨member, mem, inner⟩
      rw [propertyBindings_of_inner mem inner, eq_comm, propertyBindings_flatten_eq_nil_iff]
      exact (or_iff_right fun none_inner => none_inner member mem inner).symm
    · have none_inner : ∀ member ∈ members, ¬member.IsUnion := by
        intro member mem inner
        exact nested ⟨member, mem, inner⟩
      simp only [flat, TypeExpr.flatten_eq_self none_inner, true_iff]
      exact .inl none_inner

/-- Lists of items of some type. -/
def itemLists : Scope where
  model := .ofList [{ Declaration.ofInterface "List"
    [⟨"items", .array (.parameter "TItem"), false, false⟩] with
      typeParams := [{ name := "TItem" }] }]

/-- A list that may be missing in two ways, written as one union and as a union in a union: only in
the first is the type of its items bound to the parameter of the component. -/
theorem inner_union_keeps_from_binding :
    let list : TypeExpr := .reference "List" [.parameter "T"]
    let generics : List TypeParam := [{ name := "T" }]
    TypeExpr.flatten [.union [list, .null], .undefined] = [list, .null, .undefined] ∧
      (itemLists.propertyBindings (.union [list, .null, .undefined]) generics).outcome =
        .ok [⟨"TItem", .component "T"⟩] ∧
      (itemLists.propertyBindings (.union [.union [list, .null], .undefined]) generics).outcome =
        .ok [] := by
  intro list generics
  exact ⟨rfl, rfl, rfl⟩

end Scope

end Componentry
