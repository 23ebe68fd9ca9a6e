import Componentry.Expansion.Members
import Componentry.Expansion.Path
import Componentry.Expansion.Target
import Componentry.Resolved

/-!
# Expansion of properties

An object type becomes a tree of resolved properties. A member whose type is named like a type on
the way to it is not entered again and stands as a circular placeholder. Each step down either
enters a name of the model that is not yet on the way, or goes to members that are written inside
the type at hand, so every expansion ends.
-/

namespace Componentry

namespace ResolvedProperty

/-- The resolved form of a member that is not expanded. -/
def ofMember (member : Member) (signature : Signature) : ResolvedProperty :=
  { signature
    declared := member.type.print
    optional := member.optional || signature.optionalViaUnion
    readOnly := member.readonly }

/-- The placeholder of a member whose type is being expanded already. -/
def asCircular (property : ResolvedProperty) (array : Bool) : ResolvedProperty :=
  { property with
    signature := { property.signature with
      display := if array then "Array<object>" else "object"
      circular := true }
    circular := true }

/-- Adds the members of the property's type. Those of array elements are kept apart unless the
property is itself inside an array. -/
def withMembers (property : ResolvedProperty) (apart : Bool) (members : Option PropertyList) :
    ResolvedProperty :=
  if apart then { property with itemProperties := members }
  else { property with properties := members }

end ResolvedProperty

/-- The properties, if there are any. -/
def nonEmpty? (properties : PropertyList) : Option PropertyList :=
  if properties.isEmpty then none else some properties

namespace Scope

/-- The members of a target as its wrappers change them. -/
def adjustedMembers (scope : Scope) (target : ExpansionTarget) (members : List Member) :
    List Member :=
  adjustMembers (scope.model.memberRules target.type) members

/-- What a step from a member into its target leaves to do. -/
theorem enter_decreases {scope : Scope} {path : PropertyPath} {member : Member}
    {target : ExpansionTarget} {members : List Member}
    (found : scope.target? member.type = some target) (fresh : ¬target.name.any path.hasSeen = true)
    (listed : scope.targetMembers target = some members) :
    Prod.Lex (· < ·) (Prod.Lex (· < ·) (· < ·))
      (unseen scope.entryNames ((path.child member.name).enter target.name target.array).seen.toList,
        TypeExpr.sizeMembers (scope.adjustedMembers target members), 1)
      (unseen scope.entryNames path.seen.toList, member.type.size, 0) := by
  have adjusted_le := sizeMembers_adjustMembers_le (scope.model.memberRules target.type) members
  have subset := (path.child member.name).subset_enter target.name target.array
  have fewer := unseen_le_of_subset scope.entryNames subset
  rw [PropertyPath.seen_child] at fewer
  rcases sizeMembers_lt_or_mem_entryNames (Nat.le_refl _) found listed with smaller | entered
  · have members_lt : TypeExpr.sizeMembers (scope.adjustedMembers target members) <
        member.type.size := Nat.lt_of_le_of_lt adjusted_le smaller
    rcases Nat.lt_or_eq_of_le fewer with strictly | same
    · exact Prod.Lex.left _ _ strictly
    · rw [same]
      exact Prod.Lex.right _ (Prod.Lex.left _ _ members_lt)
  · obtain ⟨name, named, mem⟩ := entered
    refine Prod.Lex.left _ _ (unseen_lt_of_subset mem subset ?_ ?_)
    · rw [named]
      exact PropertyPath.mem_enter _ name target.array
    · intro seen
      refine fresh ?_
      simp only [named, Option.any_some, PropertyPath.hasSeen, NameSet.contains,
        List.contains_iff_mem]
      exact seen

set_option linter.unusedVariables false in
mutual

/-- Adds the resolved members to the properties found before them. Functions are methods and no
properties. -/
def expandMembers (scope : Scope) (path : PropertyPath) (members : List Member)
    (done : PropertyList) : Attempt PropertyList :=
  match members with
  | [] => pure done
  | member :: rest =>
    if member.type.isFunction then expandMembers scope path rest done
    else do
      match ← expandMember scope path member with
      | some property => expandMembers scope path rest (upsert member.name property done)
      | none => expandMembers scope path rest done
termination_by (unseen scope.entryNames path.seen.toList, TypeExpr.sizeMembers members, 1)
decreasing_by
  all_goals
    obtain ⟨name, type, optional, readonly⟩ := member
    have type_pos := type.size_pos
  · exact Prod.Lex.right _ (Prod.Lex.left _ _ (by simp only [TypeExpr.sizeMembers]; omega))
  · refine Prod.Lex.right _ ?_
    rcases Nat.eq_zero_or_pos (TypeExpr.sizeMembers rest) with empty | more
    · simp only [TypeExpr.sizeMembers, empty, Nat.add_zero]
      exact Prod.Lex.right _ Nat.zero_lt_one
    · exact Prod.Lex.left _ _ (by simp only [TypeExpr.sizeMembers]; omega)
  · exact Prod.Lex.right _ (Prod.Lex.left _ _ (by simp only [TypeExpr.sizeMembers]; omega))
  · exact Prod.Lex.right _ (Prod.Lex.left _ _ (by simp only [TypeExpr.sizeMembers]; omega))

/-- Resolves a member and expands its type; a member that turns out to be a function is none. -/
def expandMember (scope : Scope) (path : PropertyPath) (member : Member) :
    Attempt (Option ResolvedProperty) := do
  let signature ← scope.resolve { position := .property, inExtension := true } member.type
  if signature.display == "Function" then return none
  else
    let property := ResolvedProperty.ofMember member signature
    match found : scope.target? member.type with
    | none => return some property
    | some target =>
      if entered : target.name.any path.hasSeen = true then
        return some (property.asCircular target.array)
      else
        match listed : scope.targetMembers target with
        | none => return some property
        | some members =>
          let inner ← expandMembers scope
            ((path.child member.name).enter target.name target.array)
            (scope.adjustedMembers target members) []
          return some
            (property.withMembers (target.array && path.isOutsideArrays) (nonEmpty? inner))
termination_by (unseen scope.entryNames path.seen.toList, member.type.size, 0)
decreasing_by exact enter_decreases found entered listed

end

/-- Expands the type of a property or of an event's detail. The members of an object type become
nested properties, those of an array's elements item properties. -/
def expand (scope : Scope) (name : String) (type : TypeExpr) : Attempt Expansion :=
  match scope.target? type with
  | none => pure {}
  | some target =>
    match scope.targetMembers target with
    | none => pure {}
    | some members => do
      let path := (PropertyPath.root name).enter target.name target.array
      let inner ← scope.expandMembers path (scope.adjustedMembers target members) []
      return if target.array then { itemProperties := nonEmpty? inner }
        else { properties := nonEmpty? inner }

end Scope

end Componentry
