import Componentry.Expansion
import Componentry.Proofs.Attempt
import Componentry.Proofs.Expansion.Target

/-!
# Termination of expansion

As for resolution, the expansion of members is written with its recursion left
open. `expandMembersStep` expands a list of members when it is told how to
expand the members of the types that it enters, and `Enters` lists what it may
enter. Closing the recursion with a budget of nested entries gives
`expandWithin`.

Interfaces, aliases and wrappers may lead back to each other in any way. An
entry either goes to members that are written inside the type of a member at
hand, or takes a name of the model that is not on the way yet; in the latter
case the members come from a declaration, so their size is bounded by the
model (`Enters.smaller_or_fewer`).
-/

namespace Componentry

namespace TypeModel

/-- The size of the bodies of all declarations together. -/
def bodySize (model : TypeModel) : Nat :=
  TypeExpr.sizeAll (model.declarations.map Declaration.body)

theorem size_body_le_bodySize {model : TypeModel} {name : String} {declaration : Declaration}
    (found : model.find? name = some declaration) : declaration.body.size ≤ model.bodySize := by
  apply TypeExpr.size_le_sizeAll
  exact List.mem_map_of_mem (Scope.mem_declarations_of_find? found)

theorem sizeMembers_membersWithin {model : TypeModel} {steps : Nat} {type : TypeExpr}
    {members : List Member} (listed : model.membersWithin steps type = some members) :
    TypeExpr.sizeMembers members < type.size ∨
      TypeExpr.sizeMembers members ≤ model.bodySize := by
  induction steps generalizing type with
  | zero => simp [membersWithin] at listed
  | succ steps ih =>
    simp only [membersWithin] at listed
    split at listed
    · cases listed
      left
      simp only [TypeExpr.size]
      omega
    · split at listed
      · rename_i declaration found
        right
        have body_le := size_body_le_bodySize found
        rcases ih listed with smaller | bounded
        · omega
        · exact bounded
      · simp at listed
    · rcases ih listed with smaller | bounded
      · left
        simp only [TypeExpr.size, TypeExpr.sizeAll]
        omega
      · exact .inr bounded
    · simp at listed

end TypeModel

namespace Scope

variable {scope : Scope} {members : List Member} {path : PropertyPath}

/-- A target is part of the type that it was found in or of a declaration. -/
theorem size_target_le {steps : Nat} {array : Bool} {type : TypeExpr} {target : ExpansionTarget}
    (found : scope.targetWithin steps array type = some target) :
    target.type.size ≤ type.size ∨ target.type.size ≤ scope.model.bodySize := by
  have finds := finds_of_targetWithin found
  clear found
  induction finds with
  | wrapped _ _ _ _ => exact .inl (Nat.le_refl _)
  | @union array members single target present _ ih =>
    have present_le := TypeExpr.sizeAll_presentMembers_le members
    rw [present] at present_le
    simp only [TypeExpr.sizeAll, TypeExpr.size] at present_le ⊢
    rcases ih with smaller | bounded
    · left
      omega
    · exact .inr bounded
  | array _ ih =>
    simp only [TypeExpr.size]
    rcases ih with smaller | bounded
    · left
      omega
    · exact .inr bounded
  | struct _ | declared _ _ _ _ => exact .inl (Nat.le_refl _)
  | aliased _ _ declared _ _ ih =>
    have body_le := TypeModel.size_body_le_bodySize declared
    rcases ih with smaller | bounded
    · exact .inr (Nat.le_trans smaller body_le)
    · exact .inr bounded
  | conditional _ ih =>
    simp only [TypeExpr.size]
    rcases ih with smaller | bounded
    · left
      omega
    · exact .inr bounded

theorem sizeMembers_adjustedMembers {type : TypeExpr} {target : ExpansionTarget}
    (found : scope.target? type = some target)
    (listed : scope.targetMembers target = some members) :
    TypeExpr.sizeMembers (scope.adjustedMembers target members) < type.size ∨
      TypeExpr.sizeMembers (scope.adjustedMembers target members) ≤ scope.model.bodySize := by
  have adjusted_le := sizeMembers_adjustMembers_le (scope.model.memberRules target.type) members
  have core_le := scope.model.size_core_le target.type
  simp only [adjustedMembers]
  rcases TypeModel.sizeMembers_membersWithin listed with smaller | bounded
  · rcases size_target_le found with inside | declared
    · left
      omega
    · right
      omega
  · right
    omega

/-- Expands one member, in which the members of its type are expanded by `recur`. -/
def expandMemberStep (scope : Scope)
    (recur : PropertyPath → List Member → Budgeted PropertyList) (path : PropertyPath)
    (member : Member) : Budgeted (Option ResolvedProperty) := do
  let signature ← scope.resolve { position := .property, inExtension := true } member.type
  if signature.display == "Function" then return none
  else
    let property := ResolvedProperty.ofMember member signature
    match scope.target? member.type with
    | none => return some property
    | some target =>
      if target.name.any path.hasSeen then return some (property.asCircular target.array)
      else
        match scope.targetMembers target with
        | none => return some property
        | some members =>
          let inner ← recur ((path.child member.name).enter target.name target.array)
            (scope.adjustedMembers target members)
          return some
            (property.withMembers (target.array && path.isOutsideArrays) (nonEmpty? inner))

def expandMembersStep (scope : Scope)
    (recur : PropertyPath → List Member → Budgeted PropertyList) (path : PropertyPath) :
    List Member → PropertyList → Budgeted PropertyList
  | [], done => return done
  | member :: rest, done =>
    if member.type.isFunction then expandMembersStep scope recur path rest done
    else do
      match ← scope.expandMemberStep recur path member with
      | some property => expandMembersStep scope recur path rest (upsert member.name property done)
      | none => expandMembersStep scope recur path rest done

/-- Expands members with a budget of nested entries; it gives nothing when the budget is spent. -/
def expandMembersWithin (scope : Scope) : Nat → PropertyPath → List Member → Budgeted PropertyList
  | 0, _, _ => failure
  | budget + 1, path, members =>
    scope.expandMembersStep (expandMembersWithin scope budget) path members []

/-- Expands the type of a property with a budget of nested entries. -/
def expandWithin (scope : Scope) (budget : Nat) (name : String) (type : TypeExpr) :
    Budgeted Expansion :=
  match scope.target? type with
  | none => return {}
  | some target =>
    match scope.targetMembers target with
    | none => return {}
    | some members => do
      let path := (PropertyPath.root name).enter target.name target.array
      let inner ← scope.expandMembersWithin budget path (scope.adjustedMembers target members)
      return if target.array then { itemProperties := nonEmpty? inner }
        else { properties := nonEmpty? inner }

theorem lift_expandMember (scope : Scope) (path : PropertyPath) (member : Member) :
    (liftM (scope.expandMember path member) : Budgeted (Option ResolvedProperty)) =
      scope.expandMemberStep (fun path members => liftM (scope.expandMembers path members []))
        path member := by
  rw [expandMember]
  unfold expandMemberStep
  rw [liftM_bind]
  congr 1
  funext signature
  split
  · simp
  · dsimp only
    split
    · rename_i untargeted
      rw [untargeted]
      simp
    · rename_i target found
      rw [found]
      dsimp only
      split
      · simp
      · split
        · rename_i unlisted
          rw [unlisted]
          simp
        · rename_i members listed
          rw [listed]
          simp

theorem lift_expandMembers (scope : Scope) (path : PropertyPath) (members : List Member)
    (done : PropertyList) :
    (liftM (scope.expandMembers path members done) : Budgeted PropertyList) =
      scope.expandMembersStep (fun path members => liftM (scope.expandMembers path members []))
        path members done := by
  induction members generalizing done with
  | nil =>
    rw [expandMembers, expandMembersStep]
    simp
  | cons member rest ih =>
    rw [expandMembers, expandMembersStep]
    split
    · exact ih done
    · rw [liftM_bind, lift_expandMember]
      congr 1
      funext property
      cases property with
      | none => exact ih done
      | some property => exact ih _

/-- What an expansion of members may enter: the first path and members are those of a type that a
member of the second leads to. -/
inductive Enters (scope : Scope) :
    PropertyPath × List Member → PropertyPath × List Member → Prop
  | target {path : PropertyPath} {members inner : List Member} {member : Member}
      {target : ExpansionTarget} (mem : member ∈ members)
      (found : scope.target? member.type = some target)
      (fresh : ¬target.name.any path.hasSeen = true)
      (listed : scope.targetMembers target = some inner) :
      Enters scope ((path.child member.name).enter target.name target.array,
        scope.adjustedMembers target inner) (path, members)

theorem expandMemberStep_congr {recur other : PropertyPath → List Member → Budgeted PropertyList}
    {member : Member} (mem : member ∈ members)
    (agree : ∀ innerPath inner, scope.Enters (innerPath, inner) (path, members) →
      recur innerPath inner = other innerPath inner) :
    scope.expandMemberStep recur path member = scope.expandMemberStep other path member := by
  unfold expandMemberStep
  congr 1
  funext signature
  split
  · rfl
  · dsimp only
    split
    · rfl
    · rename_i target found
      split
      · rfl
      · rename_i fresh
        split
        · rfl
        · rename_i inner listed
          rw [agree _ _ (.target mem found fresh listed)]

/-- An expansion of members depends on what it enters and on nothing else of the recursion. -/
theorem expandMembersStep_congr {recur other : PropertyPath → List Member → Budgeted PropertyList}
    {done : PropertyList}
    (agree : ∀ innerPath inner, scope.Enters (innerPath, inner) (path, members) →
      recur innerPath inner = other innerPath inner) :
    scope.expandMembersStep recur path members done =
      scope.expandMembersStep other path members done := by
  induction members generalizing done with
  | nil => rfl
  | cons member rest ih =>
    have head_eq := expandMemberStep_congr List.mem_cons_self agree
    have rest_agree : ∀ innerPath inner, scope.Enters (innerPath, inner) (path, rest) →
        recur innerPath inner = other innerPath inner := by
      intro innerPath inner entry
      apply agree
      cases entry with
      | target mem found fresh listed =>
        exact .target (List.mem_cons_of_mem member mem) found fresh listed
    rw [expandMembersStep, expandMembersStep, head_eq]
    split
    · exact ih rest_agree
    · congr 1
      funext property
      cases property with
      | none | some property => exact ih rest_agree

/-- How many nested entries an expansion of members can lead to. -/
def entryBudget (scope : Scope) (entry : PropertyPath × List Member) : Nat :=
  unseen scope.entryNames entry.1.seen.toList * (scope.model.bodySize + 1) +
    TypeExpr.sizeMembers entry.2 + 1

namespace Enters

variable {scope : Scope} {inner outer : PropertyPath × List Member}

theorem smaller_or_fewer (entry : scope.Enters inner outer) :
    (unseen scope.entryNames inner.1.seen.toList ≤ unseen scope.entryNames outer.1.seen.toList ∧
        TypeExpr.sizeMembers inner.2 < TypeExpr.sizeMembers outer.2) ∨
      (unseen scope.entryNames inner.1.seen.toList < unseen scope.entryNames outer.1.seen.toList ∧
        TypeExpr.sizeMembers inner.2 ≤ scope.model.bodySize) := by
  cases entry with
  | @target path members inner member target mem found fresh listed =>
    have member_le := TypeExpr.size_le_sizeMembers mem
    have decreases := enter_decreases found fresh listed
    rw [Prod.lex_def] at decreases
    rcases sizeMembers_adjustedMembers found listed with smaller | bounded
    · left
      have smaller_outer := Nat.lt_of_lt_of_le smaller member_le
      refine ⟨?_, smaller_outer⟩
      rcases decreases with fewer | ⟨same, _⟩
      · exact Nat.le_of_lt fewer
      · exact Nat.le_of_eq same
    · rcases decreases with fewer | ⟨same, later⟩
      · exact .inr ⟨fewer, bounded⟩
      · left
        rw [Prod.lex_def] at later
        refine ⟨Nat.le_of_eq same, ?_⟩
        rcases later with smaller | ⟨_, impossible⟩
        · exact Nat.lt_of_lt_of_le smaller member_le
        · simp at impossible

theorem entryBudget_lt (entry : scope.Enters inner outer) :
    scope.entryBudget inner < scope.entryBudget outer := by
  rcases entry.smaller_or_fewer with ⟨fewer, smaller⟩ | ⟨fewer, bounded⟩
  · have spent := Nat.mul_le_mul_right (scope.model.bodySize + 1) fewer
    simp only [entryBudget]
    omega
  · have spent := Nat.mul_le_mul_right (scope.model.bodySize + 1) (Nat.succ_le_of_lt fewer)
    rw [Nat.succ_mul] at spent
    simp only [entryBudget]
    omega

end Enters

/-- What holds of members if it holds of those that are entered from them holds of all. A type may
occur below itself, so this is an induction on the entries that are still open. -/
theorem entries_induction (scope : Scope) {Holds : PropertyPath → List Member → Prop}
    (step : ∀ path members, (∀ innerPath inner, scope.Enters (innerPath, inner) (path, members) →
      Holds innerPath inner) → Holds path members) (path : PropertyPath) (members : List Member) :
    Holds path members := by
  induction budget : scope.entryBudget (path, members) using Nat.strongRecOn
    generalizing path members with
  | ind budget ih =>
    subst budget
    apply step
    intro innerPath inner entry
    exact ih _ entry.entryBudget_lt innerPath inner rfl

theorem expandMembersWithin_eq_lift {budget : Nat}
    (enough : scope.entryBudget (path, members) ≤ budget) :
    scope.expandMembersWithin budget path members =
      liftM (scope.expandMembers path members []) := by
  induction budget generalizing path members with
  | zero =>
    simp only [entryBudget] at enough
    omega
  | succ budget ih =>
    rw [lift_expandMembers, expandMembersWithin]
    apply expandMembersStep_congr
    intro innerPath inner entry
    apply ih
    have less := entry.entryBudget_lt
    omega

/-- How many nested entries the expansion of a type can lead to. -/
def expansionBudget (scope : Scope) (type : TypeExpr) : Nat :=
  scope.entryNames.length * (scope.model.bodySize + 1) + (scope.model.bodySize + type.size) + 1

/-- The expansion of a type never spends a budget that is large enough for the model and the
type. -/
theorem run_expandWithin (scope : Scope) (name : String) (type : TypeExpr) (spare : Nat) :
    (scope.expandWithin (scope.expansionBudget type + spare) name type).run =
      some <$> scope.expand name type := by
  cases found : scope.target? type with
  | none => simp [expandWithin, expand, found]
  | some target =>
    cases listed : scope.targetMembers target with
    | none => simp [expandWithin, expand, found, listed]
    | some members =>
      have members_le : TypeExpr.sizeMembers (scope.adjustedMembers target members) ≤
          scope.model.bodySize + type.size := by
        rcases sizeMembers_adjustedMembers found listed with smaller | bounded
        · omega
        · omega
      have names_le : unseen scope.entryNames
          ((PropertyPath.root name).enter target.name target.array).seen.toList ≤
            scope.entryNames.length := List.countP_le_length
      have spent := Nat.mul_le_mul_right (scope.model.bodySize + 1) names_le
      have enough : scope.entryBudget ((PropertyPath.root name).enter target.name target.array,
          scope.adjustedMembers target members) ≤ scope.expansionBudget type + spare := by
        simp only [entryBudget, expansionBudget]
        omega
      simp only [expandWithin, expand, found, listed]
      rw [expandMembersWithin_eq_lift enough]
      simp

end Scope

end Componentry
