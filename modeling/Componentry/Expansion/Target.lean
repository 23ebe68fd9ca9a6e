import Componentry.Resolution

/-!
# Expansion targets

The object type behind a type, whose members become nested properties. Missing members of a union
are left aside, aliases are followed, and one array is looked through. Members of a target are
either written inside the type that it was found in, and then smaller than that type, or they are
reached through a name of the model (`sizeMembers_lt_or_mem_entryNames`). That is what makes the
expansion of properties end.
-/

namespace Componentry

/-- An object type whose members can be expanded. -/
structure ExpansionTarget where
  /-- An object type, a reference, or wrappers around one of them. -/
  type : TypeExpr
  /-- The declared name, by which the expansion notices that it comes back. -/
  name : Option String
  /-- Whether the target is the element type of an array. -/
  array : Bool

namespace Scope

/-- How many types the search for a target looks at. -/
def targetSteps : Nat := 33

/-- The target behind a type within so many steps; `array` says that an array was looked through
already. -/
def targetWithin (scope : Scope) : Nat → Bool → TypeExpr → Option ExpansionTarget
  | 0, _, _ => none
  | steps + 1, array, type =>
    if scope.model.isWrapper type then
      match targetWithin scope steps false (scope.model.core type) with
      | some inner => if inner.array then none else some ⟨type, inner.name, array⟩
      | none => none
    else
      match type with
      | .union members =>
        match TypeExpr.presentMembers members with
        | [single] => targetWithin scope steps array single
        | _ => none
      | .array element => if array then none else targetWithin scope steps true element
      | .struct name typeArgs members =>
        if name.any scope.isWellKnown then none
        else some ⟨.struct name typeArgs members, name, array⟩
      | .reference name args =>
        if scope.isWellKnown name then none
        else
          match scope.model.find? name with
          | none => none
          | some declaration =>
            match declaration.kind with
            | .interface => some ⟨.reference name args, some declaration.name, array⟩
            | .classType => some ⟨.reference name args, some declaration.name, array⟩
            | .typeAlias =>
              match targetWithin scope steps array declaration.body with
              | some target => some { target with name := some (target.name.getD declaration.name) }
              | none => none
            | .enumeration => none
      | .conditional _ (some branch) => targetWithin scope steps array branch
      | _ => none

/-- The object type behind a type, if it can be expanded. -/
def target? (scope : Scope) (type : TypeExpr) : Option ExpansionTarget :=
  scope.targetWithin targetSteps false type

/-- The members of a target, without regard to its wrappers. -/
def targetMembers (scope : Scope) (target : ExpansionTarget) : Option (List Member) :=
  scope.model.members (scope.model.core target.type)

/-- The names that a target may bear because the model leads to it: the declared names and the names
of what aliases stand for. -/
def entryNames (scope : Scope) : List String :=
  scope.model.names ++ scope.model.declarations.flatMap fun declaration =>
    (List.range targetSteps).flatMap fun steps =>
      [false, true].filterMap fun array =>
        (scope.targetWithin steps array declaration.body).bind ExpansionTarget.name

theorem mem_entryNames_of_mem_names {scope : Scope} {name : String}
    (mem : name ∈ scope.model.names) : name ∈ scope.entryNames :=
  List.mem_append_left _ mem

theorem mem_declarations_of_find? {model : TypeModel} {name : String} {declaration : Declaration}
    (found : model.find? name = some declaration) : declaration ∈ model.declarations := by
  simp only [TypeModel.find?, OrderedMap.get?, lookup, Option.map_eq_some_iff] at found
  obtain ⟨entry, entry_found, entry_value⟩ := found
  exact List.mem_map.2 ⟨entry, List.mem_of_find?_eq_some entry_found, entry_value⟩

theorem mem_entryNames_of_body {scope : Scope} {declaration : Declaration} {steps : Nat}
    {array : Bool} {target : ExpansionTarget} {name : String}
    (mem : declaration ∈ scope.model.declarations) (steps_lt : steps < targetSteps)
    (found : scope.targetWithin steps array declaration.body = some target)
    (named : target.name = some name) : name ∈ scope.entryNames := by
  refine List.mem_append_right _ (List.mem_flatMap.2 ⟨declaration, mem, ?_⟩)
  refine List.mem_flatMap.2 ⟨steps, List.mem_range.2 steps_lt, ?_⟩
  refine List.mem_filterMap.2 ⟨array, by cases array <;> simp, ?_⟩
  simp [found, named]

/-- A target that is found through a reference bears a name of the model. -/
theorem mem_entryNames_of_reference {scope : Scope} {steps : Nat} {array : Bool} {name : String}
    {args : List TypeExpr} {target : ExpansionTarget} (steps_le : steps ≤ targetSteps)
    (plain : scope.model.isWrapper (.reference name args) = false)
    (found : scope.targetWithin steps array (.reference name args) = some target) :
    ∃ entered, target.name = some entered ∧ entered ∈ scope.entryNames := by
  match steps with
  | 0 => simp [targetWithin] at found
  | steps + 1 =>
    simp only [targetWithin, plain, Bool.false_eq_true, if_false] at found
    split at found
    · simp at found
    · split at found
      · simp at found
      · rename_i declaration declared
        have declared_mem : declaration.name ∈ scope.entryNames := by
          rw [TypeModel.name_of_find? declared]
          exact mem_entryNames_of_mem_names (TypeModel.mem_names_of_find? declared)
        split at found
        · cases found
          exact ⟨_, rfl, declared_mem⟩
        · cases found
          exact ⟨_, rfl, declared_mem⟩
        · split at found
          · rename_i body_target body_found
            cases found
            refine ⟨_, rfl, ?_⟩
            cases named : body_target.name with
            | none => exact declared_mem
            | some inner =>
              exact mem_entryNames_of_body (mem_declarations_of_find? declared)
                (Nat.lt_of_succ_le steps_le) body_found named
          · simp at found
        · simp at found

/-- The members of an object type are smaller than the type. -/
theorem sizeMembers_lt_of_members {model : TypeModel} {type : TypeExpr} {members : List Member}
    (plain : model.isWrapper type = false) (unnamed : ∀ name args, type ≠ .reference name args)
    (found : model.members type = some members) : TypeExpr.sizeMembers members < type.size := by
  simp only [TypeModel.members, TypeModel.memberSteps, TypeModel.membersWithin] at found
  split at found
  · cases found
    simp only [TypeExpr.size]
    omega
  · exact absurd rfl (unnamed _ _)
  · simp [TypeModel.isWrapper] at plain
  · simp at found

/-- What is known of the members of a target that was found in a type. -/
theorem sizeMembers_lt_or_mem_entryNames {scope : Scope} {steps : Nat} {array : Bool}
    {type : TypeExpr} {target : ExpansionTarget} {members : List Member}
    (steps_le : steps ≤ targetSteps) (found : scope.targetWithin steps array type = some target)
    (listed : scope.targetMembers target = some members) :
    TypeExpr.sizeMembers members < type.size ∨
      ∃ entered, target.name = some entered ∧ entered ∈ scope.entryNames := by
  induction steps generalizing array type target with
  | zero => simp [targetWithin] at found
  | succ steps ih =>
    have steps_le' : steps ≤ targetSteps := Nat.le_of_succ_le steps_le
    by_cases wrapped : scope.model.isWrapper type = true
    · simp only [targetWithin, wrapped, if_true] at found
      split at found
      · rename_i inner inner_found
        split at found
        · simp at found
        · cases found
          simp only [targetMembers] at listed
          have core_plain := scope.model.isWrapper_core type
          match core_eq : scope.model.core type with
          | .reference name args =>
            rw [core_eq] at core_plain inner_found
            obtain ⟨entered, named, mem⟩ :=
              mem_entryNames_of_reference steps_le' core_plain inner_found
            exact .inr ⟨entered, named, mem⟩
          | .primitive _ | .literal _ | .array _ | .struct _ _ _ | .union _ | .intersection _
          | .mapped _ _ | .generic _ _ | .function _ _ | .conditional _ _ | .any | .unknown
          | .null =>
            left
            have core_lt := TypeModel.size_core_lt wrapped
            have members_lt := sizeMembers_lt_of_members core_plain (by simp [core_eq]) listed
            omega
      · simp at found
    · have plain : scope.model.isWrapper type = false := by simpa using wrapped
      match type with
      | .union members =>
        simp only [targetWithin, plain, Bool.false_eq_true, if_false] at found
        split at found
        · rename_i single single_eq
          have smaller : single.size < (TypeExpr.union members).size := by
            have := TypeExpr.sizeAll_presentMembers_le members
            rw [single_eq] at this
            simp only [TypeExpr.sizeAll, TypeExpr.size] at this ⊢
            omega
          exact (ih steps_le' found listed).imp (fun h => Nat.lt_trans h smaller) id
        · simp at found
      | .array element =>
        simp only [targetWithin, plain, Bool.false_eq_true, if_false] at found
        split at found
        · simp at found
        · refine (ih steps_le' found listed).imp (fun h => ?_) id
          simp only [TypeExpr.size]
          omega
      | .struct name typeArgs members =>
        simp only [targetWithin, plain, Bool.false_eq_true, if_false] at found
        split at found
        · simp at found
        · cases found
          exact .inl (sizeMembers_lt_of_members plain (by simp) listed)
      | .reference name args =>
        exact .inr (mem_entryNames_of_reference steps_le plain found)
      | .conditional text (some branch) =>
        simp only [targetWithin, plain, Bool.false_eq_true, if_false] at found
        refine (ih steps_le' found listed).imp (fun h => ?_) id
        simp only [TypeExpr.size]
        omega
      | .conditional _ none | .primitive _ | .literal _ | .intersection _ | .mapped _ _
      | .generic _ _ | .function _ _ | .any | .unknown | .null =>
        simp [targetWithin, plain] at found

end Scope

end Componentry
