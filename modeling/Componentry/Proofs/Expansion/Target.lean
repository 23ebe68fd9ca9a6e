import Componentry.Expansion.Target

/-!
# What expansion targets are

`Finds` lists the ways in which the search for a target goes on, without the
bound on its steps. A type is an array for the search if an array is met before
an object type; such a type has no target or one that is the type of elements
(`Finds.array_of_arrayTyped`), whatever unions, wrappers, aliases and
conditional types stand around the array.
-/

namespace Componentry

/-- The values of a type are arrays, unless they are missing. -/
inductive TypeModel.ArrayTyped (model : TypeModel) : TypeExpr → Prop
  | array (element : TypeExpr) : ArrayTyped model (.array element)
  | union {members : List TypeExpr} {single : TypeExpr}
      (present : TypeExpr.presentMembers members = [single]) (inner : ArrayTyped model single) :
      ArrayTyped model (.union members)
  | wrapped {type : TypeExpr} (wrapper : model.isWrapper type = true)
      (inner : ArrayTyped model (model.core type)) : ArrayTyped model type
  | aliased {name : String} {args : List TypeExpr} {declaration : Declaration}
      (found : model.find? name = some declaration) (kind : declaration.kind = .typeAlias)
      (inner : ArrayTyped model declaration.body) : ArrayTyped model (.reference name args)
  | conditional {text : String} {branch : TypeExpr} (inner : ArrayTyped model branch) :
      ArrayTyped model (.conditional text (some branch))

namespace Scope

/-- The search for the target behind a type, after an array was looked through or not. -/
inductive Finds (scope : Scope) : Bool → TypeExpr → ExpansionTarget → Prop
  | wrapped {array : Bool} {type : TypeExpr} {inner : ExpansionTarget}
      (wrapper : scope.model.isWrapper type = true)
      (found : Finds scope false (scope.model.core type) inner) (object : inner.array = false) :
      Finds scope array type ⟨type, inner.name, array⟩
  | union {array : Bool} {members : List TypeExpr} {single : TypeExpr} {target : ExpansionTarget}
      (present : TypeExpr.presentMembers members = [single])
      (found : Finds scope array single target) :
      Finds scope array (.union members) target
  | array {element : TypeExpr} {target : ExpansionTarget}
      (found : Finds scope true element target) :
      Finds scope false (.array element) target
  | struct {array : Bool} {name : Option String} {typeArgs : List TypeExpr} {members : List Member}
      (own : name.any scope.isWellKnown = false) :
      Finds scope array (.struct name typeArgs members) ⟨.struct name typeArgs members, name, array⟩
  | declared {array : Bool} {name : String} {args : List TypeExpr} {declaration : Declaration}
      (plain : scope.model.isWrapper (.reference name args) = false)
      (own : scope.isWellKnown name = false) (found : scope.model.find? name = some declaration)
      (kind : declaration.kind = .interface ∨ declaration.kind = .classType) :
      Finds scope array (.reference name args)
        ⟨.reference name args, some declaration.name, array⟩
  | aliased {array : Bool} {name : String} {args : List TypeExpr} {declaration : Declaration}
      {target : ExpansionTarget} (plain : scope.model.isWrapper (.reference name args) = false)
      (own : scope.isWellKnown name = false) (found : scope.model.find? name = some declaration)
      (kind : declaration.kind = .typeAlias) (body : Finds scope array declaration.body target) :
      Finds scope array (.reference name args)
        { target with name := some (target.name.getD declaration.name) }
  | conditional {array : Bool} {text : String} {branch : TypeExpr} {target : ExpansionTarget}
      (found : Finds scope array branch target) :
      Finds scope array (.conditional text (some branch)) target

/-- The search looks into the core of a chain of wrappers. -/
theorem targetWithin_of_isWrapper {scope : Scope} {type : TypeExpr}
    (wrapped : scope.model.isWrapper type = true) (steps : Nat) (array : Bool) :
    scope.targetWithin (steps + 1) array type =
      (scope.targetWithin steps false (scope.model.core type)).bind fun inner =>
        if inner.array then none else some ⟨type, inner.name, array⟩ := by
  simp only [targetWithin, wrapped, if_true]
  cases scope.targetWithin steps false (scope.model.core type) <;> rfl

/-- The search for an object type follows its rules. -/
theorem finds_of_targetWithin {scope : Scope} {steps : Nat} {array : Bool} {type : TypeExpr}
    {target : ExpansionTarget} (found : scope.targetWithin steps array type = some target) :
    scope.Finds array type target := by
  induction steps generalizing array type target with
  | zero => simp [targetWithin] at found
  | succ steps ih =>
    by_cases wrapped : scope.model.isWrapper type = true
    · simp only [targetWithin, wrapped, if_true] at found
      split at found
      · rename_i inner inner_found
        split at found
        · simp at found
        · rename_i object
          cases found
          exact .wrapped wrapped (ih inner_found) (by simpa using object)
      · simp at found
    · have plain : scope.model.isWrapper type = false := by simpa using wrapped
      cases type with
      | union members =>
        simp only [targetWithin, plain, Bool.false_eq_true, if_false] at found
        split at found
        · rename_i single present
          exact .union present (ih found)
        · simp at found
      | array element =>
        simp only [targetWithin, plain, Bool.false_eq_true, if_false] at found
        cases array with
        | false => exact .array (ih (by simpa using found))
        | true => simp at found
      | struct name typeArgs members =>
        simp only [targetWithin, plain, Bool.false_eq_true, if_false] at found
        split at found
        · simp at found
        · rename_i own
          cases found
          exact .struct (by simpa using own)
      | reference name args =>
        simp only [targetWithin, plain, Bool.false_eq_true, if_false] at found
        split at found
        · simp at found
        · rename_i not_known
          have own : scope.isWellKnown name = false := by simpa using not_known
          split at found
          · simp at found
          · rename_i declaration declared
            split at found
            · rename_i kind
              cases found
              exact .declared plain own declared (.inl kind)
            · rename_i kind
              cases found
              exact .declared plain own declared (.inr kind)
            · rename_i kind
              split at found
              · rename_i body_target body_found
                cases found
                exact .aliased plain own declared kind (ih body_found)
              · simp at found
            · simp at found
      | conditional text resolved =>
        cases resolved with
        | none => simp [targetWithin, plain] at found
        | some branch =>
          simp only [targetWithin, plain, Bool.false_eq_true, if_false] at found
          exact .conditional (ih found)
      | _ => simp [targetWithin, plain] at found

namespace Finds

variable {scope : Scope} {array : Bool} {type : TypeExpr} {target : ExpansionTarget}

/-- A target that is found after an array is the type of its elements. -/
theorem array_of_array (finds : scope.Finds array type target) (after : array = true) :
    target.array = true := by
  induction finds with
  | wrapped _ _ _ _ => exact after
  | union _ _ ih => exact ih after
  | array _ ih => exact ih rfl
  | struct _ => exact after
  | declared _ _ _ _ => exact after
  | aliased _ _ _ _ _ ih | conditional _ ih => exact ih after

theorem array_of_arrayTyped (finds : scope.Finds array type target)
    (arrayTyped : scope.model.ArrayTyped type) : target.array = true := by
  induction finds with
  | wrapped wrapper _ object ih =>
    -- A wrapper around an array has no target at all.
    cases arrayTyped with
    | wrapped _ inner => simp [ih inner] at object
    | array element | union _ _ | conditional _ => simp [TypeModel.isWrapper] at wrapper
    | @aliased name args declaration found _ _ =>
      cases args with
      | nil => simp [TypeModel.isWrapper] at wrapper
      | cons first rest => simp [TypeModel.isWrapper, TypeModel.isWrapperName, found] at wrapper
  | union present _ ih =>
    cases arrayTyped with
    | union other_present inner =>
      rw [present, List.cons.injEq] at other_present
      exact ih (other_present.1 ▸ inner)
    | wrapped wrapper _ => simp [TypeModel.isWrapper] at wrapper
  | array found _ => exact found.array_of_array rfl
  | struct _ =>
    cases arrayTyped with
    | wrapped wrapper _ => simp [TypeModel.isWrapper] at wrapper
  | declared plain _ found kind =>
    cases arrayTyped with
    | wrapped wrapper _ => simp [plain] at wrapper
    | aliased other_found alias_kind _ =>
      cases found.symm.trans other_found
      simp [alias_kind] at kind
  | aliased plain _ found _ _ ih =>
    cases arrayTyped with
    | wrapped wrapper _ => simp [plain] at wrapper
    | aliased other_found _ inner =>
      cases found.symm.trans other_found
      exact ih inner
  | conditional _ ih =>
    cases arrayTyped with
    | conditional inner => exact ih inner
    | wrapped wrapper _ => simp [TypeModel.isWrapper] at wrapper

end Finds

end Scope

end Componentry
