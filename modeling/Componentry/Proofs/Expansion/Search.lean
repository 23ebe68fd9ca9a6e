import Componentry.Proofs.Expansion.Agreement
import Componentry.Proofs.Expansion.Layers

/-!
# Searches that end

The search for an expansion target and the lookup of members stop after a
number of steps. A search that ends before that does not need more steps, and
then the steps need not be counted: a union with one present member, a wrapper
and an array are searched like what stands in them.
-/

namespace Componentry

namespace TypeModel

/-- What the lookup of members goes on to. -/
def lookupNext? (model : TypeModel) : TypeExpr → Option TypeExpr
  | .reference name _ => (model.find? name).map Declaration.body
  | .mapped _ (inner :: _) => some inner
  | _ => none

/-- Whether the lookup of members follows at most so many references and wrappers. -/
def lookupEnds (model : TypeModel) : Nat → TypeExpr → Bool
  | 0, type => (model.lookupNext? type).isNone
  | levels + 1, type =>
    match model.lookupNext? type with
    | none => true
    | some inner => lookupEnds model levels inner

variable {model : TypeModel} {type : TypeExpr}

theorem lookupEnds_succ {levels : Nat} (ends : model.lookupEnds levels type = true) :
    model.lookupEnds (levels + 1) type = true := by
  induction levels generalizing type with
  | zero => simp_all [lookupEnds]
  | succ levels ih =>
    rw [lookupEnds] at ends ⊢
    split
    · rfl
    · rename_i inner next
      simp only [next] at ends
      exact ih ends

theorem membersWithin_congr {steps more : Nat}
    (agree : ∀ inner, model.lookupNext? type = some inner →
      model.membersWithin steps inner = model.membersWithin more inner) :
    model.membersWithin (steps + 1) type = model.membersWithin (more + 1) type := by
  cases type with
  | reference name args =>
    cases found : model.find? name with
    | none => simp only [membersWithin, found]
    | some declaration =>
      simp only [membersWithin, found]
      exact agree _ (by simp [lookupNext?, found])
  | mapped wrapper args =>
    cases args with
    | nil => rfl
    | cons inner rest => exact agree inner rfl
  | _ => rfl

/-- A lookup that ends does not need more steps. -/
theorem membersWithin_of_lookupEnds {levels : Nat} (ends : model.lookupEnds levels type = true) :
    model.membersWithin (levels + 2) type = model.membersWithin (levels + 1) type := by
  induction levels generalizing type with
  | zero =>
    apply membersWithin_congr
    intro inner next
    simp [lookupEnds, next] at ends
  | succ levels ih =>
    apply membersWithin_congr
    intro inner next
    simp only [lookupEnds, next] at ends
    exact ih ends

end TypeModel

namespace Scope

variable {scope : Scope} {levels : Nat} {array : Bool} {type inner : TypeExpr}

/-! ## Searches that end -/

theorem searchEnds_of_next {innerArray : Bool}
    (next : scope.searchNext? array type = some (innerArray, inner)) :
    scope.searchEnds levels array type = true ↔
      ∃ less, levels = less + 1 ∧ scope.searchEnds less innerArray inner = true := by
  cases levels with
  | zero | succ levels => simp [searchEnds, next]

theorem searchEnds_of_stop (stop : scope.searchNext? array type = none) :
    scope.searchEnds levels array type = true := by
  cases levels with
  | zero | succ levels => simp [searchEnds, stop]

theorem searchEnds_succ (ends : scope.searchEnds levels array type = true) :
    scope.searchEnds (levels + 1) array type = true := by
  induction levels generalizing array type with
  | zero =>
    apply searchEnds_of_stop
    simpa [searchEnds] using ends
  | succ levels ih =>
    cases next : scope.searchNext? array type with
    | none => exact searchEnds_of_stop next
    | some step =>
      rcases (searchEnds_of_next next).1 ends with ⟨less, same, inner_ends⟩
      cases same
      exact (searchEnds_of_next next).2 ⟨levels + 1, rfl, ih inner_ends⟩

theorem targetWithin_congr {steps more : Nat}
    (agree : ∀ innerArray inner, scope.searchNext? array type = some (innerArray, inner) →
      scope.targetWithin steps innerArray inner = scope.targetWithin more innerArray inner) :
    scope.targetWithin (steps + 1) array type = scope.targetWithin (more + 1) array type := by
  by_cases wrapped : scope.model.isWrapper type = true
  · rw [targetWithin_of_isWrapper wrapped, targetWithin_of_isWrapper wrapped]
    rw [agree false (scope.model.core type) (by simp [searchNext?, wrapped])]
  · have plain : scope.model.isWrapper type = false := by simpa using wrapped
    cases type with
    | union members =>
      simp only [targetWithin, plain, Bool.false_eq_true, if_false]
      split
      · rename_i single present
        apply agree
        simp [searchNext?, plain, present]
      · rfl
    | array element =>
      cases array with
      | false => exact agree true element rfl
      | true => rfl
    | reference name args =>
      simp only [targetWithin, plain, Bool.false_eq_true, if_false]
      split
      · rfl
      · rename_i own
        split
        · rfl
        · rename_i declaration found
          cases kind : declaration.kind with
          | typeAlias =>
            have body := agree array declaration.body
              (by simp [searchNext?, plain, own, found, kind])
            simp only [body]
          | _ => rfl
    | conditional text resolved =>
      cases resolved with
      | none => rfl
      | some branch =>
        simp only [targetWithin, plain, Bool.false_eq_true, if_false]
        apply agree
        simp [searchNext?, plain]
    | mapped wrapper args =>
      cases args with
      | nil => rfl
      | cons inner rest => cases plain
    | _ => rfl

/-- A search that ends does not need more steps. -/
theorem targetWithin_of_searchEnds (ends : scope.searchEnds levels array type = true) :
    scope.targetWithin (levels + 2) array type = scope.targetWithin (levels + 1) array type := by
  induction levels generalizing array type with
  | zero =>
    apply targetWithin_congr
    intro innerArray inner next
    simp [searchEnds, next] at ends
  | succ levels ih =>
    apply targetWithin_congr
    intro innerArray inner next
    rcases (searchEnds_of_next next).1 ends with ⟨less, same, inner_ends⟩
    cases same
    exact ih inner_ends

/-! ## The search below unions, wrappers and aliases -/

theorem searchNext?_of_isWrapper (wrapped : scope.model.isWrapper type = true) (array : Bool) :
    scope.searchNext? array type = some (false, scope.model.core type) := by
  simp [searchNext?, wrapped]

theorem searchNext?_around {layer : Layer} (recognized : layer.Recognized scope.model)
    (array : Bool) (inner : TypeExpr) :
    scope.searchNext? array (layer.around inner) = some (false, scope.model.core inner) := by
  rw [searchNext?_of_isWrapper (Layer.isWrapper_around recognized inner),
    Layer.core_around recognized]

theorem searchEnds_around {layer : Layer} (recognized : layer.Recognized scope.model) :
    scope.searchEnds levels array (layer.around inner) = true ↔
      if scope.model.isWrapper inner then scope.searchEnds levels false inner = true
      else ∃ less, levels = less + 1 ∧ scope.searchEnds less false inner = true := by
  rw [searchEnds_of_next (searchNext?_around recognized array inner)]
  split
  · rename_i wrapped
    rw [searchEnds_of_next (searchNext?_of_isWrapper wrapped false)]
  · rename_i plain
    rw [TypeModel.core_of_not_isWrapper (by simpa using plain)]

/-- A wrapper stands in the way of no search, unless there is an array behind it. -/
theorem targetWithin_around {layer : Layer} (recognized : layer.Recognized scope.model)
    (ends : scope.searchEnds levels array (layer.around inner) = true) :
    scope.searchEnds levels false inner = true ∧
      scope.targetWithin (levels + 1) array (layer.around inner) =
        (scope.targetWithin (levels + 1) false inner).bind fun target =>
          if target.array then none else some ⟨layer.around inner, target.name, array⟩ := by
  rw [searchEnds_around recognized] at ends
  rw [targetWithin_of_isWrapper (Layer.isWrapper_around recognized inner),
    Layer.core_around recognized]
  split at ends
  · rename_i wrapped
    refine ⟨ends, ?_⟩
    rw [targetWithin_of_isWrapper wrapped]
    cases scope.targetWithin levels false (scope.model.core inner) with
    | none => rfl
    | some target => cases array : target.array <;> simp [array]
  · rename_i plain
    rcases ends with ⟨less, rfl, inner_ends⟩
    rw [TypeModel.core_of_not_isWrapper (by simpa using plain),
      targetWithin_of_searchEnds inner_ends]
    exact ⟨searchEnds_succ inner_ends, rfl⟩

theorem targetWithin_array (ends : scope.searchEnds levels false (.array inner) = true) :
    scope.searchEnds levels true inner = true ∧
      scope.targetWithin (levels + 1) false (.array inner) =
        scope.targetWithin (levels + 1) true inner := by
  rcases (searchEnds_of_next rfl).1 ends with ⟨less, rfl, inner_ends⟩
  refine ⟨searchEnds_succ inner_ends, ?_⟩
  rw [targetWithin_of_searchEnds inner_ends]
  rfl

end Scope

namespace Layer

theorem Recognized.withArgs {model : TypeModel} {name : String} {args : List TypeExpr}
    {reference : Bool} (recognized : Recognized model ⟨⟨name, args⟩, reference⟩)
    (others : List TypeExpr) : Recognized model ⟨⟨name, others⟩, reference⟩ :=
  recognized

theorem around_ne_union (layer : Layer) (inner : TypeExpr) (members : List TypeExpr) :
    layer.around inner ≠ .union members := by
  unfold around
  split <;> exact nofun

theorem not_isNullish_around (layer : Layer) (inner : TypeExpr) :
    (layer.around inner).isNullish = false := by
  unfold around
  split <;> rfl

end Layer

namespace TypeExpr

theorem flatten_append (first second : List TypeExpr) :
    flatten (first ++ second) = flatten first ++ flatten second := by
  induction first with
  | nil => rfl
  | cons type rest ih => simp [flatten, ih]

theorem flattenOne_eq_singleton {type : TypeExpr} (single : ∀ members, type ≠ .union members) :
    flattenOne type = [type] := by
  cases type with
  | union members => exact absurd rfl (single members)
  | _ => rfl

variable {before after : List TypeExpr}

theorem presentMembers_union
    (missing_before : presentMembers before = []) (missing_after : presentMembers after = [])
    (members : List TypeExpr) :
    presentMembers (before ++ .union members :: after) = presentMembers members := by
  rw [presentMembers] at missing_before missing_after
  simp [presentMembers, flatten_append, flatten, flattenOne, missing_before, missing_after]

/-- What is present in a union whose other members are missing. -/
theorem presentMembers_cases
    (missing_before : presentMembers before = []) (missing_after : presentMembers after = [])
    (type : TypeExpr) :
    (∃ members, type = .union members ∧
        presentMembers (before ++ type :: after) = presentMembers members) ∨
      (type.isNullish = true ∧ presentMembers (before ++ type :: after) = []) ∨
      (type.isNullish = false ∧ presentMembers (before ++ type :: after) = [type]) := by
  by_cases nested : ∃ members, type = .union members
  · rcases nested with ⟨members, rfl⟩
    exact .inl ⟨members, rfl, presentMembers_union missing_before missing_after members⟩
  · rw [presentMembers] at missing_before missing_after
    have flat := flattenOne_eq_singleton fun members same => nested ⟨members, same⟩
    right
    cases missing : type.isNullish with
    | true =>
      left
      simp [presentMembers, flatten_append, flatten, flat, missing_before, missing_after, missing]
    | false =>
      right
      simp [presentMembers, flatten_append, flatten, flat, missing_before, missing_after, missing]

end TypeExpr

namespace Scope

variable {scope : Scope} {levels : Nat} {array : Bool} {type inner : TypeExpr}
  {before after : List TypeExpr}

theorem targetWithin_of_isNullish (missing : type.isNullish = true) (steps : Nat) (array : Bool) :
    scope.searchNext? array type = none ∧ scope.targetWithin (steps + 1) array type = none := by
  rw [TypeExpr.isNullish_iff] at missing
  rcases missing with rfl | rfl
  · exact ⟨rfl, rfl⟩
  · exact ⟨rfl, rfl⟩

/-- The search looks at the present members of a union and at nothing else of it. -/
theorem search_union_congr {members others : List TypeExpr}
    (same : TypeExpr.presentMembers members = TypeExpr.presentMembers others) (steps : Nat)
    (array : Bool) :
    scope.searchNext? array (.union members) = scope.searchNext? array (.union others) ∧
      scope.targetWithin (steps + 1) array (.union members) =
        scope.targetWithin (steps + 1) array (.union others) := by
  constructor
  · simp only [searchNext?, TypeModel.isWrapper, same, Bool.false_eq_true, if_false]
  · simp only [targetWithin, TypeModel.isWrapper, same, Bool.false_eq_true, if_false]

theorem searchNext?_union {members : List TypeExpr}
    (present : TypeExpr.presentMembers members = [inner]) (array : Bool) :
    scope.searchNext? array (.union members) = some (array, inner) := by
  simp [searchNext?, TypeModel.isWrapper, present]

theorem searchEnds_congr {other : TypeExpr}
    (same : scope.searchNext? array type = scope.searchNext? array other) :
    scope.searchEnds levels array type = scope.searchEnds levels array other := by
  cases levels with
  | zero | succ levels => simp only [searchEnds, same]

/-- A union with one present member is searched like that member. -/
theorem targetWithin_union
    (missing_before : TypeExpr.presentMembers before = [])
    (missing_after : TypeExpr.presentMembers after = [])
    (ends : scope.searchEnds levels array (.union (before ++ inner :: after)) = true) :
    scope.searchEnds levels array inner = true ∧
      scope.targetWithin (levels + 1) array (.union (before ++ inner :: after)) =
        scope.targetWithin (levels + 1) array inner := by
  rcases TypeExpr.presentMembers_cases missing_before missing_after inner with
    ⟨members, rfl, present⟩ | ⟨missing, present⟩ | ⟨_, present⟩
  · rcases search_union_congr present levels array with ⟨same_next, same_target⟩
    exact ⟨searchEnds_congr same_next ▸ ends, same_target⟩
  · rcases targetWithin_of_isNullish missing levels array with ⟨stop, absent⟩
    refine ⟨searchEnds_of_stop stop, ?_⟩
    rw [absent]
    simp only [targetWithin, TypeModel.isWrapper, present]
    rfl
  · rcases (searchEnds_of_next (searchNext?_union present array)).1 ends with
      ⟨less, rfl, inner_ends⟩
    refine ⟨searchEnds_succ inner_ends, ?_⟩
    rw [targetWithin_of_searchEnds inner_ends]
    simp only [targetWithin, TypeModel.isWrapper, present]
    rfl

theorem searchEnds_union
    (missing_before : TypeExpr.presentMembers before = [])
    (missing_after : TypeExpr.presentMembers after = [])
    (ends : scope.searchEnds levels array inner = true) :
    scope.searchEnds (levels + 1) array (.union (before ++ inner :: after)) = true := by
  rcases TypeExpr.presentMembers_cases missing_before missing_after inner with
    ⟨members, rfl, present⟩ | ⟨missing, present⟩ | ⟨_, present⟩
  · rw [searchEnds_congr (search_union_congr present levels array).1]
    exact searchEnds_succ ends
  · apply searchEnds_of_stop
    simp [searchNext?, TypeModel.isWrapper, present]
  · exact (searchEnds_of_next (searchNext?_union present array)).2 ⟨levels, rfl, ends⟩

end Scope

end Componentry
