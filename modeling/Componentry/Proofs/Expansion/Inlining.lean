import Componentry.Proofs.Expansion.Cycles
import Componentry.Proofs.Expansion.Search

/-!
# Aliases written out

An alias can be written out where it is used: the search for an object type
looks through it, and the members behind it are those of its body. Three walks
have to agree for this. The search follows aliases everywhere, the lookup of
members follows references below wrappers, and the rules of wrappers are read
off the chain as it is written. So an alias for a wrapper with a rule may not be
written out below another wrapper, and an alias in the place of keys counts as no
key at all.

Writing an alias out can take away the name under which its object type is
entered. That shows only if a member below comes back to the alias.
-/

namespace Componentry

namespace TypeModel

variable {model : TypeModel} {levels : Nat} {type : TypeExpr}

/-- Whether the wrappers around a type leave its members as they are: they are mapped types without
a rule, such as `NonNullable`. The lookup of members does not go through wrappers that are written
as references. -/
def ruleless (model : TypeModel) : TypeExpr → Bool
  | .mapped name (inner :: extra) => (Wrapper.rule? ⟨name, extra⟩).isNone && model.ruleless inner
  | .reference name (_ :: _) => !model.isWrapperName name
  | _ => true
termination_by structural type => type

theorem memberRules_of_ruleless (ruleless : model.ruleless type = true) :
    model.memberRules type = [] := by
  rw [memberRules, List.reverse_eq_nil_iff]
  fun_induction rulesInward model type with
  | case1 name inner extra ih =>
    rw [TypeModel.ruleless, Bool.and_eq_true, Option.isNone_iff_eq_none] at ruleless
    rw [ruleless.1, ih ruleless.2]
    rfl
  | case2 name inner extra wrapper ih => simp [TypeModel.ruleless, wrapper] at ruleless
  | case3 => rfl
  | case4 => rfl

/-- Where wrappers leave the members as they are, the members of a type are those of its core. -/
theorem membersWithin_core (ruleless : model.ruleless type = true)
    (ends : model.lookupEnds levels type = true) :
    model.membersWithin (levels + 1) (model.core type) = model.membersWithin (levels + 1) type ∧
      model.lookupEnds levels (model.core type) = true := by
  fun_induction core model type generalizing levels with
  | case1 name inner extra ih =>
    rw [TypeModel.ruleless, Bool.and_eq_true] at ruleless
    cases levels with
    | zero => simp [lookupEnds, lookupNext?] at ends
    | succ levels =>
      rcases ih ruleless.2 ends with ⟨same, core_ends⟩
      rw [membersWithin_of_lookupEnds core_ends, same]
      exact ⟨rfl, lookupEnds_succ core_ends⟩
  | case2 name inner extra wrapper ih => simp [TypeModel.ruleless, wrapper] at ruleless
  | case3 | case4 => exact ⟨rfl, ends⟩

end TypeModel

namespace Scope

variable {scope : Scope} {levels : Nat} {array : Bool} {type inlined : TypeExpr}
  {declaration : Declaration} {below : Bool}

/-! ## Writing an alias out -/

/-- A declared alias that is not kept as a library type. -/
structure IsAlias (scope : Scope) (declaration : Declaration) : Prop where
  found : scope.model.find? declaration.name = some declaration
  kind : declaration.kind = .typeAlias
  own : scope.isWellKnown declaration.name = false

/-- The second type is the first with one use of an alias written out. The flag says that the type
stands below a wrapper: what is written out there brings no rule for members with it, and the lookup
of its members does not run out of steps. -/
inductive Inlines (scope : Scope) (declaration : Declaration) : Bool → TypeExpr → TypeExpr → Prop
  | aliased {below : Bool} (args : List TypeExpr)
      (bare : below = true → scope.model.ruleless declaration.body = true)
      (shallow : below = true →
        scope.model.lookupEnds (TypeModel.memberSteps - 2) declaration.body = true) :
      Inlines scope declaration below (.reference declaration.name args) declaration.body
  | array {below : Bool} {type inlined : TypeExpr}
      (inner : Inlines scope declaration false type inlined) :
      Inlines scope declaration below (.array type) (.array inlined)
  | union {below : Bool} {before after : List TypeExpr} {type inlined : TypeExpr}
      (missing_before : TypeExpr.presentMembers before = [])
      (missing_after : TypeExpr.presentMembers after = [])
      (inner : Inlines scope declaration false type inlined) :
      Inlines scope declaration below (.union (before ++ type :: after))
        (.union (before ++ inlined :: after))
  | wrapped {below : Bool} {layer : Layer} {type inlined : TypeExpr}
      (recognized : layer.Recognized scope.model)
      (inner : Inlines scope declaration true type inlined) :
      Inlines scope declaration below (layer.around type) (layer.around inlined)
  | keys {below : Bool} {wrapper : String} {reference : Bool} {args rest : List TypeExpr}
      (recognized : Layer.Recognized scope.model ⟨⟨wrapper, rest⟩, reference⟩)
      (keyless : declaration.body.literalKeys = []) (type : TypeExpr) :
      Inlines scope declaration below
        (Layer.around ⟨⟨wrapper, .reference declaration.name args :: rest⟩, reference⟩ type)
        (Layer.around ⟨⟨wrapper, declaration.body :: rest⟩, reference⟩ type)

theorem memberRules_around {layer : Layer} (recognized : layer.Recognized scope.model)
    (inner : TypeExpr) :
    scope.model.memberRules (layer.around inner) =
      scope.model.memberRules inner ++ layer.rule?.toList := by
  rw [TypeModel.memberRules_eq, Layer.wrappers_around recognized, List.reverse_cons,
    List.filterMap_append, TypeModel.memberRules_eq]
  cases rule : layer.rule? <;> simp [rule]

theorem IsAlias.not_isWrapper (isAlias : scope.IsAlias declaration) (args : List TypeExpr) :
    scope.model.isWrapper (.reference declaration.name args) = false :=
  isWrapper_of_find? isAlias.found args

theorem IsAlias.searchNext? (isAlias : scope.IsAlias declaration) (array : Bool)
    (args : List TypeExpr) :
    scope.searchNext? array (.reference declaration.name args) =
      some (array, declaration.body) := by
  simp [Scope.searchNext?, isAlias.not_isWrapper, isAlias.own, isAlias.found, isAlias.kind]

theorem IsAlias.targetWithin_succ (isAlias : scope.IsAlias declaration) (steps : Nat)
    (array : Bool) (args : List TypeExpr) :
    scope.targetWithin (steps + 1) array (.reference declaration.name args) =
      (scope.targetWithin steps array declaration.body).map fun target =>
        { target with name := some (target.name.getD declaration.name) } := by
  simp only [Scope.targetWithin, isAlias.not_isWrapper, isAlias.own, isAlias.found, isAlias.kind,
    Bool.false_eq_true, if_false]
  cases scope.targetWithin steps array declaration.body <;> rfl

theorem IsAlias.targetWithin (isAlias : scope.IsAlias declaration) {args : List TypeExpr}
    (ends : scope.searchEnds levels array (.reference declaration.name args) = true) :
    scope.searchEnds levels array declaration.body = true ∧
      scope.targetWithin (levels + 1) array (.reference declaration.name args) =
        (scope.targetWithin (levels + 1) array declaration.body).map fun target =>
          { target with name := some (target.name.getD declaration.name) } := by
  rcases (searchEnds_of_next (isAlias.searchNext? array args)).1 ends with
    ⟨less, rfl, body_ends⟩
  refine ⟨searchEnds_succ body_ends, ?_⟩
  rw [targetWithin_of_searchEnds body_ends]
  exact isAlias.targetWithin_succ (less + 1) array args

theorem Inlines.isWrapper (isAlias : scope.IsAlias declaration)
    (inlines : scope.Inlines declaration below type inlined)
    (wrapped : scope.model.isWrapper type = true) : scope.model.isWrapper inlined = true := by
  cases inlines with
  | aliased args bare shallow => simp [isAlias.not_isWrapper] at wrapped
  | array inner | union missing_before missing_after inner => exact wrapped
  | wrapped recognized inner => exact Layer.isWrapper_around recognized _
  | keys recognized keyless type => exact Layer.isWrapper_around (recognized.withArgs _) _

/-- Where an alias is written out inside a union, the whole stays a union. -/
theorem Inlines.exists_union {members : List TypeExpr}
    (inlines : scope.Inlines declaration below (.union members) inlined) :
    ∃ others, inlined = .union others := by
  generalize whole : TypeExpr.union members = type at inlines
  cases inlines with
  | union missing_before missing_after inner => exact ⟨_, rfl⟩
  | @wrapped _ layer type inlined recognized inner =>
    exact absurd whole.symm (layer.around_ne_union _ _)
  | keys recognized keyless type => exact absurd whole.symm (Layer.around_ne_union _ _ _)
  | aliased args bare shallow => cases whole
  | array inner => cases whole

theorem Inlines.not_isNullish (inlines : scope.Inlines declaration below type inlined) :
    type.isNullish = false := by
  cases inlines with
  | @wrapped _ layer type inlined recognized inner => exact layer.not_isNullish_around _
  | keys recognized keyless type => exact Layer.not_isNullish_around _ _
  | aliased args bare shallow => rfl
  | array inner => rfl
  | union missing_before missing_after inner => rfl

/-- Writing an alias out takes no more steps of the search. -/
theorem Inlines.searchEnds (isAlias : scope.IsAlias declaration)
    (inlines : scope.Inlines declaration below type inlined)
    (ends : scope.searchEnds levels array type = true) :
    scope.searchEnds levels array inlined = true := by
  induction inlines generalizing levels array with
  | aliased args bare shallow => exact (isAlias.targetWithin ends).1
  | array inner ih =>
    cases array with
    | true => exact searchEnds_of_stop rfl
    | false =>
      rcases (searchEnds_of_next rfl).1 ends with ⟨less, rfl, inner_ends⟩
      exact (searchEnds_of_next rfl).2 ⟨less, rfl, ih inner_ends⟩
  | @union below before after type inlined missing_before missing_after inner ih =>
    rcases TypeExpr.presentMembers_cases missing_before missing_after type with
      ⟨members, rfl, present⟩ | ⟨missing, _⟩ | ⟨_, present⟩
    · -- A union inside a union is searched in the same step as the union around it.
      rcases inner.exists_union with ⟨others, rfl⟩
      rw [searchEnds_congr (search_union_congr present 0 array).1] at ends
      have same : TypeExpr.presentMembers (before ++ .union others :: after) =
          TypeExpr.presentMembers others := by
        rw [TypeExpr.presentMembers_union missing_before missing_after]
      rw [searchEnds_congr (search_union_congr same 0 array).1]
      exact ih ends
    · simp [inner.not_isNullish] at missing
    · rcases (searchEnds_of_next (searchNext?_union present array)).1 ends with
        ⟨less, rfl, inner_ends⟩
      exact searchEnds_union missing_before missing_after (ih inner_ends)
  | @wrapped below layer type inlined recognized inner ih =>
    have inner_ends := (targetWithin_around recognized ends).1
    rw [searchEnds_around recognized] at ends ⊢
    split
    · exact ih inner_ends
    · rename_i plain
      rw [if_neg (mt (inner.isWrapper isAlias) plain)] at ends
      rcases ends with ⟨less, same, less_ends⟩
      exact ⟨less, same, ih less_ends⟩
  | keys recognized keyless type =>
    rw [searchEnds_around (recognized.withArgs _)] at ends ⊢
    exact ends

theorem IsAlias.members_eq (isAlias : scope.IsAlias declaration) (args : List TypeExpr)
    (bare : scope.model.ruleless declaration.body = true)
    (shallow : scope.model.lookupEnds (TypeModel.memberSteps - 2) declaration.body = true) :
    scope.model.members (scope.model.core declaration.body) =
      scope.model.members (.reference declaration.name args) := by
  rcases TypeModel.membersWithin_core bare shallow with ⟨same, core_ends⟩
  have enough := TypeModel.membersWithin_of_lookupEnds core_ends
  rw [TypeModel.members, TypeModel.members, TypeModel.memberSteps]
  simp only [TypeModel.memberSteps] at enough same
  rw [enough, same, TypeModel.membersWithin, isAlias.found]

/-- Below a wrapper, the members and the rules stay as they are. -/
theorem Inlines.members_and_rules (isAlias : scope.IsAlias declaration)
    (inlines : scope.Inlines declaration below type inlined) (under : below = true) :
    scope.model.members (scope.model.core inlined) = scope.model.members (scope.model.core type) ∧
      scope.model.memberRules inlined = scope.model.memberRules type := by
  induction inlines with
  | aliased args bare shallow =>
    have plain := isAlias.not_isWrapper args
    rw [TypeModel.core_of_not_isWrapper plain, isAlias.members_eq args (bare under) (shallow under),
      TypeModel.memberRules_of_ruleless (bare under), TypeModel.memberRules_eq,
      TypeModel.wrappers_of_not_isWrapper plain]
    exact ⟨rfl, rfl⟩
  | array inner ih | union missing_before missing_after inner ih => exact ⟨rfl, rfl⟩
  | wrapped recognized inner ih =>
    rcases ih rfl with ⟨members, rules⟩
    rw [Layer.core_around recognized, Layer.core_around recognized,
      memberRules_around recognized, memberRules_around recognized, rules]
    exact ⟨members, rfl⟩
  | @keys below wrapper reference args rest recognized keyless type =>
    have same_rule : Wrapper.rule? ⟨wrapper, declaration.body :: rest⟩ =
        Wrapper.rule? ⟨wrapper, .reference declaration.name args :: rest⟩ := by
      simp [Wrapper.rule?, keyless, TypeExpr.literalKeys]
    rw [Layer.core_around (recognized.withArgs _), Layer.core_around (recognized.withArgs _),
      memberRules_around (recognized.withArgs _), memberRules_around (recognized.withArgs _),
      same_rule]
    exact ⟨rfl, rfl⟩

/-- Two targets lead to the same members in the same way; at most the second has lost the name of
an alias. -/
structure Alike (scope : Scope) (name : String) (target other : ExpansionTarget) : Prop where
  array : other.array = target.array
  members : scope.targetMembers other = scope.targetMembers target
  rules : scope.model.memberRules other.type = scope.model.memberRules target.type
  named : other.name = target.name ∨ target.name = some name ∧ other.name = none

/-- Writing an alias out leads the search to a target that is alike. -/
theorem Inlines.alike (isAlias : scope.IsAlias declaration)
    (inlines : scope.Inlines declaration below type inlined)
    (ends : scope.searchEnds levels array type = true) :
    Option.Rel (scope.Alike declaration.name) (scope.targetWithin (levels + 1) array type)
      (scope.targetWithin (levels + 1) array inlined) := by
  have inlined_ends := inlines.searchEnds isAlias ends
  induction inlines generalizing array with
  | aliased args bare shallow =>
    rw [(isAlias.targetWithin ends).2]
    cases scope.targetWithin (levels + 1) array declaration.body with
    | none => exact .none
    | some target =>
      refine .some ⟨rfl, rfl, rfl, ?_⟩
      cases named : target.name with
      | none => exact .inr ⟨by simp [named], rfl⟩
      | some entered => exact .inl (by simp [named])
  | array inner ih =>
    cases array with
    | true => exact .none
    | false =>
      rcases targetWithin_array ends with ⟨inner_ends, found⟩
      rcases targetWithin_array inlined_ends with ⟨inner_inlined_ends, inlined_found⟩
      rw [found, inlined_found]
      exact ih inner_ends inner_inlined_ends
  | union missing_before missing_after inner ih =>
    rcases targetWithin_union missing_before missing_after ends with ⟨inner_ends, found⟩
    rcases targetWithin_union missing_before missing_after inlined_ends with
      ⟨inner_inlined_ends, inlined_found⟩
    rw [found, inlined_found]
    exact ih inner_ends inner_inlined_ends
  | @wrapped below layer type inlined recognized inner ih =>
    rcases targetWithin_around recognized ends with ⟨inner_ends, found⟩
    rcases targetWithin_around recognized inlined_ends with ⟨inner_inlined_ends, inlined_found⟩
    rw [found, inlined_found]
    rcases inner.members_and_rules isAlias rfl with ⟨members, rules⟩
    have related := ih inner_ends inner_inlined_ends
    generalize scope.targetWithin (levels + 1) false type = target,
      scope.targetWithin (levels + 1) false inlined = other at related ⊢
    cases related with
    | none => exact .none
    | some alike =>
      simp only [Option.bind_some, alike.array]
      split
      · exact .none
      · refine .some ⟨rfl, ?_, ?_, alike.named⟩
        · rw [targetMembers, targetMembers, Layer.core_around recognized,
            Layer.core_around recognized, members]
        · rw [memberRules_around recognized, memberRules_around recognized, rules]
  | @keys below wrapper reference args rest recognized keyless type =>
    rcases targetWithin_around (recognized.withArgs _) ends with ⟨_, found⟩
    rcases targetWithin_around (recognized.withArgs _) inlined_ends with ⟨_, inlined_found⟩
    rw [found, inlined_found]
    have whole : scope.Inlines declaration true
        (Layer.around ⟨⟨wrapper, .reference declaration.name args :: rest⟩, reference⟩ type)
        (Layer.around ⟨⟨wrapper, declaration.body :: rest⟩, reference⟩ type) :=
      .keys recognized keyless type
    rcases whole.members_and_rules isAlias rfl with ⟨members, rules⟩
    cases scope.targetWithin (levels + 1) false type with
    | none => exact .none
    | some target =>
      simp only [Option.bind_some]
      split
      · exact .none
      · exact .some ⟨rfl, members, rules, .inl rfl⟩

/-! ## The expansion of what was found -/

end Scope

/-- Two paths differ at most in that one has seen a name and the other has not. -/
structure PropertyPath.Differs (name : String) (path other : PropertyPath) : Prop where
  outside : path.isOutsideArrays = other.isOutsideArrays
  seen : ∀ entered, entered ≠ name → (path.hasSeen entered = true ↔ other.hasSeen entered = true)

namespace PropertyPath

variable {name : String} {path other : PropertyPath}

theorem Differs.enter (differs : Differs name path other) (key : String)
    (entered : Option String) (array : Bool) :
    Differs name ((path.child key).enter entered array)
      ((other.child key).enter entered array) := by
  constructor
  · rw [isOutsideArrays_enter, isOutsideArrays_enter, isOutsideArrays_child, isOutsideArrays_child,
      differs.outside]
  · intro further ne
    rw [hasSeen_enter, hasSeen_enter]
    exact or_congr (differs.seen further ne) Iff.rfl

end PropertyPath

namespace Scope

variable {scope : Scope} {name : String} {path other : PropertyPath} {members : List Member}

end Scope

end Componentry
