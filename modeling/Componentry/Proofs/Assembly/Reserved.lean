import Mathlib.Logic.Relation
import Componentry.Proofs.Assembly.Invariants

/-!
# Where the reserved type hides

A type may come down to the type that is reserved for the default slot when
array levels and members such as `null` are taken off, one by one and at any
depth. `Sheds` is one such step. `Conceals` says without steps which types come
down to the reserved one: of the members of a union, one conceals it and all
others come down to `null` or `undefined`.

The checks look through array levels, and for properties through one outermost
union. A type that conceals the reserved type passes them exactly if there is a
union further inside.
-/

namespace Componentry

open Relation (ReflTransGen)

namespace TypeExpr

/-- An array level or a member that says that the value may be missing is taken off a type, at any
depth of arrays and unions. A union of one type is that type. -/
inductive Sheds : TypeExpr → TypeExpr → Prop
  | level (element : TypeExpr) : Sheds (.array element) element
  | nullish (before : List TypeExpr) {member : TypeExpr} (after : List TypeExpr)
      (missing : member.isNullish = true) :
      Sheds (.union (before ++ member :: after)) (.union (before ++ after))
  | only (type : TypeExpr) : Sheds (.union [type]) type
  | inArray {type less : TypeExpr} (sheds : Sheds type less) : Sheds (.array type) (.array less)
  | inUnion (before : List TypeExpr) {type less : TypeExpr} (after : List TypeExpr)
      (sheds : Sheds type less) :
      Sheds (.union (before ++ type :: after)) (.union (before ++ less :: after))

/-- The type that is reserved for the default slot is left in the end. -/
def ReducesToChildren (type : TypeExpr) : Prop :=
  ∃ least, ReflTransGen Sheds type least ∧ least.typeName? = some Component.childrenType

theorem ReducesToChildren.array {element : TypeExpr} (reduces : element.ReducesToChildren) :
    (TypeExpr.array element).ReducesToChildren := by
  rcases reduces with ⟨least, sheds, name⟩
  exact ⟨least, sheds.head (.level element), name⟩

/-- Below arrays and unions there is only `null` and `undefined`. -/
inductive Missing : TypeExpr → Prop
  | nullish {type : TypeExpr} (missing : type.isNullish = true) : Missing type
  | array {element : TypeExpr} (inner : Missing element) : Missing (.array element)
  | union {members : List TypeExpr} (nonempty : members ≠ [])
      (all : ∀ member ∈ members, Missing member) : Missing (.union members)

/-- Below arrays and unions there is the reserved type, and nothing else in the unions. -/
inductive Conceals : TypeExpr → Prop
  | named {type : TypeExpr} (name : type.typeName? = some Component.childrenType) : Conceals type
  | array {element : TypeExpr} (inner : Conceals element) : Conceals (.array element)
  | union {members others : List TypeExpr} {type : TypeExpr}
      (parts : members.Perm (type :: others)) (inner : Conceals type)
      (missing : ∀ other ∈ others, Missing other) : Conceals (.union members)

/-! ## Steps backwards -/

variable {type less : TypeExpr}

theorem Missing.union_insert {before after : List TypeExpr} (missing : Missing type)
    (others : ∀ member ∈ before ++ after, Missing member) :
    Missing (.union (before ++ type :: after)) := by
  apply Missing.union (by simp)
  intro member mem
  rcases List.mem_cons.1 (List.perm_middle.subset mem) with rfl | mem
  · exact missing
  · exact others member mem

theorem missing_of_sheds (sheds : Sheds type less) (missing : Missing less) :
    Missing type := by
  induction sheds with
  | level element => exact .array missing
  | only type => exact .union (List.cons_ne_nil _ _) (by simpa using missing)
  | inArray sheds ih =>
    cases missing with
    | nullish impossible => cases impossible
    | array inner => exact .array (ih inner)
  | nullish before after nullish =>
    cases missing with
    | nullish impossible => cases impossible
    | union nonempty all => exact .union_insert (.nullish nullish) all
  | inUnion before after sheds ih =>
    cases missing with
    | nullish impossible => cases impossible
    | union nonempty all =>
      have parts := List.forall_mem_cons.1 fun member mem =>
        all member (List.perm_middle.symm.subset mem)
      exact .union_insert (ih parts.1) parts.2

theorem conceals_of_sheds (sheds : Sheds type less)
    (conceals : Conceals less) : Conceals type := by
  induction sheds with
  | level element => exact .array conceals
  | only type => exact .union (List.Perm.refl _) conceals nofun
  | inArray sheds ih =>
    cases conceals with
    | named impossible => cases impossible
    | array inner => exact .array (ih inner)
  | nullish before after nullish =>
    cases conceals with
    | named impossible => cases impossible
    | union parts inner missing =>
      apply Conceals.union _ inner (List.forall_mem_cons.2 ⟨.nullish nullish, missing⟩)
      exact List.perm_middle.trans ((parts.cons _).trans (List.Perm.swap _ _ _))
  | @inUnion before type less after sheds ih =>
    cases conceals with
    | named impossible => cases impossible
    | @union _ others kept parts inner missing =>
      have less_parts : (less :: (before ++ after)).Perm (kept :: others) :=
        List.perm_middle.symm.trans parts
      rcases List.mem_cons.1 (less_parts.subset List.mem_cons_self) with rfl | mem
      · exact .union (List.perm_middle.trans (less_parts.cons_inv.cons type)) (ih inner) missing
      · rcases List.append_of_mem mem with ⟨left, right, rfl⟩
        have rest_parts : (before ++ after).Perm (kept :: (left ++ right)) := by
          apply List.Perm.cons_inv (a := less)
          exact less_parts.trans ((List.perm_middle.cons kept).trans (List.Perm.swap _ _ _))
        have type_missing : Missing type := missing_of_sheds sheds (missing less mem)
        have left_missing : ∀ other ∈ left ++ right, Missing other := by
          intro other other_mem
          apply missing other
          rcases List.mem_append.1 other_mem with in_left | in_right
          · exact List.mem_append_left _ in_left
          · exact List.mem_append_right _ (List.mem_cons_of_mem _ in_right)
        apply Conceals.union _ inner (List.forall_mem_cons.2 ⟨type_missing, left_missing⟩)
        exact List.perm_middle.trans ((rest_parts.cons type).trans (List.Perm.swap _ _ _))

/-! ## Steps forwards -/

/-- Members that come down to `null` or `undefined` are taken off a union. -/
theorem union_sheds {dropped : List TypeExpr} (kept rest : List TypeExpr)
    (missing : ∀ member ∈ dropped, ∃ least, ReflTransGen Sheds member least ∧
      least.isNullish = true) :
    ReflTransGen Sheds (.union (kept ++ (dropped ++ rest))) (.union (kept ++ rest)) := by
  induction dropped with
  | nil => exact .refl
  | cons member dropped ih =>
    rcases missing member List.mem_cons_self with ⟨least, sheds, nullish⟩
    have inside : ReflTransGen Sheds (.union (kept ++ member :: (dropped ++ rest)))
        (.union (kept ++ least :: (dropped ++ rest))) :=
      ReflTransGen.lift (fun type => TypeExpr.union (kept ++ type :: (dropped ++ rest)))
        (fun _ _ => Sheds.inUnion kept (dropped ++ rest)) _ _ sheds
    apply inside.trans
    apply ReflTransGen.head (Sheds.nullish kept (dropped ++ rest) nullish)
    exact ih fun other mem => missing other (List.mem_cons_of_mem member mem)

theorem Missing.exists_nullish (missing : Missing type) :
    ∃ least, ReflTransGen Sheds type least ∧ least.isNullish = true := by
  induction missing with
  | nullish missing => exact ⟨_, .refl, missing⟩
  | @array element inner ih =>
    rcases ih with ⟨least, sheds, nullish⟩
    exact ⟨least, sheds.head (.level element), nullish⟩
  | @union members nonempty all ih =>
    rcases members with _ | ⟨member, rest⟩
    · exact absurd rfl nonempty
    · rcases ih member List.mem_cons_self with ⟨least, sheds, nullish⟩
      have dropped := union_sheds [member] [] fun other mem =>
        ih other (List.mem_cons_of_mem member mem)
      rw [List.append_nil, List.singleton_append] at dropped
      exact ⟨least, (dropped.tail (.only member)).trans sheds, nullish⟩

theorem Conceals.reducesToChildren (conceals : Conceals type) :
    type.ReducesToChildren := by
  induction conceals with
  | named name => exact ⟨_, .refl, name⟩
  | array inner ih => exact ih.array
  | @union members others type parts inner missing ih =>
    rcases ih with ⟨least, sheds, name⟩
    rcases List.append_of_mem (parts.mem_iff.2 List.mem_cons_self) with ⟨before, after, rfl⟩
    have others_parts : (before ++ after).Perm others :=
      (List.perm_middle.symm.trans parts).cons_inv
    have all_missing : ∀ other ∈ before ++ after, ∃ least, ReflTransGen Sheds other least ∧
        least.isNullish = true := by
      intro other mem
      exact (missing other (others_parts.subset mem)).exists_nullish
    have before_dropped := union_sheds [] (type :: after) fun other mem =>
      all_missing other (List.mem_append_left after mem)
    have after_dropped := union_sheds [type] [] fun other mem =>
      all_missing other (List.mem_append_right before mem)
    rw [List.append_nil] at after_dropped
    exact ⟨least, ((before_dropped.trans after_dropped).tail (.only type)).trans sheds, name⟩

theorem reducesToChildren_iff : type.ReducesToChildren ↔ Conceals type := by
  constructor
  · rintro ⟨least, sheds, name⟩
    induction sheds using ReflTransGen.head_induction_on with
    | refl => exact .named name
    | head step _ ih => exact conceals_of_sheds step ih
  · exact Conceals.reducesToChildren

/-! ## What the checks see -/

/-- The type of the elements below all array levels. -/
def elementType : TypeExpr → TypeExpr
  | .array element => element.elementType
  | type => type

/-- A type that is written as a union. -/
def IsUnion (type : TypeExpr) : Prop :=
  ∃ members, type = .union members

theorem ChildrenTyped.conceals (typed : type.ChildrenTyped) : Conceals type := by
  induction typed with
  | named name => exact .named name
  | array _ ih => exact .array ih

theorem elementType_of_typeName? {name : String}
    (named : type.typeName? = some name) : type.elementType = type := by
  cases type with
  | array element => cases named
  | _ => rfl

theorem ChildrenTyped.not_isUnion (typed : type.ChildrenTyped) :
    ¬type.elementType.IsUnion := by
  induction typed with
  | named name =>
    rw [elementType_of_typeName? name]
    rintro ⟨members, rfl⟩
    cases name
  | array _ ih => exact ih

/-- A type that conceals the reserved type below arrays shows it, or there is a union. -/
theorem Conceals.typed_or_isUnion (conceals : Conceals type) :
    type.ChildrenTyped ∨ type.elementType.IsUnion := by
  induction conceals with
  | named name => exact .inl (.named name)
  | array _ ih => exact ih.imp .array id
  | @union members _ _ _ _ _ => exact .inr ⟨members, rfl⟩

theorem Conceals.not_nullish (conceals : Conceals type) :
    type.isNullish = false := by
  cases conceals with
  | named name =>
    cases type with
    | primitive _ => cases name
    | null => cases name
    | _ => rfl
  | array inner => rfl
  | union parts inner missing => rfl

end TypeExpr

open TypeExpr (Conceals reducesToChildren_iff)

theorem Slot.not_takesChildren_iff {slot : Slot} :
    ¬slot.TakesChildren ↔ ∀ type, slot.type = some type → type.ReducesToChildren →
      type.elementType.IsUnion := by
  constructor
  · intro untyped type type_eq reduces
    rcases (reducesToChildren_iff.1 reduces).typed_or_isUnion with typed | union
    · exact absurd ⟨type, type_eq, typed⟩ untyped
    · exact union
  · rintro hidden ⟨type, type_eq, typed⟩
    exact typed.not_isUnion (hidden type type_eq typed.conceals.reducesToChildren)

/-- A union whose other members are all `null` or `undefined` conceals what its one member does. -/
theorem TypeExpr.conceals_presentMember {type single : TypeExpr}
    (present : type.presentMember? = some single) : Conceals type ↔ Conceals single := by
  cases type with
  | union members =>
    rw [presentMember?] at present
    split at present
    · rename_i other filtered
      cases present
      constructor
      · intro conceals
        cases conceals with
        | named impossible => cases impossible
        | @union _ _ kept parts inner missing =>
          have kept_mem : kept ∈ members.filter (!·.isNullish) :=
            List.mem_filter.2 ⟨parts.mem_iff.2 List.mem_cons_self, by simp [inner.not_nullish]⟩
          rw [filtered, List.mem_singleton] at kept_mem
          rwa [← kept_mem]
      · intro inner
        have parts := (List.filter_append_perm (!·.isNullish) members).symm
        rw [filtered, List.singleton_append] at parts
        apply Conceals.union parts inner
        intro other mem
        exact .nullish (by simpa using (List.mem_filter.1 mem).2)
    · cases present
  | _ =>
    cases present
    exact Iff.rfl

theorem Property.not_takesChildren_iff {property : Property} :
    ¬property.TakesChildren ↔ (property.type.ReducesToChildren →
      ∀ single, property.type.presentMember? = some single → single.elementType.IsUnion) := by
  rw [← Property.any_isChildren_iff, Option.any_eq_true]
  constructor
  · intro untyped reduces single present
    have conceals := (TypeExpr.conceals_presentMember present).1 (reducesToChildren_iff.1 reduces)
    rcases conceals.typed_or_isUnion with typed | union
    · exact absurd ⟨single, present, Component.isChildren_iff.2 typed⟩ untyped
    · exact union
  · rintro hidden ⟨single, present, children⟩
    have typed := Component.isChildren_iff.1 children
    have conceals := (TypeExpr.conceals_presentMember present).2 typed.conceals
    exact typed.not_isUnion (hidden conceals.reducesToChildren single present)

namespace Component

theorem invariantError?_eq_none_iff {component : Component} {config : Config} :
    component.invariantError? config = none ↔
      ∀ category, config.isEnabled category = true → component.Satisfies category := by
  rw [invariantError?_eq_findSome?, List.findSome?_eq_none_iff]
  simp only [CheckCategory.mem_all, true_implies, ite_eq_right_iff,
    (component.decides_category _).eq_none_iff]

/-- With the check of the default slot switched on, a component is accepted exactly if the other
invariants hold, the default slot has the reserved type, and wherever else a type reduces to the
reserved type, it does so by a union that is not looked into: any union in a slot or a dynamic slot,
and in a property any but an outermost one with one member that is not nullish. -/
theorem children_hidden_by_unions (component : Component) (config : Config)
    (enabled : config.isEnabled .defaultSlot = true) :
    component.invariantError? config = none ↔
      (∀ category, config.isEnabled category = true → category ≠ .defaultSlot →
        component.Satisfies category) ∧
      (∀ slot, (defaultSlot, slot) ∈ component.slots.entries → slot.TakesChildren) ∧
      (∀ name slot type, (name, slot) ∈ component.slots.entries → name ≠ defaultSlot →
        slot.type = some type → type.ReducesToChildren → type.elementType.IsUnion) ∧
      (∀ name property, (name, property) ∈ component.properties.entries →
        property.type.ReducesToChildren → ∀ single, property.type.presentMember? = some single →
          single.elementType.IsUnion) ∧
      (∀ key slot type, (key, slot) ∈ component.dynamicSlots.entries →
        slot.type = some type → type.ReducesToChildren → type.elementType.IsUnion) := by
  rw [invariantError?_eq_none_iff]
  constructor
  · intro satisfies
    have reserved : component.ChildrenReserved := satisfies .defaultSlot enabled
    refine ⟨fun category on _ => satisfies category on, reserved.defaultSlot, ?_, ?_, ?_⟩
    · intro name slot type mem other
      exact Slot.not_takesChildren_iff.1 (reserved.slots name slot mem other) type
    · intro name property mem
      exact Property.not_takesChildren_iff.1 (reserved.properties name property mem)
    · intro key slot type mem
      exact Slot.not_takesChildren_iff.1 (reserved.dynamicSlots key slot mem) type
  · rintro ⟨others, default, slots, properties, dynamicSlots⟩ category on
    by_cases category_eq : category = .defaultSlot
    · subst category_eq
      refine ⟨default, ?_, ?_, ?_⟩
      · intro name slot mem other
        exact Slot.not_takesChildren_iff.2 fun type => slots name slot type mem other
      · intro name property mem
        exact Property.not_takesChildren_iff.2 (properties name property mem)
      · intro key slot mem
        exact Slot.not_takesChildren_iff.2 fun type => dynamicSlots key slot type mem
    · exact others category on category_eq

/-- The reserved type, or nothing. -/
def nullableChildren : TypeExpr :=
  .union [.named "Children", .null]

theorem reducesToChildren_nullableChildren : nullableChildren.ReducesToChildren := by
  refine ⟨.named "Children", ?_, rfl⟩
  apply Relation.ReflTransGen.head (TypeExpr.Sheds.nullish [.named "Children"] [] rfl)
  exact .single (.only (.named "Children"))

/-- A component with the reserved type in its default slot, and with rows that may hold it. -/
def shelf : Component where
  name := "Shelf"
  tagName := "my-shelf"
  slots := .ofList [("default", { type := some (.array (.named "Children")) }),
    ("label", { type := some (.union [.string, .null]) })]
  properties := .ofList [("rows", { type := .array nullableChildren })]

theorem children_hidden_by_unions_shelf :
    Config.isEnabled {} .defaultSlot = true ∧ shelf.invariantError? {} = none ∧
      (TypeExpr.array nullableChildren).ReducesToChildren ∧
      (TypeExpr.array nullableChildren).elementType.IsUnion ∧
      ∀ slot, ("default", slot) ∈ shelf.slots.entries → slot.TakesChildren := by
  have accepted : shelf.invariantError? {} = none := by decide
  have reduces := reducesToChildren_nullableChildren.array
  rcases (children_hidden_by_unions shelf {} (by decide)).1 accepted with
    ⟨_, default, _, properties, _⟩
  exact ⟨by decide, accepted, reduces, properties "rows" _ List.mem_cons_self reduces _ rfl,
    default⟩

/-- The reserved type passes the checks in another slot, in a property and in a dynamic slot if it
is in a union that is not looked into. -/
theorem children_pass_in_unions :
    let type := nullableChildren
    let panel : Component := {
      name := "Panel"
      tagName := "my-panel"
      slots := .ofList [("footer", { type := some type })]
      properties := .ofList [("rows", { type := .array type, dynamicSlotKey := some "row" })]
      dynamicSlots := .ofList [("row", { type := some type })] }
    Config.isEnabled {} .defaultSlot = true ∧ panel.invariantError? {} = none ∧
      type.ReducesToChildren ∧ (TypeExpr.array type).ReducesToChildren := by
  intro type panel
  exact ⟨by decide, by decide, reducesToChildren_nullableChildren,
    reducesToChildren_nullableChildren.array⟩

end Component

end Componentry
