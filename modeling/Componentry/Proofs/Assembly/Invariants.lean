import Componentry.Invariant

/-!
# The invariants that checks decide

What the checks of a component's surface accept, said without the checks.
`Satisfies` states the invariant of each category about the members of a
component as a whole, and `Violates` states for each error what is wrong with
the members that it names.

An error that a check gives is one of its category and is about members that are
to blame for it, and members that are to blame break the invariant. A check that
gives no error has gone through all members, so the invariant holds. The checks
run one category after the other, and the first error is the result.
-/

namespace Componentry

namespace OrderedMap

variable {α : Type u} {map : OrderedMap α} {key : String}

theorem get?_eq_some_iff {value : α} :
    map.get? key = some value ↔ (key, value) ∈ map.entries := by
  constructor
  · exact mem_of_lookup_eq_some
  · exact lookup_eq_some_of_mem map.nodup

theorem contains_iff : map.contains key = true ↔ key ∈ map.keys := by
  rw [contains, Option.isSome_iff_exists, keys, List.mem_map]
  constructor
  · rintro ⟨value, found⟩
    exact ⟨(key, value), get?_eq_some_iff.1 found, rfl⟩
  · rintro ⟨entry, mem, rfl⟩
    exact ⟨entry.2, get?_eq_some_iff.2 mem⟩

theorem any_values_iff {holds : α → Bool} :
    map.values.any holds = true ↔ ∃ entry ∈ map.entries, holds entry.2 = true := by
  simp [values, List.any_map]

/-- A key has only one entry. -/
theorem eq_of_mem_entries {value other : α} (mem : (key, value) ∈ map.entries)
    (other_mem : (key, other) ∈ map.entries) : value = other := by
  have found := get?_eq_some_iff.2 mem
  rw [get?_eq_some_iff.2 other_mem, Option.some.injEq] at found
  exact found.symm

end OrderedMap

/-! ## What takes children -/

/-- A type is the type that is reserved for the default slot, or an array of it at any depth. -/
inductive TypeExpr.ChildrenTyped : TypeExpr → Prop
  | named {type : TypeExpr} (name : type.typeName? = some Component.childrenType) :
      ChildrenTyped type
  | array {element : TypeExpr} (inner : ChildrenTyped element) : ChildrenTyped (.array element)

theorem Component.isChildren_iff {type : TypeExpr} :
    isChildren type = true ↔ type.ChildrenTyped := by
  fun_induction isChildren type with
  | case1 element ih =>
    rw [ih]
    constructor
    · exact .array
    · intro typed
      cases typed with
      | named name => cases name
      | array inner => exact inner
  | case2 type not_array =>
    rw [beq_iff_eq]
    constructor
    · exact .named
    · intro typed
      cases typed with
      | named name => exact name
      | array inner => exact absurd rfl (not_array _)

/-- A slot, or a definition of dynamic slots, has the reserved type. -/
def Slot.TakesChildren (slot : Slot) : Prop :=
  ∃ type, slot.type = some type ∧ type.ChildrenTyped

/-- A property has the reserved type, or it has a union in which everything else says that the value
may be missing. -/
def Property.TakesChildren (property : Property) : Prop :=
  property.type.ChildrenTyped ∨ ∃ members single, property.type = .union members ∧
    members.filter (!·.isNullish) = [single] ∧ single.ChildrenTyped

theorem Slot.any_isChildren_iff {slot : Slot} :
    slot.type.any Component.isChildren = true ↔ slot.TakesChildren := by
  rw [Option.any_eq_true]
  simp only [Component.isChildren_iff, TakesChildren]

theorem Property.any_isChildren_iff {property : Property} :
    property.type.presentMember?.any Component.isChildren = true ↔ property.TakesChildren := by
  rw [TakesChildren]
  cases property.type with
  | union members =>
    rw [TypeExpr.presentMember?]
    have untyped : ¬(TypeExpr.union members).ChildrenTyped := by
      intro typed
      cases typed with
      | named name => cases name
    split
    · rename_i single present
      rw [Option.any_some, Component.isChildren_iff]
      constructor
      · intro typed
        exact .inr ⟨members, single, rfl, present, typed⟩
      · rintro (typed | ⟨_, other, same, other_present, typed⟩)
        · exact absurd typed untyped
        · cases same
          rw [present, List.cons.injEq] at other_present
          rwa [other_present.1]
    · rename_i several
      constructor
      · intro impossible
        cases impossible
      · rintro (typed | ⟨_, other, same, present, _⟩)
        · exact absurd typed untyped
        · cases same
          exact absurd present (several other)
  | _ =>
    rw [TypeExpr.presentMember?, Option.any_some, Component.isChildren_iff]
    · constructor
      · exact .inl
      · rintro (typed | ⟨_, _, same, _⟩)
        · exact typed
        · cases same
    · exact nofun

namespace Component

variable {rest : List (String × Property)} {kind : DynamicSlotKind}

/-! ## The invariants -/

/-- What is written back is reported, and what is reported is written back. -/
structure WritebackPaired (component : Component) : Prop where
  reported : ∀ name property, (name, property) ∈ component.properties.entries →
    property.writeback = true → ∃ entry ∈ component.events.entries, entry.2.writebackFor = some name
  writtenBack : ∀ name event target, (name, event) ∈ component.events.entries →
    event.writebackFor = some target →
      ∃ property, (target, property) ∈ component.properties.entries ∧ property.writeback = true

/-- The default slot has the reserved type, and nothing else has it. -/
structure ChildrenReserved (component : Component) : Prop where
  defaultSlot : ∀ slot, (defaultSlot, slot) ∈ component.slots.entries → slot.TakesChildren
  slots : ∀ name slot, (name, slot) ∈ component.slots.entries → name ≠ Component.defaultSlot →
    ¬slot.TakesChildren
  properties : ∀ name property, (name, property) ∈ component.properties.entries →
    ¬property.TakesChildren
  dynamicSlots : ∀ key slot, (key, slot) ∈ component.dynamicSlots.entries → ¬slot.TakesChildren

/-- At most one property names slots to fill, of whatever kind. -/
def DynamicSlotUnique (component : Component) : Prop :=
  ∀ name property other otherProperty, (name, property) ∈ component.properties.entries →
    (other, otherProperty) ∈ component.properties.entries → property.dynamicSlot ≠ none →
      otherProperty.dynamicSlot ≠ none → name = other

/-- The keys that properties refer to are the keys of the dynamic slots. -/
def DefinitionsMatch (component : Component) : Prop :=
  ∀ key, (∃ entry ∈ component.properties.entries, entry.2.dynamicSlotKey = some key) ↔
    key ∈ component.dynamicSlots.keys

/-- The invariant of a category. The categories that are about types demand nothing here. -/
def Satisfies (component : Component) : CheckCategory → Prop
  | .writeback => component.WritebackPaired
  | .defaultSlot => component.ChildrenReserved
  | .dynamicSlot => component.DynamicSlotUnique
  | .dynamicSlotDefinitions => component.DefinitionsMatch
  | .deprecatedType => True
  | .unsupportedType => True

/-- What an error says is so: the members that it names belong to the component and are to blame. -/
inductive Violates (component : Component) : StructuralError → Prop
  | unmatchedWriteback {name : String} {property : Property}
      (mem : (name, property) ∈ component.properties.entries)
      (writtenBack : property.writeback = true)
      (unreported : ∀ entry ∈ component.events.entries, entry.2.writebackFor ≠ some name) :
      Violates component (.unmatchedWriteback name)
  | orphanWritebackEvent {name target : String} {event : Event}
      (mem : (name, event) ∈ component.events.entries) (reports : event.writebackFor = some target)
      (unwritten : ∀ property, (target, property) ∈ component.properties.entries →
        property.writeback = false) :
      Violates component (.orphanWritebackEvent name target)
  | defaultSlotType {slot : Slot} (mem : (defaultSlot, slot) ∈ component.slots.entries)
      (untyped : ¬slot.TakesChildren) : Violates component (.defaultSlotType childrenType)
  | slot {name : String} {slot : Slot} (mem : (name, slot) ∈ component.slots.entries)
      (other : name ≠ defaultSlot) (typed : slot.TakesChildren) :
      Violates component (.childrenOutsideDefaultSlot ("slot `" ++ name ++ "`") childrenType)
  | property {name : String} {property : Property}
      (mem : (name, property) ∈ component.properties.entries) (typed : property.TakesChildren) :
      Violates component (.childrenOutsideDefaultSlot ("property `" ++ name ++ "`") childrenType)
  | dynamicSlot {key : String} {slot : Slot} (mem : (key, slot) ∈ component.dynamicSlots.entries)
      (typed : slot.TakesChildren) :
      Violates component (.childrenOutsideDefaultSlot ("dynamic slot `" ++ key ++ "`") childrenType)
  | duplicateDynamicSlot {kind : DynamicSlotKind} {first second : String}
      {firstProperty secondProperty : Property}
      (first_mem : (first, firstProperty) ∈ component.properties.entries)
      (second_mem : (second, secondProperty) ∈ component.properties.entries)
      (first_kind : firstProperty.dynamicSlot = some kind)
      (second_kind : secondProperty.dynamicSlot = some kind) (distinct : first ≠ second) :
      Violates component (.duplicateDynamicSlot kind first second)
  | conflictingDynamicSlots {slotName templateName : String}
      {slotProperty templateProperty : Property}
      (slot_mem : (slotName, slotProperty) ∈ component.properties.entries)
      (template_mem : (templateName, templateProperty) ∈ component.properties.entries)
      (slot_kind : slotProperty.dynamicSlot = some .slot)
      (template_kind : templateProperty.dynamicSlot = some .templateSlot) :
      Violates component (.conflictingDynamicSlots slotName templateName)
  | unknownDynamicSlotKey {name key : String} {property : Property}
      (mem : (name, property) ∈ component.properties.entries)
      (refers : property.dynamicSlotKey = some key)
      (undefined : key ∉ component.dynamicSlots.keys) :
      Violates component (.unknownDynamicSlotKey name key)
  | unreferencedDynamicSlot {key : String} (defined : key ∈ component.dynamicSlots.keys)
      (unused : ∀ entry ∈ component.properties.entries, entry.2.dynamicSlotKey ≠ some key) :
      Violates component (.unreferencedDynamicSlot key)

variable {component : Component} {failure : StructuralError}

/-- Members that are to blame break the invariant of the error's category. -/
theorem Violates.not_satisfies (violates : component.Violates failure) {category : CheckCategory}
    (of_category : failure.category? = some category) : ¬component.Satisfies category := by
  cases violates with
  | unmatchedWriteback mem writtenBack unreported =>
    cases of_category
    intro paired
    rcases paired.reported _ _ mem writtenBack with ⟨entry, entry_mem, reports⟩
    exact unreported entry entry_mem reports
  | orphanWritebackEvent mem reports unwritten =>
    cases of_category
    intro paired
    rcases paired.writtenBack _ _ _ mem reports with ⟨property, property_mem, writtenBack⟩
    rw [unwritten property property_mem] at writtenBack
    cases writtenBack
  | defaultSlotType mem untyped =>
    cases of_category
    intro reserved
    exact untyped (reserved.defaultSlot _ mem)
  | slot mem other typed =>
    cases of_category
    intro reserved
    exact reserved.slots _ _ mem other typed
  | property mem typed =>
    cases of_category
    intro reserved
    exact reserved.properties _ _ mem typed
  | dynamicSlot mem typed =>
    cases of_category
    intro reserved
    exact reserved.dynamicSlots _ _ mem typed
  | duplicateDynamicSlot first_mem second_mem first_kind second_kind distinct =>
    cases of_category
    intro unique
    exact distinct (unique _ _ _ _ first_mem second_mem (by simp [first_kind])
      (by simp [second_kind]))
  | conflictingDynamicSlots slot_mem template_mem slot_kind template_kind =>
    cases of_category
    intro unique
    have same := unique _ _ _ _ slot_mem template_mem (by simp [slot_kind])
      (by simp [template_kind])
    subst same
    rw [OrderedMap.eq_of_mem_entries slot_mem template_mem, template_kind] at slot_kind
    cases slot_kind
  | unknownDynamicSlotKey mem refers undefined =>
    cases of_category
    intro definitions
    exact undefined ((definitions _).1 ⟨_, mem, refers⟩)
  | unreferencedDynamicSlot defined unused =>
    cases of_category
    intro definitions
    rcases (definitions _).2 defined with ⟨entry, mem, refers⟩
    exact unused entry mem refers

/-! ## One check after the other -/

/-- The result of a check finds out about the invariant of a category: an error is to blame on the
members that it names, and without an error the invariant holds. -/
structure Decides (component : Component) (category : CheckCategory)
    (result : Option StructuralError) : Prop where
  sound : ∀ failure, result = some failure →
    component.Violates failure ∧ failure.category? = some category
  complete : result = none → component.Satisfies category

/-- A check passes exactly the components that satisfy its rule. -/
theorem Decides.eq_none_iff {category : CheckCategory} {result : Option StructuralError}
    (decides : component.Decides category result) :
    result = none ↔ component.Satisfies category := by
  refine ⟨decides.complete, ?_⟩
  intro satisfies
  cases result with
  | none => rfl
  | some failure =>
    rcases decides.sound failure rfl with ⟨violates, of_category⟩
    exact absurd satisfies (violates.not_satisfies of_category)

theorem decides_writeback (component : Component) :
    component.Decides .writeback component.writebackError? where
  sound := by
    intro failure found
    simp only [writebackError?, Option.or_eq_some_iff] at found
    rcases found with unmatched | ⟨_, orphan⟩
    · rcases List.exists_of_findSome?_eq_some unmatched with ⟨⟨name, property⟩, mem, raised⟩
      simp only [Option.ite_none_right_eq_some, Bool.and_eq_true, Bool.not_eq_true',
        Option.some.injEq] at raised
      rcases raised with ⟨⟨writtenBack, unreported⟩, rfl⟩
      refine ⟨.unmatchedWriteback mem writtenBack ?_, rfl⟩
      intro entry entry_mem reports
      have reported : component.events.values.any (·.writebackFor == some name) = true :=
        OrderedMap.any_values_iff.2 ⟨entry, entry_mem, by simp [reports]⟩
      rw [unreported] at reported
      cases reported
    · rcases List.exists_of_findSome?_eq_some orphan with ⟨⟨name, event⟩, mem, raised⟩
      dsimp only at raised
      split at raised
      · rename_i target reports
        split at raised
        · cases raised
        · rename_i unwritten
          cases raised
          refine ⟨.orphanWritebackEvent mem reports ?_, rfl⟩
          intro property property_mem
          rw [OrderedMap.get?_eq_some_iff.2 property_mem] at unwritten
          simpa using unwritten
      · cases raised
  complete := by
    intro passed
    simp only [writebackError?, Option.or_eq_none_iff, List.findSome?_eq_none_iff] at passed
    rcases passed with ⟨matched, no_orphan⟩
    constructor
    · intro name property mem writtenBack
      have reported := matched _ mem
      simp only [writtenBack, Bool.true_and, ite_eq_right_iff, reduceCtorEq, imp_false,
        Bool.not_eq_true', Bool.not_eq_false] at reported
      rcases OrderedMap.any_values_iff.1 reported with ⟨entry, entry_mem, reports⟩
      exact ⟨entry, entry_mem, by simpa using reports⟩
    · intro name event target mem reports
      have written := no_orphan _ mem
      simp only [reports] at written
      split at written
      · rename_i found
        rcases (Option.any_eq_true _ _).1 found with ⟨property, property_found, writtenBack⟩
        exact ⟨property, OrderedMap.get?_eq_some_iff.1 property_found, writtenBack⟩
      · cases written

theorem decides_defaultSlot (component : Component) :
    component.Decides .defaultSlot component.defaultSlotError? where
  sound := by
    intro failure found
    simp only [defaultSlotError?, Option.or_eq_some_iff] at found
    rcases found with (slot | ⟨_, property⟩) | ⟨_, dynamicSlot⟩
    · rcases List.exists_of_findSome?_eq_some slot with ⟨⟨name, slot⟩, mem, raised⟩
      dsimp only at raised
      split at raised
      · rename_i default
        subst default
        split at raised
        · cases raised
        · rename_i untyped
          cases raised
          exact ⟨.defaultSlotType mem (mt Slot.any_isChildren_iff.2 untyped), rfl⟩
      · rename_i other
        split at raised
        · rename_i typed
          cases raised
          exact ⟨.slot mem other (Slot.any_isChildren_iff.1 typed), rfl⟩
        · cases raised
    · rcases List.exists_of_findSome?_eq_some property with ⟨⟨name, property⟩, mem, raised⟩
      simp only [Option.ite_none_right_eq_some, Option.some.injEq] at raised
      rcases raised with ⟨typed, rfl⟩
      exact ⟨.property mem (Property.any_isChildren_iff.1 typed), rfl⟩
    · rcases List.exists_of_findSome?_eq_some dynamicSlot with ⟨⟨key, slot⟩, mem, raised⟩
      simp only [Option.ite_none_right_eq_some, Option.some.injEq] at raised
      rcases raised with ⟨typed, rfl⟩
      exact ⟨.dynamicSlot mem (Slot.any_isChildren_iff.1 typed), rfl⟩
  complete := by
    intro passed
    simp only [defaultSlotError?, Option.or_eq_none_iff, List.findSome?_eq_none_iff] at passed
    rcases passed with ⟨⟨slots, properties⟩, dynamicSlots⟩
    constructor
    · intro slot mem
      have typed := slots _ mem
      simp only [if_true] at typed
      split at typed
      · rename_i children
        exact Slot.any_isChildren_iff.1 children
      · cases typed
    · intro name slot mem other typed
      have untyped := slots _ mem
      simp only [other, if_false, Slot.any_isChildren_iff.2 typed, if_true] at untyped
      cases untyped
    · intro name property mem typed
      have untyped := properties _ mem
      simp only [Property.any_isChildren_iff.2 typed, if_true] at untyped
      cases untyped
    · intro key slot mem typed
      have untyped := dynamicSlots _ mem
      simp only [Slot.any_isChildren_iff.2 typed, if_true] at untyped
      cases untyped

/-! ### Dynamic slots -/

/-- The properties of the list that name slots to fill. -/
def naming (entries : List (String × Property)) : List (String × Property) :=
  entries.filter (·.2.dynamicSlot.isSome)

/-- Of the properties found before and those to come, only one names slots. -/
theorem length_naming_le_one {slot template : Option String}
    (passed : dynamicSlotErrorFrom? slot template rest = none) :
    slot.toList.length + template.toList.length + (naming rest).length ≤ 1 := by
  fun_induction dynamicSlotErrorFrom? slot template rest with
  | case1 => cases passed
  | case2 slot template not_both =>
    cases slot with
    | none => cases template <;> simp [naming]
    | some first =>
      cases template with
      | none => simp [naming]
      | some other => exact absurd rfl (not_both first other rfl)
  | case3 slot template name property rest unnamed ih =>
    simpa [naming, unnamed] using ih passed
  | case4 => cases passed
  | case5 template name property rest kind ih =>
    have counted := ih passed
    simp only [naming, List.filter_cons, kind, Option.isSome_some, if_true, List.length_cons,
      Option.toList_some, Option.toList_none, List.length_nil] at counted ⊢
    omega
  | case6 => cases passed
  | case7 slot name property rest kind ih =>
    have counted := ih passed
    simp only [naming, List.filter_cons, kind, Option.isSome_some, if_true, List.length_cons,
      Option.toList_some, Option.toList_none, List.length_nil] at counted ⊢
    omega

/-- A name that was found before is that of a property of the kind, and of none of those to come. -/
def FoundBefore (component : Component) (kind : DynamicSlotKind) (rest : List (String × Property))
    (found : Option String) : Prop :=
  ∀ name, found = some name → name ∉ rest.map Prod.fst ∧
    ∃ property, (name, property) ∈ component.properties.entries ∧ property.dynamicSlot = some kind

theorem FoundBefore.tail {entry : String × Property} {found : Option String}
    (before : component.FoundBefore kind (entry :: rest) found) :
    component.FoundBefore kind rest found := by
  intro name found_eq
  rcases before name found_eq with ⟨fresh, property⟩
  exact ⟨fun mem => fresh (List.mem_cons_of_mem _ mem), property⟩

theorem foundBefore_none :
    component.FoundBefore kind rest none := by
  intro name found
  cases found

theorem foundBefore_head {name : String} {property : Property}
    (mem : (name, property) ∈ component.properties.entries) (fresh : name ∉ rest.map Prod.fst)
    (named : property.dynamicSlot = some kind) :
    component.FoundBefore kind rest (some name) := by
  intro other same
  cases same
  exact ⟨fresh, property, mem, named⟩

theorem FoundBefore.violates {first name : String} {property : Property}
    (before : component.FoundBefore kind ((name, property) :: rest) (some first))
    (mem : (name, property) ∈ component.properties.entries)
    (named : property.dynamicSlot = some kind) :
    component.Violates (.duplicateDynamicSlot kind first name) := by
  rcases before first rfl with ⟨fresh, firstProperty, first_mem, first_named⟩
  refine .duplicateDynamicSlot first_mem mem first_named named ?_
  rintro rfl
  exact fresh List.mem_cons_self

/-- By induction on the properties to come, with what was found before them. -/
theorem violates_of_dynamicSlotErrorFrom? {slot template : Option String}
    (subset : rest ⊆ component.properties.entries) (distinct : (rest.map Prod.fst).Nodup)
    (slot_before : component.FoundBefore .slot rest slot)
    (template_before : component.FoundBefore .templateSlot rest template)
    (raised : dynamicSlotErrorFrom? slot template rest = some failure) :
    component.Violates failure ∧ failure.category? = some .dynamicSlot := by
  fun_induction dynamicSlotErrorFrom? slot template rest with
  | case1 slotName templateName =>
    cases raised
    rcases slot_before slotName rfl with ⟨_, slotProperty, slot_mem, slot_kind⟩
    rcases template_before templateName rfl with ⟨_, templateProperty, template_mem, template_kind⟩
    exact ⟨.conflictingDynamicSlots slot_mem template_mem slot_kind template_kind, rfl⟩
  | case2 => cases raised
  | case3 slot template name property rest unnamed ih =>
    rw [List.map_cons, List.nodup_cons] at distinct
    exact ih (List.subset_of_cons_subset subset) distinct.2 slot_before.tail template_before.tail
      raised
  | case4 template name property rest kind first =>
    cases raised
    exact ⟨slot_before.violates (subset List.mem_cons_self) kind, rfl⟩
  | case5 template name property rest kind ih =>
    rw [List.map_cons, List.nodup_cons] at distinct
    exact ih (List.subset_of_cons_subset subset) distinct.2
      (foundBefore_head (subset List.mem_cons_self) distinct.1 kind) template_before.tail raised
  | case6 slot name property rest kind first =>
    cases raised
    exact ⟨template_before.violates (subset List.mem_cons_self) kind, rfl⟩
  | case7 slot name property rest kind ih =>
    rw [List.map_cons, List.nodup_cons] at distinct
    exact ih (List.subset_of_cons_subset subset) distinct.2 slot_before.tail
      (foundBefore_head (subset List.mem_cons_self) distinct.1 kind) raised

theorem decides_dynamicSlot (component : Component) :
    component.Decides .dynamicSlot component.dynamicSlotError? where
  sound := by
    intro failure found
    exact violates_of_dynamicSlotErrorFrom? (List.Subset.refl _) component.properties.nodup
      foundBefore_none foundBefore_none found
  complete := by
    intro passed name property other otherProperty mem other_mem names other_names
    have one := length_naming_le_one passed
    simp only [Option.toList_none, List.length_nil, Nat.zero_add] at one
    have mem_naming : (name, property) ∈ naming component.properties.entries :=
      List.mem_filter.2 ⟨mem, Option.isSome_iff_ne_none.2 names⟩
    have other_mem_naming : (other, otherProperty) ∈ naming component.properties.entries :=
      List.mem_filter.2 ⟨other_mem, Option.isSome_iff_ne_none.2 other_names⟩
    generalize naming component.properties.entries = found at one mem_naming other_mem_naming
    rcases found with _ | ⟨only, _ | ⟨second, others⟩⟩
    · cases mem_naming
    · rw [List.mem_singleton] at mem_naming other_mem_naming
      rw [← mem_naming] at other_mem_naming
      exact (congrArg Prod.fst other_mem_naming).symm
    · simp only [List.length_cons] at one
      omega

theorem decides_dynamicSlotDefinitions (component : Component) :
    component.Decides .dynamicSlotDefinitions component.dynamicSlotDefinitionError? where
  sound := by
    intro failure found
    simp only [dynamicSlotDefinitionError?, Option.or_eq_some_iff] at found
    rcases found with unknown | ⟨_, unreferenced⟩
    · rcases List.exists_of_findSome?_eq_some unknown with ⟨⟨name, property⟩, mem, raised⟩
      dsimp only at raised
      split at raised
      · rename_i key refers
        split at raised
        · cases raised
        · rename_i undefined
          cases raised
          exact ⟨.unknownDynamicSlotKey mem refers (mt OrderedMap.contains_iff.2 undefined), rfl⟩
      · cases raised
    · rcases List.exists_of_findSome?_eq_some unreferenced with ⟨key, defined, raised⟩
      split at raised
      · cases raised
      · rename_i unused
        cases raised
        refine ⟨.unreferencedDynamicSlot defined ?_, rfl⟩
        intro entry mem refers
        exact unused (OrderedMap.any_values_iff.2 ⟨entry, mem, by simp [refers]⟩)
  complete := by
    intro passed key
    simp only [dynamicSlotDefinitionError?, Option.or_eq_none_iff,
      List.findSome?_eq_none_iff] at passed
    rcases passed with ⟨known, referenced⟩
    constructor
    · rintro ⟨entry, mem, refers⟩
      have defined := known _ mem
      simp only [refers] at defined
      split at defined
      · rename_i contained
        exact OrderedMap.contains_iff.1 contained
      · cases defined
    · intro defined
      have used := referenced key defined
      split at used
      · rename_i some_refers
        rcases OrderedMap.any_values_iff.1 some_refers with ⟨entry, mem, refers⟩
        exact ⟨entry, mem, by simpa using refers⟩
      · cases used

/-! ## All checks -/

/-- The result of the check of a category. -/
def categoryError? (component : Component) : CheckCategory → Option StructuralError
  | .writeback => component.writebackError?
  | .defaultSlot => component.defaultSlotError?
  | .dynamicSlot => component.dynamicSlotError?
  | .dynamicSlotDefinitions => component.dynamicSlotDefinitionError?
  | .deprecatedType => none
  | .unsupportedType => none

theorem decides_category (component : Component) (category : CheckCategory) :
    component.Decides category (component.categoryError? category) := by
  cases category with
  | writeback => exact component.decides_writeback
  | defaultSlot => exact component.decides_defaultSlot
  | dynamicSlot => exact component.decides_dynamicSlot
  | dynamicSlotDefinitions => exact component.decides_dynamicSlotDefinitions
  | deprecatedType | unsupportedType => exact ⟨nofun, fun _ => trivial⟩

/-- The checks run in the order of their categories. -/
theorem invariantError?_eq_findSome? (component : Component) (config : Config) :
    component.invariantError? config = CheckCategory.all.findSome? fun category =>
      if config.isEnabled category then component.categoryError? category else none := by
  have findSome?_cons (step : CheckCategory → Option StructuralError) (head : CheckCategory)
      (rest : List CheckCategory) :
      (head :: rest).findSome? step = (step head).or (rest.findSome? step) := by
    rw [List.findSome?_cons]
    cases step head <;> rfl
  simp only [invariantError?, CheckCategory.all, findSome?_cons, List.findSome?_nil, categoryError?,
    ite_self, Option.or_none]

/-- The checks accept a component exactly if the invariant of every category that is switched on
holds. The error of a component that is refused belongs to the first category that is switched on
and whose invariant does not hold, and the members that it names are to blame. -/
theorem checks_decide_invariants (component : Component) (config : Config) :
    (component.invariantError? config = none ↔
      ∀ category, config.isEnabled category = true → component.Satisfies category) ∧
    ∀ failure, component.invariantError? config = some failure →
      ∃ before category after, CheckCategory.all = before ++ category :: after ∧
        failure.category? = some category ∧ config.isEnabled category = true ∧
        ¬component.Satisfies category ∧
        (∀ earlier ∈ before, config.isEnabled earlier = true → component.Satisfies earlier) ∧
        component.Violates failure := by
  have passes_iff (category : CheckCategory) :
      (if config.isEnabled category then component.categoryError? category else none) = none ↔
        (config.isEnabled category = true → component.Satisfies category) := by
    rw [← (component.decides_category category).eq_none_iff]
    split
    · rename_i enabled
      simp [enabled]
    · rename_i disabled
      simp [disabled]
  rw [invariantError?_eq_findSome?]
  constructor
  · simp only [List.findSome?_eq_none_iff, passes_iff, CheckCategory.mem_all, true_implies]
  · intro failure found
    rcases List.findSome?_eq_some_iff.1 found with ⟨before, category, after, split, raised, earlier⟩
    simp only [Option.ite_none_right_eq_some] at raised
    rcases raised with ⟨enabled, raised⟩
    rcases (component.decides_category category).sound failure raised with ⟨violates, of_category⟩
    exact ⟨before, category, after, split, of_category, enabled,
      violates.not_satisfies of_category, fun other mem => (passes_iff other).1 (earlier other mem),
      violates⟩

/-- A property that is written back without an event, and another one of the reserved type. -/
def drawer : Component where
  name := "Drawer"
  tagName := "my-drawer"
  properties := .ofList [("open", { type := .boolean, writeback := true }),
    ("content", { type := .union [.array (.named "Children"), .undefined] })]

theorem checks_decide_invariants_drawer :
    let config := Config.disable {} .writeback
    let lenient := config.disable .defaultSlot
    let failure := StructuralError.childrenOutsideDefaultSlot "property `content`" "Children"
    drawer.invariantError? config = some failure ∧ drawer.Violates failure ∧
      (∃ category, failure.category? = some category ∧ ¬drawer.Satisfies category) ∧
      drawer.invariantError? lenient = none ∧
      ∀ category, lenient.isEnabled category = true → drawer.Satisfies category := by
  intro config lenient failure
  have refused : drawer.invariantError? config = some failure := by decide
  have accepted : drawer.invariantError? lenient = none := by decide
  rcases (checks_decide_invariants drawer config).2 failure refused with
    ⟨_, category, _, _, of_category, _, broken, _, violates⟩
  exact ⟨refused, violates, ⟨category, of_category, broken⟩, accepted,
    (checks_decide_invariants drawer lenient).1.1 accepted⟩

end Component

end Componentry
