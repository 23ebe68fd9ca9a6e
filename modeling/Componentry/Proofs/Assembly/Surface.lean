import Componentry.Assembly
import Componentry.Proofs.Expansion.Visits

/-!
# Types that assembly resolves

Assembly resolves the types of a component's declared surface, those of the members that expansions
visit, and those that the parameters of a declaration are bound to. What is known of resolution and
composes is therefore known of assembly: it comes from these types.
-/

namespace Componentry

namespace Scope

variable {scope : Scope}

/-- The types that the parameters of a declaration are bound to where a type refers to it. -/
inductive Binds (scope : Scope) (type : TypeExpr) : TypeExpr → Prop
  | argument {name : String} {args : List TypeExpr} {declaration : Declaration} {place : Nat}
      {formal : TypeParam} {bound : TypeExpr}
      (refers : type.presentMember? = some (.reference name args))
      (found : scope.model.find? name = some declaration)
      (placed : declaration.typeParams[place]? = some formal)
      (given : args[place]?.or formal.default = some bound) : Binds scope type bound

/-- The types of a component that are resolved where a concrete type is needed. -/
inductive Demands (scope : Scope) (component : Component) : Position → TypeExpr → Prop
  | property {name : String} {property : Property}
      (mem : (name, property) ∈ component.properties.entries) :
      Demands scope component .property property.type
  | detail {name : String} {event : Event} {type : TypeExpr}
      (mem : (name, event) ∈ component.events.entries) (detail : event.detail = some type) :
      Demands scope component .eventDetail type
  | slot {name : String} {slot : Slot} {type : TypeExpr}
      (mem : (name, slot) ∈ component.slots.entries) (data : slot.type = some type) :
      Demands scope component .slotData type
  | dynamicSlot {name : String} {slot : Slot} {type : TypeExpr}
      (mem : (name, slot) ∈ component.dynamicSlots.entries) (data : slot.type = some type) :
      Demands scope component .slotData type
  | propertyMember {name : String} {property : Property} {entry : PropertyPath × List Member}
      {member : Member} (mem : (name, property) ∈ component.properties.entries)
      (expands : scope.Expands name property.type entry) (visits : scope.Visits entry member) :
      Demands scope component .property member.type
  | detailMember {name : String} {event : Event} {type : TypeExpr}
      {entry : PropertyPath × List Member} {member : Member}
      (mem : (name, event) ∈ component.events.entries) (detail : event.detail = some type)
      (expands : scope.Expands name type entry) (visits : scope.Visits entry member) :
      Demands scope component .property member.type

/-- The types of a component that assembly resolves, with their positions. -/
inductive Examines (scope : Scope) (component : Component) : Position → TypeExpr → Prop
  | demanded {position : Position} {type : TypeExpr}
      (demands : scope.Demands component position type) : Examines scope component position type
  | binding {name : String} {property : Property} {bound : TypeExpr}
      (mem : (name, property) ∈ component.properties.entries)
      (binds : scope.Binds property.type bound) : Examines scope component .parameter bound
  | parameter {name : String} {method : Method} {param : MethodParam}
      (mem : (name, method) ∈ component.methods.entries) (listed : param ∈ method.params) :
      Examines scope component .parameter param.type
  | result {name : String} {method : Method} (mem : (name, method) ∈ component.methods.entries) :
      Examines scope component .returned (method.returns.getD .void)

namespace Traces

variable {ι : Type} {Has : {α : Type} → Attempt α → (ι → Prop) → Prop}
  {Part : Position → TypeExpr → ι → Prop}

theorem annotate (traces : scope.Traces Has Part) (member : String) (docs : DocTags)
    (signature : Option Signature) :
    Has (Scope.annotate member docs signature) fun _ => False := by
  apply traces.after (traces.raise ?_) fun _ _ => traces.ok _
  intro notice mem
  rcases List.mem_map.1 mem with ⟨error, _, rfl⟩
  rfl

/-! ## Bindings -/

theorem bindConcrete (traces : scope.Traces Has Part) (type : TypeExpr) :
    Has (scope.bindConcrete type) (Part .parameter type) :=
  traces.before (traces.resolve _ type) fun _ _ => traces.ok _

theorem bindParameter (traces : scope.Traces Has Part) (generics : List TypeParam)
    (formal : TypeParam) (index : Nat) (argument : Option TypeExpr) :
    Has (scope.bindParameter generics formal index argument) fun thing =>
      ∃ bound, argument.or formal.default = some bound ∧ Part .parameter bound thing := by
  have concrete {type : TypeExpr} (unpart : ∀ thing, ¬Part .parameter type thing) :
      Has (scope.bindConcrete type) fun _ => False :=
    traces.congr (traces.bindConcrete type) fun thing => by simp [unpart]
  unfold Scope.bindParameter
  split
  · rename_i name constraint given
    have unpart (thing : ι) : False ↔
        ∃ bound, argument.or formal.default = some bound ∧ Part .parameter bound thing := by
      simp [given, traces.generic]
    split
    · exact traces.congr (traces.ok _) unpart
    · exact traces.congr (concrete (traces.generic .parameter name none)) unpart
  · rename_i type _ given
    exact traces.congr (traces.bindConcrete type) fun thing => by simp [given]
  · rename_i missing
    have unpart (thing : ι) : False ↔
        ∃ bound, argument.or formal.default = some bound ∧ Part .parameter bound thing := by
      simp [missing]
    split
    · exact traces.congr (traces.ok _) unpart
    · exact traces.congr (concrete (traces.any .parameter)) unpart

theorem bindFrom (traces : scope.Traces Has Part) (generics : List TypeParam)
    (args : List TypeExpr) (index : Nat) (formals : List TypeParam) :
    Has (scope.bindFrom generics args index formals) fun thing =>
      ∃ (place : Nat) (formal : TypeParam) (bound : TypeExpr), formals[place]? = some formal ∧
        args[index + place]?.or formal.default = some bound ∧ Part .parameter bound thing := by
  induction formals generalizing index with
  | nil => exact traces.ok_of_not fun thing => by simp
  | cons formal rest ih =>
    apply traces.congr
    · apply traces.bind (traces.bindParameter generics formal index args[index]?)
      intro target _
      exact traces.before (ih (index + 1)) fun others _ => traces.ok _
    · intro thing
      constructor
      · rintro (⟨bound, given, part⟩ | ⟨place, other, bound, placed, given, part⟩)
        · exact ⟨0, formal, bound, rfl, given, part⟩
        · refine ⟨place + 1, other, bound, placed, ?_, part⟩
          rw [Nat.add_comm place, ← Nat.add_assoc]
          exact given
      · rintro ⟨_ | place, other, bound, placed, given, part⟩
        · cases placed
          exact .inl ⟨bound, given, part⟩
        · refine .inr ⟨place, other, bound, placed, ?_, part⟩
          rw [Nat.add_assoc, Nat.add_comm 1]
          exact given

theorem bindParameters (traces : scope.Traces Has Part) (declaration : Declaration)
    (args : List TypeExpr) (generics : List TypeParam) :
    Has (scope.bindParameters declaration args generics) fun thing =>
      ∃ (place : Nat) (formal : TypeParam) (bound : TypeExpr),
        declaration.typeParams[place]? = some formal ∧
        args[place]?.or formal.default = some bound ∧ Part .parameter bound thing :=
  traces.congr (traces.bindFrom generics args 0 declaration.typeParams)
    fun thing => by simp only [Nat.zero_add]

theorem propertyBindings (traces : scope.Traces Has Part) (type : TypeExpr)
    (generics : List TypeParam) :
    Has (scope.propertyBindings type generics) fun thing =>
      ∃ bound, scope.Binds type bound ∧ Part .parameter bound thing := by
  unfold Scope.propertyBindings
  split
  · rename_i name args refers
    split
    · rename_i declaration found
      apply traces.congr (traces.bindParameters declaration args generics)
      intro thing
      constructor
      · rintro ⟨place, formal, bound, placed, given, part⟩
        exact ⟨bound, .argument refers found placed given, part⟩
      · rintro ⟨bound, ⟨other_refers, other_found, placed, given⟩, part⟩
        cases refers.symm.trans other_refers
        cases found.symm.trans other_found
        exact ⟨_, _, bound, placed, given, part⟩
    · rename_i undeclared
      apply traces.ok_of_not
      rintro thing ⟨bound, ⟨other_refers, found, _, _⟩, _⟩
      cases refers.symm.trans other_refers
      cases undeclared.symm.trans found
  · rename_i refers_not
    apply traces.ok_of_not
    rintro thing ⟨bound, ⟨refers, _, _, _⟩, _⟩
    exact refers_not _ _ refers

/-! ## Parts of a component -/

theorem assembleProperty (traces : scope.Traces Has Part) (generics : List TypeParam)
    (name : String) (property : Property) :
    Has (scope.assembleProperty generics name property) fun thing =>
      Part .property property.type thing ∨
        (∃ entry, scope.Expands name property.type entry ∧
          scope.AtMember (Part .property) entry thing) ∨
        ∃ bound, scope.Binds property.type bound ∧ Part .parameter bound thing := by
  apply traces.bind (traces.resolve _ property.type)
  intro signature _
  apply traces.after (traces.annotate name property.docs (some signature))
  intro docs _
  apply traces.bind (traces.expand name property.type)
  intro expansion _
  exact traces.before (traces.propertyBindings property.type generics) fun _ _ => traces.ok _

theorem assembleEvent (traces : scope.Traces Has Part) (name : String) (event : Event) :
    Has (scope.assembleEvent name event) fun thing =>
      ∃ type, event.detail = some type ∧ (Part .eventDetail type thing ∨
        ∃ entry, scope.Expands name type entry ∧
          scope.AtMember (Part .property) entry thing) := by
  have detail : Has (scope.assembleDetail name event.detail) fun thing =>
      ∃ type, event.detail = some type ∧ (Part .eventDetail type thing ∨
        ∃ entry, scope.Expands name type entry ∧
          scope.AtMember (Part .property) entry thing) := by
    cases event.detail with
    | none => exact traces.ok_of_not fun thing => by simp
    | some type =>
      apply traces.congr
      · apply traces.bind (traces.resolve _ type)
        intro signature _
        exact traces.before (traces.expand name type) fun _ _ => traces.ok _
      · intro thing
        simp
  apply traces.before detail
  intro resolved _
  exact traces.after (traces.annotate name event.docs none) fun _ _ => traces.ok _

theorem assembleSlot (traces : scope.Traces Has Part) (name : String) (slot : Slot) :
    Has (scope.assembleSlot name slot) fun thing =>
      ∃ type, slot.type = some type ∧ Part .slotData type thing := by
  have data : Has (scope.slotSignature slot.type) fun thing =>
      ∃ type, slot.type = some type ∧ Part .slotData type thing := by
    cases slot.type with
    | none => exact traces.ok_of_not fun thing => by simp
    | some type =>
      apply traces.congr
      · exact traces.before (traces.resolve _ type) fun _ _ => traces.ok _
      · intro thing
        simp
  apply traces.before data
  intro signature _
  exact traces.after (traces.annotate name slot.docs none) fun _ _ => traces.ok _

theorem assembleParam (traces : scope.Traces Has Part) (method : String) (param : MethodParam) :
    Has (scope.assembleParam method param) (Part .parameter param.type) := by
  apply traces.before (traces.resolve _ param.type)
  intro signature _
  exact traces.after (traces.annotate _ _ _) fun _ _ => traces.ok _

theorem assembleMethod (traces : scope.Traces Has Part) (name : String) (method : Method) :
    Has (scope.assembleMethod name method) fun thing =>
      (∃ param ∈ method.params, Part .parameter param.type thing) ∨
        Part .returned (method.returns.getD .void) thing := by
  apply traces.bind (traces.traverse fun param _ => traces.assembleParam name param)
  intro params _
  apply traces.before (traces.resolve _ _)
  intro signature _
  exact traces.after (traces.annotate _ _ _) fun _ _ => traces.ok _

/-- Assembly has what the types have that it resolves. -/
theorem assembleSurface (traces : scope.Traces Has Part) (component : Component) :
    Has (scope.assembleSurface component) fun thing =>
      ∃ position type, scope.Examines component position type ∧ Part position type thing := by
  have since_untyped : ∀ notice ∈ sinceNotices component, notice.category? = none := by
    intro notice mem
    unfold sinceNotices at mem
    split at mem
    · split at mem
      · cases mem
      · cases List.mem_singleton.1 mem
        rfl
    · cases mem
  apply traces.congr
  · apply traces.after (traces.raise since_untyped)
    intro _ _
    apply traces.after (traces.annotate "" component.docs none)
    intro docs _
    apply traces.bind (traces.traverseMap fun name property _ =>
      traces.assembleProperty component.generics name property)
    intro properties _
    apply traces.bind (traces.traverseMap fun name event _ => traces.assembleEvent name event)
    intro events _
    apply traces.bind (traces.traverseMap fun name slot _ => traces.assembleSlot name slot)
    intro slots _
    apply traces.bind (traces.traverseMap fun name slot _ => traces.assembleSlot name slot)
    intro dynamicSlots _
    exact traces.before
      (traces.traverseMap fun name method _ => traces.assembleMethod name method)
      fun _ _ => traces.ok _
  · intro thing
    constructor
    · rintro (⟨name, property, mem, part | ⟨entry, expands, member, visits, part⟩ |
          ⟨bound, binds, part⟩⟩ |
        ⟨name, event, mem, type, detail, part | ⟨entry, expands, member, visits, part⟩⟩ |
        ⟨name, slot, mem, type, data, part⟩ | ⟨name, slot, mem, type, data, part⟩ |
        ⟨name, method, mem, ⟨param, listed, part⟩ | part⟩)
      · exact ⟨_, _, .demanded (.property mem), part⟩
      · exact ⟨_, _, .demanded (.propertyMember mem expands visits), part⟩
      · exact ⟨_, _, .binding mem binds, part⟩
      · exact ⟨_, _, .demanded (.detail mem detail), part⟩
      · exact ⟨_, _, .demanded (.detailMember mem detail expands visits), part⟩
      · exact ⟨_, _, .demanded (.slot mem data), part⟩
      · exact ⟨_, _, .demanded (.dynamicSlot mem data), part⟩
      · exact ⟨_, _, .parameter mem listed, part⟩
      · exact ⟨_, _, .result mem, part⟩
    · rintro ⟨position, type, examines, part⟩
      cases examines with
      | demanded demands =>
        cases demands with
        | property mem => exact .inl ⟨_, _, mem, .inl part⟩
        | propertyMember mem expands visits =>
          exact .inl ⟨_, _, mem, .inr (.inl ⟨_, expands, _, visits, part⟩)⟩
        | detail mem detail => exact .inr (.inl ⟨_, _, mem, _, detail, .inl part⟩)
        | detailMember mem detail expands visits =>
          exact .inr (.inl ⟨_, _, mem, _, detail, .inr ⟨_, expands, _, visits, part⟩⟩)
        | slot mem data => exact .inr (.inr (.inl ⟨_, _, mem, _, data, part⟩))
        | dynamicSlot mem data => exact .inr (.inr (.inr (.inl ⟨_, _, mem, _, data, part⟩)))
      | binding mem binds => exact .inl ⟨_, _, mem, .inr (.inr ⟨_, binds, part⟩)⟩
      | parameter mem listed =>
        exact .inr (.inr (.inr (.inr ⟨_, _, mem, .inl ⟨_, listed, part⟩⟩)))
      | result mem => exact .inr (.inr (.inr (.inr ⟨_, _, mem, .inr part⟩)))

end Traces

end Scope

end Componentry
