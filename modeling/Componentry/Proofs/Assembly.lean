import Mathlib.Data.List.Forall2
import Componentry.Assembly
import Componentry.Proofs.Attempt

/-!
# Accepted components

When a component is accepted, each of its parts was assembled, and the resolved
component holds the results under the same names in the same order.
-/

namespace Componentry

namespace Attempt

variable {α β : Type}

theorem forall₂_of_traverse {step : α → Attempt β} {items : List α} {results : List β}
    (ok : (traverse step items).outcome = .ok results) :
    List.Forall₂ (fun item result => (step item).outcome = .ok result) items results := by
  induction items generalizing results with
  | nil =>
    simp only [traverse, outcome_pure] at ok
    cases ok
    exact .nil
  | cons item rest ih =>
    simp only [traverse, outcome_bind_eq_ok, outcome_pure, Except.ok.injEq] at ok
    rcases ok with ⟨first, first_ok, others, others_ok, rfl⟩
    exact .cons first_ok (ih others_ok)

section Maps

variable {step : String → α → Attempt β} {map : OrderedMap α} {result : OrderedMap β}

/-- A map that was traversed has the results of the steps under the same keys, in order. -/
theorem forall₂_of_traverseMap (ok : (traverseMap step map).outcome = .ok result) :
    List.Forall₂ (fun source entry =>
      source.1 = entry.1 ∧ (step source.1 source.2).outcome = .ok entry.2)
      map.entries result.entries := by
  simp only [traverseMap, outcome_bind_eq_ok, outcome_pure, Except.ok.injEq] at ok
  rcases ok with ⟨entries, entries_ok, rfl⟩
  have steps : List.Forall₂ (fun source entry =>
      source.1 = entry.1 ∧ (step source.1 source.2).outcome = .ok entry.2)
      map.entries entries := by
    apply (forall₂_of_traverse entries_ok).imp
    rintro ⟨key, source⟩ entry step_ok
    simp only [outcome_bind_eq_ok, outcome_pure, Except.ok.injEq] at step_ok
    rcases step_ok with ⟨value, value_ok, rfl⟩
    exact ⟨rfl, value_ok⟩
  have keys_eq : map.entries.map Prod.fst = entries.map Prod.fst := by
    rw [← List.forall₂_eq_eq_eq, List.forall₂_map_left_iff, List.forall₂_map_right_iff]
    exact steps.imp fun _ _ step => step.1
  rw [OrderedMap.entries_ofList (keys_eq ▸ map.nodup)]
  exact steps

theorem forall₂_values_of_traverseMap (ok : (traverseMap step map).outcome = .ok result) :
    List.Forall₂ (fun source value => ∃ key, (step key source).outcome = .ok value)
      map.values result.values := by
  rw [OrderedMap.values, OrderedMap.values, List.forall₂_map_left_iff, List.forall₂_map_right_iff]
  exact (forall₂_of_traverseMap ok).imp fun source _ step_ok => ⟨source.1, step_ok.2⟩

theorem exists_source_of_mem_traverseMap (ok : (traverseMap step map).outcome = .ok result)
    {entry : String × β} (mem : entry ∈ result.entries) :
    ∃ source, map.get? entry.1 = some source ∧ (step entry.1 source).outcome = .ok entry.2 := by
  have paired : ∃ source, (entry.1, source) ∈ map.entries ∧
      (step entry.1 source).outcome = .ok entry.2 := by
    have steps := forall₂_of_traverseMap ok
    generalize map.entries = sources at steps ⊢
    generalize result.entries = entries at steps mem
    induction steps with
    | nil => simp at mem
    | @cons source head sources entries here _ ih =>
      rcases List.mem_cons.1 mem with rfl | later
      · exact ⟨source.2, by simp [← here.1], here.1 ▸ here.2⟩
      · rcases ih later with ⟨other, other_mem, other_ok⟩
        exact ⟨other, List.mem_cons_of_mem _ other_mem, other_ok⟩
  rcases paired with ⟨source, source_mem, source_ok⟩
  exact ⟨source, lookup_eq_some_of_mem map.nodup source_mem, source_ok⟩

theorem exists_step_of_mem_traverseMap (ok : (traverseMap step map).outcome = .ok result)
    {entry : String × β} (mem : entry ∈ result.entries) :
    ∃ source, (step entry.1 source).outcome = .ok entry.2 := by
  rcases exists_source_of_mem_traverseMap ok mem with ⟨source, _, source_ok⟩
  exact ⟨source, source_ok⟩

end Maps

end Attempt

namespace Scope

/-- The maps of a resolved component are what the maps of the declared one were traversed to. -/
structure Traversed (scope : Scope) (component : Component) (resolved : ResolvedComponent) :
    Prop where
  properties : (Attempt.traverseMap (scope.assembleProperty component.generics)
    component.properties).outcome = .ok resolved.properties
  events : (Attempt.traverseMap scope.assembleEvent component.events).outcome = .ok resolved.events
  slots : (Attempt.traverseMap scope.assembleSlot component.slots).outcome = .ok resolved.slots
  dynamicSlots : (Attempt.traverseMap scope.assembleSlot component.dynamicSlots).outcome =
    .ok resolved.dynamicSlots
  methods : (Attempt.traverseMap scope.assembleMethod component.methods).outcome =
    .ok resolved.methods

variable {scope : Scope}

theorem traversed_of_assembleSurface {component : Component} {resolved : ResolvedComponent}
    (ok : (scope.assembleSurface component).outcome = .ok resolved) :
    scope.Traversed component resolved := by
  simp only [assembleSurface, Attempt.outcome_bind_eq_ok, Attempt.outcome_pure,
    Except.ok.injEq] at ok
  rcases ok with ⟨_, _, docs, _, properties, properties_ok, events, events_ok, slots, slots_ok,
    dynamicSlots, dynamicSlots_ok, methods, methods_ok, rfl⟩
  exact ⟨properties_ok, events_ok, slots_ok, dynamicSlots_ok, methods_ok⟩

theorem expansion_of_assembleProperty {generics : List TypeParam} {name : String}
    {property : Property} {resolved : ResolvedProperty}
    (ok : (scope.assembleProperty generics name property).outcome = .ok resolved) :
    ∃ expansion, (scope.expand name property.type).outcome = .ok expansion ∧
      resolved.properties = expansion.properties ∧
      resolved.itemProperties = expansion.itemProperties := by
  simp only [assembleProperty, Attempt.outcome_bind_eq_ok, Attempt.outcome_pure,
    Except.ok.injEq] at ok
  rcases ok with ⟨signature, _, docs, _, expansion, expansion_ok, bindings, _, rfl⟩
  exact ⟨expansion, expansion_ok, rfl, rfl⟩

theorem detail_of_assembleEvent {name : String} {event : Event} {resolved : ResolvedEvent}
    (ok : (scope.assembleEvent name event).outcome = .ok resolved) :
    (event.detail = none ∧ resolved.detail = none ∧ resolved.expansion = {}) ∨
      ∃ type signature, event.detail = some type ∧ resolved.detail = some signature ∧
        (scope.resolve ⟨.eventDetail, false⟩ type).outcome = .ok signature ∧
        (scope.expand name type).outcome = .ok resolved.expansion := by
  simp only [assembleEvent, Attempt.outcome_bind_eq_ok, Attempt.outcome_pure,
    Except.ok.injEq] at ok
  rcases ok with ⟨detail, detail_ok, docs, _, rfl⟩
  unfold assembleDetail at detail_ok
  split at detail_ok
  · rename_i no_detail
    cases detail_ok
    exact .inl ⟨no_detail, rfl, rfl⟩
  · rename_i type detail_type
    simp only [Attempt.outcome_bind_eq_ok, Attempt.outcome_pure, Except.ok.injEq] at detail_ok
    rcases detail_ok with ⟨signature, signature_ok, expansion, expansion_ok, rfl⟩
    exact .inr ⟨type, signature, detail_type, rfl, signature_ok, expansion_ok⟩

theorem expansion_of_assembleEvent {name : String} {event : Event} {resolved : ResolvedEvent}
    (ok : (scope.assembleEvent name event).outcome = .ok resolved) :
    resolved.expansion = {} ∨
      ∃ type, (scope.expand name type).outcome = .ok resolved.expansion := by
  rcases detail_of_assembleEvent ok with ⟨_, _, empty⟩ | ⟨type, _, _, _, _, expansion_ok⟩
  · exact .inl empty
  · exact .inr ⟨type, expansion_ok⟩

end Scope

namespace Assembler

variable {assembler : Assembler} {model : TypeModel} {config : Config} {component : Component}
  {resolved : ResolvedComponent}

theorem outcome_assemble (accepted : (assembler.assemble model config component).1 = .ok resolved) :
    ((Scope.ofConfig model config).assemble config component).outcome = .ok resolved := by
  simp only [Assembler.assemble] at accepted
  cases outcome : ((Scope.ofConfig model config).assemble config component).outcome with
  | error failure => simp [outcome, Except.mapError] at accepted
  | ok value => simpa [outcome, Except.mapError] using accepted

theorem exists_accepted (assembler : Assembler)
    (ok : ((Scope.ofConfig model config).assemble config component).outcome.isOk = true) :
    ∃ resolved, (assembler.assemble model config component).1 = .ok resolved := by
  simp only [Assembler.assemble]
  cases outcome : ((Scope.ofConfig model config).assemble config component).outcome with
  | error failure => simp [outcome, Except.isOk, Except.toBool] at ok
  | ok resolved => exact ⟨resolved, rfl⟩

theorem outcome_assembleSurface
    (accepted : (assembler.assemble model config component).1 = .ok resolved) :
    ((Scope.ofConfig model config).assembleSurface component).outcome = .ok resolved := by
  have ok := outcome_assemble accepted
  simp only [Scope.assemble, Attempt.outcome_bind_eq_ok] at ok
  rcases ok with ⟨_, _, _, _, surface_ok⟩
  exact surface_ok

theorem traversed_of_accepted
    (accepted : (assembler.assemble model config component).1 = .ok resolved) :
    (Scope.ofConfig model config).Traversed component resolved :=
  Scope.traversed_of_assembleSurface (outcome_assembleSurface accepted)

end Assembler

end Componentry
