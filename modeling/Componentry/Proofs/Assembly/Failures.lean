import Componentry.Proofs.Assembly.Surface
import Componentry.Proofs.Attempt.Causes
import Componentry.Proofs.Resolution.Conditionals

/-!
# Failures of assembly

Parameters and results of methods and the bindings of type parameters are resolved without asking
for concrete types, so they never fail. The types of properties, details and slots, and of the
members that their expansions visit, fail at undecided conditional types. Besides these there are
only the checks of a component.
-/

namespace Componentry

namespace Scope

variable {scope : Scope}

theorem resolve_failsBy (scope : Scope) (context : Context) (type : TypeExpr) :
    (scope.resolve context type).FailsBy (scope.Undecided context.position [] type) := by
  refine ⟨fun failure failed => undecided_of_outcome failed, ?_⟩
  intro failure undecided
  exact ⟨failure, outcome_eq_error_iff.2 undecided⟩

/-- Failures are traced to undecided types. -/
theorem traces_undecided (scope : Scope) :
    scope.Traces Attempt.FailsBy fun position => scope.Undecided position [] where
  toComposes := Attempt.FailsBy.composes
  resolve := scope.resolve_failsBy
  raise _ := .raise _
  generic := by
    rintro position name constraint failure ⟨_, route, text, first, _⟩
    cases first.meets with
    | core wrapped _ => cases wrapped
  any := by
    rintro position failure ⟨_, route, text, first, _⟩
    cases first.meets with
    | core wrapped _ => cases wrapped

/-! ## Where nothing fails -/

theorem resolve_lenient_failsBy {context : Context}
    (lenient : context.position.requiresConcrete = false) (type : TypeExpr) :
    (scope.resolve context type).FailsBy fun _ => False :=
  (scope.resolve_failsBy context type).congr fun failure => by simp [Undecided, lenient]

theorem bindParameters_failsBy (declaration : Declaration) (args : List TypeExpr)
    (generics : List TypeParam) :
    (scope.bindParameters declaration args generics).FailsBy fun _ => False :=
  (scope.traces_undecided.bindParameters declaration args generics).congr
    fun failure => by simp [Undecided, Position.requiresConcrete]

theorem assembleMethod_failsBy (name : String) (method : Method) :
    (scope.assembleMethod name method).FailsBy fun _ => False :=
  (scope.traces_undecided.assembleMethod name method).congr
    fun failure => by simp [Undecided, Position.requiresConcrete]

/-! ## Components -/

theorem assembleSurface_failsBy (component : Component) :
    (scope.assembleSurface component).FailsBy fun failure =>
      ∃ position type, scope.Demands component position type ∧
        scope.Undecided position [] type failure := by
  apply (scope.traces_undecided.assembleSurface component).congr
  intro failure
  constructor
  · rintro ⟨position, type, examines, undecided⟩
    cases examines with
    | demanded demands => exact ⟨position, type, demands, undecided⟩
    | binding _ _ | parameter _ _ | result _ => cases undecided.1
  · rintro ⟨position, type, demands, undecided⟩
    exact ⟨position, type, .demanded demands, undecided⟩

theorem assemble_failsBy (config : Config) (component : Component) :
    (scope.assemble config component).FailsBy fun failure =>
      scope.baseError? component = some failure ∨ component.invariantError? config = some failure ∨
        ∃ position type, scope.Demands component position type ∧
          scope.Undecided position [] type failure := by
  apply (Attempt.FailsBy.require (scope.baseError? component)).bind
  intro _ _
  apply (Attempt.FailsBy.require (component.invariantError? config)).bind
  intro _ _
  exact assembleSurface_failsBy component

theorem Demands.requiresConcrete {component : Component} {position : Position} {type : TypeExpr}
    (demands : scope.Demands component position type) : position.requiresConcrete = true := by
  cases demands <;> rfl

/-- Assembly fails for its checks or for a type that cannot be decided. -/
theorem assemble_fails_iff (config : Config) (component : Component) :
    (∃ failure, (scope.assemble config component).outcome = .error failure) ↔
      scope.baseError? component ≠ none ∨ component.invariantError? config ≠ none ∨
        ∃ position type route text, scope.Demands component position type ∧
          scope.Meets [] type route text := by
  rw [(assemble_failsBy config component).exists_error_iff]
  constructor
  · rintro ⟨failure, based | invalid | ⟨position, type, demands, _, route, text, first, _⟩⟩
    · exact .inl (by simp [based])
    · exact .inr (.inl (by simp [invalid]))
    · exact .inr (.inr ⟨position, type, route, text, demands, first.meets⟩)
  · rintro (based | invalid | ⟨position, type, route, text, demands, meets⟩)
    · rcases Option.ne_none_iff_exists'.1 based with ⟨failure, based⟩
      exact ⟨failure, .inl based⟩
    · rcases Option.ne_none_iff_exists'.1 invalid with ⟨failure, invalid⟩
      exact ⟨failure, .inr (.inl invalid)⟩
    · rcases exists_first_iff.2 ⟨route, text, meets⟩ with ⟨route, text, first⟩
      have undecided : scope.Undecided position [] type _ :=
        ⟨demands.requiresConcrete, route, text, first, rfl⟩
      exact ⟨_, .inr (.inr ⟨position, type, demands, undecided⟩)⟩

end Scope

namespace Assembler

theorem assemble_eq_error_iff {assembler : Assembler} {model : TypeModel} {config : Config}
    {component : Component} {error : ComponentError} :
    (assembler.assemble model config component).1 = .error error ↔
      ∃ failure, ((Scope.ofConfig model config).assemble config component).outcome =
        .error failure ∧ error = ⟨component.name, component.location, failure⟩ := by
  simp only [Assembler.assemble]
  cases ((Scope.ofConfig model config).assemble config component).outcome with
  | ok resolved => simp [Except.mapError]
  | error failure => simp [Except.mapError, eq_comm]

/-- Resolution fails exactly at undecided conditional types, in the positions that need a concrete
type, and with the text of the first one. Hence bindings and methods never fail, and components
fail by their checks or at such a type. -/
theorem failures_at_undecided_types (model : TypeModel) (config : Config) :
    let scope := Scope.ofConfig model config
    (∀ context type, context.position = .parameter ∨ context.position = .returned →
      ∃ signature, (scope.resolve context type).outcome = .ok signature) ∧
    (∀ declaration args generics, ∃ bindings,
      (scope.bindParameters declaration args generics).outcome = .ok bindings) ∧
    (∀ name method, ∃ resolved, (scope.assembleMethod name method).outcome = .ok resolved) ∧
    (∀ context type,
      context.position = .property ∨ context.position = .eventDetail ∨
        context.position = .slotData →
      ((∃ failure, (scope.resolve context type).outcome = .error failure) ↔
        ∃ route text, scope.Meets [] type route text) ∧
      ∀ failure, (scope.resolve context type).outcome = .error failure ↔
        ∃ route text, scope.First [] type route text ∧
          failure = .unresolvedConditional text context.position.label) ∧
    ∀ assembler component,
      ((∃ error, (assemble assembler model config component).1 = .error error) ↔
        scope.baseError? component ≠ none ∨ component.invariantError? config ≠ none ∨
          ∃ position type route text, scope.Demands component position type ∧
            scope.Meets [] type route text) ∧
      ∀ error, (assemble assembler model config component).1 = .error error →
        error.component = component.name ∧ error.location = component.location ∧
          (scope.baseError? component = some error.error ∨
            component.invariantError? config = some error.error ∨
            ∃ position type route text, scope.Demands component position type ∧
              scope.First [] type route text ∧
              error.error = .unresolvedConditional text position.label) := by
  intro scope
  refine ⟨?_, ?_, ?_, ?_, ?_⟩
  · intro context type lenient
    apply (Scope.resolve_lenient_failsBy ?_ type).exists_ok
    rcases lenient with position | position <;> rw [position] <;> rfl
  · intro declaration args generics
    exact (Scope.bindParameters_failsBy declaration args generics).exists_ok
  · intro name method
    exact (Scope.assembleMethod_failsBy name method).exists_ok
  · intro context type position
    have concrete : context.position.requiresConcrete = true := by
      rcases position with position | position | position <;> rw [position] <;> rfl
    refine ⟨Scope.exists_error_iff concrete, ?_⟩
    intro failure
    rw [Scope.outcome_resolve, Scope.outcome_eq_error_iff]
    exact and_iff_right concrete
  · intro assembler component
    refine ⟨?_, ?_⟩
    · rw [← Scope.assemble_fails_iff]
      simp [assemble_eq_error_iff, scope]
    · intro error failed
      rcases assemble_eq_error_iff.1 failed with ⟨failure, scope_failed, rfl⟩
      refine ⟨rfl, rfl, ?_⟩
      rcases (Scope.assemble_failsBy config component).caused failure scope_failed with
        based | invalid | ⟨position, type, demands, _, route, text, first, text_eq⟩
      · exact .inl based
      · exact .inr (.inl invalid)
      · exact .inr (.inr ⟨position, type, route, text, demands, first, text_eq⟩)

/-- What a gauge may read, under conditions that are left open. -/
def readings : List TypeExpr :=
  [.string, .array (.conditional "T extends Unit" none), .conditional "T extends Scale" none]

def gauges : TypeModel :=
  .ofList [.ofAlias "Reading" (.union readings),
    .ofInterface "Gauge" [⟨"reading", .named "Reading", false, false⟩]]

def dial : Component where
  name := "Dial"
  tagName := "my-dial"
  properties := .ofList [("gauge", { type := .named "Gauge" })]
  methods := .ofList [("read", { params := [⟨"reading", .named "Reading", false, {}⟩] })]

theorem failures_at_undecided_types_dial :
    let scope := Scope.ofConfig gauges {}
    (∃ signature, (scope.resolve ⟨.parameter, false⟩ (.named "Reading")).outcome = .ok signature) ∧
      (scope.resolve ⟨.property, false⟩ (.named "Reading")).outcome =
        .error (.unresolvedConditional "T extends Unit" "property") ∧
      ∃ error, (({} : Assembler).assemble gauges {} dial).1 = .error error ∧
        error.component = "Dial" := by
  intro scope
  rcases failures_at_undecided_types gauges {} with ⟨lenient, _, _, failed, component_failed⟩
  have first : scope.First [] (.named "Reading") [1] "T extends Unit" := by
    have inner : scope.First ["Reading"] (.array (.conditional "T extends Unit" none)) []
        "T extends Unit" := (Scope.First.here _ _).through (Scope.meets_element _)
    have split : TypeExpr.presentMembers readings =
        [.string] ++ .array (.conditional "T extends Unit" none) ::
          [.conditional "T extends Scale" none] := rfl
    have found : scope.model.find? "Reading" = some (.ofAlias "Reading" (.union readings)) := rfl
    have followed (route : List Nat) (text : String) :
        scope.Meets [] (.named "Reading") route text ↔
          scope.Meets ["Reading"] (.union readings) route text :=
      Scope.meets_alias found rfl rfl List.not_mem_nil route text
    apply (inner.alternative rfl split ?_).through followed
    intro earlier mem route text meets
    cases List.mem_singleton.1 mem
    cases meets with
    | core wrapped _ => cases wrapped
  refine ⟨lenient ⟨.parameter, false⟩ (.named "Reading") (.inl rfl), ?_, ?_⟩
  · exact ((failed ⟨.property, false⟩ (.named "Reading") (.inl rfl)).2 _).2 ⟨_, _, first, rfl⟩
  · have expands : scope.Expands "gauge" (.named "Gauge") _ := .target rfl rfl
    have visits (path : PropertyPath) :
        scope.Visits (path, [⟨"reading", .named "Reading", false, false⟩])
          ⟨"reading", .named "Reading", false, false⟩ := .own (.head []) rfl
    have demands : scope.Demands dial .property (.named "Reading") :=
      .propertyMember (.head []) expands (visits _)
    have some_error := (component_failed {} dial).1.2
      (.inr (.inr ⟨_, _, _, _, demands, first.meets⟩))
    rcases some_error with ⟨error, error_eq⟩
    exact ⟨error, error_eq, ((component_failed {} dial).2 error error_eq).1⟩

end Assembler

end Componentry
