import Mathlib.Data.List.Permutation
import Componentry.Proofs.Assembly

/-!
# Checks that are switched off

Switching off more checks makes no other component: what was accepted is
accepted with the same result, and the diagnostics are those from before
without the ones of the checks that are off.

The notices that assembly raises do not depend on the checks, so the two
reports are made from the same notices and are compared notice by notice. The
report about types remembers which deprecated types it has reported, and it
does so only while that check is on. `TypeReport.Quiets` therefore asks the two
memories to agree only if the check is on in both configurations.
-/

namespace Componentry

namespace Config

/-- The configuration is another one with more checks switched off. -/
structure Relaxes (relaxed strict : Config) : Prop where
  same : relaxed = { strict with isDisabled := relaxed.isDisabled }
  fewer : ∀ category, strict.isDisabled category = true → relaxed.isDisabled category = true

variable {relaxed strict : Config}

theorem Relaxes.isEnabled (relaxes : relaxed.Relaxes strict) {category : CheckCategory}
    (enabled : relaxed.isEnabled category = true) : strict.isEnabled category = true := by
  rw [Config.isEnabled, Bool.not_eq_true'] at enabled ⊢
  cases off : strict.isDisabled category with
  | false => rfl
  | true =>
    rw [relaxes.fewer category off] at enabled
    contradiction

end Config

variable {component : Component}

theorem Component.invariantError?_of_relaxes {relaxed strict : Config}
    (relaxes : relaxed.Relaxes strict) (valid : component.invariantError? strict = none) :
    component.invariantError? relaxed = none := by
  have passes {category : CheckCategory} {error : Option StructuralError}
      (passed : (if strict.isEnabled category then error else none) = none) :
      (if relaxed.isEnabled category then error else none) = none := by
    split
    · rename_i enabled
      rw [if_pos (relaxes.isEnabled enabled)] at passed
      exact passed
    · rfl
  simp only [invariantError?, Option.or_eq_none_iff] at valid ⊢
  rcases valid with ⟨writeback, defaultSlot, dynamicSlot, definitions⟩
  exact ⟨passes writeback, passes defaultSlot, passes dynamicSlot, passes definitions⟩

/-! ## Reports under two configurations -/

/-- Whether a diagnostic is left when the checks that a configuration disables are dropped. -/
def Diagnostic.isLeft (config : Config) (diagnostic : Diagnostic) : Bool :=
  !diagnostic.category.any config.isDisabled

namespace TypeReport

/-- What a report of the relaxed configuration has in common with one of the strict configuration
that was made from the same notices. -/
structure Quiets (relaxed : Config) (quiet loud : TypeReport) : Prop where
  component : quiet.component = loud.component
  reported : relaxed.isEnabled .deprecatedType = true → quiet.reported = loud.reported
  diagnostics : quiet.diagnostics = loud.diagnostics.filter (Diagnostic.isLeft relaxed)

namespace Quiets

variable {relaxed strict : Config} {quiet loud : TypeReport} {category : CheckCategory}

theorem warn_both (quiets : Quiets relaxed quiet loud)
    (enabled : relaxed.isEnabled category = true) (message : String) :
    Quiets relaxed (quiet.warn category message) (loud.warn category message) where
  component := quiets.component
  reported := quiets.reported
  diagnostics := by
    rw [Config.isEnabled, Bool.not_eq_true'] at enabled
    simp [warn, quiets.diagnostics, quiets.component, Diagnostic.isLeft, enabled]

theorem warn_loud (quiets : Quiets relaxed quiet loud)
    (disabled : relaxed.isEnabled category = false) (message : String) :
    Quiets relaxed quiet (loud.warn category message) where
  component := quiets.component
  reported := quiets.reported
  diagnostics := by
    rw [Config.isEnabled, Bool.not_eq_false'] at disabled
    simp [warn, quiets.diagnostics, Diagnostic.isLeft, disabled]

theorem remember_both (quiets : Quiets relaxed quiet loud) (names : NameSet) :
    Quiets relaxed { quiet with reported := names } { loud with reported := names } where
  component := quiets.component
  reported _ := rfl
  diagnostics := quiets.diagnostics

/-- What the strict one remembers does not matter when the relaxed one asks for nothing. -/
theorem remember_loud (quiets : Quiets relaxed quiet loud)
    (disabled : relaxed.isEnabled .deprecatedType = false) (names : NameSet) :
    Quiets relaxed quiet { loud with reported := names } where
  component := quiets.component
  reported enabled := by simp [disabled] at enabled
  diagnostics := quiets.diagnostics

theorem add (relaxes : relaxed.Relaxes strict) (quiets : Quiets relaxed quiet loud)
    (notice : Notice) :
    Quiets relaxed (quiet.add relaxed notice) (loud.add strict notice) := by
  cases notice with
  | deprecated name text =>
    simp only [TypeReport.add]
    cases enabled : relaxed.isEnabled .deprecatedType with
    | true =>
      rw [relaxes.isEnabled enabled, quiets.reported enabled]
      split
      · exact (quiets.remember_both _).warn_both enabled _
      · exact quiets
    | false =>
      simp only [Bool.false_and, Bool.false_eq_true, if_false]
      split
      · exact (quiets.remember_loud enabled _).warn_loud enabled _
      · exact quiets
  | degraded reason =>
    simp only [TypeReport.add]
    cases enabled : relaxed.isEnabled .unsupportedType with
    | true =>
      rw [relaxes.isEnabled enabled]
      exact quiets.warn_both enabled _
    | false =>
      simp only [Bool.false_eq_true, if_false]
      split
      · exact quiets.warn_loud enabled _
      · exact quiets
  | droppedTag member error | unknownSince text => exact quiets

theorem addAll (relaxes : relaxed.Relaxes strict) (quiets : Quiets relaxed quiet loud)
    (notices : List Notice) :
    Quiets relaxed (quiet.addAll relaxed notices) (loud.addAll strict notices) := by
  induction notices generalizing quiet loud with
  | nil => exact quiets
  | cons notice rest ih => exact ih (quiets.add relaxes notice)

end Quiets

end TypeReport

theorem filter_isLeft_componentWarnings (config other : Config) (component : Component)
    (notices : List Notice) :
    (componentWarnings config component notices).filter (Diagnostic.isLeft other) =
      componentWarnings config component notices := by
  apply List.filter_eq_self.2
  intro diagnostic mem
  rcases List.mem_map.1 mem with ⟨notice, _, rfl⟩
  rfl

/-! ## Components under two configurations -/

theorem Attempt.eq_none_of_require {failure : Option StructuralError}
    (passed : (require failure).outcome = .ok ()) : failure = none := by
  cases failure with
  | none => rfl
  | some error => contradiction

/-- An accepted component has passed the checks, and the rest of its assembly is the same without
them. -/
theorem Scope.checks_of_assemble {scope : Scope} {config : Config} {resolved : ResolvedComponent}
    (accepted : (scope.assemble config component).outcome = .ok resolved) :
    scope.baseError? component = none ∧ component.invariantError? config = none := by
  simp only [assemble, Attempt.outcome_bind_eq_ok] at accepted
  rcases accepted with ⟨_, based, _, valid, _⟩
  exact ⟨Attempt.eq_none_of_require based, Attempt.eq_none_of_require valid⟩

theorem Scope.assemble_of_checks {scope : Scope} {config : Config}
    (based : scope.baseError? component = none) (valid : component.invariantError? config = none) :
    scope.assemble config component = scope.assembleSurface component := by
  rw [assemble, based, valid]
  rfl

namespace Assembler

/-- The assembler after its diagnostics were taken. -/
def cleared (assembler : Assembler) : Assembler :=
  { warnings := [], types := assembler.types.cleared }

/-- The whole attempt is the same under the relaxed configuration, its notices included. -/
theorem attempt_of_relaxes {model : TypeModel} {relaxed strict : Config}
    {resolved : ResolvedComponent} (relaxes : relaxed.Relaxes strict)
    (accepted : ((Scope.ofConfig model strict).assemble strict component).outcome = .ok resolved) :
    (Scope.ofConfig model relaxed).assemble relaxed component =
      (Scope.ofConfig model strict).assemble strict component := by
  have scope_eq : Scope.ofConfig model relaxed = Scope.ofConfig model strict := by
    rw [relaxes.same]
    rfl
  rcases Scope.checks_of_assemble accepted with ⟨based, valid⟩
  rw [scope_eq, Scope.assemble_of_checks based valid,
    Scope.assemble_of_checks based (Component.invariantError?_of_relaxes relaxes valid)]

/-- A component that is accepted is accepted with the same result when more checks are switched
off, and the diagnostics are then those from before without the ones of the checks that are off. The
assemblers may have assembled any components before. -/
theorem diagnostics_of_relaxed_checks (model : TypeModel) {relaxed strict : Config}
    (relaxes : relaxed.Relaxes strict) (quiet loud : Assembler) (component : Component)
    {resolved : ResolvedComponent}
    (accepted : (loud.cleared.assemble model strict component).1 = .ok resolved) :
    (quiet.cleared.assemble model relaxed component).1 = .ok resolved ∧
      (quiet.cleared.assemble model relaxed component).2.diagnostics =
        (loud.cleared.assemble model strict component).2.diagnostics.filter
          (Diagnostic.isLeft relaxed) := by
  have attempt_eq := attempt_of_relaxes relaxes (outcome_assemble accepted)
  have quiets : TypeReport.Quiets relaxed (quiet.cleared.types.forComponent component.name)
      (loud.cleared.types.forComponent component.name) := ⟨rfl, fun _ => rfl, rfl⟩
  have warnings_eq (notices : List Notice) :
      componentWarnings relaxed component notices = componentWarnings strict component notices := by
    rw [relaxes.same]
    rfl
  constructor
  · rw [← accepted]
    simp only [assemble, attempt_eq]
  · simp only [assemble, diagnostics, attempt_eq, List.filter_append, warnings_eq,
      filter_isLeft_componentWarnings, (quiets.addAll relaxes _).diagnostics]
    rfl

/-- A deprecated name for a type that is not declared. -/
def agedTypes : TypeModel :=
  .ofList [{ Declaration.ofAlias "Legacy" (.named "Gone") with deprecated := some "" }]

/-- Two properties of the deprecated type, and a tag without a text. -/
def panel : Component where
  name := "Panel"
  tagName := "my-panel"
  docs := { displayName := some " " }
  properties := .ofList
    [("mode", { type := .named "Legacy" }), ("size", { type := .named "Legacy" })]

theorem annotate_panel :
    Scope.annotate "" panel.docs none = ⟨.ok {}, [.droppedTag "" (.empty "displayName")]⟩ := by
  rfl

theorem assemble_panel :
    let attempt := (Scope.ofConfig agedTypes {}).assemble {} panel
    (attempt.outcome.isOk, attempt.notices) = (true, [
      .droppedTag "" (.empty "displayName"),
      .deprecated "Legacy" "",
      .degraded "type `Gone` is not declared in the type model",
      .deprecated "Legacy" "",
      .degraded "type `Gone` is not declared in the type model"]) := by
  rw [Scope.assemble, Scope.assembleSurface, annotate_panel]
  cbv

theorem diagnostics_of_relaxed_checks_panel :
    let strict := (({} : Assembler).cleared.assemble agedTypes {} panel)
    let relaxed :=
      (({} : Assembler).cleared.assemble agedTypes (Config.disable {} .deprecatedType) panel)
    (∃ resolved, strict.1 = .ok resolved ∧ relaxed.1 = .ok resolved) ∧
      strict.2.diagnostics.map Diagnostic.category =
        [none, some .deprecatedType, some .unsupportedType, some .unsupportedType] ∧
      relaxed.2.diagnostics.map Diagnostic.category =
        [none, some .unsupportedType, some .unsupportedType] := by
  intro strict relaxed
  have relaxes : (Config.disable {} .deprecatedType).Relaxes {} := ⟨rfl, fun _ off => by cases off⟩
  rcases Prod.mk.inj assemble_panel with ⟨outcome_ok, notices_eq⟩
  rcases exists_accepted ({} : Assembler).cleared outcome_ok with ⟨resolved, accepted⟩
  rcases diagnostics_of_relaxed_checks agedTypes relaxes {} {} panel accepted with
    ⟨relaxed_accepted, relaxed_eq⟩
  refine ⟨⟨resolved, accepted, relaxed_accepted⟩, ?_, ?_⟩
  · simp only [strict, assemble, notices_eq]
    decide
  · change List.map _ (assemble _ _ _ _).2.diagnostics = _
    rw [relaxed_eq]
    simp only [assemble, notices_eq]
    decide

end Assembler

end Componentry
