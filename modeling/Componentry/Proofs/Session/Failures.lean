import Componentry.Proofs.Session.Run

/-!
# Failures of sessions

The errors among the diagnostics of a session are those of the steps since the
last reset, one for each step that failed, in the order of the steps. A step
adds its warnings first and its error last, so the number of errors and the
first of them, which are all that the failure of a build says, can be read off
the steps.
-/

namespace Componentry

/-! ## Components are assembled with warnings only -/

namespace TypeReport

theorem isWarning_of_add {config : Config} {report : TypeReport}
    (warned : ∀ diagnostic ∈ report.diagnostics, diagnostic.isWarning = true) (notice : Notice) :
    ∀ diagnostic ∈ (report.add config notice).diagnostics, diagnostic.isWarning = true := by
  have warned_warn (report : TypeReport) (category : CheckCategory) (message : String)
      (warned : ∀ diagnostic ∈ report.diagnostics, diagnostic.isWarning = true) :
      ∀ diagnostic ∈ (report.warn category message).diagnostics, diagnostic.isWarning = true := by
    intro diagnostic mem
    rcases List.mem_append.1 mem with earlier | added
    · exact warned diagnostic earlier
    · rw [List.mem_singleton.1 added]
      rfl
  cases notice with
  | deprecated name note | degraded reason =>
    rw [add]
    split
    · exact warned_warn _ _ _ warned
    · exact warned
  | droppedTag member error | unknownSince text => exact warned

theorem isWarning_of_addAll {config : Config} {report : TypeReport} {notices : List Notice}
    (warned : ∀ diagnostic ∈ report.diagnostics, diagnostic.isWarning = true) :
    ∀ diagnostic ∈ (report.addAll config notices).diagnostics, diagnostic.isWarning = true := by
  induction notices generalizing report with
  | nil => exact warned
  | cons notice rest ih => exact ih (isWarning_of_add warned notice)

end TypeReport

theorem isWarning_of_mem_componentWarnings {config : Config} {component : Component}
    {notices : List Notice} {diagnostic : Diagnostic}
    (mem : diagnostic ∈ componentWarnings config component notices) :
    diagnostic.isWarning = true := by
  rcases List.mem_map.1 mem with ⟨notice, _, rfl⟩
  rfl

/-- Whether or not a component can be used, its assembly raises no error by itself. -/
theorem Assembler.isWarning_of_assemble (model : TypeModel) (config : Config)
    (component : Component) :
    ∀ diagnostic ∈ (assemble {} model config component).2.diagnostics,
      diagnostic.isWarning = true := by
  intro diagnostic mem
  rcases List.mem_append.1 mem with about_component | about_types
  · exact isWarning_of_mem_componentWarnings about_component
  · exact TypeReport.isWarning_of_addAll (by simp [TypeReport.forComponent]) diagnostic about_types

theorem Diagnostic.isError_of_isWarning {diagnostic : Diagnostic}
    (warning : diagnostic.isWarning = true) : diagnostic.isError = false := by
  rw [isWarning, beq_iff_eq] at warning
  rw [isError, warning]
  rfl

/-- A module is left out without an error, and that is the only way to be assembled into nothing. -/
theorem ModuleInput.assemble_eq_ok_none_iff (input : ModuleInput) (config : Config)
    (fragments : List String) (processed : NameSet) (files : FileTree) :
    (input.assemble config fragments processed files).1 = .ok none ↔
      input.isSkipped config processed = true := by
  rw [assemble]
  split
  · simp_all
  · split
    · simp_all
    · split <;> simp_all

namespace Session

namespace State

/-- The errors of the steps since the last reset. -/
def failures (state : State) (steps : List Step) : List Diagnostic :=
  state.observed error? steps

/-- What a step reports: its warnings and then its error, if it fails. A component fails if it has
no metadata, a module if it is not assembled although it is not left out. -/
structure Reports (state : State) (step : Step) : Prop where
  appended : (state.after step).session.diagnostics =
    if step.isReset then []
    else state.session.diagnostics ++ state.warnings step ++ (state.error? step).toList
  warned : ∀ diagnostic ∈ state.warnings step, diagnostic.isWarning = true
  failed : ∀ diagnostic ∈ state.error? step, diagnostic.isError = true
  component_fails : ∀ component, step = .process component →
    ((state.error? step).isSome ↔ (state.session.processComponent component).1 = none)
  module_fails : ∀ input components, step = .assemble input components →
    ((state.error? step).isSome ↔
      input.isSkipped state.session.config state.session.processed = false ∧
        (state.session.assembleModule input components state.files).1 = none)

variable (state : State)

theorem isWarning_of_mem_warnings (step : Step) :
    ∀ diagnostic ∈ state.warnings step, diagnostic.isWarning = true := by
  cases step with
  | process component => exact Assembler.isWarning_of_assemble _ _ component
  | assemble input components =>
    intro diagnostic mem
    rcases List.mem_map.1 mem with ⟨name, _, rfl⟩
    rfl
  | reset | change files => simp [warnings]

theorem isError_of_error? (step : Step) :
    ∀ diagnostic ∈ state.error? step, diagnostic.isError = true := by
  intro diagnostic mem
  cases step with
  | process component | assemble input components =>
    rw [error?] at mem
    split at mem
    · rw [← Option.mem_some_iff.1 mem]
      rfl
    · simp at mem
  | reset | change files => simp [error?] at mem

theorem error?_process_isSome (component : Component) :
    (state.error? (.process component)).isSome ↔
      (state.session.processComponent component).1 = none := by
  rw [error?]
  cases outcome : (Assembler.assemble {} state.session.model state.session.config component).1 with
  | error failure => simp [processComponent_of_error _ outcome]
  | ok resolved => simp [processComponent_of_ok _ outcome]

theorem error?_assemble_isSome (input : ModuleInput) (components : List String) :
    (state.error? (.assemble input components)).isSome ↔
      input.isSkipped state.session.config state.session.processed = false ∧
        (state.session.assembleModule input components state.files).1 = none := by
  have left_out := input.assemble_eq_ok_none_iff state.session.config
    (state.session.fragmentsOf components) state.session.processed state.files
  rw [error?, assembleModule, ← fragmentsOf, ← Bool.not_eq_true, ← left_out]
  rcases input.assemble state.session.config (state.session.fragmentsOf components)
    state.session.processed state.files with ⟨outcome, processed, files⟩
  cases outcome with
  | error error => simp
  | ok assembled => cases assembled <;> simp

/-- What any step reports. -/
theorem reports (step : Step) : state.Reports step where
  appended := by
    cases kept : step.isReset with
    | true =>
      cases step with
      | reset => rfl
      | _ => simp [Step.isReset] at kept
    | false => exact state.diagnostics_after kept
  warned := state.isWarning_of_mem_warnings step
  failed := state.isError_of_error? step
  component_fails := by
    rintro component rfl
    exact state.error?_process_isSome component
  module_fails := by
    rintro input components rfl
    exact state.error?_assemble_isSome input components

/-- A step leaves its own error as the only new one. -/
theorem errors_after (step : Step) :
    (state.after step).session.diagnostics.filter Diagnostic.isError =
      if step.isReset then []
      else state.session.diagnostics.filter Diagnostic.isError ++ (state.error? step).toList := by
  have none_warned : (state.warnings step).filter Diagnostic.isError = [] := by
    refine List.filter_eq_nil_iff.2 fun diagnostic mem => ?_
    simp [Diagnostic.isError_of_isWarning (state.isWarning_of_mem_warnings step diagnostic mem)]
  have all_failed : (state.error? step).toList.filter Diagnostic.isError =
      (state.error? step).toList := by
    refine List.filter_eq_self.2 fun diagnostic mem => ?_
    exact state.isError_of_error? step diagnostic (Option.mem_toList.1 mem)
  rw [(state.reports step).appended]
  split
  · rfl
  · rw [List.filter_append, List.filter_append, none_warned, all_failed, List.append_nil]

/-- The errors of a session are those of the steps since the last reset. -/
theorem errors_run (clean : state.session.diagnostics = []) (steps : List Step) :
    (state.run steps).session.diagnostics.filter Diagnostic.isError = state.failures steps := by
  induction steps using List.reverseRecOn with
  | nil =>
    rw [run, List.foldl_nil, clean]
    rfl
  | append_singleton steps step ih =>
    rw [run_concat, errors_after, ih]
    exact (observed_concat error? state steps step).symm

end State

/-- The failure of a build is made of the errors. -/
theorem failure?_eq (session : Session) :
    session.failure? = (session.diagnostics.filter Diagnostic.isError).head?.map fun first =>
      ⟨(session.diagnostics.filter Diagnostic.isError).length, first⟩ := by
  rw [failure?, List.head?_filter, Diagnostics.errorCount, List.countP_eq_length_filter]

/-- After any run, the errors are those of the steps that failed since the last reset, one for each;
the build fails if there is one, with their number and the first of them. Every step that fails
adds its error after its warnings. -/
theorem run_reports_failures (model : TypeModel) (config : Config) (files : FileTree)
    (steps : List Step) :
    let start := State.fresh model config files
    let session := (start.run steps).session
    session.diagnostics.filter Diagnostic.isError = start.failures steps ∧
      session.diagnostics.errorCount = (start.failures steps).length ∧
      (session.failure? = none ↔ (start.failures steps).length = 0) ∧
      session.failure? = (start.failures steps).head?.map
        (fun first => ⟨(start.failures steps).length, first⟩) ∧
      ∀ step, (start.run steps).Reports step := by
  intro start session
  have errors_eq : session.diagnostics.filter Diagnostic.isError = start.failures steps :=
    start.errors_run rfl steps
  have failure_eq := session.failure?_eq
  rw [errors_eq] at failure_eq
  refine ⟨errors_eq, ?_, ?_, failure_eq, (start.run steps).reports⟩
  · rw [Diagnostics.errorCount, List.countP_eq_length_filter, errors_eq]
  · rw [failure_eq, Option.map_eq_none_iff, List.head?_eq_none_iff, List.length_eq_zero_iff]

end Session

end Componentry
