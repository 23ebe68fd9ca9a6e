import Mathlib.Data.List.DropRight
import Componentry.Session

/-!
# Runs of sessions

A run takes steps one after the other: a component is processed, a module is
assembled, or everything is forgotten. Modules are read from and written to
files, which other programs may change between two steps. What a session holds
is compared with what happened since the last reset (`State.recent`), where
each step is remembered with the state that it was taken in.
-/

namespace Componentry

namespace Session

/-- One step of a run. -/
inductive Step where
  | process (component : Component)
  | assemble (input : ModuleInput) (components : List String)
  | reset
  /-- Other programs change the files. -/
  | change (files : FileTree)

/-- Whether a step starts the session anew. -/
def Step.isReset : Step → Bool
  | .reset => true
  | _ => false

/-- A session and the files that it finds. -/
structure State where
  session : Session
  files : FileTree

/-- The fragments of the components of a list that have metadata. -/
def fragmentsOf (session : Session) (components : List String) : List String :=
  components.filterMap fun name => (session.component? name).map ComponentMetadata.fragment

namespace State

/-- The state in which a run begins. -/
def fresh (model : TypeModel) (config : Config) (files : FileTree) : State :=
  ⟨{ model, config }, files⟩

/-- The state after a step. -/
def after (state : State) : Step → State
  | .process component => { state with session := (state.session.processComponent component).2 }
  | .assemble input components =>
    let (_, session, files) := state.session.assembleModule input components state.files
    ⟨session, files⟩
  | .reset => { state with session := state.session.reset }
  | .change files => { state with files }

/-- The state after the steps of a run. -/
def run (state : State) (steps : List Step) : State :=
  steps.foldl after state

/-- The steps of a run, each with the state that it is taken in. -/
def trace (state : State) : List Step → List (State × Step)
  | [] => []
  | step :: rest => (state, step) :: trace (state.after step) rest

/-- The steps since the last reset. -/
def recent (state : State) (steps : List Step) : List (State × Step) :=
  (state.trace steps).rtakeWhile fun entry => !entry.2.isReset

theorem run_concat (state : State) (steps : List Step) (step : Step) :
    state.run (steps ++ [step]) = (state.run steps).after step := by
  simp [run]

theorem trace_concat (state : State) (steps : List Step) (step : Step) :
    state.trace (steps ++ [step]) = state.trace steps ++ [(state.run steps, step)] := by
  induction steps generalizing state with
  | nil => rfl
  | cons first rest ih =>
    rw [List.cons_append, trace, ih, trace, List.cons_append]
    rfl

theorem recent_concat (state : State) (steps : List Step) (step : Step) :
    state.recent (steps ++ [step]) =
      if step.isReset then [] else state.recent steps ++ [(state.run steps, step)] := by
  rw [recent, trace_concat, List.rtakeWhile_concat]
  cases step.isReset with
  | true => simp
  | false => simp [recent]

/-- What is observed of the steps since the last reset, in order. -/
def observed {α : Type} (observe : State → Step → Option α) (state : State)
    (steps : List Step) : List α :=
  (state.recent steps).filterMap fun (before, step) => observe before step

theorem observed_concat {α : Type} (observe : State → Step → Option α) (state : State)
    (steps : List Step) (step : Step) :
    state.observed observe (steps ++ [step]) =
      if step.isReset then []
      else state.observed observe steps ++ (observe (state.run steps) step).toList := by
  rw [observed, recent_concat]
  split
  · rfl
  · rw [List.filterMap_append, observed]
    cases shown : observe (state.run steps) step <;> simp [shown]

end State

/-! ## What a step does to a session -/

/-- The error that a step reports: a component that cannot be used, or a module that cannot be
assembled. A module that is left out is no error. -/
def State.error? (state : State) : Step → Option Diagnostic
  | .process component =>
    match (Assembler.assemble {} state.session.model state.session.config component).1 with
    | .error failure => some (.ofFailure failure)
    | .ok _ => none
  | .assemble input components =>
    match (input.assemble state.session.config (state.session.fragmentsOf components)
      state.session.processed state.files).1 with
    | .error error => some (moduleFailure input.name error)
    | .ok _ => none
  | .reset => none
  | .change _ => none

/-- The warnings of a step. -/
def State.warnings (state : State) : Step → Diagnostics
  | .process component =>
    (Assembler.assemble {} state.session.model state.session.config component).2.diagnostics
  | .assemble input components =>
    (components.filter fun name => (state.session.component? name).isNone).map
      (missingComponent input.name)
  | .reset => []
  | .change _ => []

theorem processComponent_of_error (session : Session) {component : Component}
    {failure : ComponentError}
    (failed : (Assembler.assemble {} session.model session.config component).1 = .error failure) :
    session.processComponent component = (none,
      { session with diagnostics := session.diagnostics ++
          (Assembler.assemble {} session.model session.config component).2.diagnostics ++
          [.ofFailure failure] }) := by
  simp only [processComponent, failed]

theorem processComponent_of_ok (session : Session) {component : Component}
    {resolved : ResolvedComponent}
    (accepted : (Assembler.assemble {} session.model session.config component).1 = .ok resolved) :
    session.processComponent component =
      (some (.ofComponent session.config resolved),
        { session with
          components := session.components.insert component.name
            (.ofComponent session.config resolved)
          diagnostics := session.diagnostics ++
            (Assembler.assemble {} session.model session.config component).2.diagnostics }) := by
  simp only [processComponent, accepted]

/-- Components leave the model, the configuration and the assembled modules alone. -/
theorem processComponent_frame (session : Session) (component : Component) :
    (session.processComponent component).2.model = session.model ∧
      (session.processComponent component).2.config = session.config ∧
      (session.processComponent component).2.processed = session.processed := by
  cases outcome : (Assembler.assemble {} session.model session.config component).1 with
  | error failure =>
    rw [processComponent_of_error _ outcome]
    exact ⟨rfl, rfl, rfl⟩
  | ok resolved =>
    rw [processComponent_of_ok _ outcome]
    exact ⟨rfl, rfl, rfl⟩

theorem State.session_after_assemble (state : State) (input : ModuleInput)
    (components : List String) :
    (state.after (.assemble input components)).session =
      { state.session with
        diagnostics := state.session.diagnostics ++ state.warnings (.assemble input components) ++
          (state.error? (.assemble input components)).toList
        processed := (input.assemble state.session.config (state.session.fragmentsOf components)
          state.session.processed state.files).2.1 } := by
  simp only [State.after, assembleModule, State.error?, State.warnings]
  rw [← fragmentsOf]
  rcases input.assemble state.session.config (state.session.fragmentsOf components)
    state.session.processed state.files with ⟨outcome, processed, files⟩
  cases outcome with
  | ok assembled => simp
  | error error => simp

namespace State

variable (state : State)

theorem diagnostics_after {step : Step} (kept : step.isReset = false) :
    (state.after step).session.diagnostics =
      state.session.diagnostics ++ state.warnings step ++ (state.error? step).toList := by
  cases step with
  | process component =>
    simp only [after, error?, warnings]
    cases outcome :
      (Assembler.assemble {} state.session.model state.session.config component).1 with
    | error failure => rw [processComponent_of_error _ outcome, Option.toList_some]
    | ok resolved => rw [processComponent_of_ok _ outcome, Option.toList_none, List.append_nil]
  | assemble input components =>
    rw [session_after_assemble]
  | reset => simp [Step.isReset] at kept
  | change files => simp [after, error?, warnings]

/-- Steps keep the model and the configuration. -/
theorem model_config_after (step : Step) :
    (state.after step).session.model = state.session.model ∧
      (state.after step).session.config = state.session.config := by
  cases step with
  | process component =>
    rcases state.session.processComponent_frame component with ⟨model_eq, config_eq, _⟩
    exact ⟨model_eq, config_eq⟩
  | assemble input components =>
    rw [session_after_assemble]
    exact ⟨rfl, rfl⟩
  | reset | change files => exact ⟨rfl, rfl⟩

theorem model_config_run (steps : List Step) :
    (state.run steps).session.model = state.session.model ∧
      (state.run steps).session.config = state.session.config := by
  induction steps using List.reverseRecOn with
  | nil => exact ⟨rfl, rfl⟩
  | append_singleton steps step ih =>
    rcases (state.run steps).model_config_after step with ⟨model_eq, config_eq⟩
    rw [run_concat, model_eq, config_eq]
    exact ih

end State

end Session

end Componentry
