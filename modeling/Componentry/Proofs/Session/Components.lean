import Componentry.Proofs.Session.Run

/-!
# Metadata of sessions

What a session holds for a component does not depend on what happened before
or in between: it is what a new session makes of the last component of that
name that could be used since the last reset. Steps that fail leave it alone,
and components stay in the order in which their names first succeeded.
-/

namespace Componentry

/-- The values of a map stand in the order of the keys. -/
theorem OrderedMap.values_eq_keys_map {α : Type u} (map : OrderedMap α) :
    map.values.map some = map.keys.map map.get? := by
  simp only [values, keys, List.map_map]
  refine List.map_congr_left fun entry mem => ?_
  exact (lookup_eq_some_of_mem map.nodup mem).symm

namespace Session

variable {other : Session} {component : Component}

/-- The metadata of a component are made from the model and the configuration alone. -/
theorem processComponent_fst_congr {session : Session} (model_eq : session.model = other.model)
    (config_eq : session.config = other.config) (component : Component) :
    (session.processComponent component).1 = (other.processComponent component).1 := by
  cases outcome : (Assembler.assemble {} session.model session.config component).1 with
  | error failure =>
    rw [processComponent_of_error _ outcome]
    rw [model_eq, config_eq] at outcome
    rw [processComponent_of_error _ outcome]
  | ok resolved =>
    rw [processComponent_of_ok _ outcome, config_eq]
    rw [model_eq, config_eq] at outcome
    rw [processComponent_of_ok _ outcome]

theorem components_of_processComponent_eq_some (session : Session) {metadata : ComponentMetadata}
    (made : (session.processComponent component).1 = some metadata) :
    (session.processComponent component).2.components =
      session.components.insert component.name metadata := by
  cases outcome : (Assembler.assemble {} session.model session.config component).1 with
  | error failure => simp [processComponent_of_error _ outcome] at made
  | ok resolved =>
    rw [processComponent_of_ok _ outcome, Option.some.injEq] at made
    rw [processComponent_of_ok _ outcome, made]

/-- A component that cannot be used leaves the metadata and the modules as they are. -/
theorem unchanged_of_processComponent_eq_none (session : Session)
    (failed : (session.processComponent component).1 = none) :
    (session.processComponent component).2.components = session.components ∧
      (session.processComponent component).2.processed = session.processed := by
  cases outcome : (Assembler.assemble {} session.model session.config component).1 with
  | error failure =>
    rw [processComponent_of_error _ outcome]
    exact ⟨rfl, rfl⟩
  | ok resolved => simp [processComponent_of_ok _ outcome] at failed

namespace State

variable (state : State)

/-- The component that a step makes metadata of. -/
def success? : Step → Option Component
  | .process component =>
    if (state.session.processComponent component).1.isSome then some component else none
  | .assemble _ _ => none
  | .reset => none
  | .change _ => none

/-- The components that could be used since the last reset. -/
def successes (steps : List Step) : List Component :=
  state.observed success? steps

theorem exists_of_success? {step : Step} (succeeded : state.success? step = some component) :
    ∃ metadata, step = .process component ∧
      (state.session.processComponent component).1 = some metadata := by
  cases step with
  | process other =>
    rw [success?] at succeeded
    split at succeeded
    · rename_i made
      rcases Option.isSome_iff_exists.1 made with ⟨metadata, made⟩
      cases succeeded
      exact ⟨metadata, rfl, made⟩
    · simp at succeeded
  | assemble input components | reset | change files => simp [success?] at succeeded

/-- Only a component that can be used changes the metadata, resets apart. -/
theorem components_after_of_success?_eq_none {step : Step} (kept : step.isReset = false)
    (unused : state.success? step = none) :
    (state.after step).session.components = state.session.components := by
  cases step with
  | process component =>
    have failed : (state.session.processComponent component).1 = none := by
      simpa [success?] using unused
    exact (state.session.unchanged_of_processComponent_eq_none failed).1
  | assemble input components =>
    rw [session_after_assemble]
  | reset => simp [Step.isReset] at kept
  | change files => rfl

end State

/-- A session holds, for each name, what is made of the last component of the name, in the order
of the first components of the names. -/
structure Holds (make : Component → Option ComponentMetadata) (components : List Component)
    (session : Session) : Prop where
  last : ∀ name, session.component? name =
    (components.filter fun component => component.name == name).getLast?.bind make
  ordered : session.components.keys = (components.map Component.name).eraseDups
  made : ∀ component ∈ components, (make component).isSome

namespace Holds

variable {make : Component → Option ComponentMetadata} {components : List Component}
  {session : Session}

theorem congr (holds : Holds make components session)
    (same : other.components = session.components) : Holds make components other := by
  refine ⟨fun name => ?_, ?_, holds.made⟩
  · rw [component?, same]
    exact holds.last name
  · rw [same]
    exact holds.ordered

theorem insert {metadata : ComponentMetadata} (holds : Holds make components session)
    (made : make component = some metadata)
    (inserted : other.components = session.components.insert component.name metadata) :
    Holds make (components ++ [component]) other := by
  refine ⟨fun name => ?_, ?_, fun later mem => ?_⟩
  · rw [component?, inserted, OrderedMap.get?_insert, List.filter_append]
    by_cases same : name = component.name
    · simp [same, made]
    · have different : ¬component.name = name := fun equal => same equal.symm
      rw [if_neg same, List.filter_singleton]
      simp only [beq_iff_eq, different, Bool.cond_eq_ite, if_false, List.append_nil]
      exact holds.last name
  · rw [inserted, List.map_append]
    exact upsert_keys_eraseDups holds.ordered component.name metadata
  · rcases List.mem_append.1 mem with earlier | here
    · exact holds.made later earlier
    · rw [List.mem_singleton.1 here, made]
      rfl

theorem isSome_iff (holds : Holds make components session) (name : String) :
    (session.component? name).isSome ↔ ∃ component ∈ components, component.name = name := by
  rw [holds.last name]
  cases found : (components.filter fun component => component.name == name).getLast? with
  | none =>
    rw [List.getLast?_eq_none_iff, List.filter_eq_nil_iff] at found
    simpa using found
  | some component =>
    have mem := List.mem_filter.1 (List.mem_of_getLast? found)
    rw [beq_iff_eq] at mem
    exact iff_of_true (holds.made component mem.1) ⟨component, mem⟩

end Holds

/-- After any steps, a session holds what was processed with success, by name. -/
theorem State.holds_run (state : State) (empty : state.session.components = .empty)
    (steps : List Step) :
    Holds (fun component => (state.session.processComponent component).1)
      (state.successes steps) (state.run steps).session := by
  induction steps using List.reverseRecOn with
  | nil =>
    refine ⟨fun name => ?_, ?_, by simp [successes, observed, recent, trace]⟩
    · rw [run, List.foldl_nil, component?, empty]
      rfl
    · rw [run, List.foldl_nil, empty]
      rfl
  | append_singleton steps step ih =>
    rw [run_concat, successes, observed_concat, ← successes]
    cases kept : step.isReset with
    | true =>
      cases step with
      | reset => exact ⟨fun _ => rfl, rfl, by simp⟩
      | _ => simp [Step.isReset] at kept
    | false =>
      rw [if_neg Bool.false_ne_true]
      cases succeeded : (state.run steps).success? step with
      | none =>
        rw [Option.toList_none, List.append_nil]
        exact ih.congr ((state.run steps).components_after_of_success?_eq_none kept succeeded)
      | some component =>
        rcases (state.run steps).exists_of_success? succeeded with ⟨metadata, rfl, made⟩
        rcases state.model_config_run steps with ⟨model_eq, config_eq⟩
        refine ih.insert ?_ (components_of_processComponent_eq_some _ made)
        rw [← made]
        exact (processComponent_fst_congr model_eq config_eq component).symm

/-- After any run, what the session holds for a name is what a new session makes of the last
component of the name that could be used since the last reset, and there is such a component if the
session holds anything. Names stand in the order of their first success. A component that cannot be
used changes neither the metadata nor the modules that were assembled. -/
theorem components_history_independent (model : TypeModel) (config : Config) (files : FileTree)
    (steps : List Step) :
    let start := State.fresh model config files
    let session := (start.run steps).session
    let named := fun name =>
      (start.successes steps).filter fun component => component.name == name
    (∀ name, session.component? name =
        (named name).getLast?.bind fun component => (start.session.processComponent component).1) ∧
      (∀ name, (session.component? name).isSome ↔
        ∃ component ∈ start.successes steps, component.name = name) ∧
      session.components.keys = ((start.successes steps).map Component.name).eraseDups ∧
      session.components.values.map some = session.components.keys.map session.component? ∧
      ∀ component, (session.processComponent component).1 = none →
        (session.processComponent component).2.components = session.components ∧
          (session.processComponent component).2.processed = session.processed := by
  intro start session named
  have holds := start.holds_run rfl steps
  exact ⟨holds.last, holds.isSome_iff, holds.ordered, session.components.values_eq_keys_map,
    fun component => session.unchanged_of_processComponent_eq_none⟩

end Session

end Componentry
