import Componentry.Proofs.Session.Failures
import Componentry.Proofs.Closure.Failures

/-!
# Modules of a session

A library build assembles each module once. What counts as assembled is what was
assembled since the last reset, so a module that failed may be tried again, and
one that was assembled or is excluded is left out without an error. In the other
shape of a build nothing is left out.

The names that a session keeps are compared with the names of the modules that
its steps gave back (`State.assembledNames`). One step adds a name if and only if
it gives back a module, whatever else goes wrong in it.
-/

namespace Componentry

namespace NameSet

theorem ofList_append (names others : List String) :
    ofList (names ++ others) = others.foldl insert (ofList names) :=
  List.foldl_append

theorem contains_ofList {names : List String} {name : String} :
    (ofList names).contains name = true ↔ name ∈ names := by
  rw [contains, List.contains_iff_mem]
  induction names using List.reverseRecOn with
  | nil => simp [ofList, empty]
  | append_singleton names last ih =>
    rw [ofList_append, List.foldl_cons, List.foldl_nil, insert, mem_insertName, ih,
      List.mem_append, List.mem_singleton, or_comm]

end NameSet

namespace ModuleInput

variable {input : ModuleInput} {config : Config} {processed other : NameSet}

/-- Which modules were assembled matters for being left out, and for nothing else. -/
theorem outcome_assemble_congr (fragments : List String) (files : FileTree)
    (same : input.isSkipped config processed = input.isSkipped config other) :
    (input.assemble config fragments processed files).1 =
      (input.assemble config fragments other files).1 := by
  rw [assemble, assemble, same]
  split
  · rfl
  · split
    · rfl
    · split <;> rfl

theorem isSkipped_empty (carried_out : input.isSkipped config processed = false) :
    input.isSkipped config .empty = false := by
  rw [isSkipped, Bool.and_eq_false_iff] at carried_out ⊢
  rcases carried_out with other_shape | carried_out
  · exact .inl other_shape
  · right
    rw [Bool.or_eq_false_iff] at carried_out ⊢
    exact ⟨carried_out.1, rfl⟩

end ModuleInput

namespace Session

/-- The module that a call gives back is the one that was assembled. -/
theorem result_assembleModule (session : Session) (input : ModuleInput) (components : List String)
    (files : FileTree) :
    (session.assembleModule input components files).1 =
      (input.assemble session.config (session.fragmentsOf components) session.processed
        files).1.toOption.join := by
  rw [assembleModule, ← fragmentsOf]
  rcases input.assemble session.config (session.fragmentsOf components) session.processed files with
    ⟨outcome, processed, after⟩
  cases outcome with
  | ok assembled => rfl
  | error error => rfl

/-- A library build leaves out the modules that are excluded or have been assembled. -/
def LeftOut (config : Config) (names : List String) (name : String) : Prop :=
  config.outputShape = .library ∧ (config.excludedModules.contains name = true ∨ name ∈ names)

variable {input : ModuleInput}

theorem isSkipped_iff_leftOut {config : Config} {names : List String} :
    input.isSkipped config (.ofList names) = true ↔ LeftOut config names input.name := by
  rw [ModuleInput.isSkipped, LeftOut, Bool.and_eq_true, beq_iff_eq, Bool.or_eq_true,
    NameSet.contains_ofList]

namespace State

/-- The name of the module that a step gives back. -/
def assembledName? (state : State) : Step → Option String
  | .assemble input components =>
    (state.session.assembleModule input components state.files).1.map fun _ => input.name
  | _ => none

/-- The names of the modules that were given back since the last reset. -/
def assembledNames (state : State) (steps : List Step) : List String :=
  state.observed assembledName? steps

/-- What a call does that is left out: nothing but to warn. -/
structure LeavesOut (state : State) (input : ModuleInput) (components : List String) : Prop where
  result : (state.session.assembleModule input components state.files).1 = none
  files : (state.after (.assemble input components)).files = state.files
  processed : (state.after (.assemble input components)).session.processed =
    state.session.processed
  errors : (state.after (.assemble input components)).session.diagnostics.filter
      Diagnostic.isError = state.session.diagnostics.filter Diagnostic.isError

/-- What a call does that is not left out. It gives back what is assembled when no module has been
assembled before. If that fails, the call adds an error and later calls do not notice it. -/
structure CarriesOut (state : State) (input : ModuleInput) (components : List String) : Prop where
  result : ∀ bundle,
    (state.session.assembleModule input components state.files).1 = some bundle ↔
      (input.assemble state.session.config (state.session.fragmentsOf components) .empty
        state.files).1 = .ok (some bundle)
  failed : (state.session.assembleModule input components state.files).1 = none →
    ∃ error,
      (input.assemble state.session.config (state.session.fragmentsOf components) .empty
        state.files).1 = .error error ∧
      (state.after (.assemble input components)).session.diagnostics.filter Diagnostic.isError =
        state.session.diagnostics.filter Diagnostic.isError ++ [moduleFailure input.name error]
  retried : (state.session.assembleModule input components state.files).1 = none →
    ∀ later names files,
      ((state.after (.assemble input components)).session.assembleModule later names files).1 =
        (state.session.assembleModule later names files).1

variable {state : State}

/-! ## One step -/

/-- A step adds the name of the module that it gives back. -/
theorem processed_after (state : State) (step : Step) :
    (state.after step).session.processed =
      if step.isReset then .empty
      else (state.assembledName? step).toList.foldl NameSet.insert state.session.processed := by
  cases step with
  | process component =>
    rcases state.session.processComponent_frame component with ⟨_, _, processed_eq⟩
    exact processed_eq
  | assemble input components =>
    rw [session_after_assemble, assembledName?, result_assembleModule]
    have assembles := input.assembles state.session.config
      (state.session.fragmentsOf components) state.session.processed state.files
    generalize input.assemble state.session.config (state.session.fragmentsOf components)
      state.session.processed state.files = result at assembles ⊢
    cases assembles with
    | skipped => rfl
    | unplanned => rfl
    | unwritten => rfl
    | written => rfl
  | reset => rfl
  | change files => rfl

/-- What a step does that leaves a module out. -/
theorem leavesOut (components : List String)
    (skipped : input.isSkipped state.session.config state.session.processed = true) :
    state.LeavesOut input components := by
  have assemble_eq : input.assemble state.session.config (state.session.fragmentsOf components)
      state.session.processed state.files =
        (.ok none, state.session.processed, state.files) := by
    rw [ModuleInput.assemble, if_pos skipped]
  refine ⟨?_, ?_, ?_, ?_⟩
  · rw [result_assembleModule, assemble_eq]
    rfl
  · change (state.session.assembleModule input components state.files).2.2 = state.files
    rw [assembleModule, ← fragmentsOf, assemble_eq]
  · rw [session_after_assemble, assemble_eq]
  · rw [errors_after, error?, assemble_eq]
    exact List.append_nil _

/-- A call that gives back nothing without being left out has failed. -/
theorem exists_error_of_result_eq_none {components : List String}
    (carried_out : input.isSkipped state.session.config state.session.processed = false)
    (nothing : (state.session.assembleModule input components state.files).1 = none) :
    ∃ error, (input.assemble state.session.config (state.session.fragmentsOf components)
      state.session.processed state.files).1 = .error error := by
  have reported := (state.error?_assemble_isSome input components).2 ⟨carried_out, nothing⟩
  rw [error?] at reported
  split at reported
  · rename_i error failed
    exact ⟨error, failed⟩
  · contradiction

/-- What a step does that assembles a module. -/
theorem carriesOut (components : List String)
    (carried_out : input.isSkipped state.session.config state.session.processed = false) :
    state.CarriesOut input components := by
  have same := ModuleInput.outcome_assemble_congr (state.session.fragmentsOf components) state.files
    ((ModuleInput.isSkipped_empty carried_out).trans carried_out.symm)
  refine ⟨?_, ?_, ?_⟩
  · intro bundle
    rw [result_assembleModule, same]
    cases (input.assemble state.session.config (state.session.fragmentsOf components)
        state.session.processed state.files).1 with
    | error error => simp [Except.toOption]
    | ok assembled => simp [Except.toOption]
  · intro nothing
    rcases exists_error_of_result_eq_none carried_out nothing with ⟨error, failed⟩
    refine ⟨error, same.trans failed, ?_⟩
    rw [errors_after, error?, failed]
    rfl
  · intro nothing later names files
    have kept : (state.after (.assemble input components)).session.processed =
        state.session.processed := by
      rw [processed_after, assembledName?, nothing]
      rfl
    rw [session_after_assemble] at kept ⊢
    rw [result_assembleModule, result_assembleModule, kept]
    rfl

/-- A step that gives back a module was not left out. -/
theorem exists_of_assembledName? {step : Step} {name : String}
    (assembled : state.assembledName? step = some name) :
    ∃ input : ModuleInput, input.name = name ∧
      input.isSkipped state.session.config state.session.processed = false := by
  cases step with
  | assemble input components =>
    rw [assembledName?, Option.map_eq_some_iff] at assembled
    rcases assembled with ⟨bundle, result, rfl⟩
    refine ⟨input, rfl, ?_⟩
    cases skipped : input.isSkipped state.session.config state.session.processed with
    | false => rfl
    | true =>
      rw [(leavesOut components skipped).result] at result
      contradiction
  | process component | reset | change files => contradiction

/-! ## A whole run -/

theorem assembledNames_concat (state : State) (steps : List Step) (step : Step) :
    state.assembledNames (steps ++ [step]) =
      if step.isReset then []
      else state.assembledNames steps ++ ((state.run steps).assembledName? step).toList :=
  observed_concat assembledName? state steps step

theorem processed_run (clean : state.session.processed = .empty) (steps : List Step) :
    (state.run steps).session.processed = .ofList (state.assembledNames steps) := by
  induction steps using List.reverseRecOn with
  | nil => exact clean
  | append_singleton steps step ih =>
    rw [run_concat, processed_after, ih, assembledNames_concat]
    split
    · rfl
    · exact (NameSet.ofList_append _ _).symm

theorem isSkipped_run (state : State) (clean : state.session.processed = .empty) (steps : List Step)
    (input : ModuleInput) :
    input.isSkipped (state.run steps).session.config (state.run steps).session.processed = true ↔
      LeftOut state.session.config (state.assembledNames steps) input.name := by
  rw [(state.model_config_run steps).2, processed_run clean, isSkipped_iff_leftOut]

/-- A library assembles no module twice, and none that is excluded. -/
theorem library_run (clean : state.session.processed = .empty)
    (library : state.session.config.outputShape = .library) (steps : List Step) :
    (state.assembledNames steps).Nodup ∧
      ∀ name ∈ state.assembledNames steps,
        state.session.config.excludedModules.contains name = false := by
  induction steps using List.reverseRecOn with
  | nil => exact ⟨List.nodup_nil, fun _ mem => absurd mem List.not_mem_nil⟩
  | append_singleton steps step ih =>
    rw [assembledNames_concat]
    split
    · exact ⟨List.nodup_nil, fun _ mem => absurd mem List.not_mem_nil⟩
    · cases assembled : (state.run steps).assembledName? step with
      | none => simpa using ih
      | some name =>
        rcases exists_of_assembledName? assembled with ⟨input, rfl, carried_out⟩
        have not_left_out : ¬LeftOut state.session.config (state.assembledNames steps)
            input.name := by
          rw [← state.isSkipped_run clean, carried_out]
          exact Bool.false_ne_true
        have included : state.session.config.excludedModules.contains input.name = false := by
          rw [← Bool.not_eq_true]
          exact fun excluded => not_left_out ⟨library, .inl excluded⟩
        have new : input.name ∉ state.assembledNames steps :=
          fun mem => not_left_out ⟨library, .inr mem⟩
        rw [Option.toList_some]
        refine ⟨?_, ?_⟩
        · apply List.Nodup.append ih.1 (List.nodup_singleton _)
          exact List.disjoint_singleton.2 new
        · intro other mem
          rcases List.mem_append.1 mem with earlier | last
          · exact ih.2 other earlier
          · rw [List.mem_singleton.1 last]
            exact included

end State

/-- After any run, the modules that count as assembled are those that were given back since the last
reset. A library build gives back no module twice and none that is excluded, and leaves out exactly
these two kinds, without an error and without touching a file. Every other call is carried out. -/
theorem modules_assembled_once (model : TypeModel) (config : Config) (files : FileTree)
    (steps : List Step) :
    let start := State.fresh model config files
    let state := start.run steps
    let names := start.assembledNames steps
    state.session.processed = .ofList names ∧
      (config.outputShape = .library →
        names.Nodup ∧ ∀ name ∈ names, config.excludedModules.contains name = false) ∧
      (∀ input components, LeftOut config names input.name → state.LeavesOut input components) ∧
      (∀ input components, ¬LeftOut config names input.name →
        state.CarriesOut input components) := by
  intro start state names
  have skipped_iff := start.isSkipped_run rfl steps
  refine ⟨State.processed_run rfl steps, fun library => State.library_run rfl library steps, ?_, ?_⟩
  · intro input components left_out
    exact State.leavesOut components ((skipped_iff input).2 left_out)
  · intro input components not_left_out
    apply State.carriesOut components
    rw [← Bool.not_eq_true]
    exact fun skipped => not_left_out ((skipped_iff input).1 skipped)

/-! A module that is asked for three times: without its declaration file, with it, and once more. -/

def tabs : ModuleInput := ⟨"tabs", .ofText "s/t.d.ts", .ofText "out"⟩

def tabsStart : State :=
  .fresh .empty { outputShape := .library } ⟨[(⟨.above 0, ["s"]⟩, .directory)]⟩

def tabsSteps : List Step :=
  [.assemble tabs [],
    .change ⟨[(⟨.above 0, ["s"]⟩, .directory),
      (⟨.above 0, ["s", "t.d.ts"]⟩, .file (.text "export type Tabs = string[]"))]⟩,
    .assemble tabs []]

theorem modules_assembled_once_tabs :
    tabsStart.assembledName? (.assemble tabs []) = none ∧
      tabsStart.CarriesOut tabs [] ∧
      tabsStart.assembledNames tabsSteps = ["tabs"] ∧
      (tabsStart.run tabsSteps).LeavesOut tabs [] := by
  have names_eq : tabsStart.assembledNames tabsSteps = ["tabs"] := by decide +kernel
  rcases modules_assembled_once .empty { outputShape := .library } tabsStart.files [] with
    ⟨_, _, _, first_carried_out⟩
  rcases modules_assembled_once .empty { outputShape := .library } tabsStart.files tabsSteps with
    ⟨_, _, third_left_out, _⟩
  refine ⟨by decide +kernel, ?_, names_eq, ?_⟩
  · apply first_carried_out
    rintro ⟨_, excluded | assembled⟩
    · contradiction
    · contradiction
  · apply third_left_out
    refine ⟨rfl, .inr ?_⟩
    change "tabs" ∈ tabsStart.assembledNames tabsSteps
    rw [names_eq]
    exact List.mem_singleton.2 rfl

end Session

end Componentry
