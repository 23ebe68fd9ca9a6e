import Componentry.CommandLine
import Componentry.Proofs.Session.Run

/-!
# Checking and building agree

A check and a build of one input start from configurations that differ in the
shape of the output only. No part of the assembly of a component reads the
shape, so the two process the components alike. What a build does after that
adds diagnostics about modules at the end and takes none away: a build that
succeeds has passed the check.
-/

namespace Componentry

namespace Config

/-- The configuration with another shape of the output, if one is given. -/
def shaped (config : Config) (shape : Option OutputShape) : Config :=
  { config with outputShape := shape.getD config.outputShape }

end Config

namespace Session

/-- The session with another shape of the output, if one is given. -/
def shaped (session : Session) (shape : Option OutputShape) : Session :=
  { session with config := session.config.shaped shape }

/-- What components come to if they are processed in a row: nothing for those that are rejected. -/
def results (session : Session) : List Component → List (Option ComponentMetadata)
  | [] => []
  | component :: rest =>
    let (metadata, after) := session.processComponent component
    metadata :: results after rest

/-! ## The shape of the output does not matter to components -/

variable (session : Session) (shape : Option OutputShape)

theorem processComponent_shaped (component : Component) :
    (session.shaped shape).processComponent component =
      ((session.processComponent component).1,
        (session.processComponent component).2.shaped shape) := by
  have same : Assembler.assemble {} (session.shaped shape).model (session.shaped shape).config
      component = Assembler.assemble {} session.model session.config component :=
    rfl
  cases outcome : (Assembler.assemble {} session.model session.config component).1 with
  | error failure =>
    rw [processComponent_of_error _ outcome,
      processComponent_of_error _ ((congrArg Prod.fst same).trans outcome), same]
    rfl
  | ok resolved =>
    rw [processComponent_of_ok _ outcome,
      processComponent_of_ok _ ((congrArg Prod.fst same).trans outcome), same]
    rfl

theorem results_shaped (components : List Component) :
    (session.shaped shape).results components = session.results components := by
  induction components generalizing session with
  | nil => rfl
  | cons component rest ih =>
    simp only [results, processComponent_shaped]
    rw [ih]

/-! ## Modules only add to the diagnostics -/

/-- What the assembly of a module can report: components without metadata that it lists, and its own
failure. -/
def IsModuleReport (spec : ModuleSpec) (diagnostic : Diagnostic) : Prop :=
  (∃ name ∈ spec.components, diagnostic = missingComponent spec.name name) ∨
    ∃ error, diagnostic = moduleFailure spec.name error

/-- The failure of a module is no error of a component. -/
theorem IsModuleReport.component_eq_none {spec : ModuleSpec} {diagnostic : Diagnostic}
    (reported : IsModuleReport spec diagnostic) (error : diagnostic.isError = true) :
    diagnostic.component = none := by
  rcases reported with ⟨name, _, rfl⟩ | ⟨cause, rfl⟩
  · simp [missingComponent, Diagnostic.isError] at error
  · rfl

theorem assembleModule_diagnostics (input : ModuleInput) (components : List String)
    (files : FileTree) :
    (session.assembleModule input components files).2.1.diagnostics =
      session.diagnostics ++ State.warnings ⟨session, files⟩ (.assemble input components) ++
        (State.error? ⟨session, files⟩ (.assemble input components)).toList := by
  have after_eq := @State.diagnostics_after ⟨session, files⟩ (.assemble input components) rfl
  exact after_eq

theorem exists_assembleModule_diagnostics (spec : ModuleSpec) (out : Path) (files : FileTree) :
    ∃ later,
      (session.assembleModule ⟨spec.name, spec.primary, out⟩ spec.components files).2.1.diagnostics =
        session.diagnostics ++ later ∧
      ∀ diagnostic ∈ later, IsModuleReport spec diagnostic := by
  rw [assembleModule_diagnostics, List.append_assoc]
  refine ⟨_, rfl, ?_⟩
  intro diagnostic mem
  rcases List.mem_append.1 mem with warned | failed
  · rcases List.mem_map.1 warned with ⟨name, listed, rfl⟩
    exact Or.inl ⟨name, (List.mem_filter.1 listed).1, rfl⟩
  · rw [Option.mem_toList, State.error?] at failed
    split at failed
    · exact Or.inr ⟨_, (Option.mem_some_iff.1 failed).symm⟩
    · simp at failed

end Session

namespace CommandLine

open Session

theorem processAll_shaped (session : Session) (shape : Option OutputShape)
    (components : List Component) :
    processAll (session.shaped shape) components =
      ((processAll session components).1, (processAll session components).2.shaped shape) := by
  induction components generalizing session with
  | nil => rfl
  | cons component rest ih =>
    simp only [processAll, processComponent_shaped, ih]
    rfl

theorem exists_assembleAll_diagnostics (out : Path) (session : Session) (files : FileTree)
    (specs : List ModuleSpec) :
    ∃ later, (assembleAll out session files specs).2.1.diagnostics = session.diagnostics ++ later ∧
      ∀ diagnostic ∈ later, ∃ spec ∈ specs, IsModuleReport spec diagnostic := by
  induction specs generalizing session files with
  | nil => exact ⟨[], by simp [assembleAll]⟩
  | cons spec rest ih =>
    rcases session.exists_assembleModule_diagnostics spec (out.join (.ofText spec.name)) files with
      ⟨first, first_eq, about_spec⟩
    simp only [assembleAll]
    rcases assembled : session.assembleModule ⟨spec.name, spec.primary,
      out.join (.ofText spec.name)⟩ spec.components files with ⟨result, after, written⟩
    rw [assembled] at first_eq
    rcases ih after written with ⟨others, others_eq, about_rest⟩
    refine ⟨first ++ others, ?_, ?_⟩
    · rw [others_eq, first_eq, List.append_assoc]
    · intro diagnostic mem
      rcases List.mem_append.1 mem with in_first | in_others
      · exact ⟨spec, List.mem_cons_self, about_spec diagnostic in_first⟩
      · rcases about_rest diagnostic in_others with ⟨other, listed, reported⟩
        exact ⟨other, List.mem_cons_of_mem _ listed, reported⟩

/-! ## Runs of the two commands -/

theorem prepare_eq (options : RunOptions) (shape : Option OutputShape) (files : FileTree) :
    prepare options shape files =
      (prepare options none files).map fun (config, input) => (config.shaped shape, input) := by
  rw [prepare, prepare]
  cases loadConfig options files with
  | error failure => rfl
  | ok config =>
    cases BuildInput.load files options.input with
    | error error => rfl
    | ok input => rfl

/-- How a build ends that came to some lines and diagnostics about its components: it cannot write
its output, or it goes on to modules, with more lines and more diagnostics. -/
inductive Builds (input : BuildInput) (lines : List String) (recorded : Diagnostics) :
    Outcome → Prop where
  | unwritten (opening : String) (failure : RunFailure) (left : FileTree) :
      Builds input lines recorded
        { exitCode := 1, stdout := unlines (opening :: lines), stderr := failure.print,
          files := left }
  | finished (opening : String) (printed : List String) (last : String) (left : FileTree)
      (session : Session) (later : Diagnostics)
      (shown : opening :: lines <+: printed)
      (appended : session.diagnostics = recorded ++ later)
      (about_modules : ∀ diagnostic ∈ later, ∃ spec ∈ input.modules,
        IsModuleReport spec diagnostic)
      (blameless : ∀ diagnostic ∈ later, diagnostic.isError = true → diagnostic.component = none) :
      Builds input lines recorded (finish session printed last left)

theorem finish_exitCode_eq_zero_iff (session : Session) (lines : List String) (last : String)
    (files : FileTree) :
    (finish session lines last files).exitCode = 0 ↔ session.diagnostics.hasErrors = false := by
  rw [finish, failure?, Diagnostics.hasErrors, List.any_eq_false]
  cases found : session.diagnostics.find? Diagnostic.isError with
  | none => simpa using List.find?_eq_none.1 found
  | some first =>
    have error := List.find?_some found
    simpa using ⟨first, List.mem_of_find?_eq_some found, error⟩

theorem Builds.hasErrors_eq_false {input : BuildInput} {lines : List String}
    {recorded : Diagnostics} {outcome : Outcome} (builds : Builds input lines recorded outcome)
    (succeeded : outcome.exitCode = 0) : recorded.hasErrors = false := by
  cases builds with
  | unwritten opening failure left => simp at succeeded
  | finished opening printed last left session later shown appended =>
    rw [finish_exitCode_eq_zero_iff, appended, Diagnostics.hasErrors, List.any_append,
      Bool.or_eq_false_iff] at succeeded
    exact succeeded.1

/-- The session in which a run with an input begins. -/
def start (input : BuildInput) (config : Config) : Session :=
  { model := input.model, config }

variable {options : RunOptions} {files : FileTree} {config : Config} {input : BuildInput}

theorem builds_of_prepared {target : BuildOptions}
    (prepared : prepare options target.shape files = .ok (config, input)) :
    Builds input (processAll (start input config) input.components).1
      (processAll (start input config) input.components).2.diagnostics
      (build options target files) := by
  rw [build, prepared]
  dsimp only
  rw [← start]
  rcases processAll (start input config) input.components with ⟨lines, session⟩
  dsimp only
  rcases session.writeOutputs target.out files with ⟨outcome, left⟩
  cases outcome with
  | error error => exact .unwritten _ _ left
  | ok written =>
    dsimp only
    split
    · exact .finished _ _ _ left session [] (List.prefix_refl _) (List.append_nil _).symm (by simp)
        (by simp)
    · rcases exists_assembleAll_diagnostics
        (target.modulesOut.getD (target.out.join (.ofText "modules"))) session left input.modules
        with ⟨later, appended, about_modules⟩
      refine .finished _ _ _ _ _ later (List.prefix_append _ _) appended about_modules ?_
      intro diagnostic mem
      rcases about_modules diagnostic mem with ⟨spec, _, reported⟩
      exact reported.component_eq_none

/-- A check and a build of one input that come to the same about its components. -/
structure Agree (options : RunOptions) (target : BuildOptions) (files : FileTree) (config : Config)
    (input : BuildInput) : Prop where
  prepared : prepare options target.shape files = .ok (config.shaped target.shape, input)
  results_eq : (start input (config.shaped target.shape)).results input.components =
    (start input config).results input.components
  processed_eq : processAll (start input (config.shaped target.shape)) input.components =
    ((processAll (start input config) input.components).1,
      (processAll (start input config) input.components).2.shaped target.shape)
  checks : ∃ opening, check options files =
    finish (processAll (start input config) input.components).2
      (opening :: (processAll (start input config) input.components).1) "No errors found" files
  builds : Builds input (processAll (start input config) input.components).1
    (processAll (start input config) input.components).2.diagnostics (build options target files)

/-- A check and a build of the same input process the same components alike. -/
theorem agree_of_prepared (target : BuildOptions)
    (prepared : prepare options none files = .ok (config, input)) :
    Agree options target files config input := by
  have prepared_eq : prepare options target.shape files =
      .ok (config.shaped target.shape, input) := by
    rw [prepare_eq, prepared]
    rfl
  have processed_eq : processAll (start input (config.shaped target.shape)) input.components =
      ((processAll (start input config) input.components).1,
        (processAll (start input config) input.components).2.shaped target.shape) :=
    processAll_shaped (start input config) target.shape input.components
  refine ⟨prepared_eq, ?_, processed_eq, ?_, ?_⟩
  · exact results_shaped (start input config) target.shape input.components
  · rw [check, prepared]
    exact ⟨_, rfl⟩
  · have builds := builds_of_prepared prepared_eq
    rw [processed_eq] at builds
    exact builds

theorem Agree.exitCode_eq_zero {target : BuildOptions}
    (agree : Agree options target files config input)
    (succeeded : (build options target files).exitCode = 0) :
    (check options files).exitCode = 0 := by
  rcases agree.checks with ⟨opening, check_eq⟩
  rw [check_eq, finish_exitCode_eq_zero_iff]
  exact agree.builds.hasErrors_eq_false succeeded

/-- A build of an input processes the components as a check does, with the same lines, the same
results and the same diagnostics, and then only adds what there is to report about modules. So it
fails if the check does. -/
theorem build_agrees_with_check (options : RunOptions) (target : BuildOptions) (files : FileTree) :
    (∀ failure, prepare options target.shape files = .error failure ↔
      prepare options none files = .error failure) ∧
    (∀ config input, prepare options none files = .ok (config, input) →
      Agree options target files config input) ∧
    ((check options files).exitCode ≠ 0 → (build options target files).exitCode ≠ 0) ∧
    ((build options target files).exitCode = 0 → (check options files).exitCode = 0) := by
  have succeeds :
      (build options target files).exitCode = 0 → (check options files).exitCode = 0 := by
    intro succeeded
    cases prepared : prepare options none files with
    | error failure =>
      rw [build, prepare_eq, prepared] at succeeded
      simp [Except.map] at succeeded
    | ok loaded => exact (agree_of_prepared target prepared).exitCode_eq_zero succeeded
  refine ⟨?_, ?_, mt succeeds, succeeds⟩
  · intro failure
    rw [prepare_eq]
    cases prepare options none files <;> simp [Except.map]
  · intro config input prepared
    exact agree_of_prepared target prepared

/-! A component that extends an unknown type: the check fails, and so does a build of a library. -/

def menuTree : FileTree :=
  ⟨[(⟨.above 0, ["menu.json"]⟩, .file (.text
    "\x7b\"components\":[\x7b\"name\":\"Menu\",\"tagName\":\"menu\",\"base\":\"Gone\"\x7d]\x7d"))]⟩

def menuOptions : RunOptions := ⟨.ofText "menu.json", none, ["deprecated-type"]⟩

def menuTarget : BuildOptions := ⟨.ofText "out", none, some .library⟩

theorem build_agrees_with_check_menu :
    (check menuOptions menuTree).exitCode ≠ 0 ∧
      (build menuOptions menuTarget menuTree).exitCode ≠ 0 ∧
      ∃ config input, prepare menuOptions none menuTree = .ok (config, input) ∧
        input.components.map Component.name = ["Menu"] ∧
        Agree menuOptions menuTarget menuTree config input := by
  rcases build_agrees_with_check menuOptions menuTarget menuTree with ⟨_, agrees, fails, _⟩
  have failed : (check menuOptions menuTree).exitCode ≠ 0 := by decide +kernel
  have names_eq : (prepare menuOptions none menuTree).toOption.map
      (fun loaded => loaded.2.components.map Component.name) = some ["Menu"] := by
    decide +kernel
  refine ⟨failed, fails failed, ?_⟩
  cases prepared : prepare menuOptions none menuTree with
  | error failure => simp [prepared, Except.toOption] at names_eq
  | ok loaded =>
    rw [prepared] at names_eq
    exact ⟨loaded.1, loaded.2, rfl, Option.some_inj.1 names_eq, agrees _ _ prepared⟩

end CommandLine

end Componentry
