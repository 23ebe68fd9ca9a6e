import Componentry.Proofs.Closure.SelfContained

/-!
# Failures of assembly

Assembling a module empties its output directory, so it matters what has been
settled by then. All that can be wrong with the sources comes to light while the
module is planned: a declaration file that is missing, a specifier that stands
for no file, however deep in the imports it is, and a file that cannot be read.
Such an error leaves the files as they are, with what an earlier assembly has
written. Once something was written, only writing can fail, and the whole
closure has been read.

`Assembles` lists everything that assembly can do. The modules that count as
assembled change in one of its cases only, when everything has been written.
-/

namespace Componentry

namespace ModuleInput

variable {input : ModuleInput} {config : Config} {fragments : List String} {processed : NameSet}
  {tree made : FileTree} {error : AssemblyError}

inductive Assembles (input : ModuleInput) (config : Config) (fragments : List String)
    (processed : NameSet) (tree : FileTree) :
    Except AssemblyError (Option AssembledModule) × NameSet × FileTree → Prop
  | skipped : input.isSkipped config processed = true →
      Assembles input config fragments processed tree (.ok none, processed, tree)
  | unplanned {error : AssemblyError} : input.isSkipped config processed = false →
      input.plan config fragments tree = .error error →
      Assembles input config fragments processed tree (.error error, processed, tree)
  | unwritten {name text : String} {closure : List Path} {error : AssemblyError} {made : FileTree} :
      input.isSkipped config processed = false →
      input.plan config fragments tree = .ok (name, text, closure) →
      input.writeModule name text closure tree = (.error error, made) →
      Assembles input config fragments processed tree (.error error, processed, made)
  | written {name text : String} {closure : List Path} {bundle : AssembledModule}
      {made : FileTree} : input.isSkipped config processed = false →
      input.plan config fragments tree = .ok (name, text, closure) →
      input.writeModule name text closure tree = (.ok bundle, made) →
      Assembles input config fragments processed tree
        (.ok (some bundle), processed.insert input.name, made)

variable (input config fragments processed tree) in
/-- Assembly ends in one of the ways that are listed. -/
theorem assembles :
    input.Assembles config fragments processed tree
      (input.assemble config fragments processed tree) := by
  rw [assemble]
  split
  · rename_i left_out
    exact .skipped left_out
  · rename_i carried_out
    rw [Bool.not_eq_true] at carried_out
    split
    · rename_i error unplanned
      exact .unplanned carried_out unplanned
    · rename_i name text closure planned
      split
      · rename_i error made unwritten
        exact .unwritten carried_out planned unwritten
      · rename_i bundle made written
        exact .written carried_out planned written

/-! ## Errors of writing -/

def IsFileError (error : AssemblyError) : Prop :=
  ∃ path fileError, error = .file path fileError

theorem isFileError_of_copyFile {file : Path}
    (failed : input.copyFile file tree = (some error, made)) : IsFileError error := by
  delta copyFile at failed
  dsimp only at failed
  split at failed
  · cases failed
    exact ⟨_, _, rfl⟩
  · split at failed
    · cases failed
      exact ⟨_, _, rfl⟩
    · cases failed

theorem isFileError_of_copyFiles {files : List Path}
    (failed : input.copyFiles files tree = (some error, made)) : IsFileError error := by
  induction files generalizing tree with
  | nil => cases failed
  | cons file rest ih =>
    rw [copyFiles_cons] at failed
    split at failed
    · rename_i copy_failed
      cases failed
      exact isFileError_of_copyFile copy_failed
    · exact ih failed

/-- Writing fails with errors of files only. -/
theorem isFileError_of_writeModule {name text : String} {closure : List Path}
    (failed : input.writeModule name text closure tree = (.error error, made)) :
    IsFileError error := by
  rw [writeModule] at failed
  split at failed
  · cases failed
    exact ⟨_, _, rfl⟩
  · dsimp only at failed
    split at failed
    · cases failed
      exact ⟨_, _, rfl⟩
    · split at failed
      · rename_i copy_failed
        cases failed
        exact isFileError_of_copyFiles copy_failed
      · cases failed

/-! ## Errors of the sources -/

/-- The files that are read before anything is written: the declaration file, and those that
discovery comes to. -/
inductive Reads (input : ModuleInput) (tree : FileTree) : Path → Prop
  | primary : Reads input tree input.primary
  | closure {text : String} {done : List Path} {file : Path} :
      tree.readText input.primary = .ok text → tree.Reached input.primary text done →
      tree.next? input.primary text done = some file → Reads input tree file

/-- The errors that say what is wrong with the sources. -/
inductive IsSourceError (input : ModuleInput) (tree : FileTree) : AssemblyError → Prop
  | primaryNotFound {path : Path} : IsSourceError input tree (.primaryNotFound path)
  | missingDependency {importer : Path} {specifier : String} :
      IsSourceError input tree (.missingDependency importer specifier)
  | unreadable {file : Path} {error : FileError} : input.Reads tree file →
      tree.readText file = .error error → IsSourceError input tree (.file file error)

/-- There is no plan if one of the files cannot be read. -/
theorem plan_of_unreadable {file : Path} {fileError : FileError} (reads : input.Reads tree file)
    (unreadable : tree.readText file = .error fileError) :
    ∃ error, input.plan config fragments tree = .error error := by
  cases planned : input.plan config fragments tree with
  | error error => exact ⟨error, rfl⟩
  | ok result =>
    rcases result with ⟨name, merged, closure⟩
    rcases plan_eq_ok planned with ⟨text, readable, _, discovered⟩
    cases reads with
    | primary =>
      rw [readable] at unreadable
      contradiction
    | @closure other done file other_readable reached next =>
      rw [readable] at other_readable
      cases other_readable
      have failed : tree.discover input.primary text = .error (.file file fileError) := by
        apply (FileTree.discover_eq_iff_ends _).2
        exact .unreadable reached next unreadable
      rw [discovered] at failed
      contradiction

theorem isSourceError_of_readPrimary (failed : input.readPrimary tree = .error error) :
    input.IsSourceError tree error := by
  rw [readPrimary] at failed
  split at failed
  · cases failed
    exact .primaryNotFound
  · rename_i unreadable
    cases failed
    exact .unreadable .primary unreadable
  · split at failed
    · contradiction
    · cases failed
      exact .primaryNotFound

/-- Without a plan, something is wrong with the sources. -/
theorem isSourceError_of_plan (unplanned : input.plan config fragments tree = .error error) :
    input.IsSourceError tree error := by
  rw [plan] at unplanned
  split at unplanned
  · rename_i failed
    cases unplanned
    exact isSourceError_of_readPrimary failed
  · rename_i name text read
    have readable := (readPrimary_eq_ok read).1
    split at unplanned
    · rename_i failed
      cases unplanned
      cases (FileTree.discover_eq_iff_ends _).1 failed with
      | reExport missing => exact .missingDependency
      | unreadable reached next unreadable =>
        exact .unreadable (.closure readable reached next) unreadable
      | imported reached next missing => exact .missingDependency
    · contradiction

/-- With a plan, nothing is wrong with the sources. -/
theorem not_isSourceError_of_writeModule {name text : String} {closure : List Path}
    (planned : input.plan config fragments tree = .ok (name, text, closure))
    (unwritten : input.writeModule name text closure tree = (.error error, made)) :
    ¬input.IsSourceError tree error := by
  rcases isFileError_of_writeModule unwritten with ⟨path, fileError, rfl⟩
  intro source
  cases source with
  | unreadable reads unreadable =>
    have no_plan : ∃ error, input.plan config fragments tree = .error error :=
      plan_of_unreadable reads unreadable
    rcases no_plan with ⟨_, unplanned⟩
    rw [planned] at unplanned
    contradiction

/-- A failed assembly leaves the modules that count as assembled as they are, and if the error is
one of the sources also every file. Any other error comes after the whole closure was read. -/
theorem failed_assembly_keeps_files (config : Config) (fragments : List String)
    (processed : NameSet)
    (failed : (input.assemble config fragments processed tree).1 = .error error) :
    (input.assemble config fragments processed tree).2.1 = processed ∧
      (input.IsSourceError tree error →
        (input.assemble config fragments processed tree).2.2 = tree) ∧
      (¬input.IsSourceError tree error →
        ∃ text closure, tree.readText input.primary = .ok text ∧
          tree.IsClosure input.primary text closure) := by
  have assembles := input.assembles config fragments processed tree
  generalize input.assemble config fragments processed tree = result at failed assembles ⊢
  cases assembles with
  | skipped left_out => contradiction
  | unplanned carried_out unplanned =>
    cases failed
    exact ⟨rfl, fun _ => rfl, fun other => absurd (isSourceError_of_plan unplanned) other⟩
  | unwritten carried_out planned unwritten =>
    cases failed
    refine ⟨rfl, ?_, ?_⟩
    · intro source
      exact absurd source (not_isSourceError_of_writeModule planned unwritten)
    · intro _
      rcases plan_eq_ok planned with ⟨text, readable, _, discovered⟩
      exact ⟨text, _, readable, FileTree.discover_eq_ok_iff.1 discovered⟩
  | written carried_out planned written => contradiction

/-! A module that was assembled before, with an import that leads nowhere since. -/

def menu : ModuleInput := ⟨"menu", .ofText "s/m.d.ts", .ofText "out"⟩

def menuTree : FileTree :=
  ⟨[(⟨.above 0, ["s"]⟩, .directory),
    (⟨.above 0, ["s", "m.d.ts"]⟩, .file (.text "export * from './a'")),
    (⟨.above 0, ["s", "a.d.ts"]⟩, .file (.text "import './b'")),
    (⟨.above 0, ["s", "b.d.ts"]⟩, .file (.text "import './gone'")),
    (⟨.above 0, ["out"]⟩, .directory),
    (⟨.above 0, ["out", "m.d.ts"]⟩, .file (.text "old"))]⟩

theorem failed_assembly_keeps_files_menu :
    (menu.assemble {} [] .empty menuTree).1 =
        .error (.missingDependency (.ofText "s/b.d.ts") "./gone") ∧
      (menu.assemble {} [] .empty menuTree).2.1 = .empty ∧
      (menu.assemble {} [] .empty menuTree).2.2.readText (.ofText "out/m.d.ts") = .ok "old" := by
  have failed : (menu.assemble {} [] .empty menuTree).1 =
      .error (.missingDependency (.ofText "s/b.d.ts") "./gone") := by decide +kernel
  rcases failed_assembly_keeps_files {} [] .empty failed with ⟨same_modules, same_files, _⟩
  refine ⟨failed, same_modules, ?_⟩
  rw [same_files .missingDependency]
  decide +kernel

end ModuleInput

end Componentry
