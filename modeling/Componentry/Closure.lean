import Componentry.Config
import Componentry.FileTree
import Componentry.Statement
import Componentry.Unseen

/-!
# Closures of declaration files

A module's declaration file exports names of other files, which import further files. The closure of
the file is all that is reached this way by relative specifiers: first what the file re-exports,
then what each file of the closure imports, in order. Files are told apart by their names, and the
first one of a name counts. Each step of the discovery takes a file off the list of files to read or
adds names of the tree that were not seen before, so the discovery ends.
-/

namespace Componentry

/-- Why a module has no assembled declarations. -/
inductive AssemblyError where
  | missingDependency (importer : Path) (specifier : String)
  | primaryNotFound (primary : Path)
  | file (path : Path) (error : FileError)
deriving DecidableEq, Repr

def AssemblyError.message : AssemblyError → String
  | .missingDependency importer specifier =>
    importer.text ++ ": referenced declaration `" ++ specifier ++ "` not found"
  | .primaryNotFound primary => "primary declaration file not found: " ++ primary.text
  | .file path error => "IO error on " ++ path.text ++ ": " ++ error.message

namespace FileTree

/-- The end of the names of declaration files. -/
def declarationSuffix : String := ".d.ts"

/-- The text before a suffix. -/
def stem? (text suffix : String) : Option String :=
  if suffix.toList.isSuffixOf text.toList then
    some (String.ofList (text.toList.take (text.toList.length - suffix.toList.length)))
  else none

/-- The paths that a specifier may stand for, in the order in which they are tried: with the suffix
of declaration files, with that suffix in place of `.js`, as it is if it has the suffix, and as a
directory. -/
def candidates (target : Path) : List Path :=
  let last := target.pieces.getLast?.getD ""
  [target.mapLast (· ++ declarationSuffix)] ++
    (match stem? last ".js" with
      | some stem => [target.mapLast fun _ => stem ++ declarationSuffix]
      | none => []) ++
    (if (stem? last declarationSuffix).isSome then [target.mapLast id] else []) ++
    [target.join ⟨false, ["index" ++ declarationSuffix]⟩]

/-- The file that a specifier of a file stands for. -/
@[irreducible]
def resolveSpecifier (tree : FileTree) (importer : Path) (specifier : String) : Option Path :=
  ((candidates (importer.directory.join (.ofText specifier))).find? tree.isFile).map Path.normalize

/-- The file that a specifier has to stand for. -/
def requireSpecifier (tree : FileTree) (importer : Path) (specifier : String) :
    Except AssemblyError Path :=
  match tree.resolveSpecifier importer specifier with
  | some path => .ok path
  | none => .error (.missingDependency importer specifier)

/-! ## Candidates end in names -/

theorem isName_of_suffix {piece front : String} (suffix : piece = front ++ declarationSuffix) :
    Path.IsName piece := by
  have length_le : 5 ≤ piece.length := by
    rw [suffix, String.length_append]
    exact Nat.le_add_left 5 _
  have ne_of_length {other : String} (short : other.length < 5) : piece ≠ other := by
    rintro rfl
    omega
  have not_ignored : ¬(piece = "" ∨ piece = ".") := by
    rintro (equal | equal)
    · exact ne_of_length (by decide) equal
    · exact ne_of_length (by decide) equal
  rw [Path.IsName, Path.part?, if_neg not_ignored, if_neg (ne_of_length (by decide))]

theorem eq_append_of_stem? {text suffix stem : String} (found : stem? text suffix = some stem) :
    text = stem ++ suffix := by
  rw [stem?] at found
  split at found
  · rename_i is_suffix
    obtain ⟨front, front_eq⟩ := List.isSuffixOf_iff_suffix.1 is_suffix
    simp only [Option.some.injEq] at found
    have front_take : text.toList.take (text.toList.length - suffix.toList.length) = front := by
      rw [← front_eq]
      simp
    rw [front_take] at found
    rw [← String.toList_inj, String.toList_append, ← found, String.toList_ofList, front_eq]
  · simp at found

/-- Every candidate ends in the name of a declaration file. -/
theorem candidates_end {target candidate : Path} (mem : candidate ∈ candidates target) :
    ∃ rooted before piece, candidate = ⟨rooted, before ++ [piece]⟩ ∧ Path.IsName piece := by
  unfold candidates at mem
  rcases List.mem_append.1 mem with mem | mem
  rcases List.mem_append.1 mem with mem | mem
  rcases List.mem_append.1 mem with mem | mem
  · rw [List.mem_singleton] at mem
    exact ⟨_, _, _, mem, isName_of_suffix rfl⟩
  · split at mem
    · rw [List.mem_singleton] at mem
      exact ⟨_, _, _, mem, isName_of_suffix rfl⟩
    · simp at mem
  · split at mem
    · rename_i stem_some
      obtain ⟨stem, found⟩ := Option.isSome_iff_exists.1 stem_some
      rw [List.mem_singleton] at mem
      exact ⟨_, _, _, mem, isName_of_suffix (eq_append_of_stem? found)⟩
    · simp at mem
  · rw [List.mem_singleton] at mem
    have named : Path.IsName ("index" ++ declarationSuffix) := isName_of_suffix rfl
    rw [Path.join, if_neg (by simp)] at mem
    split at mem
    · exact ⟨_, [], _, mem, named⟩
    · exact ⟨_, _, _, mem, named⟩

/-- A file that a specifier stands for bears a name of the tree. -/
theorem fileName?_of_resolveSpecifier {tree : FileTree} {importer path : Path} {specifier : String}
    (resolved : tree.resolveSpecifier importer specifier = some path) :
    ∃ name, path.fileName? = some name ∧ name ∈ tree.names := by
  unfold resolveSpecifier at resolved
  obtain ⟨candidate, found, normalized⟩ := Option.map_eq_some_iff.1 resolved
  obtain ⟨rooted, before, piece, candidate_eq, named⟩ :=
    candidates_end (List.mem_of_find?_eq_some found)
  have file := List.find?_some found
  rw [candidate_eq] at file
  refine ⟨piece, ?_, mem_names_of_isFile named file⟩
  rw [← normalized, candidate_eq]
  exact Path.fileName?_normalize_of_last named

/-! ## Discovery -/

/-- Adds the files that specifiers stand for, unless one of their name was seen: the names seen
after that, and the files that are new, in order. -/
def addFiles (resolve : String → Except AssemblyError Path) (seen : List String) :
    List String → Except AssemblyError (List String × List Path)
  | [] => .ok (seen, [])
  | specifier :: rest =>
    match resolve specifier with
    | .error error => .error error
    | .ok path =>
      if path.fileName?.getD "" ∈ seen then addFiles resolve seen rest
      else
        match addFiles resolve (path.fileName?.getD "" :: seen) rest with
        | .error error => .error error
        | .ok (after, others) => .ok (after, path :: others)

theorem fileName?_of_requireSpecifier {tree : FileTree} {importer path : Path} {specifier : String}
    (required : tree.requireSpecifier importer specifier = .ok path) :
    path.fileName?.getD "" ∈ tree.names := by
  cases resolved : tree.resolveSpecifier importer specifier with
  | none => simp [requireSpecifier, resolved] at required
  | some found =>
    simp only [requireSpecifier, resolved, Except.ok.injEq] at required
    obtain ⟨name, named, mem⟩ := fileName?_of_resolveSpecifier resolved
    rw [← required, named]
    exact mem

/-- Files that are new bring names that are new. -/
theorem addFiles_decreases {names : List String} {resolve : String → Except AssemblyError Path}
    (known : ∀ specifier path, resolve specifier = .ok path → path.fileName?.getD "" ∈ names)
    {seen after specifiers : List String} {files : List Path}
    (added : addFiles resolve seen specifiers = .ok (after, files)) :
    unseen names after + files.length ≤ unseen names seen := by
  induction specifiers generalizing seen after files with
  | nil =>
    simp only [addFiles, Except.ok.injEq, Prod.mk.injEq] at added
    obtain ⟨rfl, rfl⟩ := added
    simp
  | cons specifier rest ih =>
    rw [addFiles] at added
    split at added
    · simp at added
    · rename_i path resolved
      split at added
      · exact ih added
      · rename_i fresh
        split at added
        · simp at added
        · rename_i after' others rest_added
          simp only [Except.ok.injEq, Prod.mk.injEq] at added
          obtain ⟨rfl, rfl⟩ := added
          have rest_le := ih rest_added
          have name_lt := unseen_lt_of_subset (known specifier path resolved)
            (List.subset_cons_self _ seen) List.mem_cons_self fresh
          simp only [List.length_cons]
          omega

set_option linter.unusedVariables false in
/-- Reads the files of a list and adds what they import, until there is nothing left to read. -/
def discoverFrom (tree : FileTree) (seen : List String) (files : List Path) :
    Except AssemblyError (List Path) :=
  match files with
  | [] => .ok []
  | file :: rest =>
    match tree.readText file with
    | .error error => .error (.file file error)
    | .ok text =>
      let specifiers := (Statement.importSpecifiers text).filter Statement.isRelative
      match added : addFiles (tree.requireSpecifier file) seen specifiers with
      | .error error => .error error
      | .ok (after, others) =>
        match discoverFrom tree after (rest ++ others) with
        | .error error => .error error
        | .ok closure => .ok (file :: closure)
termination_by unseen tree.names seen + files.length
decreasing_by
  have decreases := addFiles_decreases (fun _ _ => fileName?_of_requireSpecifier) added
  simp only [List.length_append, List.length_cons]
  omega

/-- The closure of a declaration file with a text. -/
def discover (tree : FileTree) (primary : Path) (text : String) :
    Except AssemblyError (List Path) :=
  let specifiers := ((Statement.reExports text).map ReExport.specifier).filter Statement.isRelative
  match addFiles (tree.requireSpecifier primary) primary.fileName?.toList specifiers with
  | .error error => .error error
  | .ok (seen, files) => tree.discoverFrom seen files

end FileTree

/-! ## Assembly of modules -/

/-- A module to assemble. -/
structure ModuleInput where
  name : String
  /-- The declaration file of the module. -/
  primary : Path
  /-- The directory for the assembled declarations, which is emptied. -/
  outDirectory : Path

/-- The assembled declarations of a module. -/
structure AssembledModule where
  name : String
  /-- The file with the merged declarations. -/
  output : Path
  /-- The files of the closure. -/
  closure : List Path
  /-- Where they were copied to. -/
  copied : List Path
deriving DecidableEq, Repr

namespace ModuleInput

/-- Where a file of the closure is copied to: to its place below the directory of the declaration
file, or into the directory itself if it is not below that. -/
def copyTarget (input : ModuleInput) (file : Path) : Path :=
  let relative := match file.partsAfter? input.primary.directory with
    | some parts => Path.ofParts parts
    | none => Path.ofText (file.fileName?.getD "")
  input.outDirectory.join relative

/-- Copies one file, making the directories for it. -/
def copyFile (input : ModuleInput) (file : Path) (tree : FileTree) :
    Option AssemblyError × FileTree :=
  let target := input.copyTarget file
  match tree.makeDirectories target.directory with
  | (some error, made) => (some (.file target.directory error), made)
  | (none, made) =>
    match made.copy file target with
    | .error error => (some (.file file error), made)
    | .ok copied => (none, copied)

/-- Copies files in order, up to the first that fails. -/
def copyFiles (input : ModuleInput) : List Path → FileTree → Option AssemblyError × FileTree
  | [], tree => (none, tree)
  | file :: rest, tree =>
    match input.copyFile file tree with
    | (some error, tree) => (some error, tree)
    | (none, tree) => input.copyFiles rest tree

/-- The text of the declaration file. -/
def readPrimary (input : ModuleInput) (tree : FileTree) : Except AssemblyError (String × String) :=
  match tree.readText input.primary with
  | .error .notFound => .error (.primaryNotFound input.primary)
  | .error error => .error (.file input.primary error)
  | .ok text =>
    match input.primary.fileName? with
    | some name => .ok (name, text)
    | none => .error (.primaryNotFound input.primary)

/-- What is to be written: the name of the output, its text, and the files to copy. -/
def plan (input : ModuleInput) (config : Config) (fragments : List String) (tree : FileTree) :
    Except AssemblyError (String × String × List Path) :=
  match input.readPrimary tree with
  | .error error => .error error
  | .ok (name, text) =>
    match tree.discover input.primary text with
    | .error error => .error error
    | .ok closure =>
      .ok (name, Statement.merge (config.outputShape == .singleComponent) text fragments, closure)

/-- Writes the merged declarations and copies the closure. -/
def writeModule (input : ModuleInput) (name text : String) (closure : List Path)
    (tree : FileTree) : Except AssemblyError AssembledModule × FileTree :=
  match tree.resetDirectory input.outDirectory with
  | (some error, tree) => (.error (.file input.outDirectory error), tree)
  | (none, tree) =>
    let output := input.outDirectory.join (.ofText name)
    match tree.write output (.text text) with
    | .error error => (.error (.file output error), tree)
    | .ok tree =>
      match input.copyFiles closure tree with
      | (some error, tree) => (.error error, tree)
      | (none, tree) =>
        (.ok { name := input.name, output, closure, copied := closure.map input.copyTarget }, tree)

/-- Whether a module is left out: in a library, if it is excluded or was assembled before. -/
def isSkipped (input : ModuleInput) (config : Config) (processed : NameSet) : Bool :=
  config.outputShape == .library &&
    (config.excludedModules.contains input.name || processed.contains input.name)

/-- Assembles a module, unless it is left out: the outcome, the modules assembled so far and the
files afterwards. -/
def assemble (input : ModuleInput) (config : Config) (fragments : List String)
    (processed : NameSet) (tree : FileTree) :
    Except AssemblyError (Option AssembledModule) × NameSet × FileTree :=
  if input.isSkipped config processed then (.ok none, processed, tree)
  else
    match input.plan config fragments tree with
    | .error error => (.error error, processed, tree)
    | .ok (name, text, closure) =>
      match input.writeModule name text closure tree with
      | (.error error, tree) => (.error error, processed, tree)
      | (.ok assembled, tree) => (.ok (some assembled), processed.insert input.name, tree)

end ModuleInput

end Componentry
