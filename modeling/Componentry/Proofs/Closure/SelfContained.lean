import Componentry.Proofs.Closure.BreadthFirst
import Componentry.Proofs.Closure.Relocation

/-!
# Self-contained output

The output of an assembled module is the merged declaration file and the copies
of its closure. A relative specifier in them is meant to lead to the copy of the
file that it leads to in the sources.

It does if the two files keep their places, that is, if each of them is copied below
the output directory as it is below the directory of the declaration file, and if
the specifier comes only through directories that hold such files (`Portable`).
Files that are not below that directory are copied into the output directory
itself, where specifiers to them do not lead and other specifiers may find them
first. And since the closure tells files apart by their names, a second file of a
name is not copied at all (`second_file_of_a_name_is_lost`).
-/

namespace Componentry

variable {config : Config} {fragments : List String}

namespace ModuleInput

variable {file : Path} {name : String}

variable {input : ModuleInput} {tree made : FileTree}

/-! ## What assembly writes -/

theorem grows_copyFile (copied : input.copyFile file tree = (none, made)) :
    tree.Grows made [(input.copyTarget file).place] ∧
      ∃ name, made.Reaches (input.copyTarget file) name := by
  have directories := tree.grows_makeDirectories (input.copyTarget file).directory
  delta copyFile at copied
  dsimp only at copied
  split at copied
  · simp at copied
  · rename_i prepared made_directories
    rw [made_directories] at directories
    split at copied
    · simp at copied
    · rename_i result copy_eq
      cases copied
      rcases FileTree.copy_eq_ok copy_eq with ⟨content, written⟩
      rcases FileTree.grows_write written with ⟨grows, reaches⟩
      exact ⟨directories.trans grows, reaches⟩

-- The copying of one file stays folded in this equation.
attribute [local irreducible] copyFile in
theorem copyFiles_cons (input : ModuleInput) (file : Path) (rest : List Path) (tree : FileTree) :
    input.copyFiles (file :: rest) tree =
      match input.copyFile file tree with
      | (some error, tree) => (some error, tree)
      | (none, tree) => input.copyFiles rest tree :=
  rfl

theorem grows_copyFiles {files : List Path} (copied : input.copyFiles files tree = (none, made)) :
    tree.Grows made (files.map fun file => (input.copyTarget file).place) ∧
      ∀ file ∈ files, ∃ name, made.Reaches (input.copyTarget file) name := by
  induction files generalizing tree with
  | nil =>
    cases copied
    exact ⟨.refl _, by simp⟩
  | cons file rest ih =>
    rw [copyFiles_cons] at copied
    split at copied
    · simp at copied
    · rename_i next copy_eq
      rcases grows_copyFile copy_eq with ⟨first_grows, name, reaches⟩
      rcases ih copied with ⟨rest_grows, rest_reaches⟩
      refine ⟨first_grows.trans rest_grows, ?_⟩
      rw [List.forall_mem_cons]
      exact ⟨⟨name, rest_grows.reaches reaches⟩, rest_reaches⟩

theorem readPrimary_eq_ok {text : String} (read : input.readPrimary tree = .ok (name, text)) :
    tree.readText input.primary = .ok text ∧ input.primary.fileName? = some name := by
  rw [readPrimary] at read
  split at read
  · simp at read
  · simp at read
  · rename_i readable
    split at read
    · rename_i named
      simp only [Except.ok.injEq, Prod.mk.injEq] at read
      rw [← read.1, ← read.2]
      exact ⟨readable, named⟩
    · simp at read

theorem plan_eq_ok {merged : String} {closure : List Path}
    (planned : input.plan config fragments tree = .ok (name, merged, closure)) :
    ∃ text, tree.readText input.primary = .ok text ∧ input.primary.fileName? = some name ∧
      tree.discover input.primary text = .ok closure := by
  rw [plan] at planned
  split at planned
  · simp at planned
  · rename_i text read
    split at planned
    · simp at planned
    · rename_i discovered
      simp only [Except.ok.injEq, Prod.mk.injEq] at planned
      rw [planned.1] at read
      rw [planned.2.2] at discovered
      rcases readPrimary_eq_ok read with ⟨readable, named⟩
      exact ⟨text, readable, named, discovered⟩

theorem writeModule_eq_ok {text : String} {closure : List Path} {bundle : AssembledModule}
    (succeeded : input.writeModule name text closure tree = (.ok bundle, made)) :
    bundle.output = input.outDirectory.join (.ofText name) ∧ bundle.closure = closure ∧
      bundle.copied = closure.map input.copyTarget ∧
      ∃ emptied written, tree.resetDirectory input.outDirectory = (none, emptied) ∧
        emptied.write bundle.output (.text text) = .ok written ∧
        input.copyFiles closure written = (none, made) := by
  rw [writeModule] at succeeded
  split at succeeded
  · simp at succeeded
  · rename_i emptied reset
    dsimp only at succeeded
    split at succeeded
    · simp at succeeded
    · rename_i written write_eq
      split at succeeded
      · simp at succeeded
      · rename_i copied
        cases succeeded
        exact ⟨rfl, rfl, rfl, emptied, written, reset, write_eq, copied⟩

theorem assemble_eq_ok {processed after : NameSet} {bundle : AssembledModule}
    (assembled : input.assemble config fragments processed tree =
      (.ok (some bundle), after, made)) :
    ∃ name merged, input.plan config fragments tree = .ok (name, merged, bundle.closure) ∧
      input.writeModule name merged bundle.closure tree = (.ok bundle, made) := by
  rw [assemble] at assembled
  split at assembled
  · simp at assembled
  · split at assembled
    · simp at assembled
    · rename_i name merged closure planned
      split at assembled
      · simp at assembled
      · rename_i written
        simp only [Prod.mk.injEq, Except.ok.injEq, Option.some.injEq] at assembled
        rcases assembled with ⟨rfl, _, rfl⟩
        rw [← (writeModule_eq_ok written).2.1] at planned written
        exact ⟨name, merged, planned, written⟩

/-! ## Files that keep their places -/

/-- The names that lead to a file from the directory of the declaration file. -/
def namesOf (input : ModuleInput) (file : Path) : List String :=
  file.place.names.drop input.primary.directory.place.names.length

/-- The file is below the directory of the declaration file, and its copy is below the output
directory by the same names. -/
structure KeepsPlace (input : ModuleInput) (file : Path) : Prop where
  below : file.place = input.primary.directory.place.descend (input.namesOf file)
  copied : input.copyTarget file = input.outDirectory.join ⟨false, input.namesOf file⟩

instance (input : ModuleInput) (file : Path) : Decidable (input.KeepsPlace file) :=
  decidable_of_iff
    (file.place = input.primary.directory.place.descend (input.namesOf file) ∧
      input.copyTarget file = input.outDirectory.join ⟨false, input.namesOf file⟩)
    ⟨fun both => ⟨both.1, both.2⟩, fun keeps => ⟨keeps.below, keeps.copied⟩⟩

/-- The places of the copies of the other files. -/
def strayPlaces (input : ModuleInput) (closure : List Path) : List Place :=
  (closure.filter fun file => ¬input.KeepsPlace file).map fun file => (input.copyTarget file).place

theorem namesOf_eq {names : List String}
    (below : file.place = input.primary.directory.place.descend names) :
    input.namesOf file = names := by
  rw [namesOf, below, Place.names_descend, List.drop_left]

theorem isName_of_mem_namesOf (mem : name ∈ input.namesOf file) :
    Path.IsName name :=
  Path.isName_of_mem_place (List.mem_of_mem_drop mem)

end ModuleInput

/-- The files of a module with their copies. -/
def AssembledModule.copies (bundle : AssembledModule) (primary : Path) : List (Path × Path) :=
  (primary, bundle.output) :: bundle.closure.zip bundle.copied

/-- The declaration file and the files that keep their places, with their copies. -/
def AssembledModule.keptCopies (bundle : AssembledModule) (input : ModuleInput) :
    List (Path × Path) :=
  (input.primary, bundle.output) ::
    (bundle.closure.zip bundle.copied).filter fun pair => input.KeepsPlace pair.1

namespace ModuleInput

variable {bundle : AssembledModule} {copy : Path}

variable {input : ModuleInput} {tree made : FileTree}

/-- A file below the directory of the declaration file that was found, and its copy that was
written below the output directory. -/
structure IsCopy (input : ModuleInput) (tree made : FileTree) (file copy : Path) : Prop where
  reaches : ∃ name, tree.Reaches file name
  has_file : tree.HasFile file.place
  copy_reaches : ∃ name, made.Reaches copy name
  below : file.place = input.primary.directory.place.descend (input.namesOf file)
  copy_eq : copy = input.outDirectory.join ⟨false, input.namesOf file⟩

namespace IsCopy

variable {file copy : Path}

theorem steps_names (input : ModuleInput) (file : Path) :
    (⟨false, input.namesOf file⟩ : Path).steps = (input.namesOf file).map .name :=
  Path.steps_eq_names fun _ => isName_of_mem_namesOf

theorem steps_copy (isCopy : input.IsCopy tree made file copy) :
    copy.steps = input.outDirectory.steps ++ (input.namesOf file).map .name := by
  rw [isCopy.copy_eq, Path.steps_join _ rfl, steps_names]

theorem rooted_copy (isCopy : input.IsCopy tree made file copy) :
    copy.rooted = input.outDirectory.rooted := by
  rw [isCopy.copy_eq, Path.rooted_join _ rfl]

theorem place_copy (isCopy : input.IsCopy tree made file copy) :
    copy.place = input.outDirectory.place.descend (input.namesOf file) := by
  rw [isCopy.copy_eq, Path.place_join _ rfl, steps_names, Place.foldl_move_names]

/-- The copy is in the directory that goes by the names of the file's directory. -/
theorem exists_names (isCopy : input.IsCopy tree made file copy) :
    ∃ names name, input.namesOf file = names ++ [name] ∧
      file.directory.place = input.primary.directory.place.descend names ∧
      copy.directory.place = input.outDirectory.place.descend names ∧
      copy.directory.steps = input.outDirectory.steps ++ names.map .name := by
  rcases isCopy.copy_reaches with ⟨last, copy_reaches⟩
  rcases isCopy.reaches with ⟨own, reaches⟩
  have steps_eq := copy_reaches.ends.steps_eq
  have place_eq := copy_reaches.ends.place_eq
  have file_place := reaches.ends.place_eq
  rw [isCopy.steps_copy] at steps_eq
  rw [isCopy.place_copy] at place_eq
  rw [isCopy.below] at file_place
  rcases List.eq_nil_or_concat (input.namesOf file) with no_names | ⟨names, name, names_eq⟩
  · -- The path of the output directory itself does not end in a name.
    rcases copy_reaches.ends.last with ⟨before, pieces_eq⟩
    rw [isCopy.copy_eq, no_names, Path.join, if_neg Bool.false_ne_true] at pieces_eq
    split at pieces_eq
    · simp at pieces_eq
    · have last_eq := (List.append_inj' pieces_eq rfl).2
      have named := copy_reaches.ends.named
      simp only [List.isEmpty_nil, if_true, List.cons.injEq, and_true] at last_eq
      rw [← last_eq] at named
      simp [Path.IsName, Path.part?] at named
  · rw [List.concat_eq_append] at names_eq
    rw [names_eq, ← Place.child_descend, Place.child_inj] at place_eq file_place
    rw [names_eq, List.map_append, ← List.append_assoc] at steps_eq
    exact ⟨names, name, names_eq, file_place.1.symm, place_eq.1.symm,
      (List.append_inj' steps_eq rfl).1.symm⟩

end IsCopy

theorem mem_keptCopies (copied_eq : bundle.copied = bundle.closure.map input.copyTarget)
    {pair : Path × Path} :
    pair ∈ bundle.keptCopies input ↔ pair = (input.primary, bundle.output) ∨
      ∃ file ∈ bundle.closure, input.KeepsPlace file ∧ (file, input.copyTarget file) = pair := by
  rw [AssembledModule.keptCopies, List.mem_cons, copied_eq, ← List.map_prod_left_eq_zip,
    List.filter_map, List.mem_map]
  simp [and_assoc]

/-- A copy keeps the place of its file or is a stray. -/
theorem mem_copied_iff (copied_eq : bundle.copied = bundle.closure.map input.copyTarget)
    (copies : ∀ pair ∈ bundle.keptCopies input, input.IsCopy tree made pair.1 pair.2)
    (names : List String) :
    input.outDirectory.place.descend names ∈
        bundle.output.place :: bundle.closure.map (fun file => (input.copyTarget file).place) ↔
      names ∈ (bundle.keptCopies input).map (fun pair => input.namesOf pair.1) ∨
        input.outDirectory.place.descend names ∈ input.strayPlaces bundle.closure := by
  have kept_iff {pair : Path × Path} (mem : pair ∈ bundle.keptCopies input) :
      input.outDirectory.place.descend names = pair.2.place ↔ input.namesOf pair.1 = names := by
    rw [(copies pair mem).place_copy, Place.descend_inj, eq_comm]
  constructor
  · intro mem
    rcases List.mem_cons.1 mem with output | mem
    · exact .inl (List.mem_map.2 ⟨_, List.mem_cons_self, (kept_iff List.mem_cons_self).1 output⟩)
    · rcases List.mem_map.1 mem with ⟨file, file_mem, place_eq⟩
      by_cases keeps : input.KeepsPlace file
      · have kept := (mem_keptCopies copied_eq).2 (.inr ⟨file, file_mem, keeps, rfl⟩)
        exact .inl (List.mem_map.2 ⟨_, kept, (kept_iff kept).1 place_eq.symm⟩)
      · exact .inr (List.mem_map.2
          ⟨file, List.mem_filter.2 ⟨file_mem, decide_eq_true keeps⟩, place_eq⟩)
  · rintro (kept | stray)
    · rcases List.mem_map.1 kept with ⟨pair, pair_mem, names_eq⟩
      rw [(kept_iff pair_mem).2 names_eq]
      rcases (mem_keptCopies copied_eq).1 pair_mem with rfl | ⟨file, file_mem, _, rfl⟩
      · exact List.mem_cons_self
      · exact List.mem_cons_of_mem _ (List.mem_map.2 ⟨file, file_mem, rfl⟩)
    · rcases List.mem_map.1 stray with ⟨file, file_mem, place_eq⟩
      exact List.mem_cons_of_mem _
        (List.mem_map.2 ⟨file, List.mem_of_mem_filter file_mem, place_eq⟩)

/-- The files that keep their places are below the directory of the declaration file, and after the
assembly their copies and those of the other files are all the files below the output directory. -/
theorem relocation_of_assemble {processed after : NameSet}
    (assembled : input.assemble config fragments processed tree = (.ok (some bundle), after, made))
    (coherent : tree.Coherent) (read : ∃ text, input.primary = .ofText text)
    (found : tree.exists? input.outDirectory = true ∨ tree.node? input.outDirectory.place = none) :
    tree.Relocation made input.primary.directory.place input.outDirectory.place
        ((bundle.keptCopies input).map fun pair => input.namesOf pair.1)
        (input.strayPlaces bundle.closure) ∧
      ∀ pair ∈ bundle.keptCopies input, input.IsCopy tree made pair.1 pair.2 := by
  rcases assemble_eq_ok assembled with ⟨name, merged, planned, succeeded⟩
  rcases plan_eq_ok planned with ⟨text, readable, named, discovered⟩
  rcases writeModule_eq_ok succeeded with
    ⟨output_eq, _, copied_eq, emptied, written, reset, write_eq, copy_eq⟩
  rcases FileTree.resetDirectory_eq_ok coherent found reset with ⟨emptied_coherent, no_files⟩
  rcases FileTree.grows_write write_eq with ⟨write_grows, last, output_reaches⟩
  rcases grows_copyFiles copy_eq with ⟨copy_grows, copies_reach⟩
  have grows := write_grows.trans copy_grows
  have isClosure := FileTree.discover_eq_ok_iff.1 discovered
  rcases FileTree.reaches_of_readText readable named with ⟨reaches, file⟩
  have names_eq : input.namesOf input.primary = [name] := namesOf_eq reaches.ends.place_eq
  have primary_copy : input.IsCopy tree made input.primary bundle.output := by
    refine ⟨⟨name, reaches⟩, file, ⟨last, copy_grows.reaches output_reaches⟩, ?_, ?_⟩
    · rw [names_eq]
      exact reaches.ends.place_eq
    · rcases read with ⟨path_text, path_eq⟩
      rw [path_eq] at named
      rw [names_eq, output_eq, Path.ofText_fileName? named]
  have kept_copy : ∀ pair ∈ bundle.keptCopies input, input.IsCopy tree made pair.1 pair.2 := by
    intro pair mem
    rcases (mem_keptCopies copied_eq).1 mem with rfl | ⟨file, file_mem, keeps, rfl⟩
    · exact primary_copy
    · rcases isClosure.imports_inside file file_mem with ⟨content, file_readable, _⟩
      have file_named : file.fileName? = some file.baseName := by
        rw [isClosure.breadth_first] at file_mem
        exact FileTree.fileName?_of_mem_found file_mem
      rcases FileTree.reaches_of_readText file_readable file_named with ⟨reaches, has_file⟩
      exact ⟨⟨_, reaches⟩, has_file, copies_reach file file_mem, keeps.below, keeps.copied⟩
  refine ⟨⟨coherent, grows.coherent emptied_coherent, ?_, ?_, ?_⟩, kept_copy⟩
  · rw [List.forall_mem_map]
    intro pair mem
    rcases (kept_copy pair mem).exists_names with ⟨names, name, names_eq, _⟩
    simp [names_eq]
  · rw [List.forall_mem_map]
    intro pair mem
    rw [← (kept_copy pair mem).below]
    exact (kept_copy pair mem).has_file
  · intro names
    rw [grows.files, List.singleton_append, mem_copied_iff copied_eq kept_copy, or_iff_right]
    -- Nothing was left below the output directory, and it is itself no file.
    intro left
    by_cases here : names = []
    · rcases primary_copy.exists_names with ⟨front, last, front_eq, _, directory_eq, _⟩
      have one_name : [] ++ [name] = front ++ [last] := names_eq.symm.trans front_eq
      have no_front : [] = front := (List.append_inj' one_name rfl).1
      have directory := (copy_grows.reaches output_reaches).directory
      rw [directory_eq, ← no_front, ← here] at directory
      exact ((grows.files _).2 (.inl left)).not_directory directory
    · exact no_files names here left

/-! ## Specifiers in the output -/

/-- What makes a specifier of a file mean the same in the copy of the file. -/
structure Portable (input : ModuleInput) (tree : FileTree) (bundle : AssembledModule)
    (importer copy : Path) (specifier : String) : Prop where
  /-- The file that it is in keeps its place. -/
  kept : (importer, copy) ∈ bundle.keptCopies input
  /-- It stands for a file of the module that keeps its place, and not only for one that is named as
  such a file. -/
  copied : ∀ target, tree.resolveSpecifier importer specifier = some target →
    ∃ pair ∈ bundle.keptCopies input, pair.1.place = target.place
  /-- It comes only through directories that hold files that keep their places. -/
  inside : FileTree.staysInside
    (FileTree.holds ((bundle.keptCopies input).map fun pair => input.namesOf pair.1))
    (input.namesOf importer).dropLast (Path.ofText specifier).steps = true
  /-- No copy of another file is where it looks for files. -/
  free : ∀ candidate ∈ FileTree.candidates (.ofText specifier),
    (copy.directory.join candidate).place ∉ input.strayPlaces bundle.closure
  /-- Nothing that it may stand for is too long a path. -/
  legal : ∀ candidate ∈ FileTree.candidates (.ofText specifier),
    FileTree.pathError? (importer.directory.join candidate) = none ∧
      FileTree.pathError? (copy.directory.join candidate) = none

/-- A specifier stands for a file of the module, and in the copy of the file that it is in, it
stands for the copy of that file, which is below the output directory. -/
def CarriesOver (input : ModuleInput) (tree made : FileTree) (bundle : AssembledModule)
    (importer copy : Path) (specifier : String) : Prop :=
  ∃ target file moved, tree.resolveSpecifier importer specifier = some target ∧
    (file, moved) ∈ bundle.copies input.primary ∧ file.place = target.place ∧
    moved.place.isBelow input.outDirectory.place = true ∧
    made.resolveSpecifier copy specifier = some moved.normalize

theorem mem_copies_of_kept {pair : Path × Path} (kept : pair ∈ bundle.keptCopies input) :
    pair ∈ bundle.copies input.primary := by
  rcases List.mem_cons.1 kept with rfl | kept
  · exact List.mem_cons_self
  · exact List.mem_cons_of_mem _ (List.mem_of_mem_filter kept)

/-- A portable specifier leads from the copy of a file to the copy of what it led to. -/
theorem carriesOver_of_portable
    (relocation : tree.Relocation made input.primary.directory.place input.outDirectory.place
      ((bundle.keptCopies input).map fun pair => input.namesOf pair.1)
      (input.strayPlaces bundle.closure))
    (copies : ∀ pair ∈ bundle.keptCopies input, input.IsCopy tree made pair.1 pair.2)
    {importer target : Path} {specifier : String}
    (relative : Statement.isRelative specifier = true)
    (resolved : tree.resolveSpecifier importer specifier = some target)
    (portable : input.Portable tree bundle importer copy specifier) :
    input.CarriesOver tree made bundle importer copy specifier := by
  have isCopy := copies (importer, copy) portable.kept
  rcases isCopy.reaches with ⟨own, reaches⟩
  rcases isCopy.copy_reaches with ⟨last, copy_reaches⟩
  rcases isCopy.exists_names with ⟨names, name, names_eq, directory, copy_directory, copy_steps⟩
  rcases portable.copied target resolved with ⟨⟨file, moved⟩, moved_kept, same_place⟩
  have moved_pair := mem_copies_of_kept moved_kept
  have isMoved := copies (file, moved) moved_kept
  have target_names : target.place.names =
      input.primary.directory.place.names ++ input.namesOf file := by
    rw [← same_place, isMoved.below, Place.names_descend]
  have importer_mem : names ++ [name] ∈
      (bundle.keptCopies input).map fun pair => input.namesOf pair.1 := by
    rw [← names_eq]
    exact List.mem_map_of_mem portable.kept
  have inside := portable.inside
  rw [names_eq, List.dropLast_concat] at inside
  rcases relocation.resolveSpecifier_eq reaches copy_reaches directory copy_directory
    (FileTree.holds_of_mem importer_mem) relative inside portable.legal portable.free resolved
    (List.mem_map_of_mem moved_kept) target_names with
    ⟨candidate, not_rooted, descent, copy_resolved⟩
  refine ⟨target, file, moved, resolved, moved_pair, same_place, ?_, ?_⟩
  · rw [isMoved.place_copy, FileTree.isBelow_iff]
    rcases isMoved.exists_names with ⟨front, last, front_eq, _⟩
    exact ⟨_, by simp [front_eq], rfl⟩
  · -- Both paths lead to the same names below the output directory.
    have copy_rooted : (copy.directory.join candidate).rooted = input.outDirectory.rooted := by
      rw [Path.rooted_join _ not_rooted, copy_reaches.ends.rooted_directory, isCopy.rooted_copy]
    have copy_all_steps : (copy.directory.join candidate).steps =
        input.outDirectory.steps ++ (names.map .name ++ candidate.steps) := by
      rw [Path.steps_join _ not_rooted, copy_steps, List.append_assoc]
    have copy_descent : Path.descent? [] (names.map .name ++ candidate.steps) =
        some (input.namesOf file) := by
      rw [Path.descent?_append, Path.descent?_names]
      exact descent
    rw [copy_resolved, Path.normalize_of_descent? copy_rooted copy_all_steps copy_descent,
      Path.normalize_of_descent? isMoved.rooted_copy isMoved.steps_copy (Path.descent?_names [] _)]
    rfl

/-- Whatever a module exports from other files and these files import is found in its output, as far
as the specifiers are portable. -/
theorem assemble_self_contained {config : Config} {fragments : List String}
    {processed after : NameSet} {bundle : AssembledModule}
    (assembled : input.assemble config fragments processed tree = (.ok (some bundle), after, made))
    (coherent : tree.Coherent) (read : ∃ text, input.primary = .ofText text)
    (found : tree.exists? input.outDirectory = true ∨ tree.node? input.outDirectory.place = none) :
    (∃ text, tree.readText input.primary = .ok text ∧
        ∀ specifier ∈ FileTree.relativeReExports text,
          input.Portable tree bundle input.primary bundle.output specifier →
            input.CarriesOver tree made bundle input.primary bundle.output specifier) ∧
      ∀ file copy, (file, copy) ∈ bundle.closure.zip bundle.copied →
        ∃ text, tree.readText file = .ok text ∧
          ∀ specifier ∈ FileTree.relativeImports text,
            input.Portable tree bundle file copy specifier →
              input.CarriesOver tree made bundle file copy specifier := by
  rcases relocation_of_assemble assembled coherent read found with ⟨relocation, copies⟩
  rcases assemble_eq_ok assembled with ⟨name, merged, planned, _⟩
  rcases plan_eq_ok planned with ⟨text, readable, _, discovered⟩
  have isClosure := FileTree.discover_eq_ok_iff.1 discovered
  refine ⟨⟨text, readable, ?_⟩, ?_⟩
  · intro specifier mem portable
    rcases (isClosure.reExports_inside specifier mem).exists_target with ⟨target, resolved⟩
    exact carriesOver_of_portable relocation copies (List.mem_filter.1 mem).2 resolved portable
  · intro file copy pair
    rcases isClosure.imports_inside file (List.of_mem_zip pair).1 with
      ⟨content, file_readable, inside⟩
    refine ⟨content, file_readable, ?_⟩
    intro specifier mem portable
    rcases (inside specifier mem).exists_target with ⟨target, resolved⟩
    exact carriesOver_of_portable relocation copies (List.mem_filter.1 mem).2 resolved portable

/-! A declaration file, a file in a directory below it that imports it back, the index of a
directory beside that one, and a file that does not keep its place. The output directory holds an
older file that would be tried first. -/

def card : ModuleInput := ⟨"card", .ofText "s/card.d.ts", .ofText "out"⟩

def cardText : String := "export * from './l/a.js'\nexport * from '../z'"

def partText : String := "import '../b'\nimport '../card'"

def cardTree : FileTree :=
  ⟨[(⟨.above 0, ["s"]⟩, .directory),
    (⟨.above 0, ["s", "card.d.ts"]⟩, .file (.text cardText)),
    (⟨.above 0, ["s", "l"]⟩, .directory),
    (⟨.above 0, ["s", "l", "a.d.ts"]⟩, .file (.text partText)),
    (⟨.above 0, ["s", "b"]⟩, .directory),
    (⟨.above 0, ["s", "b", "index.d.ts"]⟩, .file (.text "")),
    (⟨.above 0, ["z.d.ts"]⟩, .file (.text "")),
    (⟨.above 0, ["out"]⟩, .directory),
    (⟨.above 0, ["out", "b.d.ts"]⟩, .file (.text ""))]⟩

def cardBundle : AssembledModule :=
  ⟨"card", .ofText "out/card.d.ts",
    [.ofText "s/l/a.d.ts", .ofText "z.d.ts", .ofText "s/b/index.d.ts"],
    [.ofText "out/l/a.d.ts", .ofText "out/z.d.ts", .ofText "out/b/index.d.ts"]⟩

/-- The tree after the module is assembled. -/
def cardMade : FileTree := (card.assemble {} [] .empty cardTree).2.2

theorem assemble_card : card.assemble {} [] .empty cardTree =
    (.ok (some cardBundle), (card.assemble {} [] .empty cardTree).2.1, cardMade) := by
  have accepted : (card.assemble {} [] .empty cardTree).1 = .ok (some cardBundle) := by
    decide +kernel
  rw [cardMade, ← accepted]

theorem copied_card {importer target : Path} {specifier : String}
    (resolved : cardTree.resolveSpecifier importer specifier = some target)
    (kept : ∃ pair ∈ cardBundle.keptCopies card, pair.1.place = target.place) :
    ∀ other, cardTree.resolveSpecifier importer specifier = some other →
      ∃ pair ∈ cardBundle.keptCopies card, pair.1.place = other.place := by
  intro other other_resolved
  rw [resolved, Option.some.injEq] at other_resolved
  rw [← other_resolved]
  exact kept

theorem assemble_self_contained_card :
    card.CarriesOver cardTree cardMade cardBundle card.primary cardBundle.output "./l/a.js" ∧
      card.CarriesOver cardTree cardMade cardBundle (.ofText "s/l/a.d.ts")
        (.ofText "out/l/a.d.ts") "../b" ∧
      card.CarriesOver cardTree cardMade cardBundle (.ofText "s/l/a.d.ts")
        (.ofText "out/l/a.d.ts") "../card" := by
  have coherent : cardTree.Coherent := FileTree.coherent_of_entries (by decide +kernel)
  have there : cardTree.exists? card.outDirectory = true := by decide +kernel
  rcases assemble_self_contained assemble_card coherent ⟨"s/card.d.ts", rfl⟩ (.inl there) with
    ⟨⟨text, readable, exported⟩, imported⟩
  obtain rfl : text = cardText := by
    have read : cardTree.readText card.primary = .ok cardText := by decide +kernel
    exact Except.ok.inj (readable.symm.trans read)
  rcases imported (.ofText "s/l/a.d.ts") (.ofText "out/l/a.d.ts") (by decide +kernel) with
    ⟨content, file_readable, imports⟩
  obtain rfl : content = partText := by
    have read : cardTree.readText (.ofText "s/l/a.d.ts") = .ok partText := by decide +kernel
    exact Except.ok.inj (file_readable.symm.trans read)
  have to_file : cardTree.resolveSpecifier card.primary "./l/a.js" =
      some (.ofText "s/l/a.d.ts") := by decide +kernel
  have to_index : cardTree.resolveSpecifier (.ofText "s/l/a.d.ts") "../b" =
      some (.ofText "s/b/index.d.ts") := by decide +kernel
  have to_primary : cardTree.resolveSpecifier (.ofText "s/l/a.d.ts") "../card" =
      some (.ofText "s/card.d.ts") := by decide +kernel
  refine ⟨?_, ?_, ?_⟩
  · exact exported _ (by decide +kernel) ⟨by decide +kernel,
      copied_card to_file (by decide +kernel), by decide +kernel, by decide +kernel,
      by decide +kernel⟩
  · exact imports _ (by decide +kernel) ⟨by decide +kernel,
      copied_card to_index (by decide +kernel), by decide +kernel, by decide +kernel,
      by decide +kernel⟩
  · exact imports _ (by decide +kernel) ⟨by decide +kernel,
      copied_card to_primary (by decide +kernel), by decide +kernel, by decide +kernel,
      by decide +kernel⟩

/-! A declaration file that exports from two files of one name. -/

def pair : ModuleInput := ⟨"pair", .ofText "s/p.d.ts", .ofText "out"⟩

def pairTree : FileTree :=
  ⟨[(⟨.above 0, ["s"]⟩, .directory),
    (⟨.above 0, ["s", "p.d.ts"]⟩,
      .file (.text "export * from './a/x'\nexport * from './b/x'")),
    (⟨.above 0, ["s", "a"]⟩, .directory),
    (⟨.above 0, ["s", "a", "x.d.ts"]⟩, .file (.text "")),
    (⟨.above 0, ["s", "b"]⟩, .directory),
    (⟨.above 0, ["s", "b", "x.d.ts"]⟩, .file (.text ""))]⟩

/-- The second file of a name is not copied, so that its specifier leads nowhere in the output. -/
theorem second_file_of_a_name_is_lost :
    (pair.assemble {} [] .empty pairTree).1 =
        .ok (some ⟨"pair", .ofText "out/p.d.ts", [.ofText "s/a/x.d.ts"],
          [.ofText "out/a/x.d.ts"]⟩) ∧
      pairTree.resolveSpecifier pair.primary "./b/x" = some (.ofText "s/b/x.d.ts") ∧
      (pair.assemble {} [] .empty pairTree).2.2.resolveSpecifier (.ofText "out/p.d.ts") "./b/x" =
        none := by
  refine ⟨?_, ?_, ?_⟩
  · decide +kernel
  · decide +kernel
  · decide +kernel

end ModuleInput

end Componentry
