import Mathlib.Data.List.Induction
import Mathlib.Data.Option.Basic
import Componentry.Proofs.Closure.Discovery

/-!
# Closures in breadth-first order

`IsClosure` says what a closure is: its files have names of their own, each is
led to by the declaration file or by an earlier file, they stand in the order
in which they are found, and nothing that they lead to is left out. Discovery
results in a list of files exactly if that list is the closure, and in an error
exactly if following the specifiers in this order comes to something that
cannot be followed.

It reads every name of the tree at most once. With a budget of as many files as
the tree has names, it therefore gives the same result (`discoverWithin`).
-/

namespace Componentry

namespace FileTree

variable {done files : List Path} {file : Path}

variable (tree : FileTree) (primary : Path) (text : String) (closure : List Path)

/-- A specifier of a file stands for a file that has the name of the declaration file or of a file
of the closure. -/
def LeadsInside (importer : Path) (specifier : String) : Prop :=
  ∃ target, tree.resolveSpecifier importer specifier = some target ∧
    (target.fileName? = primary.fileName? ∨ target.fileName? ∈ closure.map Path.fileName?)

/-- The files that a declaration file leads to, each name once, in the order of their discovery. -/
structure IsClosure : Prop where
  distinct : (closure.map Path.fileName?).Nodup
  not_primary : primary.fileName? ∉ closure.map Path.fileName?
  discovered : ∀ before file after, closure = before ++ file :: after →
    file ∈ tree.targets primary (relativeReExports text) ∨
      ∃ earlier ∈ before, file ∈ tree.targets earlier (tree.importsOf earlier)
  /-- What the declaration file leads to stands before everything else. -/
  primary_first : ∀ before file after, closure = before ++ file :: after →
    file ∈ tree.targets primary (relativeReExports text) →
    ∀ earlier ∈ before, earlier ∈ tree.targets primary (relativeReExports text)
  /-- What each file leads to stands before what later files lead to. -/
  breadth_first : closure = newFiles primary.fileName?.toList
    (tree.targets primary (relativeReExports text) ++
      closure.flatMap fun file => tree.targets file (tree.importsOf file))
  reExports_inside : ∀ specifier ∈ relativeReExports text,
    tree.LeadsInside primary closure primary specifier
  imports_inside : ∀ file ∈ closure, ∃ content, tree.readText file = .ok content ∧
    ∀ specifier ∈ relativeImports content, tree.LeadsInside primary closure file specifier

variable {tree primary text closure}

/-! ## What was found -/

theorem mem_sources :
    file ∈ tree.targets primary (relativeReExports text) ++
        done.flatMap (fun file => tree.targets file (tree.importsOf file)) ↔
      file ∈ tree.targets primary (relativeReExports text) ∨
        ∃ earlier ∈ done, file ∈ tree.targets earlier (tree.importsOf earlier) := by
  rw [List.mem_append, List.mem_flatMap]

theorem fileName?_of_mem_found (mem : file ∈ tree.found primary text done) :
    file.fileName? = some file.baseName := by
  rcases mem_sources.1 (mem_of_mem_newFiles mem) with exported | ⟨earlier, _, imported⟩
  · exact fileName?_of_mem_targets exported
  · exact fileName?_of_mem_targets imported

variable (tree primary text) in
theorem nodup_names_found (done : List Path) :
    (namesAfter primary.fileName?.toList (tree.found primary text done)).Nodup :=
  nodup_namesAfter_newFiles (by cases primary.fileName? <;> simp) _

/-- The parts of the names that were seen: no file that was found is named as another one or as the
declaration file. -/
theorem nodup_namesAfter_iff {seen : List String} :
    (namesAfter seen files).Nodup ↔
      seen.Nodup ∧ (files.map Path.baseName).Nodup ∧
        ∀ file ∈ files, file.baseName ∉ seen := by
  rw [namesAfter, List.nodup_append', List.nodup_reverse]
  simp only [List.disjoint_left, List.mem_reverse, List.forall_mem_map]
  tauto

theorem Reached.of_split (reached : tree.Reached primary text files) {before after : List Path}
    (split_eq : files = before ++ file :: after) :
    tree.Reached primary text before ∧ tree.next? primary text before = some file := by
  induction reached generalizing after with
  | start resolved => simp at split_eq
  | @read done last content reached next readable resolved ih =>
    rcases after.eq_nil_or_concat with rfl | ⟨init, last', rfl⟩
    · rcases List.append_inj' split_eq rfl with ⟨rfl, last_eq⟩
      rw [List.cons.injEq] at last_eq
      rw [← last_eq.1]
      exact ⟨reached, next⟩
    · have init_eq : done ++ [last] = (before ++ file :: init) ++ [last'] := by
        simpa using split_eq
      exact ih (List.append_inj' init_eq rfl).1

theorem Reached.readable (reached : tree.Reached primary text done) :
    ∀ file ∈ done, ∃ content, tree.readText file = .ok content ∧
      tree.missing? file (relativeImports content) = none := by
  induction reached with
  | start resolved => simp
  | @read done last content reached next readable resolved ih =>
    intro file mem
    rcases List.mem_append.1 mem with earlier | here
    · exact ih file earlier
    · rw [List.mem_singleton.1 here]
      rw [importsOf, readable] at resolved
      exact ⟨content, readable, resolved⟩

theorem Reached.resolved (reached : tree.Reached primary text done) :
    tree.missing? primary (relativeReExports text) = none := by
  induction reached with
  | start resolved => exact resolved
  | read reached next readable resolved ih => exact ih

/-! ## Discovery ends in the closure -/

theorem leadsInside_of_baseName {importer target : Path} {specifier : String}
    (named : ∀ file ∈ closure, file.fileName? = some file.baseName)
    (resolved : tree.resolveSpecifier importer specifier = some target)
    (known : target.baseName ∈ namesAfter primary.fileName?.toList closure) :
    tree.LeadsInside primary closure importer specifier := by
  have target_named : target.fileName? = some target.baseName :=
    fileName?_of_mem_targets (mem_targets.2 ⟨specifier, List.mem_singleton_self _, resolved⟩)
  refine ⟨target, resolved, ?_⟩
  rcases mem_namesAfter.1 known with of_primary | of_file
  · exact .inl (target_named.trans (Option.mem_toList.1 of_primary).symm)
  · rcases List.mem_map.1 of_file with ⟨file, file_mem, same⟩
    refine .inr (List.mem_map.2 ⟨file, file_mem, ?_⟩)
    rw [named file file_mem, same, target_named]

/-- In a list of files without repeated names, the files that the declaration file leads to are
those found first. -/
theorem mem_targets_of_before {before after : List Path} {earlier : Path}
    (split_eq : tree.found primary text closure = before ++ file :: after)
    (exported : file ∈ tree.targets primary (relativeReExports text)) (mem : earlier ∈ before) :
    earlier ∈ tree.targets primary (relativeReExports text) := by
  have names_nodup := nodup_names_found tree primary text closure
  rw [split_eq] at names_nodup
  rw [found, newFiles_append] at split_eq
  rcases List.append_eq_append_iff.1 split_eq with ⟨middle, before_eq, later_eq⟩ |
      ⟨middle, first_eq, later_eq⟩
  · -- The file would have been found with the first ones and once more after them.
    have known := baseName_mem_namesAfter primary.fileName?.toList exported
    rw [before_eq, List.append_assoc, namesAfter_append] at names_nodup
    exact absurd known ((nodup_namesAfter_iff.1 names_nodup).2.2 file (by simp))
  · have first_mem := List.mem_append_left middle mem
    rw [← first_eq] at first_mem
    exact mem_of_mem_newFiles first_mem

/-- What discovery ends with is the closure. -/
theorem isClosure_of_ends (ended : tree.Ends primary text (.ok closure)) :
    tree.IsClosure primary text closure := by
  rcases ended with ⟨reached, found_eq⟩
  have named : ∀ file ∈ closure, file.fileName? = some file.baseName := by
    intro file mem
    rw [← found_eq] at mem
    exact fileName?_of_mem_found mem
  have names_nodup := nodup_names_found tree primary text closure
  rw [found_eq, nodup_namesAfter_iff] at names_nodup
  rcases names_nodup with ⟨_, files_nodup, not_primary⟩
  have known {target : Path}
      (mem : target ∈ tree.targets primary (relativeReExports text) ∨
        ∃ earlier ∈ closure, target ∈ tree.targets earlier (tree.importsOf earlier)) :
      target.baseName ∈ namesAfter primary.fileName?.toList closure := by
    have after_found := baseName_mem_namesAfter primary.fileName?.toList
      (mem_sources.2 mem)
    rw [← found, found_eq] at after_found
    exact after_found
  refine ⟨?_, ?_, ?_, ?_, found_eq.symm, ?_, ?_⟩
  · have names_eq : closure.map Path.fileName? = (closure.map Path.baseName).map some := by
      rw [List.map_map]
      exact List.map_congr_left named
    rw [names_eq]
    exact files_nodup.map (Option.some_injective String)
  · intro mem
    rcases List.mem_map.1 mem with ⟨file, file_mem, same⟩
    rw [named file file_mem] at same
    exact not_primary file file_mem (Option.mem_toList.2 same.symm)
  · intro before file after split_eq
    have next := (reached.of_split split_eq).2
    exact mem_sources.1 (mem_of_mem_newFiles (List.mem_of_getElem? next))
  · intro before file after split_eq exported earlier mem
    exact mem_targets_of_before (found_eq.trans split_eq) exported mem
  · intro specifier mem
    rcases missing?_eq_none_iff.1 reached.resolved specifier mem with ⟨target, resolved⟩
    exact leadsInside_of_baseName named resolved
      (known (.inl (mem_targets.2 ⟨specifier, mem, resolved⟩)))
  · intro file file_mem
    rcases reached.readable file file_mem with ⟨content, readable, all_resolved⟩
    refine ⟨content, readable, fun specifier mem => ?_⟩
    rcases missing?_eq_none_iff.1 all_resolved specifier mem with ⟨target, resolved⟩
    refine leadsInside_of_baseName named resolved (known (.inr ⟨file, file_mem, ?_⟩))
    rw [importsOf, readable]
    exact mem_targets.2 ⟨specifier, mem, resolved⟩

theorem LeadsInside.exists_target {importer : Path} {specifier : String}
    (inside : tree.LeadsInside primary closure importer specifier) :
    ∃ target, tree.resolveSpecifier importer specifier = some target := by
  rcases inside with ⟨target, resolved, _⟩
  exact ⟨target, resolved⟩

namespace IsClosure

/-- The next file of a closure has been found when those before it were read. -/
theorem next? (isClosure : tree.IsClosure primary text closure) {done rest : List Path}
    {file : Path} (split_eq : closure = done ++ file :: rest)
    (reached : tree.Reached primary text done) : tree.next? primary text done = some file := by
  rcases reached.exists_loop with ⟨seen, files, loop, _⟩
  have found_eq : tree.found primary text closure = closure := isClosure.breadth_first.symm
  have names_nodup := nodup_names_found tree primary text closure
  rw [found_eq, split_eq, namesAfter_append, nodup_namesAfter_iff] at names_nodup
  rcases names_nodup with ⟨_, _, fresh⟩
  have known := baseName_mem_namesAfter primary.fileName?.toList
    (mem_sources.2 (isClosure.discovered done file rest split_eq))
  rw [← found, loop.found_eq] at known
  cases files with
  | nil =>
    rw [List.append_nil] at known
    exact absurd known (fresh file List.mem_cons_self)
  | cons head waiting =>
    have head_eq : head = file := by
      rw [split_eq, found_append, loop.found_eq, List.append_assoc] at found_eq
      exact (List.cons.inj (List.append_cancel_left found_eq)).1
    exact next?_of_found (head_eq ▸ loop.found_eq)

theorem reached (isClosure : tree.IsClosure primary text closure) {done rest : List Path}
    (split_eq : closure = done ++ rest) : tree.Reached primary text done := by
  induction done using List.reverseRecOn generalizing rest with
  | nil =>
    apply Reached.start
    rw [missing?_eq_none_iff]
    exact fun specifier mem => (isClosure.reExports_inside specifier mem).exists_target
  | append_singleton done file ih =>
    have file_split : closure = done ++ file :: rest := by
      simpa using split_eq
    have earlier_reached := ih file_split
    rcases isClosure.imports_inside file (by simp [file_split]) with ⟨content, readable, inside⟩
    refine .read earlier_reached (isClosure.next? file_split earlier_reached) readable ?_
    rw [importsOf, readable, missing?_eq_none_iff]
    exact fun specifier mem => (inside specifier mem).exists_target

end IsClosure

/-- The files that result from discovery are the closure. -/
theorem discover_eq_ok_iff :
    tree.discover primary text = .ok closure ↔ tree.IsClosure primary text closure := by
  rw [discover_eq_iff_ends]
  refine ⟨isClosure_of_ends, fun isClosure => ?_⟩
  exact ⟨isClosure.reached (List.append_nil closure).symm, isClosure.breadth_first.symm⟩

/-! ## Discovery ends -/

/-- Discovery that gives up when it has read as many files as the budget allows. -/
def discoverFromWithin (tree : FileTree) :
    Nat → List String → List Path → Option (Except AssemblyError (List Path))
  | _, _, [] => some (.ok [])
  | 0, _, _ :: _ => none
  | budget + 1, seen, file :: rest =>
    match tree.readText file with
    | .error error => some (.error (.file file error))
    | .ok content =>
      match addFiles (tree.requireSpecifier file) seen (relativeImports content) with
      | .error error => some (.error error)
      | .ok (after, others) =>
        (tree.discoverFromWithin budget after (rest ++ others)).map (Except.map (file :: ·))

/-- Discovery that gives up after so many files. -/
def discoverWithin (tree : FileTree) (primary : Path) (text : String) (budget : Nat) :
    Option (Except AssemblyError (List Path)) :=
  match addFiles (tree.requireSpecifier primary) primary.fileName?.toList
    (relativeReExports text) with
  | .error error => some (.error error)
  | .ok (seen, files) => tree.discoverFromWithin budget seen files

/-- The names not yet seen and the files not yet read are enough of a budget. -/
theorem discoverFromWithin_eq {budget : Nat} {seen : List String}
    (enough : unseen tree.names seen + files.length ≤ budget) :
    tree.discoverFromWithin budget seen files = some (tree.discoverFrom seen files) := by
  induction budget generalizing seen files with
  | zero =>
    have no_files : files = [] := List.eq_nil_of_length_eq_zero (by omega)
    rw [no_files, discoverFromWithin, discoverFrom]
  | succ budget ih =>
    cases files with
    | nil => rw [discoverFromWithin, discoverFrom]
    | cons file rest =>
      rw [discoverFromWithin, discoverFrom_cons]
      cases readable : tree.readText file with
      | error error => rfl
      | ok content =>
        have imports_eq : tree.importsOf file = relativeImports content := by
          rw [importsOf, readable]
        rw [imports_eq]
        cases added : addFiles (tree.requireSpecifier file) seen (relativeImports content) with
        | error error =>
          rcases missing?_of_addFiles_eq_error added with ⟨specifier, missing, rfl⟩
          simp only [added, missing]
        | ok step =>
          rcases step with ⟨after, others⟩
          have decreases :=
            addFiles_decreases (fun _ _ => fileName?_of_requireSpecifier) added
          rcases missing?_of_addFiles_eq_ok added with ⟨resolved, rfl, rfl⟩
          rw [List.length_cons] at enough
          simp only [added, resolved]
          rw [ih (by rw [List.length_append]; omega), Option.map_some]

/-- Discovery visits no more files than the tree has names. -/
theorem discoverWithin_eq (spare : Nat) :
    tree.discoverWithin primary text (tree.names.length + spare) =
      some (tree.discover primary text) := by
  rw [discoverWithin, discover, ← relativeReExports]
  cases added : addFiles (tree.requireSpecifier primary) primary.fileName?.toList
    (relativeReExports text) with
  | error error => rfl
  | ok step =>
    rcases step with ⟨seen, files⟩
    have decreases := addFiles_decreases (fun _ _ => fileName?_of_requireSpecifier) added
    have unseen_le : unseen tree.names primary.fileName?.toList ≤ tree.names.length :=
      List.countP_le_length
    exact discoverFromWithin_eq (by omega)

/-- Discovery ends on every tree. Its result is the closure of the declaration file in breadth-first
order, or else the first specifier or file that cannot be followed in that order. -/
theorem discover_finds_closure (tree : FileTree) (primary : Path) (text : String) :
    (∀ spare, tree.discoverWithin primary text (tree.names.length + spare) =
        some (tree.discover primary text)) ∧
      (∀ closure, tree.discover primary text = .ok closure ↔
        tree.IsClosure primary text closure) ∧
      ∀ error, tree.discover primary text = .error error ↔ tree.Fails primary text error :=
  ⟨discoverWithin_eq, fun _ => discover_eq_ok_iff, fun error => discover_eq_iff_ends (.error error)⟩

end FileTree

end Componentry
