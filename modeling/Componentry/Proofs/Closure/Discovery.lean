import Mathlib.Data.List.Nodup
import Componentry.Closure

/-!
# Discovery of closures

The closure of a declaration file is described without the walk that finds it.
A file *leads to* the files that its relative specifiers stand for. The files
that have been found when some were read (`found`) are what the declaration
file and the files read lead to, in that order, with the first file of each
name. Discovery reads the next file that was found until there is none, and
`Reached` says which lists of files it can have read.

A closure is therefore a list of files that is its own `found`, in which each
file is led to by the declaration file or by an earlier file. There is only one
such list, and it is the result of the discovery; if there is none, then the
first specifier or file that cannot be followed is the error.
-/

namespace Componentry

variable {seen : List String} {files : List Path}

/-- The name that files are told apart by. -/
def Path.baseName (path : Path) : String :=
  path.fileName?.getD ""

/-! ## The first file of each name -/

/-- The files whose names were not seen, the first one of each name. -/
def newFiles : List String → List Path → List Path
  | _, [] => []
  | seen, file :: rest =>
    if file.baseName ∈ seen then newFiles seen rest
    else file :: newFiles (file.baseName :: seen) rest

/-- The names seen when files were added. -/
def namesAfter (seen : List String) (files : List Path) : List String :=
  (files.map Path.baseName).reverse ++ seen

theorem mem_namesAfter {name : String} :
    name ∈ namesAfter seen files ↔ name ∈ seen ∨ name ∈ files.map Path.baseName := by
  rw [namesAfter, List.mem_append, List.mem_reverse, or_comm]

theorem namesAfter_cons (seen : List String) (file : Path) (rest : List Path) :
    namesAfter seen (file :: rest) = namesAfter (file.baseName :: seen) rest := by
  simp [namesAfter]

theorem namesAfter_append (seen : List String) (earlier later : List Path) :
    namesAfter seen (earlier ++ later) = namesAfter (namesAfter seen earlier) later := by
  simp [namesAfter]

theorem newFiles_append (seen : List String) (earlier later : List Path) :
    newFiles seen (earlier ++ later) =
      newFiles seen earlier ++ newFiles (namesAfter seen (newFiles seen earlier)) later := by
  induction earlier generalizing seen with
  | nil => simp [newFiles, namesAfter]
  | cons file rest ih =>
    by_cases known : file.baseName ∈ seen
    · simp only [List.cons_append, newFiles, if_pos known, ih]
    · simp only [List.cons_append, newFiles, if_neg known, ih, namesAfter_cons]

variable {file : Path}

theorem mem_of_mem_newFiles (mem : file ∈ newFiles seen files) : file ∈ files := by
  induction files generalizing seen with
  | nil => simp [newFiles] at mem
  | cons head rest ih =>
    rw [newFiles] at mem
    split at mem
    · exact List.mem_cons_of_mem head (ih mem)
    · rcases List.mem_cons.1 mem with rfl | mem
      · exact List.mem_cons_self
      · exact List.mem_cons_of_mem head (ih mem)

/-- New files have names that were not seen, and no two of them have the same. -/
theorem nodup_namesAfter_newFiles (nodup : seen.Nodup) (files : List Path) :
    (namesAfter seen (newFiles seen files)).Nodup := by
  induction files generalizing seen with
  | nil => exact nodup
  | cons file rest ih =>
    rw [newFiles]
    split
    · exact ih nodup
    · rename_i fresh
      rw [namesAfter_cons]
      exact ih (List.nodup_cons.2 ⟨fresh, nodup⟩)

/-- Every name is that of a new file or was seen. -/
theorem baseName_mem_namesAfter (seen : List String) (mem : file ∈ files) :
    file.baseName ∈ namesAfter seen (newFiles seen files) := by
  induction files generalizing seen with
  | nil => simp at mem
  | cons head rest ih =>
    rw [newFiles]
    split
    · rename_i known
      rcases List.mem_cons.1 mem with rfl | mem
      · exact mem_namesAfter.2 (.inl known)
      · exact ih seen mem
    · rw [namesAfter_cons]
      rcases List.mem_cons.1 mem with rfl | mem
      · exact mem_namesAfter.2 (.inl List.mem_cons_self)
      · exact ih _ mem

namespace FileTree

variable {tree : FileTree} {importer file : Path} {specifiers seen : List String}

/-! ## What files lead to -/

/-- What a text re-exports from other files. -/
def relativeReExports (text : String) : List String :=
  ((Statement.reExports text).map ReExport.specifier).filter Statement.isRelative

/-- What a text imports from other files. -/
def relativeImports (text : String) : List String :=
  (Statement.importSpecifiers text).filter Statement.isRelative

/-- The relative specifiers that a file imports, if it can be read. -/
def importsOf (tree : FileTree) (file : Path) : List String :=
  match tree.readText file with
  | .ok text => relativeImports text
  | .error _ => []

/-- The first specifier that stands for no file. -/
def missing? (tree : FileTree) (importer : Path) (specifiers : List String) : Option String :=
  specifiers.find? fun specifier => (tree.resolveSpecifier importer specifier).isNone

/-- The files that specifiers stand for. -/
def targets (tree : FileTree) (importer : Path) (specifiers : List String) : List Path :=
  specifiers.filterMap (tree.resolveSpecifier importer)

theorem missing?_eq_none_iff :
    tree.missing? importer specifiers = none ↔
      ∀ specifier ∈ specifiers, ∃ file, tree.resolveSpecifier importer specifier = some file := by
  simp [missing?, Option.ne_none_iff_exists']

theorem mem_targets :
    file ∈ tree.targets importer specifiers ↔
      ∃ specifier ∈ specifiers, tree.resolveSpecifier importer specifier = some file :=
  List.mem_filterMap

theorem fileName?_of_mem_targets (mem : file ∈ tree.targets importer specifiers) :
    file.fileName? = some file.baseName := by
  rcases mem_targets.1 mem with ⟨specifier, _, resolved⟩
  rcases fileName?_of_resolveSpecifier resolved with ⟨name, named, _⟩
  rw [Path.baseName, named]
  rfl

/-- Files are added up to the first specifier that stands for none. -/
theorem addFiles_eq (tree : FileTree) (importer : Path) (seen specifiers : List String) :
    addFiles (tree.requireSpecifier importer) seen specifiers =
      match tree.missing? importer specifiers with
      | some specifier => .error (.missingDependency importer specifier)
      | none =>
        let files := newFiles seen (tree.targets importer specifiers)
        .ok (namesAfter seen files, files) := by
  induction specifiers generalizing seen with
  | nil => rfl
  | cons specifier rest ih =>
    rw [addFiles]
    cases resolved : tree.resolveSpecifier importer specifier with
    | none => simp [requireSpecifier, missing?, resolved]
    | some file =>
      have missing_rest : tree.missing? importer (specifier :: rest) =
          tree.missing? importer rest := by
        simp [missing?, resolved]
      have targets_cons : tree.targets importer (specifier :: rest) =
          file :: tree.targets importer rest := by
        simp [targets, resolved]
      by_cases known : file.fileName?.getD "" ∈ seen
      · have new_eq : newFiles seen (file :: tree.targets importer rest) =
            newFiles seen (tree.targets importer rest) := if_pos known
        simp only [requireSpecifier, resolved, missing_rest, targets_cons, new_eq, if_pos known]
        exact ih seen
      · have new_eq : newFiles seen (file :: tree.targets importer rest) =
            file :: newFiles (file.baseName :: seen) (tree.targets importer rest) :=
          if_neg known
        simp only [requireSpecifier, resolved, missing_rest, targets_cons, new_eq, if_neg known,
          ih]
        cases tree.missing? importer rest with
        | some absent => rfl
        | none => rw [namesAfter_cons, Path.baseName]

theorem missing?_of_addFiles_eq_error {error : AssemblyError}
    (failed : addFiles (tree.requireSpecifier importer) seen specifiers = .error error) :
    ∃ specifier, tree.missing? importer specifiers = some specifier ∧
      error = .missingDependency importer specifier := by
  rw [addFiles_eq] at failed
  cases missing : tree.missing? importer specifiers with
  | none => simp [missing] at failed
  | some specifier =>
    simp only [missing, Except.error.injEq] at failed
    exact ⟨specifier, rfl, failed.symm⟩

variable {files : List Path}

theorem missing?_of_addFiles_eq_ok {after : List String}
    (added : addFiles (tree.requireSpecifier importer) seen specifiers = .ok (after, files)) :
    tree.missing? importer specifiers = none ∧
      files = newFiles seen (tree.targets importer specifiers) ∧ after = namesAfter seen files := by
  rw [addFiles_eq] at added
  cases missing : tree.missing? importer specifiers with
  | none =>
    simp only [missing, Except.ok.injEq, Prod.mk.injEq] at added
    rcases added with ⟨rfl, rfl⟩
    exact ⟨rfl, rfl, rfl⟩
  | some specifier => simp [missing] at added

/-! ## The files that discovery reads -/

variable (tree : FileTree) (primary : Path) (text : String)

/-- What is found when some files were read: what the declaration file and these files lead to. -/
def found (done : List Path) : List Path :=
  newFiles primary.fileName?.toList
    (tree.targets primary (relativeReExports text) ++
      done.flatMap fun file => tree.targets file (tree.importsOf file))

/-- The file that is read next. -/
def next? (done : List Path) : Option Path :=
  (tree.found primary text done)[done.length]?

/-- The files that were read, in order, at some point of the discovery. -/
inductive Reached : List Path → Prop
  | start : tree.missing? primary (relativeReExports text) = none → Reached []
  | read {done : List Path} {file : Path} {content : String} :
      Reached done → tree.next? primary text done = some file →
      tree.readText file = .ok content → tree.missing? file (tree.importsOf file) = none →
      Reached (done ++ [file])

/-- The specifier or file at which discovery ends. -/
inductive Fails : AssemblyError → Prop
  | reExport {specifier : String} :
      tree.missing? primary (relativeReExports text) = some specifier →
      Fails (.missingDependency primary specifier)
  | unreadable {done : List Path} {file : Path} {error : FileError} :
      tree.Reached primary text done → tree.next? primary text done = some file →
      tree.readText file = .error error → Fails (.file file error)
  | imported {done : List Path} {file : Path} {specifier : String} :
      tree.Reached primary text done → tree.next? primary text done = some file →
      tree.missing? file (tree.importsOf file) = some specifier →
      Fails (.missingDependency file specifier)

/-- How discovery ends. -/
def Ends : Except AssemblyError (List Path) → Prop
  | .ok closure => tree.Reached primary text closure ∧ tree.found primary text closure = closure
  | .error error => tree.Fails primary text error

variable {tree primary text}

theorem found_append (done later : List Path) :
    tree.found primary text (done ++ later) =
      tree.found primary text done ++
        newFiles (namesAfter primary.fileName?.toList (tree.found primary text done))
          (later.flatMap fun file => tree.targets file (tree.importsOf file)) := by
  simp only [found, List.flatMap_append, ← List.append_assoc, newFiles_append]

/-- A file that waits is the next one. -/
theorem next?_of_found {done waiting : List Path}
    (found_eq : tree.found primary text done = done ++ file :: waiting) :
    tree.next? primary text done = some file := by
  rw [next?, found_eq, List.getElem?_append_right (Nat.le_refl _), Nat.sub_self,
    List.getElem?_cons_zero]

theorem addFiles_importsOf {content : String} (readable : tree.readText file = .ok content) :
    addFiles (tree.requireSpecifier file) seen
        ((Statement.importSpecifiers content).filter Statement.isRelative) =
      addFiles (tree.requireSpecifier file) seen (tree.importsOf file) := by
  rw [importsOf, readable]
  rfl

theorem exists_readText_of_missing? {specifier : String}
    (missing : tree.missing? file (tree.importsOf file) = some specifier) :
    ∃ content, tree.readText file = .ok content := by
  cases readable : tree.readText file with
  | error error => simp [importsOf, readable, missing?] at missing
  | ok content => exact ⟨content, rfl⟩

/-- One step of the discovery. -/
theorem discoverFrom_cons (seen : List String) (file : Path) (rest : List Path) :
    tree.discoverFrom seen (file :: rest) =
      match tree.readText file with
      | .error error => .error (.file file error)
      | .ok _ =>
        match tree.missing? file (tree.importsOf file) with
        | some specifier => .error (.missingDependency file specifier)
        | none =>
          let others := newFiles seen (tree.targets file (tree.importsOf file))
          (tree.discoverFrom (namesAfter seen others) (rest ++ others)).map (file :: ·) := by
  rw [discoverFrom]
  cases readable : tree.readText file with
  | error error => rfl
  | ok content =>
    simp only
    split
    · rename_i error failed
      rcases missing?_of_addFiles_eq_error ((addFiles_importsOf readable).symm.trans failed)
        with ⟨specifier, missing, rfl⟩
      rw [missing]
    · rename_i after others added
      rcases missing?_of_addFiles_eq_ok ((addFiles_importsOf readable).symm.trans added)
        with ⟨resolved, rfl, rfl⟩
      rw [resolved]
      simp only
      cases tree.discoverFrom _ (rest ++ _) <;> rfl

variable (tree primary text) in
theorem discover_eq :
    tree.discover primary text =
      match tree.missing? primary (relativeReExports text) with
      | some specifier => .error (.missingDependency primary specifier)
      | none =>
        let files :=
          newFiles primary.fileName?.toList (tree.targets primary (relativeReExports text))
        tree.discoverFrom (namesAfter primary.fileName?.toList files) files := by
  rw [discover, ← relativeReExports, addFiles_eq]
  cases tree.missing? primary (relativeReExports text) <;> rfl

theorem map_nil_append (outcome : Except AssemblyError (List Path)) :
    outcome.map ([] ++ ·) = outcome := by
  cases outcome <;> rfl

theorem map_append_cons (outcome : Except AssemblyError (List Path)) (done : List Path)
    (file : Path) :
    (outcome.map (file :: ·)).map (done ++ ·) = outcome.map (done ++ [file] ++ ·) := by
  cases outcome <;> simp [Except.map]

/-! ## The loop

`Loop` is what holds each time that discovery goes on to the next file: `seen` are the names of the
declaration file and of all that was found, and `files` is what was found and not read yet. -/

structure Loop (tree : FileTree) (primary : Path) (text : String) (done : List Path)
    (seen : List String) (files : List Path) : Prop where
  reached : tree.Reached primary text done
  found_eq : tree.found primary text done = done ++ files
  seen_eq : seen = namesAfter primary.fileName?.toList (tree.found primary text done)

namespace Loop

variable {done : List Path} {seen : List String}

theorem start (resolved : tree.missing? primary (relativeReExports text) = none) :
    let files := newFiles primary.fileName?.toList (tree.targets primary (relativeReExports text))
    tree.Loop primary text [] (namesAfter primary.fileName?.toList files) files := by
  have found_eq : tree.found primary text [] =
      newFiles primary.fileName?.toList (tree.targets primary (relativeReExports text)) := by
    simp [found]
  exact ⟨.start resolved, found_eq, by rw [found_eq]⟩

theorem read {rest : List Path} {content : String}
    (loop : tree.Loop primary text done seen (file :: rest))
    (readable : tree.readText file = .ok content)
    (resolved : tree.missing? file (tree.importsOf file) = none) :
    let others := newFiles seen (tree.targets file (tree.importsOf file))
    tree.Loop primary text (done ++ [file]) (namesAfter seen others) (rest ++ others) := by
  have found_eq : tree.found primary text (done ++ [file]) =
      tree.found primary text done ++ newFiles seen (tree.targets file (tree.importsOf file)) := by
    rw [found_append, loop.seen_eq]
    simp
  refine ⟨.read loop.reached (next?_of_found loop.found_eq) readable resolved, ?_, ?_⟩
  · rw [found_eq, loop.found_eq]
    simp
  · rw [found_eq, namesAfter_append, ← loop.seen_eq]

theorem exists_waiting (loop : tree.Loop primary text done seen files)
    (next : tree.next? primary text done = some file) : ∃ rest, files = file :: rest := by
  rw [next?, loop.found_eq, List.getElem?_append_right (Nat.le_refl _), Nat.sub_self] at next
  cases files with
  | nil => simp at next
  | cons head rest =>
    rw [List.getElem?_cons_zero, Option.some.injEq] at next
    exact ⟨rest, by rw [next]⟩

/-- The invariant of discovery holds to its end. -/
theorem ends (loop : tree.Loop primary text done seen files) :
    tree.Ends primary text ((tree.discoverFrom seen files).map (done ++ ·)) := by
  -- Along the walk `done` grows by the file that is read, and `Loop.read` keeps the invariant.
  fun_induction discoverFrom tree seen files generalizing done with
  | case1 seen =>
    refine ⟨?_, ?_⟩
    · simpa using loop.reached
    · simpa using loop.found_eq
  | case2 seen file rest error unreadable =>
    exact .unreadable loop.reached (next?_of_found loop.found_eq) unreadable
  | case3 seen file rest content readable _ error =>
    rename_i failed
    rcases missing?_of_addFiles_eq_error ((addFiles_importsOf readable).symm.trans failed)
      with ⟨specifier, missing, rfl⟩
    exact .imported loop.reached (next?_of_found loop.found_eq) missing
  | case4 seen file rest content readable _ after others added error failed =>
    rename_i ih
    rcases missing?_of_addFiles_eq_ok ((addFiles_importsOf readable).symm.trans added)
      with ⟨resolved, rfl, rfl⟩
    have ended := ih (loop.read readable resolved)
    rw [failed] at ended
    exact ended
  | case5 seen file rest content readable _ after others added closure succeeded =>
    rename_i ih
    rcases missing?_of_addFiles_eq_ok ((addFiles_importsOf readable).symm.trans added)
      with ⟨resolved, rfl, rfl⟩
    have ended := ih (loop.read readable resolved)
    rw [succeeded, ← map_append_cons] at ended
    exact ended

end Loop

/-- Discovery passes through every list of files that can be reached. -/
theorem Reached.exists_loop {done : List Path} (reached : tree.Reached primary text done) :
    ∃ seen files, tree.Loop primary text done seen files ∧
      tree.discover primary text = (tree.discoverFrom seen files).map (done ++ ·) := by
  induction reached with
  | start resolved =>
    refine ⟨_, _, .start resolved, ?_⟩
    rw [discover_eq, resolved, map_nil_append]
  | @read done file content reached next readable resolved ih =>
    rcases ih with ⟨seen, files, loop, discover_eq⟩
    rcases loop.exists_waiting next with ⟨rest, rfl⟩
    refine ⟨_, _, loop.read readable resolved, ?_⟩
    rw [discover_eq, discoverFrom_cons, readable, resolved]
    exact map_append_cons _ done file

/-- Discovery has one end, and it is the result. -/
theorem discover_eq_iff_ends (outcome : Except AssemblyError (List Path)) :
    tree.discover primary text = outcome ↔ tree.Ends primary text outcome := by
  constructor
  · rintro rfl
    rw [discover_eq]
    cases missing : tree.missing? primary (relativeReExports text) with
    | some specifier => exact .reExport missing
    | none =>
      have ended := (Loop.start missing).ends
      rw [map_nil_append] at ended
      exact ended
  · intro ended
    cases outcome with
    | ok closure =>
      rcases ended with ⟨reached, found_eq⟩
      rcases reached.exists_loop with ⟨seen, files, loop, discover_eq⟩
      have none_waiting : files = [] := by
        simpa [found_eq] using loop.found_eq
      rw [discover_eq, none_waiting, discoverFrom]
      simp [Except.map]
    | error error =>
      cases ended with
      | reExport missing => rw [discover_eq, missing]
      | unreadable reached next unreadable =>
        rcases reached.exists_loop with ⟨seen, files, loop, discover_eq⟩
        rcases loop.exists_waiting next with ⟨rest, rfl⟩
        rw [discover_eq, discoverFrom_cons, unreadable]
        rfl
      | imported reached next missing =>
        rcases reached.exists_loop with ⟨seen, files, loop, discover_eq⟩
        rcases loop.exists_waiting next with ⟨rest, rfl⟩
        rcases exists_readText_of_missing? missing with ⟨content, readable⟩
        rw [discover_eq, discoverFrom_cons, readable, missing]
        rfl

end FileTree

end Componentry
