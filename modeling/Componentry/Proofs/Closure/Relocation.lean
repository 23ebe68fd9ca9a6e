import Componentry.Proofs.FileTree.Growth
import Componentry.Proofs.Path.Normal

/-!
# Specifiers of files that are moved together

Files that keep their places relative to each other can be moved to another
directory without changing the specifiers in them, under two conditions. Where
they were moved to, no other file may be in the way of a specifier, because it
could be tried first. And a specifier must not leave the directories that the
files are in: a directory that it comes through on the way has to be there
afterwards.

`Relocation` says that files were moved from below one place to below another.
The paths that a specifier may stand for are the same ones seen from a file and
from its copy (`candidates_join`), and each of them is a file after the move if it
was one that was moved (`Relocation.isFile_iff`).
-/

namespace Componentry

namespace Path

theorem mapLast_join (base : Path) {other : Path} (relative : other.rooted = false)
    (nonempty : other.pieces ≠ []) (change : String → String) :
    (base.join other).mapLast change = base.join (other.mapLast change) := by
  have changed_relative : (other.mapLast change).rooted = false := relative
  rw [join_eq base relative nonempty, join_eq base changed_relative (by simp [mapLast]), mapLast,
    mapLast, List.getLast?_append_of_ne_nil _ nonempty, List.dropLast_append_of_ne_nil nonempty,
    List.append_assoc]

theorem join_join (base : Path) {middle other : Path} (relative : middle.rooted = false)
    (nonempty : middle.pieces ≠ []) (other_relative : other.rooted = false)
    (other_nonempty : other.pieces ≠ []) :
    (base.join middle).join other = base.join (middle.join other) := by
  have stem_eq : (base.join middle).stemPieces = base.stemPieces ++ middle.stemPieces := by
    rw [join_eq base relative nonempty]
    simp only [stemPieces, List.getLast?_append_of_ne_nil _ nonempty,
      List.dropLast_append_of_ne_nil nonempty]
    split <;> rfl
  have joined_nonempty : (middle.join other).pieces ≠ [] := by
    rw [join_eq middle other_relative other_nonempty]
    simp [other_nonempty]
  rw [join_eq _ other_relative other_nonempty, stem_eq, rooted_join base relative,
    join_eq base ((rooted_join middle other_relative).trans relative) joined_nonempty,
    join_eq middle other_relative other_nonempty, List.append_assoc]

end Path

variable {candidate : Path} {specifier : String}

namespace FileTree

variable {target : Path}

/-! ## Candidates -/

theorem candidates_join (base : Path) (relative : target.rooted = false)
    (nonempty : target.pieces ≠ []) :
    candidates (base.join target) = (candidates target).map base.join := by
  have last_eq : (base.join target).pieces.getLast? = target.pieces.getLast? := by
    rw [Path.join_eq base relative nonempty, List.getLast?_append_of_ne_nil _ nonempty]
  have index_eq := Path.join_join base relative nonempty
    (show (⟨false, ["index" ++ declarationSuffix]⟩ : Path).rooted = false from rfl) (by simp)
  simp only [candidates, last_eq, Path.mapLast_join base relative nonempty, index_eq,
    List.map_append, List.map_cons, List.map_nil]
  congr 2
  · congr 1
    cases stem? (target.pieces.getLast?.getD "") ".js" <;> rfl
  · split <;> rfl

theorem steps_of_front (nonempty : target.pieces ≠ []) :
    target.pieces.dropLast.filterMap Path.part? = target.steps ∨
      target.pieces.dropLast.filterMap Path.part? = target.steps.dropLast := by
  rcases List.eq_nil_or_concat target.pieces with no_pieces | ⟨front, last, pieces_eq⟩
  · exact absurd no_pieces nonempty
  · rw [List.concat_eq_append] at pieces_eq
    rw [Path.steps, pieces_eq, List.dropLast_concat, List.filterMap_append, List.filterMap_cons]
    cases Path.part? last with
    | none => exact .inl (by simp)
    | some part => exact .inr (by simp)

/-- A candidate is a name in the directory that the specifier leads to, or in the one before it. -/
theorem candidate_cases (nonempty : target.pieces ≠ []) (mem : candidate ∈ candidates target) :
    candidate.rooted = target.rooted ∧ ∃ name, candidate.EndsIn name ∧
      (candidate.directory.steps = target.steps ∨
        candidate.directory.steps = target.steps.dropLast) := by
  have changed {change : String → String} {name : String}
      (named : Path.IsName name) (name_eq : change (target.pieces.getLast?.getD "") = name) :
      (target.mapLast change).rooted = target.rooted ∧ ∃ name, (target.mapLast change).EndsIn name ∧
        ((target.mapLast change).directory.steps = target.steps ∨
          (target.mapLast change).directory.steps = target.steps.dropLast) := by
    have pieces_eq : (target.mapLast change).pieces = target.pieces.dropLast ++ [name] := by
      rw [Path.mapLast, name_eq]
    have ends : (target.mapLast change).EndsIn name := ⟨named, _, pieces_eq⟩
    refine ⟨rfl, name, ends, ?_⟩
    rw [ends.steps_directory pieces_eq]
    exact steps_of_front nonempty
  unfold candidates at mem
  rcases List.mem_append.1 mem with mem | mem
  rcases List.mem_append.1 mem with mem | mem
  rcases List.mem_append.1 mem with mem | mem
  · rw [List.mem_singleton.1 mem]
    exact changed (isName_of_suffix rfl) rfl
  · split at mem
    · rw [List.mem_singleton.1 mem]
      exact changed (isName_of_suffix rfl) rfl
    · simp at mem
  · split at mem
    · rename_i suffixed
      rw [List.mem_singleton.1 mem]
      rcases Option.isSome_iff_exists.1 suffixed with ⟨stem, found⟩
      exact changed (isName_of_suffix (eq_append_of_stem? found)) rfl
    · simp at mem
  · rw [List.mem_singleton.1 mem]
    let index : Path := ⟨false, ["index" ++ declarationSuffix]⟩
    have index_ends : index.EndsIn ("index" ++ declarationSuffix) :=
      ⟨isName_of_suffix rfl, [], rfl⟩
    have ends : (target.join index).EndsIn _ := index_ends.join rfl
    refine ⟨Path.rooted_join target rfl, _, ends, .inl ?_⟩
    have steps_eq := ends.steps_eq
    rw [Path.steps_join target rfl, index_ends.steps_eq, ← List.append_assoc] at steps_eq
    have front_eq := (List.append_inj' steps_eq rfl).1
    have index_pieces : index.pieces = [] ++ ["index" ++ declarationSuffix] := rfl
    rw [← front_eq, index_ends.steps_directory index_pieces]
    exact List.append_nil target.steps

end FileTree

namespace Path

theorem ofText_of_isRelative (relative : Statement.isRelative specifier = true) :
    (ofText specifier).rooted = false ∧ (ofText specifier).pieces ≠ [] := by
  have starts : ∃ rest, specifier.toList = '.' :: rest := by
    rw [Statement.isRelative, Bool.or_eq_true, String.startsWith_string_iff,
      String.startsWith_string_iff] at relative
    rcases relative with ⟨rest, rest_eq⟩ | ⟨rest, rest_eq⟩
    · exact ⟨'/' :: rest, rest_eq.symm⟩
    · exact ⟨'.' :: '/' :: rest, rest_eq.symm⟩
  rcases starts with ⟨rest, chars_eq⟩
  rw [ofText, chars_eq]
  simp [Text.pieces_ne_nil]

end Path

namespace FileTree

variable {names : List String} {files : List (List String)} {inside : List String → Bool}
  {parts : List Path.Part} {tree : FileTree} {place : Place}

theorem resolveSpecifier_eq (tree : FileTree) (importer : Path)
    (relative : Statement.isRelative specifier = true) :
    tree.resolveSpecifier importer specifier =
      ((candidates (.ofText specifier)).find? fun candidate =>
        tree.isFile (importer.directory.join candidate)).map fun candidate =>
          (importer.directory.join candidate).normalize := by
  rcases Path.ofText_of_isRelative relative with ⟨not_rooted, nonempty⟩
  unfold resolveSpecifier
  rw [candidates_join _ not_rooted nonempty, List.find?_map, Option.map_map]
  rfl

/-! ## Directories that specifiers come through -/

/-- Whether steps stay in some directories, from the names where they start. Only the last step may
lead to a name that is none of these directories. -/
def staysInside (inside : List String → Bool) (names : List String) : List Path.Part → Bool
  | [] => true
  | .root :: _ => false
  | .current :: rest => staysInside inside names rest
  | .parent :: rest => !names.isEmpty && staysInside inside names.dropLast rest
  | .name name :: rest =>
    rest.isEmpty || (inside (names ++ [name]) && staysInside inside (names ++ [name]) rest)

theorem exists_descent? (stays : staysInside inside names parts = true) :
    ∃ after, Path.descent? names parts = some after := by
  fun_induction staysInside inside names parts with
  | case1 names => exact ⟨names, rfl⟩
  | case2 => simp at stays
  | case3 names rest ih => exact ih stays
  | case4 names rest ih =>
    rw [Bool.and_eq_true, Bool.not_eq_true'] at stays
    rw [Path.descent?, stays.1, if_neg Bool.false_ne_true]
    exact ih stays.2
  | case5 names name rest ih =>
    rw [Bool.or_eq_true, Bool.and_eq_true] at stays
    rcases stays with last | ⟨_, stays⟩
    · rw [List.isEmpty_iff.1 last]
      exact ⟨names ++ [name], rfl⟩
    · exact ih stays

theorem staysInside_dropLast (stays : staysInside inside names parts = true) :
    staysInside inside names parts.dropLast = true := by
  fun_induction staysInside inside names parts with
  | case1 names => rfl
  | case2 => simp at stays
  | case3 names rest ih =>
    cases rest with
    | nil => rfl
    | cons part rest => exact ih stays
  | case4 names rest ih =>
    rw [Bool.and_eq_true] at stays
    cases rest with
    | nil => rfl
    | cons part rest =>
      rw [List.dropLast_cons_cons, staysInside, Bool.and_eq_true]
      exact ⟨stays.1, ih stays.2⟩
  | case5 names name rest ih =>
    cases rest with
    | nil => rfl
    | cons part rest =>
      rw [List.isEmpty_cons, Bool.false_or, Bool.and_eq_true] at stays
      rw [List.dropLast_cons_cons, staysInside, Bool.or_eq_true, Bool.and_eq_true]
      exact .inr ⟨stays.1, ih stays.2⟩

variable {after : List String} {importer : Path}

/-- Steps that stay in directories of a tree can be followed, whatever the tree is, unless a name is
too long. -/
theorem opens_iff_isShort (directories : ∀ names, inside names = true →
      tree.node? (place.descend names) = some .directory)
    (upward : ∀ names, inside names = true → inside names.dropLast = true)
    (stays : staysInside inside names parts = true) (starts : inside names = true)
    (descent : Path.descent? names parts = some after) (ends : inside after = true) :
    tree.Opens (place.descend names) parts ↔ ∀ part ∈ parts, IsShort part := by
  fun_induction staysInside inside names parts with
  | case1 names => simp [Opens, directories names starts]
  | case2 => simp at stays
  | case3 names rest ih =>
    rw [Opens, Place.move, ih stays starts descent]
    simp [directories names starts, IsShort]
  | case4 names rest ih =>
    rw [Bool.and_eq_true, Bool.not_eq_true'] at stays
    rw [Path.descent?, stays.1, if_neg Bool.false_ne_true] at descent
    rw [Opens, Place.move, Place.parent_descend (by simpa using stays.1),
      ih stays.2 (upward names starts) descent]
    simp [directories names starts, IsShort]
  | case5 names name rest ih =>
    rw [Bool.or_eq_true, Bool.and_eq_true] at stays
    rw [Opens, Place.move, Place.child_descend, List.forall_mem_cons]
    rcases stays with last | ⟨entered, stays⟩
    · rw [List.isEmpty_iff] at last
      subst last
      cases descent
      simp [Opens, directories names starts, directories _ ends]
    · rw [ih stays entered descent]
      simp [directories names starts]

/-! ## Relocation -/

/-- Whether a directory is one that files are in, at any depth. -/
def holds (files : List (List String)) (names : List String) : Bool :=
  files.any fun file => names.isPrefixOf file.dropLast

theorem holds_iff :
    holds files names = true ↔ ∃ file ∈ files, names <+: file.dropLast := by
  simp [holds, List.any_eq_true]

theorem holds_dropLast (held : holds files names = true) : holds files names.dropLast = true := by
  rcases holds_iff.1 held with ⟨file, mem, before⟩
  exact holds_iff.2 ⟨file, mem, (List.dropLast_prefix names).trans before⟩

theorem holds_of_mem {name : String} (mem : names ++ [name] ∈ files) : holds files names = true :=
  holds_iff.2 ⟨names ++ [name], mem, by simp⟩

/-- Files, given by names, are below one place in a tree, and together with some others they are all
the files below another place in another tree. -/
structure Relocation (tree made : FileTree) (source target : Place) (files : List (List String))
    (others : List Place) : Prop where
  coherent : tree.Coherent
  made_coherent : made.Coherent
  nonempty : ∀ names ∈ files, names ≠ []
  present : ∀ names ∈ files, tree.HasFile (source.descend names)
  made_iff : ∀ names, made.HasFile (target.descend names) ↔
    names ∈ files ∨ target.descend names ∈ others

theorem directory_of_holds (coherent : tree.Coherent) (nonempty : ∀ names ∈ files, names ≠ [])
    (present : ∀ names ∈ files, tree.HasFile (place.descend names))
    (held : holds files names = true) : tree.node? (place.descend names) = some .directory := by
  rcases holds_iff.1 held with ⟨file, mem, rest, rest_eq⟩
  have file_eq : file = names ++ (rest ++ [file.getLast (nonempty file mem)]) := by
    rw [← List.append_assoc, rest_eq, List.dropLast_append_getLast]
  have found := (present file mem).node?_ne_none
  rw [file_eq] at found
  exact coherent.directory_of_below (by simp) found

/-- A path below the directory of a file. -/
theorem isFile_join_iff {own name : String} (reaches : tree.Reaches importer own)
    (directory : importer.directory.place = place.descend names)
    (relative : candidate.rooted = false) (ends : candidate.EndsIn name)
    (descent : Path.descent? names candidate.directory.steps = some after)
    (legal : pathError? (importer.directory.join candidate) = none) :
    tree.isFile (importer.directory.join candidate) = true ↔
      tree.Opens (place.descend names) candidate.directory.steps ∧
        name.utf8ByteSize ≤ maxName ∧ tree.HasFile (place.descend (after ++ [name])) := by
  have joined : (importer.directory.join candidate).EndsIn name := ends.join relative
  have steps_eq : (importer.directory.join candidate).directory.steps =
      importer.directory.steps ++ candidate.directory.steps := by
    have all_steps := joined.steps_eq
    rw [Path.steps_join _ relative, ends.steps_eq, ← List.append_assoc] at all_steps
    exact (List.append_inj' all_steps rfl).1.symm
  have start_eq : start (importer.directory.join candidate) = start importer :=
    Path.start_eq_of_rooted ((Path.rooted_join _ relative).trans reaches.ends.rooted_directory)
  have directory_eq : importer.directory.steps.foldl Place.move (start importer) =
      place.descend names := by
    rw [← directory, Path.place, Path.start_eq_of_rooted reaches.ends.rooted_directory]
  have place_eq : (importer.directory.join candidate).place = place.descend (after ++ [name]) := by
    rw [Path.place_join _ relative, directory, ends.steps_eq, List.foldl_append,
      Path.foldl_move_of_descent? descent]
    exact Place.child_descend place after name
  rw [isFile_iff joined legal, steps_eq, start_eq, opens_append, directory_eq, place_eq]
  simp [reaches.opens]

namespace Relocation

variable {tree made : FileTree} {source target : Place} {files : List (List String)}
  {others : List Place}

section Copy

variable {copy : Path} {own copied : String} {names : List String}
  (relocation : tree.Relocation made source target files others)
  (reaches : tree.Reaches importer own) (copy_reaches : made.Reaches copy copied)
  (directory : importer.directory.place = source.descend names)
  (copy_directory : copy.directory.place = target.descend names) (held : holds files names = true)
include relocation reaches copy_reaches directory copy_directory held

/-- What a specifier may stand for is a file after the move exactly if it is one that was moved. -/
theorem isFile_iff {name : String} (relative : candidate.rooted = false)
    (ends : candidate.EndsIn name)
    (stays : staysInside (holds files) names candidate.directory.steps = true)
    (descent : Path.descent? names candidate.directory.steps = some after)
    (free : target.descend (after ++ [name]) ∉ others)
    (legal : pathError? (importer.directory.join candidate) = none)
    (copy_legal : pathError? (copy.directory.join candidate) = none) :
    made.isFile (copy.directory.join candidate) = true ↔
      tree.isFile (importer.directory.join candidate) = true ∧ after ++ [name] ∈ files := by
  rw [isFile_join_iff reaches directory relative ends descent legal,
    isFile_join_iff copy_reaches copy_directory relative ends descent copy_legal,
    relocation.made_iff, or_iff_left free]
  by_cases moved : after ++ [name] ∈ files
  · -- Both directories are there, and the steps are the same.
    have ends_inside := holds_of_mem moved
    have opens := opens_iff_isShort
      (fun _ => directory_of_holds relocation.coherent relocation.nonempty relocation.present)
      (fun _ => holds_dropLast) stays held descent ends_inside
    have copy_opens := opens_iff_isShort
      (fun _ => directory_of_holds relocation.made_coherent relocation.nonempty
        fun names mem => (relocation.made_iff names).2 (.inl mem))
      (fun _ => holds_dropLast) stays held descent ends_inside
    rw [opens, copy_opens]
    simp [moved, relocation.present _ moved]
  · simp [moved]

/-- What is tried from a file and from its copy agrees, as far as it leads to files moved. -/
theorem candidate_agrees (relative : Statement.isRelative specifier = true)
    (stays : staysInside (holds files) names (Path.ofText specifier).steps = true)
    (mem : candidate ∈ candidates (.ofText specifier))
    (legal : pathError? (importer.directory.join candidate) = none ∧
      pathError? (copy.directory.join candidate) = none)
    (free : (copy.directory.join candidate).place ∉ others) :
    candidate.rooted = false ∧ ∃ after, Path.descent? names candidate.steps = some after ∧
      (importer.directory.join candidate).place = source.descend after ∧
      (made.isFile (copy.directory.join candidate) = true ↔
        tree.isFile (importer.directory.join candidate) = true ∧ after ∈ files) := by
  rcases Path.ofText_of_isRelative relative with ⟨not_rooted, nonempty⟩
  rcases candidate_cases nonempty mem with ⟨rooted_eq, name, ends, front⟩
  have candidate_relative := rooted_eq.trans not_rooted
  have stays_front : staysInside (holds files) names candidate.directory.steps = true := by
    rcases front with front | front
    · rw [front]
      exact stays
    · rw [front]
      exact staysInside_dropLast stays
  rcases exists_descent? stays_front with ⟨after, descent⟩
  have whole : Path.descent? names candidate.steps = some (after ++ [name]) := by
    rw [ends.steps_eq, Path.descent?_append, descent]
    rfl
  rw [Path.place_join _ candidate_relative, copy_directory, Path.foldl_move_of_descent? whole]
    at free
  refine ⟨candidate_relative, after ++ [name], whole, ?_, ?_⟩
  · rw [Path.place_join _ candidate_relative, directory]
    exact Path.foldl_move_of_descent? whole source
  · exact relocation.isFile_iff reaches copy_reaches directory copy_directory held
      candidate_relative ends stays_front descent free legal.1 legal.2

/-- A specifier leads from the copy of a file to the copy of what it led to. -/
theorem resolveSpecifier_eq {found : Path} (relative : Statement.isRelative specifier = true)
    (stays : staysInside (holds files) names (Path.ofText specifier).steps = true)
    (legal : ∀ candidate ∈ candidates (.ofText specifier),
      pathError? (importer.directory.join candidate) = none ∧
        pathError? (copy.directory.join candidate) = none)
    (free : ∀ candidate ∈ candidates (.ofText specifier),
      (copy.directory.join candidate).place ∉ others)
    (resolved : tree.resolveSpecifier importer specifier = some found) {moved : List String}
    (moved_mem : moved ∈ files) (found_names : found.place.names = source.names ++ moved) :
    ∃ candidate, candidate.rooted = false ∧
      Path.descent? names candidate.steps = some moved ∧
      made.resolveSpecifier copy specifier = some (copy.directory.join candidate).normalize := by
  have agrees candidate mem := relocation.candidate_agrees reaches copy_reaches directory
    copy_directory held relative stays mem (legal candidate mem) (free candidate mem)
  rw [FileTree.resolveSpecifier_eq tree importer relative] at resolved
  rcases Option.map_eq_some_iff.1 resolved with ⟨candidate, first, rfl⟩
  rcases List.find?_eq_some_iff_append.1 first with ⟨file, before, after, all_eq, earlier_not⟩
  have mem : candidate ∈ candidates (.ofText specifier) := by
    rw [all_eq]
    simp
  rcases agrees candidate mem with ⟨candidate_relative, led, descent, place_eq, copy_iff⟩
  have led_eq : led = moved := by
    rw [Path.names_place_normalize, place_eq, Place.names_descend] at found_names
    exact List.append_cancel_left found_names
  subst led_eq
  refine ⟨candidate, candidate_relative, descent, ?_⟩
  rw [FileTree.resolveSpecifier_eq made copy relative, Option.map_eq_some_iff]
  refine ⟨candidate, List.find?_eq_some_iff_append.2 ⟨copy_iff.2 ⟨file, moved_mem⟩, before, after,
    all_eq, ?_⟩, rfl⟩
  intro earlier earlier_mem
  rcases agrees earlier (by rw [all_eq]; exact List.mem_append_left _ earlier_mem) with
    ⟨_, _, _, _, earlier_iff⟩
  have not_file := earlier_not earlier earlier_mem
  rw [Bool.not_eq_true'] at not_file ⊢
  rw [← Bool.not_eq_true, earlier_iff, not_file]
  simp

end Copy

end Relocation

end FileTree

end Componentry
