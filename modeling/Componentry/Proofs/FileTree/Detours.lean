import Mathlib.Logic.Relation
import Componentry.Proofs.FileTree.Writing
import Componentry.Proofs.Path.Normal

/-!
# Detours

A path can be written in many ways that lead to the same file: with dots between
its pieces, and with detours, which go down to a directory that is there and back
up again. Paths that differ by these have the same last piece. What is before it
can be followed in both or in neither, leads to the same place, and leaves the
same parts when the path is normalized (`Alike`). Each of these is kept when more
steps are taken from there, so that nothing that is found from the directory of a
file depends on how the path of the file is written.
-/

namespace Componentry

namespace FileTree

variable {tree : FileTree} {path other : Path} {name : String}

/-- The second path is the first one with a dot or a detour before some of its pieces. -/
inductive Detour (tree : FileTree) : Path → Path → Prop
  | dot (rooted : Bool) (before after : List String) : after ≠ [] →
      Detour tree ⟨rooted, before ++ after⟩ ⟨rooted, before ++ "." :: after⟩
  | back (rooted : Bool) (before after : List String) (name : String) : after ≠ [] →
      Path.IsName name → tree.isDirectory ⟨rooted, before ++ [name]⟩ = true →
      Detour tree ⟨rooted, before ++ after⟩ ⟨rooted, before ++ name :: ".." :: after⟩

/-- The steps before the last piece of a path. -/
def approach (path : Path) : List Path.Part :=
  path.pieces.dropLast.filterMap Path.part?

structure Alike (tree : FileTree) (path other : Path) : Prop where
  rooted : path.rooted = other.rooted
  last : path.pieces.getLast? = other.pieces.getLast?
  opens : tree.Opens (start path) (approach path) ↔ tree.Opens (start other) (approach other)
  moved : (approach path).foldl Place.move (start path) =
    (approach other).foldl Place.move (start other)
  followed : (approach path).foldl Path.follow path.origin =
    (approach other).foldl Path.follow other.origin

namespace Alike

theorem refl (tree : FileTree) (path : Path) : tree.Alike path path :=
  ⟨rfl, rfl, Iff.rfl, rfl, rfl⟩

theorem symm (alike : tree.Alike path other) : tree.Alike other path :=
  ⟨alike.rooted.symm, alike.last.symm, alike.opens.symm, alike.moved.symm, alike.followed.symm⟩

theorem trans {third : Path} (first : tree.Alike path other) (second : tree.Alike other third) :
    tree.Alike path third :=
  ⟨first.rooted.trans second.rooted, first.last.trans second.last, first.opens.trans second.opens,
    first.moved.trans second.moved, first.followed.trans second.followed⟩

end Alike

theorem opens_of_isDirectory (directory : tree.isDirectory path = true) :
    tree.Opens (start path) path.steps := by
  rw [isDirectory, find?] at directory
  split at directory
  · rename_i place located
    have walked := walk_eq_ok (locate_eq_ok_iff.1 located).2
    exact walked.2 (any_isDirectory_iff.1 directory)
  · cases directory

theorem approach_append (rooted : Bool) (before : List String) {after : List String}
    (nonempty : after ≠ []) :
    approach ⟨rooted, before ++ after⟩ =
      before.filterMap Path.part? ++ approach ⟨rooted, after⟩ := by
  rw [approach, List.dropLast_append_of_ne_nil nonempty, List.filterMap_append, approach]

/-- Steps down to a directory and back up can be taken. -/
theorem opens_detour {place : Place} {front rest : List Path.Part}
    (there : tree.Opens place (front ++ [.name name])) :
    tree.Opens place (front ++ .name name :: .parent :: rest) ↔
      tree.Opens place (front ++ rest) := by
  rw [opens_append] at there ⊢
  rw [opens_append]
  rcases there with ⟨_, inside, short, child⟩
  apply and_congr_right
  intro _
  simp only [Opens, Place.move] at child ⊢
  rw [Place.parent_child]
  constructor
  · rintro ⟨_, _, _, _, opens⟩
    exact opens
  · intro opens
    exact ⟨inside, short, child, trivial, opens⟩

/-- One detour changes nothing. -/
theorem Detour.alike (detour : tree.Detour path other) : tree.Alike path other := by
  cases detour with
  | dot rooted before after nonempty =>
    have ignored : Path.part? "." = none := rfl
    have approach_eq : approach ⟨rooted, before ++ "." :: after⟩ =
        approach ⟨rooted, before ++ after⟩ := by
      rw [approach_append rooted before nonempty, ← List.singleton_append, ← List.append_assoc,
        approach_append rooted _ nonempty, List.filterMap_append]
      simp [ignored]
    refine ⟨rfl, ?_, ?_, ?_, ?_⟩
    · rw [← List.singleton_append, ← List.append_assoc, List.getLast?_append_of_ne_nil _ nonempty,
        List.getLast?_append_of_ne_nil _ nonempty]
    · rw [approach_eq]
      rfl
    · rw [approach_eq]
      rfl
    · rw [approach_eq]
      rfl
  | back rooted before after name nonempty named there =>
    have up : Path.part? ".." = some .parent := rfl
    have down : Path.part? name = some (.name name) := named
    have opens := opens_of_isDirectory there
    have pieces_eq : before ++ name :: ".." :: after = before ++ [name, ".."] ++ after := by
      simp
    have approach_eq : approach ⟨rooted, before ++ name :: ".." :: after⟩ =
        before.filterMap Path.part? ++ .name name :: .parent :: approach ⟨rooted, after⟩ := by
      rw [pieces_eq, approach_append rooted _ nonempty, List.filterMap_append]
      simp [up, down]
    have plain_eq := approach_append rooted before nonempty
    simp only [Path.steps, List.filterMap_append, List.filterMap_cons, down,
      List.filterMap_nil] at opens
    refine ⟨rfl, ?_, ?_, ?_, ?_⟩
    · rw [pieces_eq, List.getLast?_append_of_ne_nil _ nonempty,
        List.getLast?_append_of_ne_nil _ nonempty]
    · rw [approach_eq, plain_eq]
      exact (opens_detour opens).symm
    · rw [approach_eq, plain_eq, List.foldl_append, List.foldl_append, List.foldl_cons,
        List.foldl_cons, Place.move, Place.move, Place.parent_child]
      rfl
    · rw [approach_eq, plain_eq, List.foldl_append, List.foldl_append, List.foldl_cons,
        List.foldl_cons, Path.follow_name, Path.follow_parent_of_name]
      rfl

/-- Nor do any number of detours, in one path or in both. -/
theorem alike_of_detours (detours : Relation.EqvGen tree.Detour path other) :
    tree.Alike path other := by
  induction detours with
  | rel path other detour => exact detour.alike
  | refl path => exact .refl tree path
  | symm path other _ ih => exact ih.symm
  | trans path other third _ _ ih ih' => exact ih.trans ih'

end FileTree

theorem Path.EndsIn.getLast?_eq {path : Path} {name : String} (ends : path.EndsIn name) :
    path.pieces.getLast? = some name := by
  rcases ends.last with ⟨before, pieces_eq⟩
  rw [pieces_eq, List.getLast?_concat]

namespace FileTree

variable {tree : FileTree} {path other : Path} {name : String}

/-! ## What paths that are alike lead to -/

theorem approach_of_endsIn (ends : path.EndsIn name) : approach path = path.directory.steps := by
  rcases ends.last with ⟨before, pieces_eq⟩
  rw [ends.steps_directory pieces_eq, approach, pieces_eq, List.dropLast_concat]

namespace Alike

theorem endsIn (alike : tree.Alike path other) (ends : path.EndsIn name) : other.EndsIn name := by
  have last := ends.getLast?_eq
  rw [alike.last] at last
  exact ⟨ends.named, other.pieces.dropLast, (List.dropLast_append_getLast? name last).symm⟩

theorem opens_directory (alike : tree.Alike path other) (ends : path.EndsIn name) :
    tree.Opens (start path) path.directory.steps ↔
      tree.Opens (start other) other.directory.steps := by
  rw [← approach_of_endsIn ends, ← approach_of_endsIn (alike.endsIn ends)]
  exact alike.opens

theorem place_directory (alike : tree.Alike path other) (ends : path.EndsIn name) :
    path.directory.place = other.directory.place := by
  have other_ends := alike.endsIn ends
  rw [Path.place, Path.place, ← approach_of_endsIn ends, ← approach_of_endsIn other_ends,
    Path.start_eq_of_rooted ends.rooted_directory,
    Path.start_eq_of_rooted other_ends.rooted_directory]
  exact alike.moved

theorem place_eq (alike : tree.Alike path other) (ends : path.EndsIn name) :
    path.place = other.place := by
  rw [ends.place_eq, (alike.endsIn ends).place_eq, alike.place_directory ends]

theorem normalParts_directory (alike : tree.Alike path other) (ends : path.EndsIn name) :
    path.directory.normalParts = other.directory.normalParts := by
  have other_ends := alike.endsIn ends
  have origin_eq : path.directory.origin = path.origin := by
    rw [Path.origin, Path.origin, ends.rooted_directory]
  have other_origin_eq : other.directory.origin = other.origin := by
    rw [Path.origin, Path.origin, other_ends.rooted_directory]
  rw [Path.normalParts_eq, Path.normalParts_eq, ← approach_of_endsIn ends,
    ← approach_of_endsIn other_ends, origin_eq, other_origin_eq]
  exact alike.followed

theorem normalize_eq (alike : tree.Alike path other) (ends : path.EndsIn name) :
    path.normalize = other.normalize := by
  have other_ends := alike.endsIn ends
  rw [Path.normalize_eq, Path.normalize_eq, ends.steps_eq, other_ends.steps_eq,
    ← approach_of_endsIn ends, ← approach_of_endsIn other_ends, List.foldl_append,
    List.foldl_append, alike.followed]

/-- Paths that are joined to the directories of two such paths are alike again. -/
theorem join (alike : tree.Alike path other) (ends : path.EndsIn name) {target : Path}
    {last : String} (relative : target.rooted = false) (target_ends : target.EndsIn last) :
    tree.Alike (path.directory.join target) (other.directory.join target) := by
  have other_ends := alike.endsIn ends
  have rooted_eq : path.directory.rooted = other.directory.rooted := by
    rw [ends.rooted_directory, other_ends.rooted_directory, alike.rooted]
  have joined_eq (base : Path) :
      approach (base.join target) = base.steps ++ target.directory.steps := by
    have steps_eq := Path.steps_join base relative
    rw [(target_ends.join relative).steps_eq, target_ends.steps_eq, ← List.append_assoc,
      List.append_cancel_right_eq] at steps_eq
    rw [approach_of_endsIn (target_ends.join relative), steps_eq]
  have moved_eq (base : Path) :
      (approach (base.join target)).foldl Place.move (start (base.join target)) =
        target.directory.steps.foldl Place.move base.place := by
    rw [joined_eq, Path.start_eq_of_rooted (Path.rooted_join base relative), List.foldl_append]
    rfl
  have followed_eq (base : Path) :
      (approach (base.join target)).foldl Path.follow (base.join target).origin =
        target.directory.steps.foldl Path.follow base.normalParts := by
    rw [joined_eq, Path.origin, Path.rooted_join base relative, ← Path.origin, List.foldl_append,
      Path.normalParts_eq]
  have opens_iff (base : Path) :
      tree.Opens (start (base.join target)) (approach (base.join target)) ↔
        tree.Opens (start base) base.steps ∧ tree.Opens base.place target.directory.steps := by
    rw [joined_eq, Path.start_eq_of_rooted (Path.rooted_join base relative), opens_append]
    rfl
  refine ⟨?_, ?_, ?_, ?_, ?_⟩
  · rw [Path.rooted_join _ relative, Path.rooted_join _ relative, rooted_eq]
  · rw [(target_ends.join relative).getLast?_eq, (target_ends.join relative).getLast?_eq]
  · rw [opens_iff, opens_iff, alike.place_directory ends,
      Path.start_eq_of_rooted ends.rooted_directory,
      Path.start_eq_of_rooted other_ends.rooted_directory, alike.opens_directory ends]
  · rw [moved_eq, moved_eq, alike.place_directory ends]
  · rw [followed_eq, followed_eq, alike.normalParts_directory ends]

theorem isFile_eq (alike : tree.Alike path other) (ends : path.EndsIn name)
    (legal : pathError? path = none) (other_legal : pathError? other = none) :
    tree.isFile path = tree.isFile other := by
  rw [Bool.eq_iff_iff, isFile_iff ends legal, isFile_iff (alike.endsIn ends) other_legal,
    alike.opens_directory ends, alike.place_eq ends]

theorem holds {text : String} (alike : tree.Alike path other)
    (other_legal : pathError? other = none) (holds : tree.Holds path text) :
    tree.Holds other text := by
  rcases holds.reaches with ⟨name, reaches, short⟩
  refine ⟨other_legal, ⟨name, ⟨alike.endsIn reaches.ends, ?_⟩, short⟩, ?_⟩
  · exact (alike.opens_directory reaches.ends).1 reaches.opens
  · rw [← alike.place_eq reaches.ends]
    exact holds.node

end Alike

end FileTree

end Componentry
