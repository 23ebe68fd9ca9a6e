import Componentry.Proofs.FileTree.Growth

/-!
# Reading what was written

A file that was written is read back by the same path (`holds_of_write`), until
something else is written at its place. A path that never goes up leads below
each of its parents, so making its directories puts nothing below its own place
(`node?_makeDirectories`), and a directory that was reset is empty.
-/

namespace Componentry

namespace FileTree

variable {tree made : FileTree} {path : Path}

/-- A path leads to a file with a text. -/
structure Holds (tree : FileTree) (path : Path) (text : String) : Prop where
  legal : pathError? path = none
  reaches : ∃ name, tree.Reaches path name ∧ name.utf8ByteSize ≤ maxName
  node : tree.node? path.place = some (.file (.text text))

theorem Holds.readText {text : String} (holds : tree.Holds path text) :
    tree.readText path = .ok text := by
  rcases holds.reaches with ⟨name, reaches, short⟩
  have present : tree.node? path.place ≠ none := by simp [holds.node]
  have walked := (walk_eq_ok_iff_of_endsIn reaches.ends).2 ⟨reaches.opens, short, present, rfl⟩
  have located := locate_eq_ok_iff.2 ⟨holds.legal, walked⟩
  simp only [FileTree.readText, located, holds.node]

theorem Holds.grows {text : String} {added : List Place} (holds : tree.Holds path text)
    (grows : tree.Grows made added) (same : made.node? path.place = tree.node? path.place) :
    made.Holds path text := by
  rcases holds.reaches with ⟨name, reaches, short⟩
  exact ⟨holds.legal, ⟨name, grows.reaches reaches, short⟩, same.trans holds.node⟩

theorem legal_of_write {content : Content} (written : tree.write path content = .ok made) :
    pathError? path = none ∧ ∀ name, path.EndsIn name → name.utf8ByteSize ≤ maxName := by
  rw [write] at written
  split at written
  · simp at written
  · rename_i place piece located
    have piece_eq := (locateLast_eq_ok located).2.2.2
    constructor
    · rw [locateLast] at located
      split at located
      · simp at located
      · assumption
    · intro name ends
      rcases ends.last with ⟨before, pieces_eq⟩
      have last : piece = name := by simp [piece_eq, pieces_eq]
      rw [last, ends.named] at written
      dsimp only at written
      split at written
      · simp at written
      · omega

theorem holds_of_write {text : String} (written : tree.write path (.text text) = .ok made) :
    made.Holds path text := by
  rcases write_eq_ok written with ⟨name, reaches, _, made_eq⟩
  rcases legal_of_write written with ⟨legal, short⟩
  refine ⟨legal, ⟨name, (grows_write written).1.reaches reaches, short name reaches.ends⟩, ?_⟩
  rw [made_eq, node?_put, if_pos rfl]
  rw [reaches.ends.place_eq]
  exact names_child_ne_nil _ _

theorem node?_write {content : Content} {place : Place}
    (written : tree.write path content = .ok made) (elsewhere : place ≠ path.place) :
    made.node? place = tree.node? place := by
  rcases write_eq_ok written with ⟨name, reaches, _, rfl⟩
  rw [node?_put, if_neg elsewhere]
  rw [reaches.ends.place_eq]
  exact names_child_ne_nil _ _

/-! ## Directories on the way to a place -/

theorem prefix_of_parent? {above : Path} (parent_eq : path.parent? = some above) :
    above.rooted = path.rooted ∧ above.steps <+: path.steps := by
  rw [Path.parent?] at parent_eq
  split at parent_eq
  · simp at parent_eq
  · cases parent_eq
    refine ⟨rfl, ?_⟩
    rw [Path.steps, Path.steps, Path.filterMap_trimPieces,
      ← Path.filterMap_trimPieces path.rooted path.pieces]
    exact (List.dropLast_prefix _).filterMap Path.part?

theorem prefix_of_mem_ancestors {above : Path} (mem : above ∈ ancestors path) :
    above.rooted = path.rooted ∧ above.steps <+: path.steps := by
  have climbed (fuel : Nat) (path : Path) (mem : above ∈ ancestors.climb fuel path) :
      above.rooted = path.rooted ∧ above.steps <+: path.steps := by
    induction fuel generalizing path with
    | zero => simp [ancestors.climb] at mem
    | succ fuel ih =>
      rw [ancestors.climb] at mem
      split at mem
      · rename_i parent parent_eq
        rcases prefix_of_parent? parent_eq with ⟨rooted_eq, shorter⟩
        split at mem
        · simp at mem
        · rcases List.mem_cons.1 mem with rfl | further
          · exact ⟨rooted_eq, shorter⟩
          · rcases ih parent further with ⟨further_rooted, further_shorter⟩
            exact ⟨further_rooted.trans rooted_eq, further_shorter.trans shorter⟩
      · simp at mem
  exact climbed path.pieces.length path mem

theorem length_names_foldl_move {place : Place} {parts : List Path.Part}
    (named : ∀ part ∈ parts, ∃ name, part = .name name) :
    (parts.foldl Place.move place).names.length = place.names.length + parts.length := by
  induction parts generalizing place with
  | nil => rfl
  | cons part rest ih =>
    rw [List.forall_mem_cons] at named
    rcases named.1 with ⟨name, rfl⟩
    rw [List.foldl_cons, ih named.2, Place.move, Place.child, List.length_append]
    simp only [List.length_cons, List.length_nil]
    omega

/-- A path that never goes up leads as deep as it has steps. -/
theorem length_names_place (straight : .parent ∉ path.steps) :
    path.place.names.length = path.steps.length := by
  have named : ∀ part ∈ path.steps, ∃ name, part = .name name := by
    intro part mem
    rcases List.mem_filterMap.1 mem with ⟨piece, _, meant⟩
    rcases Path.part?_eq_parent_or_name meant with rfl | ⟨name, _, rfl⟩
    · exact absurd mem straight
    · exact ⟨name, rfl⟩
  have at_start : (start path).names.length = 0 := by
    rw [start]
    split <;> rfl
  rw [Path.place, length_names_foldl_move named, at_start, Nat.zero_add]

theorem node?_makeChain {place : Place} (tree : FileTree) {paths : List Path}
    (deeper : ∀ path ∈ paths, path.place.names.length < place.names.length) :
    (tree.makeChain paths).2.node? place = tree.node? place := by
  apply makeChain_induction (·.node? place = tree.node? place) rfl
  intro path mem before made succeeded kept
  rcases makeDirectory_eq_ok succeeded with ⟨inside, name, _, _, path_place, rfl⟩
  rw [node?_put _ _ _ _ (names_child_ne_nil inside name), if_neg, kept]
  intro same
  have shallow := deeper path mem
  rw [same, path_place] at shallow
  exact absurd shallow (lt_irrefl _)

/-- Making the directories on the way to a place puts nothing below it. -/
theorem node?_makeDirectories (straight : .parent ∉ path.steps) (tree : FileTree)
    {names : List String} (nonempty : names ≠ []) :
    (tree.makeDirectories path).2.node? (path.place.descend names) =
      tree.node? (path.place.descend names) := by
  rw [makeDirectories]
  split
  · rfl
  · apply node?_makeChain
    intro other mem
    have shorter : other.steps <+: path.steps := by
      rcases List.mem_cons.1 mem with rfl | above
      · exact List.prefix_refl _
      · exact (prefix_of_mem_ancestors above).2
    have other_length := length_names_place fun up => straight (shorter.subset up)
    have path_length := length_names_place straight
    have longer := List.length_pos_iff.2 nonempty
    have le := shorter.length_le
    rw [Place.names_descend, List.length_append]
    omega

/-- A directory that was reset is empty. -/
theorem node?_resetDirectory (coherent : tree.Coherent)
    (found : tree.exists? path = true ∨ tree.node? path.place = none)
    (straight : .parent ∉ path.steps) (reset : tree.resetDirectory path = (none, made))
    {names : List String} (nonempty : names ≠ []) :
    made.node? (path.place.descend names) = none := by
  rw [resetDirectory] at reset
  split at reset
  · split at reset
    · rename_i removed removal
      have kept := node?_makeDirectories straight removed nonempty
      rw [reset] at kept
      exact kept.trans ((cleared_removeDirectory removal).below names nonempty)
    · rename_i not_removed
      exact absurd reset (not_removed made)
  · rename_i not_there
    have absent := found.resolve_left not_there
    have kept := node?_makeDirectories straight tree nonempty
    rw [reset] at kept
    exact kept.trans (coherent.node?_below nonempty absent)

end FileTree

end Componentry
