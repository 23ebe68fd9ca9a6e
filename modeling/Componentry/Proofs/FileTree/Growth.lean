import Mathlib.Data.List.Induction
import Componentry.Proofs.FileTree.Following

/-!
# Growth of a file tree

Making directories and writing files only adds to a tree. `Grows` says what is
added: directories stay, and there are files at the places where there were some
and at those that were written. What could be followed before can be followed
afterwards. Only resetting a directory takes something away, which is all that is
below its place.

All of this keeps the tree coherent: whatever is there is in a directory.
-/

namespace Componentry

namespace FileTree

variable {place : Place} {path : Path} {name : String}

variable {tree middle made : FileTree}

/-- What is there is in a directory. -/
def Coherent (tree : FileTree) : Prop :=
  ∀ place name, tree.node? (Place.child place name) ≠ none → tree.node? place = some .directory

/-- A tree is coherent if every entry is in a directory. -/
theorem coherent_of_entries
    (inside : ∀ entry ∈ tree.entries,
      (tree.node? entry.1.parent).any Node.isDirectory = true) : tree.Coherent := by
  intro place name present
  have named : (place.child name).names.isEmpty = false := by simp [Place.child]
  rw [node?, named, if_neg Bool.false_ne_true, Ne, Option.map_eq_none_iff] at present
  rcases Option.ne_none_iff_exists'.1 present with ⟨entry, found⟩
  have key := List.find?_some found
  rw [beq_iff_eq] at key
  have directory := inside entry (List.mem_of_find?_eq_some found)
  rw [key, Place.parent_child] at directory
  exact any_isDirectory_iff.1 directory

theorem Coherent.directory_of_below (coherent : tree.Coherent) {names below : List String}
    (nonempty : below ≠ []) (present : tree.node? (place.descend (names ++ below)) ≠ none) :
    tree.node? (place.descend names) = some .directory := by
  induction below using List.reverseRecOn with
  | nil => exact absurd rfl nonempty
  | append_singleton front last ih =>
    rw [← List.append_assoc, ← Place.child_descend] at present
    have directory := coherent _ _ present
    by_cases no_front : front = []
    · rw [no_front, List.append_nil] at directory
      exact directory
    · exact ih no_front (by simp [directory])

/-- Where there is nothing, there is nothing below. -/
theorem Coherent.node?_below (coherent : tree.Coherent) {names : List String}
    (nonempty : names ≠ []) (absent : tree.node? place = none) :
    tree.node? (place.descend names) = none := by
  by_contra present
  have present : tree.node? (place.descend ([] ++ names)) ≠ none := present
  have directory := coherent.directory_of_below nonempty present
  rw [Place.descend_nil, absent] at directory
  contradiction

theorem HasFile.node?_ne_none (file : tree.HasFile place) :
    tree.node? place ≠ none := by
  rcases file with ⟨content, node_eq⟩
  simp [node_eq]

/-! ## What is added -/

structure Grows (tree made : FileTree) (added : List Place) : Prop where
  directories : ∀ place, tree.node? place = some .directory → made.node? place = some .directory
  files : ∀ place, made.HasFile place ↔ tree.HasFile place ∨ place ∈ added
  coherent : tree.Coherent → made.Coherent

namespace Grows

variable {added : List Place}

theorem refl (tree : FileTree) : tree.Grows tree [] :=
  ⟨fun _ => id, fun place => by simp, id⟩

theorem trans {later : List Place} (first : tree.Grows middle added)
    (second : middle.Grows made later) : tree.Grows made (added ++ later) where
  directories place directory := second.directories place (first.directories place directory)
  files place := by
    rw [second.files, first.files, List.mem_append, or_assoc]
  coherent coherent := second.coherent (first.coherent coherent)

theorem opens (grows : tree.Grows made added) {place : Place} {parts : List Path.Part}
    (opens : tree.Opens place parts) : made.Opens place parts := by
  induction parts generalizing place with
  | nil => exact grows.directories place opens
  | cons part rest ih => exact ⟨grows.directories place opens.1, opens.2.1, ih opens.2.2⟩

theorem reaches (grows : tree.Grows made added) {path : Path} {name : String}
    (reaches : tree.Reaches path name) : made.Reaches path name :=
  ⟨reaches.ends, grows.opens reaches.opens⟩

end Grows

theorem hasFile_put {other : Place} {node : Node} (named : place.names ≠ []) :
    (tree.put place node).HasFile other ↔
      if other = place then node.isFile = true else tree.HasFile other := by
  rw [HasFile, HasFile, node?_put tree place other node named]
  split
  · cases node <;> simp [Node.isFile]
  · rfl

theorem names_child_ne_nil (place : Place) (name : String) : (place.child name).names ≠ [] := by
  simp [Place.child]

/-- What is put into a directory, but not in place of one, keeps the tree coherent. -/
theorem coherent_put {node : Node} (coherent : tree.Coherent)
    (inside : tree.node? place = some .directory)
    (free : node = .directory ∨ tree.node? (place.child name) ≠ some .directory) :
    (tree.put (place.child name) node).Coherent := by
  intro above below present
  rw [node?_put _ _ _ _ (names_child_ne_nil place name)] at present ⊢
  split at present
  · rename_i here
    rcases Place.child_inj.1 here with ⟨rfl, rfl⟩
    rw [if_neg, inside]
    intro same
    have lengths := congrArg (·.names.length) same
    simp [Place.child] at lengths
  · have directory := coherent _ _ present
    split
    · rename_i here
      rcases free with rfl | free
      · rfl
      · rw [here] at directory
        exact absurd directory free
    · exact directory

theorem grows_put_directory (inside : tree.node? place = some .directory)
    (absent : tree.node? (place.child name) = none) :
    tree.Grows (tree.put (place.child name) .directory) [] where
  directories other directory := by
    rw [node?_put _ _ _ _ (names_child_ne_nil place name)]
    split
    · rfl
    · exact directory
  files other := by
    rw [hasFile_put (names_child_ne_nil place name)]
    split
    · rename_i here
      simp [here, HasFile, absent, Node.isFile]
    · simp
  coherent coherent := coherent_put coherent inside (.inl rfl)

theorem grows_put_file (content : Content) (inside : tree.node? place = some .directory)
    (free : tree.node? (place.child name) ≠ some .directory) :
    tree.Grows (tree.put (place.child name) (.file content)) [place.child name] where
  directories other directory := by
    rw [node?_put _ _ _ _ (names_child_ne_nil place name), if_neg]
    · exact directory
    · rintro rfl
      exact free directory
  files other := by
    rw [hasFile_put (names_child_ne_nil place name)]
    split
    · rename_i here
      simp [here, Node.isFile]
    · rename_i elsewhere
      simp [elsewhere]
  coherent coherent := coherent_put coherent inside (.inr free)

theorem grows_write {content : Content} (written : tree.write path content = .ok made) :
    tree.Grows made [path.place] ∧ ∃ name, made.Reaches path name := by
  rcases write_eq_ok written with ⟨name, reaches, free, rfl⟩
  rw [reaches.ends.place_eq] at free ⊢
  have grows := grows_put_file content reaches.directory free
  exact ⟨grows, name, grows.reaches reaches⟩

theorem grows_makeDirectory (succeeded : tree.makeDirectory path = .ok made) :
    tree.Grows made [] := by
  rcases makeDirectory_eq_ok succeeded with ⟨place, name, inside, absent, _, rfl⟩
  exact grows_put_directory inside absent

/-- What is kept when one directory is made is kept when a chain of them is made. -/
theorem makeChain_induction (Keeps : FileTree → Prop) {paths : List Path} (start : Keeps tree)
    (step : ∀ path ∈ paths, ∀ before made : FileTree, before.makeDirectory path = .ok made →
      Keeps before → Keeps made) : Keeps (tree.makeChain paths).2 := by
  induction paths with
  | nil => exact start
  | cons path above ih =>
    rw [List.forall_mem_cons] at step
    have kept := ih step.2
    rw [makeChain]
    split
    · rename_i succeeded
      exact step.1 _ _ succeeded start
    · split
      · rename_i chain
        rwa [chain] at kept
      · rename_i chain
        rw [chain] at kept
        split
        · rename_i succeeded
          exact step.1 _ _ succeeded kept
        · exact kept
    · exact start

theorem makeDirectories_induction (Keeps : FileTree → Prop) (start : Keeps tree)
    (step : ∀ (path : Path) (before made : FileTree), before.makeDirectory path = .ok made →
      Keeps before → Keeps made) (path : Path) : Keeps (tree.makeDirectories path).2 := by
  rw [makeDirectories]
  split
  · exact start
  · exact makeChain_induction Keeps start fun path _ => step path

theorem grows_makeDirectories (tree : FileTree) (path : Path) :
    tree.Grows (tree.makeDirectories path).2 [] := by
  apply makeDirectories_induction (tree.Grows · []) (.refl tree)
  intro path before made succeeded grows
  exact grows.trans (grows_makeDirectory succeeded)

/-! ## What is taken away -/

theorem isBelow_iff {other : Place} :
    place.isBelow other = true ↔ ∃ names, names ≠ [] ∧ place = other.descend names := by
  rw [Place.isBelow, Bool.and_eq_true, Bool.and_eq_true, beq_iff_eq, List.isPrefixOf_iff_prefix,
    decide_eq_true_eq]
  constructor
  · rintro ⟨⟨same, names, names_eq⟩, longer⟩
    refine ⟨names, ?_, ?_⟩
    · rintro rfl
      simp [← names_eq] at longer
    · cases place
      simp_all [Place.descend]
  · rintro ⟨names, nonempty, rfl⟩
    exact ⟨⟨rfl, names, rfl⟩, by simpa using List.length_pos_iff.2 nonempty⟩

theorem node?_filter (tree : FileTree) (keep : Place → Bool) (named : place.names ≠ []) :
    (⟨tree.entries.filter fun entry => keep entry.1⟩ : FileTree).node? place =
      if keep place then tree.node? place else none := by
  have named' : place.names.isEmpty = false := by simpa using named
  rw [node?, node?, named', if_neg Bool.false_ne_true, if_neg Bool.false_ne_true, List.find?_filter]
  split
  · rename_i kept
    congr 2
    funext entry
    by_cases here : entry.1 = place <;> simp [here, kept]
  · rename_i dropped
    rw [Option.map_eq_none_iff, List.find?_eq_none]
    rintro entry _
    by_cases here : entry.1 = place <;> simp [here, dropped]

/-- A tree without what is below a place, and perhaps without what is at the place. -/
structure Cleared (tree made : FileTree) (place : Place) : Prop where
  below : ∀ names, names ≠ [] → made.node? (place.descend names) = none
  coherent : tree.Coherent → made.Coherent

theorem cleared_below (tree : FileTree) (place : Place) :
    tree.Cleared ⟨tree.entries.filter fun entry => !entry.1.isBelow place⟩ place where
  below names nonempty := by
    have below : (place.descend names).isBelow place = true :=
      isBelow_iff.2 ⟨names, nonempty, rfl⟩
    rw [node?_filter tree (fun other => !other.isBelow place) (by simp [nonempty]), below]
    rfl
  coherent coherent := by
    intro above name present
    rw [node?_filter tree (fun other => !other.isBelow place) (names_child_ne_nil above name)]
      at present
    split at present
    · rename_i kept
      have directory := coherent _ _ present
      by_cases named : above.names = []
      · simp [node?, named]
      · rw [node?_filter tree (fun other => !other.isBelow place) named, if_pos, directory]
        rw [Bool.not_eq_true', ← Bool.not_eq_true] at kept ⊢
        intro above_below
        rcases isBelow_iff.1 above_below with ⟨names, _, rfl⟩
        rw [Place.child_descend] at kept
        exact kept (isBelow_iff.2 ⟨names ++ [name], by simp, rfl⟩)
    · exact absurd rfl present

theorem Cleared.without (cleared : tree.Cleared made place) :
    tree.Cleared ⟨made.entries.filter (·.1 != place)⟩ place where
  below names nonempty := by
    rw [node?_filter made (· != place) (by simp [nonempty]), cleared.below names nonempty]
    split <;> rfl
  coherent coherent := by
    intro above name present
    rw [node?_filter made (· != place) (names_child_ne_nil above name)] at present
    split at present
    · have directory := cleared.coherent coherent _ _ present
      by_cases named : above.names = []
      · simp [node?, named]
      · rw [node?_filter made (· != place) named, if_pos, directory]
        rw [bne_iff_ne]
        rintro rfl
        exact present (cleared.below [name] (by simp))
    · exact absurd rfl present

theorem Cleared.grows (cleared : tree.Cleared middle place) (grows : middle.Grows made []) :
    (tree.Coherent → made.Coherent) ∧
      ∀ names, names ≠ [] → ¬made.HasFile (place.descend names) := by
  refine ⟨fun coherent => grows.coherent (cleared.coherent coherent), ?_⟩
  intro names nonempty file
  rw [grows.files] at file
  simp only [List.not_mem_nil, or_false] at file
  exact file.node?_ne_none (cleared.below names nonempty)

theorem locate_eq_place (located : tree.locate path = .ok place) :
    place = path.place := by
  rw [locate_eq_ok_iff] at located
  exact (walk_eq_ok located.2).1

theorem cleared_removeDirectory (removed : tree.removeDirectory path = (none, made)) :
    tree.Cleared made path.place := by
  rw [removeDirectory] at removed
  split at removed
  · simp at removed
  · rename_i place located
    rw [← locate_eq_place located]
    split at removed
    · simp at removed
    · dsimp only at removed
      split at removed
      · cases removed
        exact cleared_below tree place
      · split at removed
        · simp at removed
        · simp at removed
        · cases removed
          exact (cleared_below tree place).without

/-- A directory that was reset has no files below it, if what is at its place can be found. -/
theorem resetDirectory_eq_ok (coherent : tree.Coherent)
    (found : tree.exists? path = true ∨ tree.node? path.place = none)
    (reset : tree.resetDirectory path = (none, made)) :
    made.Coherent ∧ ∀ names, names ≠ [] → ¬made.HasFile (path.place.descend names) := by
  rw [resetDirectory] at reset
  split at reset
  · split at reset
    · rename_i removed removal
      have grows := grows_makeDirectories removed path
      rw [reset] at grows
      have cleared := (cleared_removeDirectory removal).grows grows
      exact ⟨cleared.1 coherent, cleared.2⟩
    · rename_i not_removed
      exact absurd reset (not_removed made)
  · rename_i not_there
    have absent := found.resolve_left not_there
    have grows := grows_makeDirectories tree path
    rw [reset] at grows
    refine ⟨grows.coherent coherent, ?_⟩
    intro names nonempty file
    rw [grows.files] at file
    simp only [List.not_mem_nil, or_false] at file
    exact file.node?_ne_none (coherent.node?_below nonempty absent)

end FileTree

end Componentry
