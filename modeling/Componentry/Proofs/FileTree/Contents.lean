import Componentry.Proofs.FileTree.Writing

/-!
# What happens to the contents of files

Writing changes the file at one place, and making directories changes none.
`ChangesOnly` says at which places the files of a tree may be new or other ones
than before. It can be read in both directions: files that were not written to
are still there, as long as nothing is removed (`KeepsFiles`), and a file that is
there was there before, also if a directory was emptied in between.
-/

namespace Componentry

namespace FileTree

variable {tree middle made : FileTree} {places later : List Place} {path : Path}

/-- Every file that is new or changed is at one of some places. -/
def ChangesOnly (tree made : FileTree) (places : List Place) : Prop :=
  ∀ place content, place ∉ places → made.node? place = some (.file content) →
    tree.node? place = some (.file content)

namespace ChangesOnly

theorem refl (tree : FileTree) : tree.ChangesOnly tree [] := by
  intro place content _ file
  exact file

theorem trans (first : tree.ChangesOnly middle places) (second : middle.ChangesOnly made later) :
    tree.ChangesOnly made (places ++ later) := by
  intro place content elsewhere file
  rw [List.mem_append, not_or] at elsewhere
  apply first place content elsewhere.1
  exact second place content elsewhere.2 file

theorem mono (changes : tree.ChangesOnly made places) (subset : places ⊆ later) :
    tree.ChangesOnly made later := by
  intro place content elsewhere file
  exact changes place content (fun mem => elsewhere (subset mem)) file

end ChangesOnly

/-- Files stay as they are, except at some places. -/
structure KeepsFiles (tree made : FileTree) (places : List Place) : Prop where
  changes : tree.ChangesOnly made places
  kept : made.ChangesOnly tree places

namespace KeepsFiles

theorem refl (tree : FileTree) : tree.KeepsFiles tree [] :=
  ⟨.refl tree, .refl tree⟩

theorem trans (first : tree.KeepsFiles middle places) (second : middle.KeepsFiles made later) :
    tree.KeepsFiles made (places ++ later) := by
  refine ⟨first.changes.trans second.changes, ?_⟩
  apply (second.kept.trans first.kept).mono
  intro place mem
  rw [List.mem_append] at mem ⊢
  exact mem.symm

theorem mono (keeps : tree.KeepsFiles made places) (subset : places ⊆ later) :
    tree.KeepsFiles made later :=
  ⟨keeps.changes.mono subset, keeps.kept.mono subset⟩

end KeepsFiles

/-! ## Making directories and writing -/

theorem keepsFiles_makeDirectory (succeeded : tree.makeDirectory path = .ok made) :
    tree.KeepsFiles made [] := by
  rcases makeDirectory_eq_ok succeeded with ⟨inside, name, _, absent, _, rfl⟩
  have node_eq (place : Place) :=
    node?_put tree (inside.child name) place .directory (names_child_ne_nil inside name)
  constructor
  · intro place content _ file
    rw [node_eq] at file
    split at file
    · cases file
    · exact file
  · intro place content _ file
    rw [node_eq, if_neg]
    · exact file
    · rintro rfl
      rw [absent] at file
      cases file

theorem keepsFiles_makeDirectories (tree : FileTree) (path : Path) :
    tree.KeepsFiles (tree.makeDirectories path).2 [] := by
  apply makeDirectories_induction (tree.KeepsFiles · []) (.refl tree)
  intro path before made succeeded keeps
  exact keeps.trans (keepsFiles_makeDirectory succeeded)

theorem keepsFiles_write {content : Content} (written : tree.write path content = .ok made) :
    tree.KeepsFiles made [path.place] := by
  constructor
  · intro place other elsewhere file
    rw [List.mem_singleton] at elsewhere
    rwa [node?_write written elsewhere] at file
  · intro place other elsewhere file
    rw [List.mem_singleton] at elsewhere
    rwa [node?_write written elsewhere]

theorem holds_of_readText {text name : String} (readable : tree.readText path = .ok text)
    (named : path.fileName? = some name) : tree.Holds path text := by
  have reaches := (reaches_of_readText readable named).1
  rw [readText] at readable
  split at readable
  · cases readable
  · rename_i place located
    rcases locate_eq_ok_iff.1 located with ⟨legal, walked⟩
    rcases (walk_eq_ok_iff_of_endsIn reaches.ends).1 walked with ⟨_, short, _, rfl⟩
    refine ⟨legal, ⟨name, reaches, short⟩, ?_⟩
    split at readable
    · rename_i node_eq
      cases readable
      exact node_eq
    · cases readable
    · cases readable
    · cases readable

/-- What a file holds stays, while others are written. -/
theorem Holds.kept {text : String} {added : List Place} (holds : tree.Holds path text)
    (grows : tree.Grows made added) (keeps : tree.KeepsFiles made places)
    (elsewhere : path.place ∉ places) : made.Holds path text := by
  apply holds.grows grows
  rw [keeps.kept _ _ elsewhere holds.node, holds.node]

/-! ## Removing -/

theorem changesOnly_filter (tree : FileTree) (keep : Place → Bool) :
    tree.ChangesOnly ⟨tree.entries.filter fun entry => keep entry.1⟩ [] := by
  intro place content _ file
  by_cases named : place.names = []
  · simp [node?, named] at file
  · rw [node?_filter tree keep named] at file
    split at file
    · exact file
    · cases file

theorem changesOnly_removeDirectory (tree : FileTree) (path : Path) :
    tree.ChangesOnly (tree.removeDirectory path).2 [] := by
  rw [removeDirectory]
  split
  · exact .refl tree
  · rename_i place located
    have emptied := changesOnly_filter tree fun other => !other.isBelow place
    split
    · exact .refl tree
    · dsimp only
      split
      · exact emptied
      · split
        · exact emptied
        · exact emptied
        · exact emptied.trans (changesOnly_filter _ fun other => other != place)

theorem changesOnly_resetDirectory (tree : FileTree) (path : Path) :
    tree.ChangesOnly (tree.resetDirectory path).2 [] := by
  have removal := changesOnly_removeDirectory tree path
  rw [resetDirectory]
  split
  · split
    · rename_i removed removed_eq
      rw [removed_eq] at removal
      exact removal.trans (keepsFiles_makeDirectories removed path).changes
    · exact removal
  · exact (keepsFiles_makeDirectories tree path).changes

/-! ## Copying -/

/-- What a copy holds: the content of the source, unless source and target are one file. -/
theorem copy_eq_write {source target : Path} (copied : tree.copy source target = .ok made) :
    ∃ content, tree.node? source.place = some (.file content) ∧
      tree.write target (if tree.leadsTo target source.place then .text "" else content) =
        .ok made := by
  rw [copy] at copied
  split at copied
  · cases copied
  · rename_i place located
    rw [locate_eq_place located] at copied
    split at copied
    · rename_i content node_eq
      exact ⟨content, node_eq, copied⟩
    · cases copied
    · cases copied

theorem place_of_leadsTo {place : Place} (leads : tree.leadsTo path place = true) :
    path.place = place := by
  rw [leadsTo] at leads
  split at leads
  · rename_i other located
    rw [← locate_eq_place located]
    exact beq_iff_eq.1 leads
  · cases leads

end FileTree

end Componentry
