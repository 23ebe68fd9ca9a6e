import Componentry.Proofs.Path.Place

/-!
# Following paths in a file tree

The steps of a path can be followed from a place (`Opens`) if each of them starts
in a directory, the last one leads to a directory and no name is too long. A path
that ends in a name is a file exactly if the steps of its directory can be
followed and a file is at the place of the path (`isFile_iff`). What is read and
written is at the place of the path as well, so everything about the tree can be
said in terms of places.
-/

namespace Componentry

namespace FileTree

variable {place target : Place} {path : Path} {parts : List Path.Part} {name : String}

variable {tree : FileTree}

theorem any_isDirectory_iff :
    (tree.node? place).any Node.isDirectory = true ↔ tree.node? place = some .directory := by
  cases tree.node? place with
  | none => simp
  | some node => cases node <;> simp [Node.isDirectory]

/-- A file is at a place. -/
def HasFile (tree : FileTree) (place : Place) : Prop :=
  ∃ content, tree.node? place = some (.file content)

theorem any_isFile_iff :
    (tree.node? place).any Node.isFile = true ↔ tree.HasFile place := by
  rw [HasFile]
  cases tree.node? place with
  | none => simp
  | some node => cases node <;> simp [Node.isFile]

theorem HasFile.not_directory (file : tree.HasFile place) :
    tree.node? place ≠ some .directory := by
  rcases file with ⟨content, node_eq⟩
  simp [node_eq]

/-- A step that does not go down by a name that is too long. -/
def IsShort : Path.Part → Prop
  | .name name => name.utf8ByteSize ≤ maxName
  | _ => True

/-- All that steps come through from a place is a directory. -/
def Opens (tree : FileTree) (place : Place) : List Path.Part → Prop
  | [] => tree.node? place = some .directory
  | part :: rest =>
    tree.node? place = some .directory ∧ IsShort part ∧ tree.Opens (place.move part) rest

theorem Opens.directory (opens : tree.Opens place parts) :
    tree.node? place = some .directory := by
  cases parts with
  | nil => exact opens
  | cons part rest => exact opens.1

theorem Opens.directory_end (opens : tree.Opens place parts) :
    tree.node? (parts.foldl Place.move place) = some .directory := by
  induction parts generalizing place with
  | nil => exact opens
  | cons part rest ih => exact ih opens.2.2

theorem opens_append {others : List Path.Part} :
    tree.Opens place (parts ++ others) ↔
      tree.Opens place parts ∧ tree.Opens (parts.foldl Place.move place) others := by
  induction parts generalizing place with
  | nil => exact ⟨fun opens => ⟨opens.directory, opens⟩, And.right⟩
  | cons part rest ih =>
    rw [List.cons_append, Opens, ih, Opens, List.foldl_cons]
    tauto

/-! ## Walks -/

theorem walk_append (place : Place) (pieces others : List String) :
    tree.walk place (pieces ++ others) =
      match tree.walk place pieces with
      | .ok target => tree.walk target others
      | .error error => .error error := by
  induction pieces generalizing place with
  | nil => rfl
  | cons piece rest ih =>
    rw [List.cons_append, walk, walk]
    split
    · rfl
    · split
      · exact ih place
      · split
        · rfl
        · split
          · rfl
          · exact ih _
      · exact ih _

theorem walk_eq_ok {pieces : List String} (walked : tree.walk place pieces = .ok target) :
    target = (pieces.filterMap Path.part?).foldl Place.move place ∧
      (tree.node? target = some .directory → tree.Opens place (pieces.filterMap Path.part?)) := by
  induction pieces generalizing place with
  | nil =>
    cases walked
    exact ⟨rfl, id⟩
  | cons piece rest ih =>
    rw [walk] at walked
    split at walked
    · simp at walked
    · rename_i inside
      simp only [Bool.not_eq_true', Bool.not_eq_false, any_isDirectory_iff] at inside
      split at walked
      · rename_i ignored
        rw [List.filterMap_cons, ignored]
        exact ih walked
      · rename_i name meant
        rw [List.filterMap_cons, meant]
        split at walked
        · simp at walked
        · rename_i short
          split at walked
          · simp at walked
          · refine ⟨(ih walked).1, fun ends => ?_⟩
            exact ⟨inside, Nat.not_lt.1 short, (ih walked).2 ends⟩
      · rename_i part not_name meant
        have up : part = .parent := by
          rcases Path.part?_eq_parent_or_name meant with up | ⟨name, _, named⟩
          · exact up
          · exact absurd named (not_name name)
        subst up
        rw [List.filterMap_cons, meant]
        refine ⟨(ih walked).1, fun ends => ?_⟩
        exact ⟨inside, trivial, (ih walked).2 ends⟩

theorem walk_of_opens {pieces : List String}
    (opens : tree.Opens place (pieces.filterMap Path.part?)) :
    tree.walk place pieces = .ok ((pieces.filterMap Path.part?).foldl Place.move place) := by
  induction pieces generalizing place with
  | nil => rfl
  | cons piece rest ih =>
    have inside := any_isDirectory_iff.2 opens.directory
    rw [walk, inside, if_neg (by simp)]
    cases meant : Path.part? piece with
    | none =>
      rw [List.filterMap_cons, meant] at opens ⊢
      exact ih opens
    | some part =>
      rw [List.filterMap_cons, meant] at opens ⊢
      rcases opens with ⟨_, short, opens⟩
      rcases Path.part?_eq_parent_or_name meant with rfl | ⟨name, _, rfl⟩
      · exact ih opens
      · have child : tree.node? (place.child name) = some .directory := opens.directory
        have present : (tree.node? (place.child name)).isNone = false := by
          rw [child]
          rfl
        simp only [present, if_neg (Nat.not_lt.2 short)]
        exact ih opens

theorem walk_name_eq_ok_iff (named : Path.IsName name) :
    tree.walk place [name] = .ok target ↔
      tree.node? place = some .directory ∧ name.utf8ByteSize ≤ maxName ∧
        tree.node? (place.child name) ≠ none ∧ target = place.child name := by
  rw [walk, ← any_isDirectory_iff, ← Nat.not_lt, Ne, ← Option.isNone_iff_eq_none]
  rw [Path.IsName] at named
  rw [named]
  simp only [walk]
  split
  · rename_i outside
    simp only [Bool.not_eq_true'] at outside
    simp [outside]
  · rename_i inside
    simp only [Bool.not_eq_true', Bool.not_eq_false] at inside
    split
    · rename_i long
      simp [long]
    · rename_i short
      split
      · rename_i absent
        simp [absent]
      · rename_i present
        simp [inside, short, present, eq_comm]

/-- A walk to a name comes through the directory of the name. -/
theorem walk_eq_ok_iff_of_endsIn (ends : path.EndsIn name) :
    tree.walk (start path) path.pieces = .ok target ↔
      tree.Opens (start path) path.directory.steps ∧ name.utf8ByteSize ≤ maxName ∧
        tree.node? path.place ≠ none ∧ target = path.place := by
  rcases ends.last with ⟨before, pieces_eq⟩
  have steps_eq := ends.steps_directory pieces_eq
  have place_eq : path.place =
      ((before.filterMap Path.part?).foldl Place.move (start path)).child name := by
    rw [ends.place_eq, Path.place, steps_eq, Path.start_eq_of_rooted ends.rooted_directory]
  rw [pieces_eq, walk_append, steps_eq]
  constructor
  · intro walked
    split at walked
    · rename_i directory before_walked
      rcases (walk_name_eq_ok_iff ends.named).1 walked with ⟨inside, short, present, rfl⟩
      rcases walk_eq_ok before_walked with ⟨rfl, opens⟩
      rw [place_eq]
      exact ⟨opens inside, short, present, rfl⟩
    · simp at walked
  · rintro ⟨opens, short, present, rfl⟩
    rw [walk_of_opens opens]
    rw [place_eq] at present ⊢
    refine (walk_name_eq_ok_iff ends.named).2 ⟨?_, short, present, rfl⟩
    exact opens.directory_end

/-! ## Files that are found and read -/

theorem isFile_iff (ends : path.EndsIn name) (legal : pathError? path = none) :
    tree.isFile path = true ↔
      tree.Opens (start path) path.directory.steps ∧ name.utf8ByteSize ≤ maxName ∧
        tree.HasFile path.place := by
  rw [isFile, find?, locate, legal]
  constructor
  · intro file
    split at file
    · rename_i place walked
      rcases (walk_eq_ok_iff_of_endsIn ends).1 walked with ⟨opens, short, _, rfl⟩
      exact ⟨opens, short, any_isFile_iff.1 file⟩
    · simp at file
  · rintro ⟨opens, short, file⟩
    have present : tree.node? path.place ≠ none := by
      rcases file with ⟨content, node_eq⟩
      simp [node_eq]
    have walked := (walk_eq_ok_iff_of_endsIn ends).2 ⟨opens, short, present, rfl⟩
    simp only [walked]
    exact any_isFile_iff.2 file

theorem locate_eq_ok_iff :
    tree.locate path = .ok place ↔
      pathError? path = none ∧ tree.walk (start path) path.pieces = .ok place := by
  rw [locate]
  split
  · rename_i illegal
    simp [illegal]
  · rename_i legal
    simp [legal]

theorem hasFile_of_readText {text : String} (readable : tree.readText path = .ok text) :
    ∃ place, tree.locate path = .ok place ∧ tree.HasFile place := by
  rw [readText] at readable
  split at readable
  · simp at readable
  · rename_i place located
    split at readable
    · rename_i node_eq
      exact ⟨place, located, _, node_eq⟩
    · simp at readable
    · simp at readable
    · simp at readable

end FileTree

namespace Path

/-- A path of a file is written without anything after the name of the file. -/
theorem endsIn_of_hasFile {tree : FileTree} {path : Path} {place : Place} {name : String}
    (walked : tree.walk (FileTree.start path) path.pieces = .ok place) (file : tree.HasFile place)
    (named : path.fileName? = some name) : path.EndsIn name := by
  rcases List.eq_nil_or_concat path.pieces with no_pieces | ⟨before, last, pieces_eq⟩
  · -- Without pieces the path leads to a directory.
    rw [no_pieces] at walked
    cases walked
    have starts : tree.node? (FileTree.start path) = some .directory := by
      rw [FileTree.start]
      split <;> rfl
    exact absurd starts file.not_directory
  · rw [List.concat_eq_append] at pieces_eq
    cases meant : part? last with
    | none =>
      -- What is after the name of a directory is looked up in the directory.
      rw [pieces_eq, FileTree.walk_append] at walked
      split at walked
      · rw [FileTree.walk, meant] at walked
        split at walked
        · simp at walked
        · rename_i inside
          simp only [Bool.not_eq_true', Bool.not_eq_false, FileTree.any_isDirectory_iff] at inside
          cases walked
          exact absurd inside file.not_directory
      · simp at walked
    | some part =>
      have last_part : path.parts.getLast? = some part := by
        rw [parts_eq_firstParts, steps, pieces_eq, List.filterMap_append, List.filterMap_cons,
          meant]
        simp
      rw [fileName?, last_part] at named
      rcases part?_eq_parent_or_name meant with rfl | ⟨other, is_name, rfl⟩
      · simp at named
      · cases named
        rw [← eq_of_part? meant] at pieces_eq
        exact ⟨is_name, before, pieces_eq⟩

end Path

namespace FileTree

variable {path : Path} {name : String} {made : FileTree}

variable {tree : FileTree}

/-- A path that can be written to or read from: it ends in a name, and the directory of the name
can be reached. -/
structure Reaches (tree : FileTree) (path : Path) (name : String) : Prop where
  ends : path.EndsIn name
  opens : tree.Opens (start path) path.directory.steps

theorem Reaches.directory (reaches : tree.Reaches path name) :
    tree.node? path.directory.place = some .directory := by
  rw [Path.place, Path.start_eq_of_rooted reaches.ends.rooted_directory]
  exact reaches.opens.directory_end

theorem reaches_of_readText {text : String} (readable : tree.readText path = .ok text)
    (named : path.fileName? = some name) :
    tree.Reaches path name ∧ tree.HasFile path.place := by
  rcases hasFile_of_readText readable with ⟨place, located, file⟩
  have walked := (locate_eq_ok_iff.1 located).2
  have ends := Path.endsIn_of_hasFile walked file named
  rcases (walk_eq_ok_iff_of_endsIn ends).1 walked with ⟨opens, _, _, rfl⟩
  exact ⟨⟨ends, opens⟩, file⟩

theorem locateLast_eq_ok {place : Place} {piece : String}
    (located : tree.locateLast path = .ok (place, piece)) :
    tree.Opens (start path) (path.pieces.dropLast.filterMap Path.part?) ∧
      place = (path.pieces.dropLast.filterMap Path.part?).foldl Place.move (start path) ∧
      tree.node? place = some .directory ∧ piece = path.pieces.getLast?.getD "" := by
  rw [locateLast] at located
  split at located
  · simp at located
  · split at located
    · simp at located
    · rename_i walked
      split at located
      · rename_i inside
        simp only [Except.ok.injEq, Prod.mk.injEq] at located
        rcases located with ⟨rfl, rfl⟩
        have directory := any_isDirectory_iff.1 inside
        have at_place := walk_eq_ok walked
        exact ⟨at_place.2 directory, at_place.1, directory, rfl⟩
      · simp at located

/-- A last piece that is a name is the name at the end of the path. -/
theorem endsIn_of_locateLast {place : Place} {piece : String}
    (located : tree.locateLast path = .ok (place, piece))
    (meant : Path.part? piece = some (.name name)) :
    path.EndsIn name ∧ tree.Opens (start path) path.directory.steps ∧
      path.place = place.child name := by
  rcases locateLast_eq_ok located with ⟨opens, place_eq, _, piece_eq⟩
  have last : path.pieces.getLast? = some name := by
    rw [Path.eq_of_part? meant, piece_eq]
    cases last : path.pieces.getLast? with
    | none =>
      rw [last] at piece_eq
      rw [piece_eq] at meant
      simp [Path.part?] at meant
    | some piece => rfl
  have pieces_eq : path.pieces = path.pieces.dropLast ++ [name] :=
    (List.dropLast_append_getLast? name last).symm
  have ends : path.EndsIn name := ⟨Path.isName_of_part? meant, _, pieces_eq⟩
  have steps_eq := ends.steps_directory pieces_eq
  refine ⟨ends, ?_, ?_⟩
  · rw [steps_eq]
    exact opens
  · rw [ends.place_eq, Path.place, steps_eq, place_eq,
      Path.start_eq_of_rooted ends.rooted_directory]

theorem write_eq_ok {content : Content} (written : tree.write path content = .ok made) :
    ∃ name, tree.Reaches path name ∧ tree.node? path.place ≠ some .directory ∧
      made = tree.put path.place (.file content) := by
  rw [write] at written
  split at written
  · simp at written
  · rename_i place piece located
    split at written
    · rename_i name meant
      rcases endsIn_of_locateLast located meant with ⟨ends, opens, path_place⟩
      split at written
      · simp at written
      · split at written
        · simp at written
        · rename_i free
          cases written
          rw [path_place]
          refine ⟨name, ⟨ends, opens⟩, ?_, rfl⟩
          rw [Ne, ← any_isDirectory_iff]
          exact free
    · simp at written

theorem copy_eq_ok {source target : Path} (copied : tree.copy source target = .ok made) :
    ∃ content, tree.write target content = .ok made := by
  rw [copy] at copied
  split at copied
  · simp at copied
  · split at copied
    · exact ⟨_, copied⟩
    · simp at copied
    · simp at copied

theorem place_withoutSlashes (path : Path) : (withoutSlashes path).place = path.place := by
  have steps_eq : (withoutSlashes path).steps = path.steps := by
    refine Path.filterMap_dropEnd ?_ path.pieces
    intro piece empty
    rw [beq_iff_eq.1 empty]
    rfl
  rw [Path.place, steps_eq]
  rfl

theorem makeDirectory_eq_ok (succeeded : tree.makeDirectory path = .ok made) :
    ∃ place name, tree.node? place = some .directory ∧ tree.node? (place.child name) = none ∧
      path.place = place.child name ∧ made = tree.put (place.child name) .directory := by
  rw [makeDirectory] at succeeded
  split at succeeded
  · simp at succeeded
  · rename_i place piece located
    split at succeeded
    · rename_i name meant
      have path_place := (endsIn_of_locateLast located meant).2.2
      rw [place_withoutSlashes] at path_place
      split at succeeded
      · simp at succeeded
      · split at succeeded
        · simp at succeeded
        · rename_i absent
          cases succeeded
          refine ⟨place, name, (locateLast_eq_ok located).2.2.1, ?_, path_place, rfl⟩
          simpa using absent
    · simp at succeeded

end FileTree

end Componentry
