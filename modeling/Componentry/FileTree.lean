import Componentry.Path
import Componentry.Text.Lossy

/-!
# File trees

A finite tree of files and directories as a value, with the operations that a build needs. Paths are
followed from the working directory piece by piece, so a path through a place that does not exist
leads nowhere even if it comes back. Directories above the working directory are there, but nothing
is known to be in them.
-/

namespace Componentry

/-- Why an operation on files fails. -/
inductive FileError where
  | notFound
  | alreadyExists
  | notDirectory
  | isDirectory
  | invalidArgument
  | nameTooLong
  | notEmpty
  | notText
  | nulInPath
  | notRegular
deriving DecidableEq, Repr

def FileError.message : FileError → String
  | .notFound => "No such file or directory (os error 2)"
  | .alreadyExists => "File exists (os error 17)"
  | .notDirectory => "Not a directory (os error 20)"
  | .isDirectory => "Is a directory (os error 21)"
  | .invalidArgument => "Invalid argument (os error 22)"
  | .nameTooLong => "File name too long (os error 36)"
  | .notEmpty => "Directory not empty (os error 39)"
  | .notText => "stream did not contain valid UTF-8"
  | .nulInPath => "file name contained an unexpected NUL byte"
  | .notRegular => "the source path is neither a regular file nor a symlink to a regular file"

/-- The message of a failed step that read or wrote files. -/
def FileError.report (error : FileError) : String :=
  "IO error: " ++ error.message

/-- What a file holds. -/
inductive Content where
  | text (value : String)
  /-- Bytes that are no text. -/
  | binary (bytes : ByteArray)
deriving BEq

/-- The content with these bytes. -/
def Content.ofBytes (bytes : ByteArray) : Content :=
  match String.fromUTF8? bytes with
  | some value => .text value
  | none => .binary bytes

/-- The content as far as it is text. -/
def Content.shown : Content → String
  | .text value => value
  | .binary bytes => String.ofList (Text.decodeLossy (bytes.toList.map UInt8.toNat))

/-- What can be at a place. -/
inductive Node where
  | file (content : Content)
  | directory

def Node.isDirectory : Node → Bool
  | .directory => true
  | .file _ => false

def Node.isFile : Node → Bool
  | .directory => false
  | .file _ => true

/-- Where the names of a place start. -/
inductive Anchor where
  | root
  /-- So many levels above the working directory. -/
  | above (levels : Nat)
deriving DecidableEq, Repr

/-- A place that paths lead to. -/
structure Place where
  anchor : Anchor
  names : List String
deriving DecidableEq, Repr

namespace Place

/-- The working directory. -/
def current : Place := ⟨.above 0, []⟩

/-- The place of a name in a directory. -/
def child (place : Place) (name : String) : Place :=
  { place with names := place.names ++ [name] }

/-- The directory that a place is in; the root is in itself. -/
def parent (place : Place) : Place :=
  if place.names.isEmpty then
    match place.anchor with
    | .root => place
    | .above levels => ⟨.above (levels + 1), []⟩
  else { place with names := place.names.dropLast }

/-- Whether a place is below another one. -/
def isBelow (place other : Place) : Bool :=
  place.anchor == other.anchor && other.names.isPrefixOf place.names &&
    other.names.length < place.names.length

end Place

/-- A file system: what is at which places. -/
structure FileTree where
  entries : List (Place × Node)

namespace FileTree

def empty : FileTree := ⟨[]⟩

instance : Inhabited FileTree := ⟨empty⟩

/-- What is at a place. The places that names start from are directories. -/
def node? (tree : FileTree) (place : Place) : Option Node :=
  if place.names.isEmpty then some .directory
  else (tree.entries.find? (·.1 == place)).map Prod.snd

/-- Puts a file or directory at a place. -/
def put (tree : FileTree) (place : Place) (node : Node) : FileTree :=
  ⟨tree.entries.filter (·.1 != place) ++ [(place, node)]⟩

theorem node?_put (tree : FileTree) (place other : Place) (node : Node) (named : place.names ≠ []) :
    (tree.put place node).node? other = if other = place then some node else tree.node? other := by
  by_cases same : other = place
  · subst same
    have absent : (tree.entries.filter (·.1 != other)).find? (·.1 == other) = none := by
      simp [List.find?_eq_none]
    simp [node?, put, named, List.find?_append, absent]
  · have different : place ≠ other := fun equal => same equal.symm
    have kept : (tree.entries.filter (·.1 != place)).find? (·.1 == other) =
        tree.entries.find? (·.1 == other) := by
      rw [List.find?_filter]
      congr 1
      funext entry
      by_cases here : entry.1 = other <;> simp [here, same]
    simp [node?, put, List.find?_append, kept, same, different]

/-- The names of all files and directories. -/
def names (tree : FileTree) : List String :=
  tree.entries.filterMap (·.1.names.getLast?)

/-! ## Following paths -/

/-- The longest name in bytes. -/
def maxName : Nat := 255

/-- The longest path in bytes. -/
def maxPath : Nat := 4095

/-- Follows the pieces of a path from a place. -/
def walk (tree : FileTree) (place : Place) : List String → Except FileError Place
  | [] => .ok place
  | piece :: rest =>
    if !(tree.node? place).any Node.isDirectory then .error .notDirectory
    else
      match Path.part? piece with
      | none => walk tree place rest
      | some (.name name) =>
        if name.utf8ByteSize > maxName then .error .nameTooLong
        else if (tree.node? (place.child name)).isNone then .error .notFound
        else walk tree (place.child name) rest
      | some _ => walk tree place.parent rest

/-- Where a path starts. -/
def start (path : Path) : Place :=
  if path.rooted then ⟨.root, []⟩ else .current

/-- What is wrong with a path before anything is looked up. -/
def pathError? (path : Path) : Option FileError :=
  if path.text.toList.contains '\x00' then some .nulInPath
  else if path.text.isEmpty then some .notFound
  else if path.text.utf8ByteSize > maxPath then some .nameTooLong
  else none

/-- The place of a path, where there is something. -/
def locate (tree : FileTree) (path : Path) : Except FileError Place :=
  match pathError? path with
  | some error => .error error
  | none => tree.walk (start path) path.pieces

/-- What a path leads to, if it leads anywhere. -/
def find? (tree : FileTree) (path : Path) : Option Node :=
  match tree.locate path with
  | .ok place => tree.node? place
  | .error _ => none

/-- Whether a path leads to a file or a directory. -/
def exists? (tree : FileTree) (path : Path) : Bool :=
  (tree.find? path).isSome

def isDirectory (tree : FileTree) (path : Path) : Bool :=
  (tree.find? path).any Node.isDirectory

def isFile (tree : FileTree) (path : Path) : Bool :=
  (tree.find? path).any Node.isFile

/-- The directory of a path's last piece, and that piece. -/
def locateLast (tree : FileTree) (path : Path) : Except FileError (Place × String) :=
  match pathError? path with
  | some error => .error error
  | none =>
    match tree.walk (start path) path.pieces.dropLast with
    | .error error => .error error
    | .ok place =>
      if (tree.node? place).any Node.isDirectory then .ok (place, path.pieces.getLast?.getD "")
      else .error .notDirectory

/-! ## Reading -/

/-- The text of a file. -/
def readText (tree : FileTree) (path : Path) : Except FileError String :=
  match tree.locate path with
  | .error error => .error error
  | .ok place =>
    match tree.node? place with
    | some (.file (.text value)) => .ok value
    | some (.file (.binary _)) => .error .notText
    | some .directory => .error .isDirectory
    | none => .error .notFound

/-- The files below a directory, each with the names that lead to it. -/
def filesBelow (tree : FileTree) (place : Place) : List (List String × Content) :=
  tree.entries.filterMap fun (other, node) =>
    match node with
    | .file content =>
      if other.isBelow place then some (other.names.drop place.names.length, content) else none
    | .directory => none

/-! ## Writing -/

/-- Writes a file, in place of an earlier one. -/
def write (tree : FileTree) (path : Path) (content : Content) : Except FileError FileTree :=
  match tree.locateLast path with
  | .error error => .error error
  | .ok (place, piece) =>
    match Path.part? piece with
    | some (.name name) =>
      if name.utf8ByteSize > maxName then .error .nameTooLong
      else if (tree.node? (place.child name)).any Node.isDirectory then .error .isDirectory
      else .ok (tree.put (place.child name) (.file content))
    | _ => .error .isDirectory

/-- Whether a path leads to a place, where there is something. -/
def leadsTo (tree : FileTree) (path : Path) (place : Place) : Bool :=
  match tree.locate path with
  | .ok other => other == place
  | .error _ => false

/-- Copies a file. The target is emptied before anything is read, so a file that is copied onto
itself is lost. -/
def copy (tree : FileTree) (source target : Path) : Except FileError FileTree :=
  match tree.locate source with
  | .error error => .error error
  | .ok place =>
    match tree.node? place with
    | some (.file content) =>
      tree.write target (if tree.leadsTo target place then .text "" else content)
    | some .directory => .error .notRegular
    | none => .error .notFound

/-- Drops slashes at the end. -/
def withoutSlashes (path : Path) : Path :=
  { path with pieces := (path.pieces.reverse.dropWhile (· == "")).reverse }

/-- Makes a directory in a directory that is there. -/
def makeDirectory (tree : FileTree) (path : Path) : Except FileError FileTree :=
  match tree.locateLast (withoutSlashes path) with
  | .error error => .error error
  | .ok (place, piece) =>
    match Path.part? piece with
    | some (.name name) =>
      if name.utf8ByteSize > maxName then .error .nameTooLong
      else if (tree.node? (place.child name)).isSome then .error .alreadyExists
      else .ok (tree.put (place.child name) .directory)
    | _ => .error .alreadyExists

/-- The parents of a path that are not empty, the nearest first. -/
def ancestors (path : Path) : List Path :=
  climb path.pieces.length path
where
  /-- Goes up at most so many times. -/
  climb : Nat → Path → List Path
    | 0, _ => []
    | steps + 1, path =>
      match path.parent? with
      | some above => if above.pieces.isEmpty then [] else above :: climb steps above
      | none => []

/-- Makes the first of the directories and, where they are missing, the others before it. The tree
is given back with what was made, also if a later step fails. -/
def makeChain (tree : FileTree) : List Path → Option FileError × FileTree
  | [] => (none, tree)
  | path :: above =>
    match tree.makeDirectory path with
    | .ok made => (none, made)
    | .error .notFound =>
      match makeChain tree above with
      | (some error, made) => (some error, made)
      | (none, made) =>
        match made.makeDirectory path with
        | .ok done => (none, done)
        | .error error => (if made.isDirectory path then none else some error, made)
    | .error error => (if tree.isDirectory path then none else some error, tree)

/-- Makes a directory and those that it is in. -/
def makeDirectories (tree : FileTree) (path : Path) : Option FileError × FileTree :=
  if path.pieces.isEmpty then (none, tree) else tree.makeChain (path :: ancestors path)

/-- Removes a directory and all that is below it. The directory stays, empty, if the path ends in
dots. -/
def removeDirectory (tree : FileTree) (path : Path) : Option FileError × FileTree :=
  match tree.locate path with
  | .error error => (some error, tree)
  | .ok place =>
    if !(tree.node? place).any Node.isDirectory then (some .notDirectory, tree)
    else
      let emptied : FileTree := ⟨tree.entries.filter fun entry => !entry.1.isBelow place⟩
      match emptied.locate path with
      | .error _ => (none, emptied)
      | .ok _ =>
        match (withoutSlashes path).pieces.getLast? with
        | some "." => (some .invalidArgument, emptied)
        | some ".." => (some .notEmpty, emptied)
        | _ => (none, ⟨emptied.entries.filter (·.1 != place)⟩)

/-- Makes an empty directory, in place of an earlier one. -/
def resetDirectory (tree : FileTree) (path : Path) : Option FileError × FileTree :=
  if tree.exists? path then
    match tree.removeDirectory path with
    | (none, removed) => removed.makeDirectories path
    | failed => failed
  else tree.makeDirectories path

/-! ## Names of what is found -/

theorem mem_names_of_node? {tree : FileTree} {place : Place} {name : String}
    (found : (tree.node? (place.child name)).isSome) : name ∈ tree.names := by
  have nonempty : (place.child name).names.isEmpty = false := by simp [Place.child]
  rw [node?, nonempty, if_neg (by simp)] at found
  obtain ⟨node, node_eq⟩ := Option.isSome_iff_exists.1 found
  obtain ⟨entry, entry_found, _⟩ := Option.map_eq_some_iff.1 node_eq
  have mem := List.mem_of_find?_eq_some entry_found
  have key := List.find?_some entry_found
  simp only [beq_iff_eq] at key
  exact List.mem_filterMap.2 ⟨entry, mem, by simp [key, Place.child]⟩

/-- A path that leads somewhere and ends in a name ends in a name of the tree. -/
theorem mem_names_of_walk {tree : FileTree} {place target : Place} {before : List String}
    {piece : String} (named : Path.IsName piece)
    (walked : tree.walk place (before ++ [piece]) = .ok target) : piece ∈ tree.names := by
  induction before generalizing place with
  | nil =>
    simp only [List.nil_append, walk] at walked
    split at walked
    · simp at walked
    · rw [Path.IsName] at named
      rw [named] at walked
      simp only at walked
      split at walked
      · simp at walked
      · split at walked
        · simp at walked
        · rename_i present
          exact mem_names_of_node? (by
            cases found : tree.node? (place.child piece) with
            | none => simp [found] at present
            | some node => simp)
  | cons first rest ih =>
    simp only [List.cons_append, walk] at walked
    split at walked
    · simp at walked
    · split at walked
      · exact ih walked
      · split at walked
        · simp at walked
        · split at walked
          · simp at walked
          · exact ih walked
      · exact ih walked

theorem mem_names_of_isFile {tree : FileTree} {rooted : Bool} {before : List String}
    {piece : String} (named : Path.IsName piece)
    (file : tree.isFile ⟨rooted, before ++ [piece]⟩ = true) : piece ∈ tree.names := by
  rw [isFile, find?, locate] at file
  split at file
  · rename_i place located
    split at located
    · simp at located
    · exact mem_names_of_walk named located
  · simp at file

end FileTree

end Componentry
