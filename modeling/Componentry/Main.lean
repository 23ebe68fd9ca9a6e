import Componentry.CommandLine

/-!
# The program

Reads the files that a run can see, runs, prints, and writes back what the run changed. A run sees
what is below the working directory and the places that its arguments name.
-/

namespace Componentry

/-! ## Places of the file system -/

/-- The path of a place. -/
def Place.text (place : Place) : String :=
  match place.anchor with
  | .root => "/" ++ "/".intercalate place.names
  | .above levels => "/".intercalate ("." :: List.replicate levels ".." ++ place.names)

/-- The place that a path names. -/
def Place.ofPath (path : Path) : Place :=
  path.pieces.foldl (fun place piece =>
    match Path.part? piece with
    | none => place
    | some (.name name) => place.child name
    | some _ => place.parent) (FileTree.start path)

/-- The directories on the way to a place, the outermost first. -/
def Place.above (place : Place) : List Place :=
  (List.range place.names.length).map fun count => { place with names := place.names.take count }

/-- The places outside the working directory that a command names. The files of modules are looked
for beside the input. -/
def Command.places (command : Command) : List Place :=
  let common (options : RunOptions) :=
    (Place.ofPath options.input).parent :: options.config.toList.map Place.ofPath
  let places := match command with
    | .check options => common options
    | .build options target =>
      common options ++ (target.out :: target.modulesOut.toList).map Place.ofPath
  places.filter (·.anchor != .above 0)

/-! ## Reading -/

/-- An entry of the file system by its path. -/
def entryAt (place : Place) : IO.FS.DirEntry :=
  { root := place.text, fileName := "." }

mutual

/-- What is at a place and below it. -/
partial def scan (place : Place) : IO (List (Place × Node)) := do
  if ← (entryAt place).path.isDir then return (place, .directory) :: (← scanBelow place)
  try
    let bytes ← IO.FS.readBinFile place.text
    return [(place, .file (.ofBytes bytes))]
  catch _ => return []

/-- What is below a directory. -/
partial def scanBelow (place : Place) : IO (List (Place × Node)) := do
  let entries ← (entryAt place).path.readDir
  let found ← entries.toList.mapM fun entry => scan (place.child entry.fileName)
  return found.flatten

end

/-- The files that a run can see. -/
def snapshot (arguments : List String) : IO FileTree := do
  let places := match Invocation.ofArguments? arguments with
    | some (.run command) => command.places
    | _ => []
  let below ← scanBelow .current
  let outside ← places.mapM fun place => do
    let found ← scan place
    let above := if found.isEmpty then [] else place.above.map fun place => (place, Node.directory)
    return above ++ found
  return ⟨below ++ outside.flatten⟩

/-! ## Writing -/

/-- Whether nothing has to be done for an entry to be in a tree. -/
def isKept (tree : FileTree) (place : Place) : Node → Bool
  | .directory => (tree.node? place).any Node.isDirectory
  | .file content =>
    match tree.node? place with
    | some (.file other) => other == content
    | _ => false

/-- Removes what a run removed, the innermost first, and writes what it made. -/
def writeBack (before after : FileTree) : IO Unit := do
  let gone := before.entries.filter fun entry => (after.node? entry.1).isNone
  for (place, node) in gone.mergeSort (fun left right => right.1.names.length ≤ left.1.names.length) do
    match node with
    | .directory => IO.FS.removeDir place.text
    | .file _ => IO.FS.removeFile place.text
  for (place, node) in after.entries do
    if !isKept before place node then
      match node with
      | .directory => IO.FS.createDirAll place.text
      | .file (.text value) => IO.FS.writeFile place.text value
      | .file (.binary bytes) => IO.FS.writeBinFile place.text bytes

end Componentry

def main (arguments : List String) : IO UInt32 := do
  let before ← Componentry.snapshot arguments
  let outcome := Componentry.CommandLine.run arguments before
  Componentry.writeBack before outcome.files
  IO.print outcome.stdout
  IO.eprint outcome.stderr
  return outcome.exitCode.toUInt32
