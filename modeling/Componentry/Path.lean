import Componentry.Text.Blank

/-!
# Paths

A path is kept as it is written: whether it starts at the root, and the pieces between slashes, with
empty pieces and dots. What a path means is read off its `parts`, which leave out what has no
meaning. Two paths with the same parts need not be written alike.
-/

namespace Componentry

/-- A path as it is written. -/
structure Path where
  /-- Whether the path starts with a slash. -/
  rooted : Bool
  /-- The pieces between slashes after that; an empty rest has none. -/
  pieces : List String
deriving DecidableEq, Repr

namespace Path

/-- Reads a path. -/
def ofText (text : String) : Path :=
  let cut (chars : List Char) : List String :=
    if chars.isEmpty then [] else (Text.pieces (· == '/') chars).map String.ofList
  match text.toList with
  | '/' :: rest => ⟨true, cut rest⟩
  | chars => ⟨false, cut chars⟩

/-- The path as written. -/
def text (path : Path) : String :=
  (if path.rooted then "/" else "") ++ "/".intercalate path.pieces

/-- The path of no place at all. -/
def empty : Path := ⟨false, []⟩

/-- What a piece of a path means. -/
inductive Part where
  | root
  | current
  | parent
  | name (text : String)
deriving DecidableEq, Repr

/-- The meaning of a piece; empty pieces and dots have none. -/
def part? (piece : String) : Option Part :=
  if piece = "" ∨ piece = "." then none
  else if piece = ".." then some .parent
  else some (.name piece)

/-- The parts of a path. A dot counts only at the start of a path that is not rooted. -/
def parts (path : Path) : List Part :=
  if path.rooted then .root :: path.pieces.filterMap part?
  else
    match path.pieces with
    | "." :: rest => .current :: rest.filterMap part?
    | pieces => pieces.filterMap part?

/-- Whether a path only goes down, by names. -/
def goesDown (path : Path) : Bool :=
  !path.parts.isEmpty && path.parts.all fun
    | .name _ => true
    | _ => false

/-- The name of the file or directory, if the path ends in a name. -/
def fileName? (path : Path) : Option String :=
  match path.parts.getLast? with
  | some (.name text) => some text
  | _ => none

/-- Drops the pieces without meaning at the end. -/
def trimEnd (pieces : List String) : List String :=
  (pieces.reverse.dropWhile fun piece => (part? piece).isNone).reverse

/-- Drops the pieces without meaning at the end, but not a dot at the start. -/
def trimPieces (rooted : Bool) (pieces : List String) : List String :=
  match rooted, pieces with
  | false, "." :: rest => "." :: trimEnd rest
  | _, pieces => trimEnd pieces

/-- The path without its last part, as written; the root and the empty path have none. -/
def parent? (path : Path) : Option Path :=
  match trimPieces path.rooted path.pieces with
  | [] => none
  | pieces => some ⟨path.rooted, trimPieces path.rooted pieces.dropLast⟩

/-- The directory of a file, or the empty path. -/
def directory (path : Path) : Path :=
  path.parent?.getD empty

/-- A path seen from another one. -/
def join (base other : Path) : Path :=
  if other.rooted then other
  else if base.pieces.isEmpty then ⟨base.rooted, other.pieces⟩
  else
    let stem := if base.pieces.getLast? = some "" then base.pieces.dropLast else base.pieces
    ⟨base.rooted, stem ++ if other.pieces.isEmpty then [""] else other.pieces⟩

/-- Changes the last piece. -/
def mapLast (path : Path) (change : String → String) : Path :=
  { path with pieces := path.pieces.dropLast ++ [change (path.pieces.getLast?.getD "")] }

/-- The path made of parts. -/
def ofParts : List Part → Path
  | .root :: rest => ⟨true, rest.map pieceOf⟩
  | parts => ⟨false, parts.map pieceOf⟩
where
  /-- How a part is written. -/
  pieceOf : Part → String
    | .root => ""
    | .current => "."
    | .parent => ".."
    | .name text => text

/-- Follows one part after parts that were followed before. Going up takes back the last part,
whatever it is, unless there is none or only the root. -/
def follow (done : List Part) (part : Part) : List Part :=
  match part with
  | .current => done
  | .parent =>
    match done.getLast? with
    | none => [.parent]
    | some .root => done ++ [.parent]
    | some _ => done.dropLast
  | other => done ++ [other]

/-- The path without dots and detours. -/
def normalize (path : Path) : Path :=
  ofParts (path.parts.foldl follow [])

/-- The parts of a path after those of another, if it starts with them. -/
def partsAfter? (path base : Path) : Option (List Part) :=
  if base.parts.isPrefixOf path.parts then some (path.parts.drop base.parts.length) else none

/-- The end of a file name after its last dot; a dot at the start does not count. -/
def extension? (path : Path) : Option String := do
  let name ← path.fileName?
  let reversed := name.toList.reverse
  let suffix := reversed.takeWhile (· != '.')
  match reversed.drop suffix.length with
  | _ :: _ :: _ => some (String.ofList suffix.reverse)
  | _ => none

/-- The order of parts: the root, dots, and then names. -/
def compareParts : Part → Part → Ordering
  | .name left, .name right => compare left right
  | left, right => compare (rank left) (rank right)
where
  /-- The place of a part among parts of other kinds. -/
  rank : Part → Nat
    | .root => 0
    | .current => 1
    | .parent => 2
    | .name _ => 3

/-- The order of paths, part by part. -/
def compareAll : List Part → List Part → Ordering
  | [], [] => .eq
  | [], _ :: _ => .lt
  | _ :: _, [] => .gt
  | left :: lefts, right :: rights => (compareParts left right).then (compareAll lefts rights)

/-- Whether a path comes before another or is as good as it. -/
def precedes (left right : Path) : Bool :=
  compareAll left.parts right.parts != .gt

/-! ## The last piece -/

/-- A piece that is a name. -/
def IsName (piece : String) : Prop :=
  part? piece = some (.name piece)

theorem parts_of_last (rooted : Bool) (before : List String) {piece : String}
    (named : IsName piece) :
    ∃ front, (⟨rooted, before ++ [piece]⟩ : Path).parts = front ++ [.name piece] := by
  have last : [piece].filterMap part? = [.name piece] := by
    rw [List.filterMap_cons, named]
    rfl
  unfold parts
  split
  · exact ⟨.root :: before.filterMap part?, by simp [List.filterMap_append, last]⟩
  · split
    · rename_i rest pieces_eq
      match before with
      | [] =>
        simp only [List.nil_append, List.cons.injEq] at pieces_eq
        rw [IsName, pieces_eq.1] at named
        simp [part?] at named
      | first :: others =>
        simp only [List.cons_append, List.cons.injEq] at pieces_eq
        exact ⟨.current :: others.filterMap part?, by
          simp [← pieces_eq.2, List.filterMap_append, last]⟩
    · exact ⟨before.filterMap part?, by simp [List.filterMap_append, last]⟩

theorem fileName?_of_last {rooted : Bool} {before : List String} {piece : String}
    (named : IsName piece) : (⟨rooted, before ++ [piece]⟩ : Path).fileName? = some piece := by
  obtain ⟨front, parts_eq⟩ := parts_of_last rooted before named
  simp [fileName?, parts_eq]

/-- Normalizing a path keeps the name at its end. -/
theorem fileName?_normalize_of_last {rooted : Bool} {before : List String} {piece : String}
    (named : IsName piece) :
    (⟨rooted, before ++ [piece]⟩ : Path).normalize.fileName? = some piece := by
  obtain ⟨front, parts_eq⟩ := parts_of_last rooted before named
  rw [normalize, parts_eq, List.foldl_append]
  simp only [List.foldl_cons, List.foldl_nil, follow]
  unfold ofParts
  split
  · rename_i rest done_eq
    match done : front.foldl follow [] with
    | [] => simp [done] at done_eq
    | first :: others =>
      rw [done, List.cons_append, List.cons.injEq] at done_eq
      rw [← done_eq.2, List.map_append]
      exact fileName?_of_last named
  · rw [List.map_append]
    exact fileName?_of_last named

end Path

end Componentry
