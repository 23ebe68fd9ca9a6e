import Mathlib.Data.List.Basic
import Mathlib.Data.List.TakeWhile
import Componentry.Closure
import Componentry.Proofs.Text.Pieces

/-!
# Places of paths

Where a path leads if all of it is there can be read off the path alone. Only its
steps count, which are its pieces without empty ones and dots: a name goes down,
and two dots go up. Joining paths appends their steps, the directory of a path
that ends in a name lacks the last step, and the parts of a normalized path end
in the names of the place (`LeadsTo`).

Steps that stay below a directory lead to the same names from whatever directory
they start (`descent?`). This is why relative specifiers can be moved with the
files that they are in.
-/

namespace Componentry

namespace Place

/-- The place that names lead to. -/
def descend (place : Place) (names : List String) : Place :=
  { place with names := place.names ++ names }

@[simp]
theorem names_descend (place : Place) (names : List String) :
    (place.descend names).names = place.names ++ names :=
  rfl

@[simp]
theorem descend_nil (place : Place) : place.descend [] = place := by
  simp [descend]

@[simp]
theorem descend_descend (place : Place) (names others : List String) :
    (place.descend names).descend others = place.descend (names ++ others) := by
  simp [descend]

theorem child_descend (place : Place) (names : List String) (name : String) :
    (place.descend names).child name = place.descend (names ++ [name]) := by
  simp [descend, child]

theorem child_eq_descend (place : Place) (name : String) :
    place.child name = place.descend [name] :=
  rfl

@[simp]
theorem descend_inj {place : Place} {names others : List String} :
    place.descend names = place.descend others ↔ names = others := by
  simp [descend]

theorem parent_child (place : Place) (name : String) : (place.child name).parent = place := by
  simp [parent, child]

theorem child_inj {place other : Place} {name name' : String} :
    place.child name = other.child name' ↔ place = other ∧ name = name' := by
  constructor
  · intro same
    have names_eq : place.names ++ [name] = other.names ++ [name'] := congrArg Place.names same
    have same_parent := congrArg parent same
    rw [parent_child, parent_child] at same_parent
    exact ⟨same_parent, List.singleton_inj.1 (List.append_inj' names_eq rfl).2⟩
  · rintro ⟨rfl, rfl⟩
    rfl

theorem parent_descend {place : Place} {names : List String} (nonempty : names ≠ []) :
    (place.descend names).parent = place.descend names.dropLast := by
  rcases List.eq_nil_or_concat names with rfl | ⟨front, last, rfl⟩
  · exact absurd rfl nonempty
  · rw [List.concat_eq_append, ← child_descend, parent_child, List.dropLast_concat]

/-- The place found instead if each second step above the start takes back the one before. -/
def folded (place : Place) : Place :=
  match place.anchor with
  | .root => place
  | .above levels => { place with anchor := .above (levels % 2) }

theorem names_folded (place : Place) : place.folded.names = place.names := by
  rcases place with ⟨_ | levels, names⟩ <;> rfl

theorem folded_parent (place : Place) : place.folded.parent.folded = place.parent.folded := by
  rcases place with ⟨_ | levels, names⟩
  · rfl
  · cases names <;> simp [folded, parent]

/-- One step of a path. -/
def move (place : Place) : Path.Part → Place
  | .root => ⟨.root, []⟩
  | .current => place
  | .parent => place.parent
  | .name name => place.child name

theorem foldl_move_names (place : Place) (names : List String) :
    (names.map Path.Part.name).foldl move place = place.descend names := by
  induction names generalizing place with
  | nil => simp
  | cons name rest ih =>
    rw [List.map_cons, List.foldl_cons, ih, move, child_eq_descend, descend_descend]
    rfl

end Place

namespace Path

variable {name piece : String} {other path : Path} {names before : List String} {parts : List Part}

/-- The pieces that have a meaning. -/
def steps (path : Path) : List Part :=
  path.pieces.filterMap part?

/-- Where the path leads if all of it is there. -/
def place (path : Path) : Place :=
  path.steps.foldl Place.move (FileTree.start path)

/-- The parts that are no steps. -/
def firstParts (path : Path) : List Part :=
  if path.rooted then [.root] else if path.pieces.head? = some "." then [.current] else []

theorem parts_eq_firstParts (path : Path) : path.parts = path.firstParts ++ path.steps := by
  have ignored : part? "." = none := rfl
  rw [parts, steps, firstParts]
  split
  · rfl
  · split
    · rename_i pieces_eq
      rw [pieces_eq, List.filterMap_cons, ignored]
      rfl
    · rename_i no_dot
      rw [if_neg]
      · rfl
      · intro dot
        rcases List.head?_eq_some_iff.1 dot with ⟨rest, pieces_eq⟩
        exact no_dot rest pieces_eq

theorem name_notMem_firstParts (path : Path) (name : String) : .name name ∉ path.firstParts := by
  rw [firstParts]
  split
  · simp
  · split <;> simp

theorem place_eq_foldl_parts (path : Path) :
    path.place = path.parts.foldl Place.move Place.current := by
  rw [place, FileTree.start, parts_eq_firstParts, List.foldl_append, firstParts]
  split
  · rfl
  · split <;> rfl

theorem isName_of_part? (named : part? piece = some (.name name)) :
    IsName name := by
  rw [part?] at named
  split at named
  · simp at named
  · split at named
    · simp at named
    · rename_i not_ignored not_parent
      cases named
      rw [IsName, part?, if_neg not_ignored, if_neg not_parent]

theorem eq_of_part? (named : part? piece = some (.name name)) :
    name = piece := by
  rw [part?] at named
  split at named
  · simp at named
  · split at named
    · simp at named
    · cases named
      rfl

theorem part?_eq_parent_or_name {part : Part} (meant : part? piece = some part) :
    part = .parent ∨ ∃ name, IsName name ∧ part = .name name := by
  have meant' := meant
  rw [part?] at meant
  split at meant
  · simp at meant
  · split at meant
    · cases meant
      exact .inl rfl
    · cases meant
      exact .inr ⟨piece, isName_of_part? meant', rfl⟩

theorem steps_eq_names {rooted : Bool} (named : ∀ name ∈ names, IsName name) :
    (⟨rooted, names⟩ : Path).steps = names.map .name := by
  rw [steps, List.filterMap_eq_map_iff_forall_eq_some]
  exact named

theorem start_eq_of_rooted (same : path.rooted = other.rooted) :
    FileTree.start path = FileTree.start other := by
  rw [FileTree.start, FileTree.start, same]

/-! ## Names of places -/

theorem isName_of_mem_foldl_move {place : Place} (before : ∀ name ∈ place.names, IsName name)
    (named : ∀ name, .name name ∈ parts → IsName name)
    (mem : name ∈ (parts.foldl Place.move place).names) : IsName name := by
  induction parts generalizing place with
  | nil => exact before name mem
  | cons part rest ih =>
    refine ih ?_ (fun name mem => named name (List.mem_cons_of_mem part mem)) mem
    intro name mem
    cases part with
    | root => simp [Place.move] at mem
    | current => exact before name mem
    | parent =>
      rw [Place.move, Place.parent] at mem
      split at mem
      · split at mem
        · exact before name mem
        · simp at mem
      · exact before name (List.dropLast_subset _ mem)
    | name last =>
      rcases List.mem_append.1 mem with earlier | here
      · exact before name earlier
      · rw [List.mem_singleton.1 here]
        exact named last List.mem_cons_self

theorem isName_of_mem_place (mem : name ∈ path.place.names) :
    IsName name := by
  refine isName_of_mem_foldl_move ?_ ?_ mem
  · intro name mem
    rw [FileTree.start] at mem
    split at mem
    · simp at mem
    · simp [Place.current] at mem
  · intro name mem
    rcases List.mem_filterMap.1 mem with ⟨piece, _, meant⟩
    exact isName_of_part? meant

/-! ## Joining paths -/

/-- What is before the pieces of a path that is joined to this one. -/
def stemPieces (base : Path) : List String :=
  if base.pieces.getLast? = some "" then base.pieces.dropLast else base.pieces

theorem join_eq (base : Path) (relative : other.rooted = false) (nonempty : other.pieces ≠ []) :
    base.join other = ⟨base.rooted, base.stemPieces ++ other.pieces⟩ := by
  rw [join, relative, if_neg Bool.false_ne_true]
  split
  · rename_i no_pieces
    rw [List.isEmpty_iff] at no_pieces
    simp [stemPieces, no_pieces]
  · simp [stemPieces, nonempty]

theorem rooted_join (base : Path) (relative : other.rooted = false) :
    (base.join other).rooted = base.rooted := by
  rw [join, relative, if_neg Bool.false_ne_true]
  split <;> rfl

theorem steps_join (base : Path) (relative : other.rooted = false) :
    (base.join other).steps = base.steps ++ other.steps := by
  have ignored : part? "" = none := rfl
  rw [join, relative, if_neg Bool.false_ne_true]
  split
  · rename_i no_pieces
    simp [steps, List.isEmpty_iff.1 no_pieces]
  · have stem_steps : (if base.pieces.getLast? = some "" then base.pieces.dropLast
        else base.pieces).filterMap part? = base.pieces.filterMap part? := by
      split
      · rename_i last
        conv_rhs => rw [← List.dropLast_append_getLast? "" last]
        simp [ignored]
      · rfl
    have other_steps : (if other.pieces.isEmpty then [""] else other.pieces).filterMap part? =
        other.pieces.filterMap part? := by
      split
      · rename_i no_pieces
        simp [List.isEmpty_iff.1 no_pieces, ignored]
      · rfl
    simp only [steps, List.filterMap_append, stem_steps, other_steps]

theorem place_join (base : Path) (relative : other.rooted = false) :
    (base.join other).place = other.steps.foldl Place.move base.place := by
  rw [place, steps_join base relative, List.foldl_append,
    start_eq_of_rooted (rooted_join base relative)]
  rfl

/-! ## Paths that end in a name -/

structure EndsIn (path : Path) (name : String) : Prop where
  named : IsName name
  last : ∃ before, path.pieces = before ++ [name]

theorem EndsIn.join {base : Path} (ends : other.EndsIn name) (relative : other.rooted = false) :
    (base.join other).EndsIn name := by
  rcases ends.last with ⟨before, pieces_eq⟩
  refine ⟨ends.named, base.stemPieces ++ before, ?_⟩
  rw [join_eq base relative (by simp [pieces_eq]), pieces_eq, List.append_assoc]

/-- Pieces without meaning at the end are no steps. -/
theorem filterMap_dropEnd {drops : String → Bool}
    (no_meaning : ∀ piece, drops piece = true → part? piece = none) (pieces : List String) :
    (pieces.reverse.dropWhile drops).reverse.filterMap part? = pieces.filterMap part? := by
  let ignored := pieces.reverse.takeWhile drops
  have pieces_eq : pieces = (pieces.reverse.dropWhile drops).reverse ++ ignored.reverse := by
    rw [← List.reverse_append, List.takeWhile_append_dropWhile, List.reverse_reverse]
  have no_steps : ignored.reverse.filterMap part? = [] := by
    rw [List.filterMap_eq_nil_iff]
    intro piece mem
    exact no_meaning piece (List.mem_takeWhile_imp (List.mem_reverse.1 mem))
  conv_rhs => rw [pieces_eq, List.filterMap_append, no_steps, List.append_nil]

theorem filterMap_trimEnd (pieces : List String) :
    (trimEnd pieces).filterMap part? = pieces.filterMap part? :=
  filterMap_dropEnd (fun _ => Option.isNone_iff_eq_none.1) pieces

theorem filterMap_trimPieces (rooted : Bool) (pieces : List String) :
    (trimPieces rooted pieces).filterMap part? = pieces.filterMap part? := by
  unfold trimPieces
  split
  · have ignored : part? "." = none := rfl
    simp only [List.filterMap_cons, ignored, filterMap_trimEnd]
  · exact filterMap_trimEnd _

theorem trimEnd_concat (named : IsName name) :
    trimEnd (before ++ [name]) = before ++ [name] := by
  have meant : (part? name).isNone = false := by
    rw [named]
    rfl
  simp [trimEnd, meant]

theorem trimPieces_concat {rooted : Bool} (named : IsName name) :
    trimPieces rooted (before ++ [name]) = before ++ [name] := by
  unfold trimPieces
  split
  · rename_i rest pieces_eq
    cases before with
    | nil =>
      simp only [List.nil_append, List.cons.injEq] at pieces_eq
      rw [pieces_eq.1] at named
      simp [IsName, part?] at named
    | cons first others =>
      simp only [List.cons_append, List.cons.injEq] at pieces_eq
      rw [← pieces_eq.2, trimEnd_concat named, ← pieces_eq.1, List.cons_append]
  · exact trimEnd_concat named

theorem directory_of_last (named : IsName name) (pieces_eq : path.pieces = before ++ [name]) :
    path.directory = ⟨path.rooted, trimPieces path.rooted before⟩ := by
  have parent_eq : path.parent? = some ⟨path.rooted, trimPieces path.rooted before⟩ := by
    rw [parent?, pieces_eq, trimPieces_concat named]
    split
    · rename_i no_pieces
      simp at no_pieces
    · rw [List.dropLast_concat]
  rw [directory, parent_eq, Option.getD_some]

namespace EndsIn

variable {path : Path} {name : String}

theorem rooted_directory (ends : path.EndsIn name) : path.directory.rooted = path.rooted := by
  rcases ends.last with ⟨before, pieces_eq⟩
  rw [directory_of_last ends.named pieces_eq]

theorem steps_directory (ends : path.EndsIn name) {before : List String}
    (pieces_eq : path.pieces = before ++ [name]) :
    path.directory.steps = before.filterMap part? := by
  rw [directory_of_last ends.named pieces_eq, steps, filterMap_trimPieces]

theorem steps_eq (ends : path.EndsIn name) : path.steps = path.directory.steps ++ [.name name] := by
  rcases ends.last with ⟨before, pieces_eq⟩
  rw [ends.steps_directory pieces_eq, steps, pieces_eq, List.filterMap_append, List.filterMap_cons,
    ends.named]
  rfl

theorem place_eq (ends : path.EndsIn name) : path.place = path.directory.place.child name := by
  rw [place, ends.steps_eq, List.foldl_append, place, start_eq_of_rooted ends.rooted_directory]
  rfl

end EndsIn

/-! ## Normalized paths -/

/-- What a path starts from before its first step. -/
def origin (path : Path) : List Part :=
  if path.rooted then [.root] else []

/-- The parts that are left when those of a path have been followed. -/
def normalParts (path : Path) : List Part :=
  path.parts.foldl follow []

theorem normalParts_eq (path : Path) : path.normalParts = path.steps.foldl follow path.origin := by
  rw [normalParts, parts_eq_firstParts, List.foldl_append, firstParts, origin]
  split
  · rfl
  · split <;> rfl

theorem normalize_eq (path : Path) :
    path.normalize = ofParts (path.steps.foldl follow path.origin) :=
  congrArg ofParts path.normalParts_eq

/-- What is before the names of parts that were followed. A step up from the first and the third
leads to the next, and from the others back. -/
def leads : List (List Part) :=
  [[], [.parent], [.root], [.root, .parent]]

/-- Parts that were followed end in the names of the place where they should lead, and of the steps
above the start they have one or none. -/
def LeadsTo (done : List Part) (place : Place) : Prop :=
  (∃ lead ∈ leads, done = lead ++ place.names.map .name) ∧
    done.foldl Place.move .current = place.folded

theorem follow_name (done : List Part) (name : String) :
    follow done (.name name) = done ++ [.name name] :=
  rfl

theorem follow_parent_of_name (done : List Part) (name : String) :
    follow (done ++ [.name name]) .parent = done := by
  simp [follow]

theorem LeadsTo.follow {done : List Part} {place : Place} (leadsTo : LeadsTo done place)
    {part : Part} (not_root : part ≠ .root) :
    LeadsTo (Path.follow done part) (place.move part) := by
  rcases leadsTo with ⟨⟨lead, lead_mem, rfl⟩, here⟩
  rcases place with ⟨anchor, names⟩
  cases part with
  | root => exact absurd rfl not_root
  | current => exact ⟨⟨lead, lead_mem, rfl⟩, here⟩
  | name name =>
    refine ⟨⟨lead, lead_mem, by simp [Path.follow, Place.move, Place.child]⟩, ?_⟩
    rw [follow_name, List.foldl_append, here]
    cases anchor <;> rfl
  | parent =>
    rcases List.eq_nil_or_concat names with rfl | ⟨front, last, rfl⟩
    · -- Only the lead changes: there is no name to take back.
      have turns : ∀ lead ∈ leads, Path.follow lead .parent ∈ leads ∧
          (Path.follow lead .parent).foldl Place.move .current =
            (lead.foldl Place.move .current).parent.folded := by decide
      rcases turns lead lead_mem with ⟨turned_mem, turned⟩
      have no_names : (Place.parent ⟨anchor, []⟩).names = [] := by
        cases anchor <;> rfl
      rw [List.map_nil, List.append_nil] at here ⊢
      refine ⟨⟨_, turned_mem, by simp [Place.move, no_names]⟩, ?_⟩
      rw [turned, here, Place.folded_parent]
      rfl
    · rw [List.concat_eq_append, List.map_append, List.map_singleton, ← List.append_assoc] at here ⊢
      rw [List.foldl_append] at here
      have back := congrArg Place.parent here
      rw [List.foldl_cons, List.foldl_nil, Place.move, Place.parent_child] at back
      rw [follow_parent_of_name]
      refine ⟨⟨lead, lead_mem, by simp [Place.move, Place.parent]⟩, ?_⟩
      rw [back]
      cases anchor <;> simp [Place.folded, Place.move, Place.parent]

theorem leadsTo_origin (path : Path) : LeadsTo path.origin (FileTree.start path) := by
  rw [origin, FileTree.start]
  split
  · exact ⟨⟨[.root], by simp [leads], rfl⟩, rfl⟩
  · exact ⟨⟨[], by simp [leads], rfl⟩, rfl⟩

theorem LeadsTo.foldl_follow {done : List Part} {place : Place} (leadsTo : LeadsTo done place)
    (not_root : .root ∉ parts) :
    LeadsTo (parts.foldl Path.follow done) (parts.foldl Place.move place) := by
  induction parts generalizing done place with
  | nil => exact leadsTo
  | cons part rest ih =>
    rw [List.mem_cons, not_or] at not_root
    exact ih (leadsTo.follow fun is_root => not_root.1 is_root.symm) not_root.2

theorem root_notMem_steps (path : Path) : .root ∉ path.steps := by
  intro mem
  rcases List.mem_filterMap.1 mem with ⟨piece, _, meant⟩
  rcases part?_eq_parent_or_name meant with is_parent | ⟨name, _, is_name⟩
  · simp at is_parent
  · simp at is_name

@[simp]
theorem map_pieceOf_name (names : List String) :
    names.map (ofParts.pieceOf ∘ Part.name) = names :=
  List.map_id names

theorem ofParts_names (names : List String) : ofParts (names.map .name) = ⟨false, names⟩ := by
  cases names with
  | nil => rfl
  | cons name rest => simp [ofParts, ofParts.pieceOf]

theorem ofParts_parent (names : List String) :
    ofParts ([.parent] ++ names.map .name) = ⟨false, ".." :: names⟩ := by
  simp [ofParts, ofParts.pieceOf]

theorem ofParts_root (names : List String) :
    ofParts ([.root] ++ names.map .name) = ⟨true, names⟩ := by
  simp [ofParts]

theorem ofParts_root_parent (names : List String) :
    ofParts ([.root, .parent] ++ names.map .name) = ⟨true, ".." :: names⟩ := by
  simp [ofParts, ofParts.pieceOf]

/-! ## Steps below a directory -/

/-- The names that steps lead to below a directory, from the names where they start, if they do not
leave the directory. -/
def descent? (names : List String) : List Part → Option (List String)
  | [] => some names
  | .root :: _ => none
  | .current :: rest => descent? names rest
  | .parent :: rest => if names.isEmpty then none else descent? names.dropLast rest
  | .name name :: rest => descent? (names ++ [name]) rest

theorem foldl_move_of_descent? {after : List String} (descent : descent? names parts = some after)
    (place : Place) :
    parts.foldl Place.move (place.descend names) = place.descend after := by
  fun_induction descent? names parts with
  | case1 names =>
    cases descent
    rfl
  | case2 => simp at descent
  | case3 names rest ih => exact ih descent
  | case4 => simp at descent
  | case5 names rest nonempty ih =>
    rw [List.foldl_cons, Place.move, Place.parent_descend (by simpa using nonempty)]
    exact ih descent
  | case6 names name rest ih =>
    rw [List.foldl_cons, Place.move, Place.child_descend]
    exact ih descent

theorem foldl_follow_of_descent? {after : List String} (descent : descent? names parts = some after)
    (done : List Part) :
    parts.foldl follow (done ++ names.map .name) = done ++ after.map .name := by
  fun_induction descent? names parts with
  | case1 names =>
    cases descent
    rfl
  | case2 => simp at descent
  | case3 names rest ih => exact ih descent
  | case4 => simp at descent
  | case5 names rest nonempty ih =>
    rcases List.eq_nil_or_concat names with rfl | ⟨front, last, rfl⟩
    · simp at nonempty
    · rw [List.concat_eq_append, List.dropLast_concat] at ih
      rw [List.concat_eq_append, List.dropLast_concat] at descent
      rw [List.concat_eq_append, List.foldl_cons, List.map_append, ← List.append_assoc]
      have back := follow_parent_of_name (done ++ front.map .name) last
      rw [List.map_singleton, back]
      exact ih descent
  | case6 names name rest ih =>
    rw [List.foldl_cons, follow_name, List.append_assoc]
    simpa using ih descent

theorem descent?_names (names others : List String) :
    descent? names (others.map .name) = some (names ++ others) := by
  induction others generalizing names with
  | nil => simp [descent?]
  | cons name rest ih => simp [descent?, ih]

theorem descent?_append (names : List String) (parts others : List Part) :
    descent? names (parts ++ others) =
      (descent? names parts).bind fun after => descent? after others := by
  fun_induction descent? names parts with
  | case1 names => rfl
  | case2 names rest => rfl
  | case3 names rest ih => simpa [descent?] using ih
  | case4 names rest no_names => simp [descent?, no_names]
  | case5 names rest nonempty ih => simpa [descent?, nonempty] using ih
  | case6 names name rest ih => simpa [descent?] using ih

/-- The normalized path of steps below a directory depends only on the names that they lead to. -/
theorem normalize_of_descent? {base : Path} (same_root : path.rooted = base.rooted)
    (steps_eq : path.steps = base.steps ++ parts) (descent : descent? [] parts = some names) :
    path.normalize = ofParts (base.steps.foldl follow base.origin ++ names.map .name) := by
  have origin_eq : path.origin = base.origin := by
    rw [origin, origin, same_root]
  have followed := foldl_follow_of_descent? descent (base.steps.foldl follow base.origin)
  rw [List.map_nil, List.append_nil] at followed
  rw [normalize_eq, origin_eq, steps_eq, List.foldl_append, followed]

/-! ## Paths that are read -/

theorem mem_pieces_of_fileName? (named : path.fileName? = some name) :
    name ∈ path.pieces ∧ IsName name := by
  rw [fileName?] at named
  split at named
  · rename_i text last
    cases named
    have mem := List.mem_of_getLast? last
    rw [parts_eq_firstParts, List.mem_append] at mem
    rcases List.mem_filterMap.1 (mem.resolve_left (path.name_notMem_firstParts name)) with
      ⟨piece, piece_mem, meant⟩
    rw [eq_of_part? meant]
    exact ⟨piece_mem, eq_of_part? meant ▸ isName_of_part? meant⟩
  · simp at named

theorem ofText_of_isName (named : IsName name) (no_slash : ∀ c ∈ name.toList, (c == '/') = false) :
    ofText name = ⟨false, [name]⟩ := by
  have nonempty : name.toList ≠ [] := by
    intro no_chars
    rw [String.toList_eq_nil_iff] at no_chars
    subst no_chars
    simp [IsName, part?] at named
  rw [ofText]
  split
  · rename_i rest chars_eq
    rw [chars_eq] at no_slash
    simpa using no_slash '/' List.mem_cons_self
  · simp [nonempty, Text.pieces_of_no_separator no_slash]

theorem no_slash_of_mem_ofText {text : String} (mem : piece ∈ (ofText text).pieces) :
    ∀ c ∈ piece.toList, (c == '/') = false := by
  have cut_mem : ∃ chars, piece ∈ (Text.pieces (· == '/') chars).map String.ofList := by
    rw [ofText] at mem
    split at mem
    · dsimp only at mem
      split at mem
      · simp at mem
      · exact ⟨_, mem⟩
    · dsimp only at mem
      split at mem
      · simp at mem
      · exact ⟨_, mem⟩
  rcases cut_mem with ⟨chars, cut_mem⟩
  rcases List.mem_map.1 cut_mem with ⟨piece, piece_mem, rfl⟩
  rw [String.toList_ofList]
  exact Text.not_isSeparator_of_mem_pieces piece_mem

/-- The name of a file that a text leads to is a path of its own. -/
theorem ofText_fileName? {text : String} (named : (ofText text).fileName? = some name) :
    ofText name = ⟨false, [name]⟩ := by
  rcases mem_pieces_of_fileName? named with ⟨mem, is_name⟩
  exact ofText_of_isName is_name (no_slash_of_mem_ofText mem)

end Path

end Componentry
