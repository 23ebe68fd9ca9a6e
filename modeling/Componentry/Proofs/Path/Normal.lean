import Componentry.Proofs.Path.Place

/-!
# Normal parts

Following the parts of a path one after the other leaves parts of a simple form:
perhaps the root, then at most one step up, and then names (`IsSettled`). These are
the parts of the normalized path, and following them again changes nothing. A path
that has such parts is plain: it starts with no dot, makes no detours, and does not
go up twice.

A normalized path leads to the same names, but not always from the same directory:
a second step above the start takes back the first one (`place_normalize`).
-/

namespace Componentry

namespace Path

variable {path base : Path} {parts front : List Part} {names : List String}

/-- Names, after what can stand before them. -/
def IsSettled (parts : List Part) : Prop :=
  ∃ lead ∈ leads, ∃ names : List String, (∀ name ∈ names, IsName name) ∧
    parts = lead ++ names.map .name

theorem isSettled_normalParts (path : Path) : IsSettled path.normalParts := by
  rcases (leadsTo_origin path).foldl_follow (root_notMem_steps path) with
    ⟨⟨lead, lead_mem, done_eq⟩, _⟩
  refine ⟨lead, lead_mem, path.place.names, ?_, ?_⟩
  · intro name mem
    exact isName_of_mem_place mem
  · rw [normalParts_eq, done_eq]
    rfl

theorem mem_leads_of_prefix {lead : List Part} (mem : lead ∈ leads) (before : front <+: lead) :
    front ∈ leads := by
  have fronts : ∀ lead ∈ leads, ∀ front ∈ lead.inits, front ∈ leads := by decide
  apply fronts lead mem
  exact (List.mem_inits front lead).2 before

theorem IsSettled.of_prefix (settled : IsSettled parts) (before : front <+: parts) :
    IsSettled front := by
  rcases settled with ⟨lead, lead_mem, names, named, rfl⟩
  rcases before with ⟨rest, all_eq⟩
  rcases List.append_eq_append_iff.1 all_eq with ⟨middle, lead_eq, _⟩ | ⟨middle, front_eq, names_eq⟩
  · refine ⟨front, ?_, [], by simp, by simp⟩
    apply mem_leads_of_prefix lead_mem
    exact ⟨middle, lead_eq.symm⟩
  · rcases List.map_eq_append_iff.1 names_eq with ⟨firsts, others, rfl, rfl, _⟩
    refine ⟨lead, lead_mem, firsts, ?_, front_eq⟩
    intro name mem
    exact named name (List.mem_append_left others mem)

theorem foldl_follow_names (done : List Part) (names : List String) :
    (names.map Part.name).foldl follow done = done ++ names.map .name := by
  induction names generalizing done with
  | nil => simp
  | cons name rest ih => simp [ih, follow_name]

/-- Following settled parts changes nothing. -/
theorem IsSettled.foldl_follow (settled : IsSettled parts) : parts.foldl follow [] = parts := by
  rcases settled with ⟨lead, lead_mem, names, _, rfl⟩
  have lead_kept : ∀ lead ∈ leads, lead.foldl follow [] = lead := by decide
  rw [List.foldl_append, lead_kept lead lead_mem, foldl_follow_names]

/-- Without a dot at the start, the parts of a path are the root, if it has one, and its steps. -/
theorem parts_eq_steps (no_dot : path.pieces.head? ≠ some ".") :
    path.parts = path.origin ++ path.steps := by
  rw [parts_eq_firstParts, firstParts, if_neg no_dot, origin]

theorem IsSettled.parts_ofParts (settled : IsSettled parts) : (ofParts parts).parts = parts := by
  rcases settled with ⟨lead, lead_mem, names, named, rfl⟩
  have steps_names (rooted : Bool) : (⟨rooted, names⟩ : Path).steps = names.map .name :=
    steps_eq_names named
  have steps_parent (rooted : Bool) :
      (⟨rooted, ".." :: names⟩ : Path).steps = .parent :: names.map .name := by
    rw [← steps_names rooted]
    rfl
  have no_dot : names.head? ≠ some "." := by
    intro dot
    have named_dot := named "." (List.mem_of_head? dot)
    simp [IsName, part?] at named_dot
  simp only [leads, List.mem_cons, List.not_mem_nil, or_false] at lead_mem
  rcases lead_mem with rfl | rfl | rfl | rfl
  · rw [List.nil_append, ofParts_names, parts_eq_steps no_dot, steps_names]
    rfl
  · rw [ofParts_parent, parts_eq_steps (by simp), steps_parent]
    rfl
  · rw [ofParts_root, parts_eq_steps no_dot, steps_names]
    rfl
  · rw [ofParts_root_parent, parts_eq_steps (by simp), steps_parent]
    rfl

theorem parts_normalize (path : Path) : path.normalize.parts = path.normalParts :=
  path.isSettled_normalParts.parts_ofParts

theorem normalize_normalize (path : Path) : path.normalize.normalize = path.normalize := by
  rw [normalize, parts_normalize, path.isSettled_normalParts.foldl_follow]
  rfl

theorem place_normalize (path : Path) : path.normalize.place = path.place.folded := by
  rw [place_eq_foldl_parts, parts_normalize, normalParts_eq]
  exact (path.leadsTo_origin.foldl_follow path.root_notMem_steps).2

theorem names_place_normalize (path : Path) : path.normalize.place.names = path.place.names := by
  rw [place_normalize, Place.names_folded]

/-- A normalized path leads elsewhere exactly if the path climbs above its start more than once. -/
theorem place_normalize_eq_iff (path : Path) : path.normalize.place = path.place ↔
    ∀ levels, path.place.anchor = .above levels → levels ≤ 1 := by
  rw [place_normalize]
  rcases path.place with ⟨_ | levels, names⟩
  · simp [Place.folded]
  · simp only [Place.folded, Place.mk.injEq, Anchor.above.injEq, and_true]
    constructor
    · intro same other other_eq
      omega
    · intro most
      have := most levels rfl
      omega

theorem normalize_of_two_climbs : (ofText "../../a").normalize = ofText "a" := by decide +kernel

theorem root_mem_follow {done : List Part} {part : Part} (not_root : part ≠ .root) :
    .root ∈ follow done part ↔ .root ∈ done := by
  cases part with
  | root => exact absurd rfl not_root
  | current => rfl
  | name name => simp [follow]
  | parent =>
    rcases List.eq_nil_or_concat done with rfl | ⟨before, last, rfl⟩
    · simp [follow]
    · rw [List.concat_eq_append]
      cases last <;> simp [follow]

theorem root_mem_normalParts : .root ∈ path.normalParts ↔ path.rooted = true := by
  have followed {parts : List Part} (not_root : .root ∉ parts) (done : List Part) :
      .root ∈ parts.foldl follow done ↔ .root ∈ done := by
    induction parts generalizing done with
    | nil => rfl
    | cons part rest ih =>
      rw [List.mem_cons, not_or] at not_root
      rw [List.foldl_cons, ih not_root.2, root_mem_follow (Ne.symm not_root.1)]
  rw [normalParts_eq, followed path.root_notMem_steps, origin]
  cases path.rooted <;> simp

/-- The root is the first part of a path, or none. -/
theorem root_notMem_tail_parts (path : Path) : .root ∉ path.parts.tail := by
  rw [parts_eq_firstParts, firstParts]
  split
  · exact path.root_notMem_steps
  · split
    · exact path.root_notMem_steps
    · intro mem
      exact path.root_notMem_steps (List.mem_of_mem_tail mem)

theorem root_mem_parts : .root ∈ path.parts ↔ path.rooted = true := by
  rw [parts_eq_firstParts, List.mem_append, or_iff_left path.root_notMem_steps, firstParts]
  cases path.rooted with
  | true => simp
  | false => split <;> simp_all

theorem rooted_normalize (path : Path) : path.normalize.rooted = path.rooted := by
  rw [Bool.eq_iff_iff, ← root_mem_parts, parts_normalize, root_mem_normalParts]

theorem partsAfter?_eq_some_iff :
    path.partsAfter? base = some parts ↔ path.parts = base.parts ++ parts := by
  rw [partsAfter?]
  split
  · rename_i before
    rcases List.isPrefixOf_iff_prefix.1 before with ⟨rest, rest_eq⟩
    rw [← rest_eq, List.drop_left, Option.some.injEq, List.append_cancel_left_eq]
  · rename_i not_before
    refine iff_of_false (by simp) ?_
    intro parts_eq
    apply not_before
    exact List.isPrefixOf_iff_prefix.2 ⟨parts, parts_eq.symm⟩

/-! ## Parts after others -/

theorem IsSettled.current_notMem (settled : IsSettled parts) : .current ∉ parts := by
  rcases settled with ⟨lead, lead_mem, names, _, rfl⟩
  have no_dot : ∀ lead ∈ leads, .current ∉ lead := by decide
  rw [List.mem_append, not_or]
  exact ⟨no_dot lead lead_mem, by simp⟩

theorem IsSettled.of_append {rest : List Part} (settled : IsSettled (front ++ rest))
    (no_root : .root ∉ rest) : IsSettled rest := by
  rcases settled with ⟨lead, lead_mem, names, named, all_eq⟩
  rcases List.append_eq_append_iff.1 all_eq with ⟨middle, rfl, rfl⟩ | ⟨middle, rfl, names_eq⟩
  · -- The names come after what is left of the lead.
    have rests : ∀ lead ∈ leads, ∀ front ∈ lead.inits, .root ∉ lead.drop front.length →
        lead.drop front.length ∈ leads := by decide
    have found := rests _ lead_mem front ((List.mem_inits _ _).2 (List.prefix_append _ _))
    rw [List.drop_left] at found
    rw [List.mem_append, not_or] at no_root
    exact ⟨middle, found no_root.1, names, named, rfl⟩
  · rcases List.map_eq_append_iff.1 names_eq with ⟨firsts, others, rfl, _, rfl⟩
    refine ⟨[], by decide, others, ?_, rfl⟩
    intro name mem
    exact named name (List.mem_append_right firsts mem)

theorem IsSettled.rooted_ofParts (settled : IsSettled parts) (no_root : .root ∉ parts) :
    (ofParts parts).rooted = false := by
  rw [← Bool.not_eq_true, ← root_mem_parts, settled.parts_ofParts]
  exact no_root

theorem IsSettled.head?_ofParts (settled : IsSettled parts) (no_root : .root ∉ parts) :
    (ofParts parts).pieces.head? ≠ some "." := by
  intro dot
  apply settled.current_notMem
  rw [← settled.parts_ofParts, Path.parts, settled.rooted_ofParts no_root,
    if_neg Bool.false_ne_true]
  rcases List.head?_eq_some_iff.1 dot with ⟨rest, pieces_eq⟩
  rw [pieces_eq]
  exact List.mem_cons_self

theorem IsSettled.steps_ofParts (settled : IsSettled parts) (no_root : .root ∉ parts) :
    (ofParts parts).steps = parts := by
  have parts_eq := parts_eq_steps (settled.head?_ofParts no_root)
  rw [origin, settled.rooted_ofParts no_root, if_neg Bool.false_ne_true,
    List.nil_append] at parts_eq
  rw [← parts_eq, settled.parts_ofParts]

/-- A path that is normalized, up to what its pieces are. -/
def IsPlain (path : Path) : Prop :=
  path.normalParts = path.parts

theorem isPlain_iff : path.IsPlain ↔ IsSettled path.parts := by
  constructor
  · intro plain
    rw [← plain]
    exact path.isSettled_normalParts
  · intro settled
    exact settled.foldl_follow

end Path

end Componentry
