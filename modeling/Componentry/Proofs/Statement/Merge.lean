import Componentry.Proofs.Closure.BreadthFirst
import Componentry.Proofs.Statement.Scan

/-!
# Re-exports of merged declarations

A module that stands alone loses its imports before its re-exports are moved to
the end, while the files of its closure are found by the re-exports of the text
as it was. Taking statements out of a text may uncover other statements or break
them, so that the two need not agree: what comes after an import on the same
line may start a line without it, and a re-export may be put together from the
parts before and after an import.

`captures_agree` says when they do agree, for any two patterns: no statement of
the text that is left starts where something was taken out in the middle of a
line, statements of the two patterns do not overlap, and no statement of the text
that is left reaches over a place where something was taken out.
-/

namespace Componentry

namespace Pattern

/-- The places in the text that is left, in bytes, where statements were taken out. -/
def cutsFrom (offset : Nat) : List Segment → List Nat
  | [] => []
  | .plain c :: rest => cutsFrom (offset + c.utf8Size) rest
  | .statement _ :: rest => offset :: cutsFrom offset rest

@[simp]
theorem cutsFrom_plain (offset : Nat) (c : Char) (rest : List Segment) :
    cutsFrom offset (.plain c :: rest) = cutsFrom (offset + c.utf8Size) rest :=
  rfl

@[simp]
theorem cutsFrom_statement (offset : Nat) (found : Found) (rest : List Segment) :
    cutsFrom offset (.statement found :: rest) = offset :: cutsFrom offset rest :=
  rfl

theorem cutsFrom_map_plain (offset : Nat) (text : List Char) (rest : List Segment) :
    cutsFrom offset (text.map .plain ++ rest) = cutsFrom (offset + bytes text) rest := by
  induction text generalizing offset with
  | nil => rfl
  | cons c text ih =>
    rw [List.map_cons, List.cons_append, cutsFrom_plain, ih, bytes_cons, Nat.add_assoc]

variable {segments : List Segment}

theorem le_of_mem_cutsFrom {offset cut : Nat} (mem : cut ∈ cutsFrom offset segments) :
    offset ≤ cut := by
  fun_induction cutsFrom offset segments with
  | case1 => simp at mem
  | case2 offset c rest ih =>
    have := ih mem
    omega
  | case3 offset found rest ih =>
    rcases List.mem_cons.1 mem with rfl | mem
    · exact Nat.le_refl _
    · exact ih mem

/-- A beginning of the text that is left, up to the first cut, was there before. -/
theorem exists_map_plain {offset : Nat} {text : List Char} (starts : text <+: plainText segments)
    (uncut : ∀ cut ∈ cutsFrom offset segments, offset + bytes text ≤ cut) :
    ∃ rest, segments = text.map .plain ++ rest := by
  induction text generalizing offset segments with
  | nil => exact ⟨segments, rfl⟩
  | cons c text ih =>
    have c_pos := c.utf8Size_pos
    rw [bytes_cons] at uncut
    cases segments with
    | nil => simp [plainText] at starts
    | cons segment segments =>
      cases segment with
      | statement found =>
        have := uncut offset List.mem_cons_self
        omega
      | plain d =>
        rw [plainText_plain, List.cons_prefix_cons] at starts
        rcases starts with ⟨rfl, starts⟩
        have rest_uncut : ∀ cut ∈ cutsFrom (offset + c.utf8Size) segments,
            offset + c.utf8Size + bytes text ≤ cut := by
          intro cut mem
          have := uncut cut mem
          omega
        rcases ih starts rest_uncut with ⟨rest, rfl⟩
        exact ⟨rest, rfl⟩

/-- The cuts behind which a line goes on, because what was taken out did not end it. -/
def openCutsFrom (offset : Nat) : List Segment → List Nat
  | [] => []
  | .plain c :: rest => openCutsFrom (offset + c.utf8Size) rest
  | .statement found :: rest =>
    if found.text.getLast? = some '\n' then openCutsFrom offset rest
    else offset :: openCutsFrom offset rest

theorem openCutsFrom_map_plain (offset : Nat) (text : List Char) (rest : List Segment) :
    openCutsFrom offset (text.map .plain ++ rest) = openCutsFrom (offset + bytes text) rest := by
  induction text generalizing offset with
  | nil => rfl
  | cons c text ih =>
    rw [List.map_cons, List.cons_append, openCutsFrom, ih, bytes_cons, Nat.add_assoc]

/-- Statements that are taken out of a text keep out of the way of the statements of another pattern
that are found in the text and in what is left of it. -/
structure ApartFrom (left : Nat) (gone here there : List Segment) : Prop where
  unexposed : ∀ found ∈ statements there, found.start ∉ openCutsFrom left gone
  apart : ∀ found ∈ statements here, ∀ taken ∈ statements gone,
    found.stop ≤ taken.start ∨ taken.stop ≤ found.start
  uncut : ∀ found ∈ statements there, ∀ cut ∈ cutsFrom left gone,
    cut ≤ found.start ∨ found.stop ≤ cut

namespace ApartFrom

variable {gone here there : List Segment} {left : Nat}

/-- Past a stretch of text from which nothing is taken out. -/
theorem tail (text : List Char) (before after : List Segment)
    (apart : ApartFrom left (text.map .plain ++ gone) (before ++ here) (after ++ there)) :
    ApartFrom (left + bytes text) gone here there := by
  rcases apart with ⟨unexposed, apart, uncut⟩
  rw [openCutsFrom_map_plain, statements_append, List.forall_mem_append] at unexposed
  rw [statements_map_plain, statements_append, List.forall_mem_append] at apart
  rw [cutsFrom_map_plain, statements_append, List.forall_mem_append] at uncut
  exact ⟨unexposed.2, apart.2, uncut.2⟩

/-- Past a statement that is taken out. -/
theorem tail_of_statement {found : Found} {text : List Char}
    (apart : ApartFrom left (.statement found :: gone) (text.map .plain ++ here) there) :
    ApartFrom left gone here there := by
  rcases apart with ⟨unexposed, apart, uncut⟩
  rw [statements_map_plain, statements_statement] at apart
  rw [cutsFrom_statement] at uncut
  refine ⟨?_, ?_, ?_⟩
  · intro statement mem cut
    apply unexposed statement mem
    rw [openCutsFrom]
    split
    · exact cut
    · exact List.mem_cons_of_mem _ cut
  · exact fun statement mem taken taken_mem =>
      apart statement mem taken (List.mem_cons_of_mem _ taken_mem)
  · exact fun statement mem cut cut_mem => uncut statement mem cut (List.mem_cons_of_mem _ cut_mem)

end ApartFrom

section Agreement

/-- Nothing that is taken out of a text is in the way of the statements of the other pattern. -/
def Spares (removed other : Pattern) (atStart : Bool) (place left : Nat) (chars : List Char) :
    Prop :=
  ApartFrom left (scan removed atStart place 0 chars) (scan other atStart place 0 chars)
    (scan other atStart left 0 (plainText (scan removed atStart place 0 chars)))

/-- The other pattern finds the same in a text and in what is left of it. -/
def Agrees (removed other : Pattern) (atStart : Bool) (place left : Nat) (chars : List Char) :
    Prop :=
  (statements (scan other atStart place 0 chars)).map Found.captures =
    (statements (scan other atStart left 0
      (plainText (scan removed atStart place 0 chars)))).map Found.captures

variable {removed other : Pattern} {atStart : Bool} {place left : Nat} {chars text rest : List Char}
  {way : Way}

/-- Where a statement stands, nothing is taken out before it ends, and the other way around. -/
theorem scan_past (least : 0 < leastLength removed)
    (apart : ∀ gone ∈ statements (scan removed atStart place 0 (text ++ rest)),
      place + bytes text ≤ gone.start ∨ gone.stop ≤ place) :
    scan removed atStart place 0 (text ++ rest) =
      text.map .plain ++ scan removed (lineStart atStart text) (place + bytes text) 0 rest := by
  apply scan_eq_plain
  intro gone mem
  have gone_start := le_start_of_mem mem
  have gone_pos := bytes_pos (text_ne_nil_of_mem least mem)
  have sides := apart gone mem
  rw [Found.stop, Found.byteLength_eq] at sides
  omega

theorem scan_removed_of_first? (removed_least : 0 < leastLength removed)
    (first : first? other (text ++ rest) = some way) (taken_eq : way.taken = text.length)
    (nonempty : text ≠ []) (spares : Spares removed other true place left (text ++ rest)) :
    scan removed true place 0 (text ++ rest) =
      text.map .plain ++ scan removed (lineStart true text) (place + bytes text) 0 rest := by
  apply scan_past removed_least
  intro gone mem
  have sides := spares.apart ⟨place, text, way.captures text⟩ (by
    rw [scan_of_first? place first taken_eq nonempty]
    exact List.mem_cons_self) gone mem
  simpa [Found.stop, Found.byteLength_eq] using sides

/-- A statement at the start of the text that is left was there before. -/
theorem isPrefix_of_first?_left {c : Char} {tail : List Char}
    (scanned : scan removed atStart place 0 chars = .plain c :: segments)
    (left_eq : plainText (.plain c :: segments) = text ++ tail)
    (uncut : ∀ cut ∈ cutsFrom left (.plain c :: segments), cut ≤ left ∨ left + bytes text ≤ cut) :
    text <+: chars := by
  have beyond : ∀ cut ∈ cutsFrom left (.plain c :: segments), left + bytes text ≤ cut := by
    intro cut mem
    have sides := uncut cut mem
    have c_pos := c.utf8Size_pos
    rw [cutsFrom_plain] at mem
    have := le_of_mem_cutsFrom mem
    omega
  have starts : text <+: plainText (.plain c :: segments) := by
    rw [left_eq]
    exact List.prefix_append text tail
  rcases exists_map_plain starts beyond with ⟨after, segments_eq⟩
  rw [segments_eq] at scanned
  exact isPrefix_of_map_plain scanned

/-- Where nothing is taken out, the same way is taken in a text and in what is left of it. -/
theorem first?_left {c : Char} (removed_least : 0 < leastLength removed)
    (other_least : 0 < leastLength other)
    (scanned : scan removed true place 0 chars = .plain c :: segments)
    (spares : Spares removed other true place left chars) :
    first? other (plainText (scan removed true place 0 chars)) = first? other chars := by
  apply first?_congr
  · intro way first
    rcases exists_split_of_first? other_least first with ⟨text, tail, rfl, taken_eq, nonempty⟩
    rw [taken_eq, List.take_left,
      scan_removed_of_first? removed_least first taken_eq nonempty spares, plainText_map_plain]
    exact List.prefix_append _ _
  · intro way first
    rcases exists_split_of_first? other_least first with ⟨text, tail, left_eq, taken_eq, nonempty⟩
    have found_mem : (⟨left, text, way.captures text⟩ : Found) ∈
        statements (scan other true left 0 (plainText (scan removed true place 0 chars))) := by
      rw [left_eq] at first ⊢
      rw [scan_of_first? left first taken_eq nonempty]
      exact List.mem_cons_self
    rw [left_eq, taken_eq, List.take_left]
    have uncut := spares.uncut _ found_mem
    rw [scanned] at left_eq uncut
    apply isPrefix_of_first?_left scanned left_eq
    simpa [Found.stop, Found.byteLength_eq] using uncut

/-- Where a line goes on behind what was taken out, no statement starts in the text that is left. -/
theorem first?_eq_none_of_open {gone : Found} {here : List Segment} (least : 0 < leastLength other)
    (goes_on : lineStart true gone.text = false)
    (apart : ApartFrom left (.statement gone :: segments) here (scan other true left 0 chars)) :
    first? other chars = none := by
  cases first : first? other chars with
  | none => rfl
  | some way =>
    rcases exists_split_of_first? least first with ⟨text, tail, rfl, taken_eq, nonempty⟩
    rw [scan_of_first? left first taken_eq nonempty] at apart
    have unexposed := apart.unexposed _ List.mem_cons_self
    have not_last : gone.text.getLast? ≠ some '\n' := by
      intro last
      simp [lineStart, last] at goes_on
    rw [openCutsFrom, if_neg not_last] at unexposed
    exact absurd List.mem_cons_self unexposed

/-- Both scans pass a character. -/
theorem agrees_of_plain {c : Char} (spares : Spares removed other atStart place left (c :: rest))
    (none_removed : atStart = true → first? removed (c :: rest) = none)
    (none_here : atStart = true → first? other (c :: rest) = none)
    (none_left : atStart = true →
      first? other (plainText (scan removed atStart place 0 (c :: rest))) = none)
    (later : ∀ atStart place left, Spares removed other atStart place left rest →
      Agrees removed other atStart place left rest) :
    Agrees removed other atStart place left (c :: rest) := by
  rw [Spares] at spares
  rw [Agrees]
  rw [scan_cons place none_removed, plainText_plain] at spares none_left ⊢
  rw [scan_cons place none_here, scan_cons left none_left] at spares ⊢
  exact later _ _ _ (spares.tail [c] [.plain c] [.plain c])

/-- Both scans come to a statement of the other pattern. -/
theorem agrees_of_first? (removed_least : 0 < leastLength removed)
    (spares : Spares removed other true place left (text ++ rest))
    (first : first? other (text ++ rest) = some way) (taken_eq : way.taken = text.length)
    (nonempty : text ≠ [])
    (same : first? other (plainText (scan removed true place 0 (text ++ rest))) = some way)
    (later : ∀ atStart place left, Spares removed other atStart place left rest →
      Agrees removed other atStart place left rest) :
    Agrees removed other true place left (text ++ rest) := by
  have kept := scan_removed_of_first? removed_least first taken_eq nonempty spares
  rw [Spares] at spares
  rw [Agrees]
  rw [kept, plainText_map_plain] at same spares ⊢
  rw [scan_of_first? place first taken_eq nonempty,
    scan_of_first? left same taken_eq nonempty] at spares ⊢
  rw [statements_statement, statements_statement, List.map_cons, List.map_cons]
  congr 1
  exact later _ _ _ (spares.tail text [.statement _] [.statement _])

/-- A statement is taken out, and the other scan passes its text. -/
theorem agrees_of_statement {gone : Found} (other_least : 0 < leastLength other)
    (spares : Spares removed other true place left (gone.text ++ rest))
    (start_eq : gone.start = place)
    (removed_eq : scan removed true place 0 (gone.text ++ rest) = .statement gone ::
      scan removed (lineStart true gone.text) (place + bytes gone.text) 0 rest)
    (later : ∀ shorter, shorter.length ≤ rest.length → ∀ atStart place left,
      Spares removed other atStart place left shorter →
        Agrees removed other atStart place left shorter) :
    Agrees removed other true place left (gone.text ++ rest) := by
  have stop_eq : gone.stop = place + bytes gone.text := by
    rw [Found.stop, Found.byteLength_eq, start_eq]
  have other_eq : scan other true place 0 (gone.text ++ rest) = gone.text.map .plain ++
      scan other (lineStart true gone.text) (place + bytes gone.text) 0 rest := by
    apply scan_past other_least
    intro found mem
    have sides := spares.apart found mem gone (by simp [removed_eq])
    rw [stop_eq, start_eq] at sides
    exact sides.symm
  rw [Spares, removed_eq, other_eq, plainText_statement] at spares
  rw [Agrees, removed_eq, other_eq, plainText_statement, statements_map_plain]
  cases goes_on : lineStart true gone.text with
  | true =>
    rw [goes_on] at spares
    exact later rest (Nat.le_refl _) _ _ _ spares.tail_of_statement
  | false =>
    rw [goes_on] at spares
    rcases rest with _ | ⟨c, rest⟩
    · rfl
    -- The line goes on: what is left starts one here, but no statement.
    have none_left := first?_eq_none_of_open other_least goes_on spares
    have removed_rest : scan removed false (place + bytes gone.text) 0 (c :: rest) = _ :=
      scan_cons _ (by simp)
    have other_rest : scan other false (place + bytes gone.text) 0 (c :: rest) = _ :=
      scan_cons _ (by simp)
    rw [removed_rest, plainText_plain] at spares none_left ⊢
    rw [other_rest, scan_cons left fun _ => none_left] at spares ⊢
    exact later rest (Nat.le_succ _) _ _ _
      (spares.tail_of_statement.tail [c] [.plain c] [.plain c])

/-- The statements of a pattern are the same in a text and in what is left of it. By induction on
the text, of which both scans pass the same part in each step. -/
theorem captures_agree (removed_least : 0 < leastLength removed)
    (other_least : 0 < leastLength other) (spares : Spares removed other atStart place left chars) :
    Agrees removed other atStart place left chars := by
  induction length : chars.length using Nat.strongRecOn generalizing atStart place left chars with
  | ind length ih =>
    subst length
    by_cases empty : chars = []
    · subst empty
      rfl
    rcases scan_step removed_least atStart place empty with
      ⟨segment, rest, removed_eq, rfl, text_ne, statement, plain⟩
    have shorter := List.length_pos_of_ne_nil text_ne
    rw [List.length_append] at ih
    have later : ∀ chars : List Char, chars.length ≤ rest.length → ∀ atStart place left,
        Spares removed other atStart place left chars →
          Agrees removed other atStart place left chars :=
      fun chars le _ _ _ spares => ih chars.length (by omega) spares rfl
    cases segment with
    | statement gone =>
      rcases statement gone rfl with ⟨start_eq, rfl, _⟩
      exact agrees_of_statement other_least spares start_eq removed_eq later
    | plain c =>
      rw [Segment.text] at removed_eq spares ⊢
      by_cases fits : atStart = true ∧ (first? other ([c] ++ rest)).isSome = true
      · rcases fits with ⟨rfl, fits⟩
        rcases Option.isSome_iff_exists.1 fits with ⟨way, first⟩
        have same := (first?_left removed_least other_least removed_eq spares).trans first
        rcases exists_split_of_first? other_least first with ⟨text, tail, split, taken_eq, nonempty⟩
        have tail_shorter : tail.length ≤ rest.length := by
          have text_pos := List.length_pos_of_ne_nil nonempty
          have lengths := congrArg List.length split
          simp only [List.length_append, List.length_singleton] at lengths
          omega
        rw [split] at spares first same ⊢
        exact agrees_of_first? removed_least spares first taken_eq nonempty same
          (later tail tail_shorter)
      · have none_here : atStart = true → first? other ([c] ++ rest) = none := by
          intro start
          simpa [start] using fits
        apply agrees_of_plain spares (plain c rfl) none_here _ (later rest (Nat.le_refl _))
        rintro rfl
        rw [← none_here rfl]
        exact first?_left removed_least other_least removed_eq spares

end Agreement

/-- The places in the text without the statements of a pattern, in bytes, where statements were. -/
def cuts (pattern : Pattern) (text : String) : List Nat :=
  cutsFrom 0 (pattern.segments text)

/-- Those of the places behind which a line goes on. -/
def openCuts (pattern : Pattern) (text : String) : List Nat :=
  openCutsFrom 0 (pattern.segments text)

end Pattern

namespace Statement

open Pattern (cuts openCuts importStatement reExport)

/-- Imports and re-exports of a text keep out of each other's way. -/
structure Separate (text : String) : Prop where
  /-- No re-export starts where an import was in the middle of a line. -/
  unexposed : ∀ statement ∈ reExports (withoutImports text),
    statement.start ∉ importStatement.openCuts text
  /-- No import and re-export overlap. -/
  apart : ∀ statement ∈ reExports text, ∀ found ∈ importStatement.findAll text,
    statement.stop ≤ found.start ∨ found.stop ≤ statement.start
  /-- No re-export is put together from what was before and after an import. -/
  uncut : ∀ statement ∈ reExports (withoutImports text), ∀ cut ∈ importStatement.cuts text,
    cut ≤ statement.start ∨ statement.stop ≤ cut

theorem Separate.apartFrom {text : String} (separate : Separate text) :
    Pattern.ApartFrom 0 (Pattern.scan importStatement true 0 0 text.toList)
      (Pattern.scan reExport true 0 0 text.toList)
      (Pattern.scan reExport true 0 0
        (Pattern.plainText (Pattern.scan importStatement true 0 0 text.toList))) := by
  rcases separate with ⟨unexposed, apart, uncut⟩
  simp only [Pattern.findAll_eq, reExports, withoutImports, Pattern.strip_eq, cuts, openCuts,
    Pattern.segments_eq_scan, String.toList_ofList] at unexposed apart uncut
  constructor
  · exact fun found mem => unexposed _ (List.mem_map_of_mem mem)
  · exact fun found mem => apart _ (List.mem_map_of_mem mem)
  · exact fun found mem => uncut _ (List.mem_map_of_mem mem)

/-- What a re-export says, wherever it stands. -/
def content (statement : ReExport) : Bool × ExportClause × String :=
  (statement.typeOnly, statement.clause, statement.specifier)

/-- What a re-export with these texts in its slots says. -/
def contentOf (captures : List (Nat × List Char)) : Bool × ExportClause × String :=
  ((captures.lookup 1).isSome, .ofText ((captures.lookup 2).getD []),
    String.ofList ((captures.lookup 3).getD []))

theorem map_content (text : String) :
    (reExports text).map content =
      ((reExport.findAll text).map Pattern.Found.captures).map contentOf := by
  rw [reExports, List.map_map, List.map_map]
  rfl

/-- A text has the same re-exports with and without its imports. -/
theorem Separate.reExports_withoutImports {text : String} (separate : Separate text) :
    (reExports (withoutImports text)).map content = (reExports text).map content := by
  have agree := Pattern.captures_agree (by decide) (by decide) separate.apartFrom
  have left_eq : (withoutImports text).toList =
      Pattern.plainText (Pattern.scan importStatement true 0 0 text.toList) := by
    rw [withoutImports, Pattern.strip_eq, Pattern.segments_eq_scan, String.toList_ofList]
  rw [map_content, map_content, Pattern.findAll_eq, Pattern.findAll_eq, Pattern.segments_eq_scan,
    Pattern.segments_eq_scan, left_eq, agree]

/-! ## Merged declarations -/

/-- The text whose re-exports go to the end of the merged declarations. -/
def mergedBody (standsAlone : Bool) (primary : String) : String :=
  if standsAlone then withoutImports primary else primary

/-- The re-exports at the end of the merged declarations. -/
def mergedReExports (standsAlone : Bool) (primary : String) (fragments : List String) :
    List ReExport :=
  (reExports (mergedBody standsAlone primary)).filterMap fun statement =>
    statement.without (.ofList (fragments.flatMap fun fragment => (exportedNames fragment).toList))

/-- The merged declarations end with the re-exports. -/
theorem merge_eq (standsAlone : Bool) (primary : String) (fragments : List String) :
    merge standsAlone primary fragments =
      "\n\n".intercalate (section? (withoutReExports (mergedBody standsAlone primary)) ++
        fragments.flatMap section? ++
        if (mergedReExports standsAlone primary fragments).isEmpty then []
        else ["\n".intercalate
          ((mergedReExports standsAlone primary fragments).map ReExport.print)]) ++ "\n" := by
  have printed : ((reExports (mergedBody standsAlone primary)).filterMap fun statement =>
      (statement.without (.ofList (fragments.flatMap fun fragment =>
        (exportedNames fragment).toList))).map ReExport.print) =
      (mergedReExports standsAlone primary fragments).map ReExport.print := by
    rw [mergedReExports, List.map_filterMap]
  simp only [merge, ← mergedBody.eq_def, printed, List.isEmpty_map]

theorem specifier_of_without {statement kept : ReExport} {exported : NameSet}
    (without : statement.without exported = some kept) : kept.specifier = statement.specifier := by
  rw [ReExport.without] at without
  split at without
  · cases without
    rfl
  · dsimp only at without
    split at without
    · simp at without
    · cases without
      rfl

theorem exists_reExport_of_mergedBody {standsAlone : Bool} {primary : String}
    (separate : standsAlone = true → Separate primary) {statement : ReExport}
    (mem : statement ∈ reExports (mergedBody standsAlone primary)) :
    ∃ original ∈ reExports primary, original.specifier = statement.specifier := by
  cases standsAlone with
  | false => exact ⟨statement, mem, rfl⟩
  | true =>
    have content_mem : content statement ∈ (reExports (withoutImports primary)).map content :=
      List.mem_map_of_mem mem
    rw [(separate rfl).reExports_withoutImports, List.mem_map] at content_mem
    rcases content_mem with ⟨original, original_mem, same⟩
    exact ⟨original, original_mem, congrArg (·.2.2) same⟩

/-- The merged declarations re-export from no file that discovery has not followed, if the
imports and re-exports of the declaration file keep out of each other's way. -/
theorem merged_reExports_followed (standsAlone : Bool) (primary : String) (fragments : List String)
    (separate : standsAlone = true → Separate primary) :
    merge standsAlone primary fragments =
        "\n\n".intercalate (section? (withoutReExports (mergedBody standsAlone primary)) ++
          fragments.flatMap section? ++
          if (mergedReExports standsAlone primary fragments).isEmpty then []
          else ["\n".intercalate
            ((mergedReExports standsAlone primary fragments).map ReExport.print)]) ++ "\n" ∧
      ∀ statement ∈ mergedReExports standsAlone primary fragments,
        (∃ original ∈ reExports primary, original.specifier = statement.specifier) ∧
          (isRelative statement.specifier = true → ∀ (tree : FileTree) (path : Path) closure,
            tree.discover path primary = .ok closure →
              tree.LeadsInside path closure path statement.specifier) := by
  refine ⟨merge_eq standsAlone primary fragments, ?_⟩
  intro statement mem
  have followed : ∃ original ∈ reExports primary, original.specifier = statement.specifier := by
    rcases List.mem_filterMap.1 mem with ⟨found, found_mem, without⟩
    rw [specifier_of_without without]
    exact exists_reExport_of_mergedBody separate found_mem
  refine ⟨followed, ?_⟩
  intro relative tree path closure discovered
  have isClosure := FileTree.discover_eq_ok_iff.1 discovered
  apply isClosure.reExports_inside
  rw [FileTree.relativeReExports, List.mem_filter]
  rcases followed with ⟨original, original_mem, same⟩
  refine ⟨?_, relative⟩
  rw [← same]
  exact List.mem_map_of_mem original_mem

/-- A re-export over two lines between an import and one that ends the text. -/
def galleryText : String :=
  "import './i';\nexport \x7b G\n\x7d from './g';\nimport 't'"

theorem separate_galleryText : Separate galleryText where
  unexposed := by decide +kernel
  apart := by decide +kernel
  uncut := by decide +kernel

theorem merged_reExports_followed_gallery :
    (mergedReExports true galleryText []).map ReExport.specifier = ["./g"] ∧
      ∀ statement ∈ mergedReExports true galleryText [],
        ∃ original ∈ reExports galleryText, original.specifier = statement.specifier := by
  refine ⟨by decide +kernel, ?_⟩
  have followed := merged_reExports_followed true galleryText [] fun _ => separate_galleryText
  exact fun statement mem => (followed.2 statement mem).1

/-- A re-export after an import on its line is at the end of the merged declarations, but discovery
does not find it. -/
theorem import_hides_reExport :
    let primary := "import \"x\"; export * from \"./a\";\n"
    merge true primary [] = "export * from \"./a\";\n" ∧
      (mergedReExports true primary []).map ReExport.specifier = ["./a"] ∧
      reExports primary = [] := by
  decide +kernel

end Statement

end Componentry
