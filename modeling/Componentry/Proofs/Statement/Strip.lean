import Componentry.Proofs.Statement.Merge
import Componentry.Proofs.Text.Pieces

/-!
# What stripping leaves behind

Taking the statements of a pattern out of a text can leave statements of the
same pattern behind. A statement may end in the middle of a line, and then what
follows it starts a line in the text that is left; and the parts before and
after a statement may make up another one. `exposed_or_joined` says that nothing
else happens: every statement that is left either starts at a cut, although some
statement did not end its line, or reaches over a cut.

The proof looks at the place of such a statement. If it is neither exposed nor
joined, its text was there before, at the start of a line, so the scan would
have taken it out.

The body of merged declarations goes through up to three changes: imports are
taken out, re-exports are taken out, and the blanks at both ends are dropped.
Each of them can uncover statements; `MergesWhole` says that none does.
-/

namespace Componentry

namespace Pattern

/-! ## Places of statements -/

theorem lineStart_append (atStart : Bool) (left right : List Char) :
    lineStart atStart (left ++ right) = lineStart (lineStart atStart left) right := by
  induction left generalizing atStart with
  | nil => rfl
  | cons c rest ih =>
    rw [List.cons_append, lineStart_cons, lineStart_cons]
    exact ih _

theorem lineStart_of_ne_nil {text : List Char} (nonempty : text ≠ []) (atStart other : Bool) :
    lineStart atStart text = lineStart other text := by
  cases text with
  | nil => exact absurd rfl nonempty
  | cons c rest => rw [lineStart_cons, lineStart_cons]

section Places

variable {pattern : Pattern} {atStart : Bool} {offset : Nat} {chars : List Char}

/-- Behind each segment a scan goes on with the text that follows it. -/
theorem scan_resumes (least : 0 < leastLength pattern) {before after : List Segment}
    {segment : Segment}
    (scanned : scan pattern atStart offset 0 chars = before ++ segment :: after) :
    ∃ earlier later, chars = earlier ++ (segment.text ++ later) ∧ segment.text ≠ [] ∧
      (∀ found, segment = .statement found → found.start = offset + bytes earlier) ∧
      after = scan pattern (lineStart atStart (earlier ++ segment.text))
        (offset + bytes (earlier ++ segment.text)) 0 later := by
  induction before generalizing atStart offset chars with
  | nil =>
    have nonempty : chars ≠ [] := by
      rintro rfl
      cases scanned
    rcases scan_step least atStart offset nonempty with
      ⟨first, rest, scan_eq, chars_eq, text_ne, statement, _⟩
    rw [scan_eq] at scanned
    cases scanned
    refine ⟨[], rest, chars_eq, text_ne, ?_, rfl⟩
    intro found same
    exact (statement found same).1
  | cons head before ih =>
    have nonempty : chars ≠ [] := by
      rintro rfl
      cases scanned
    rcases scan_step least atStart offset nonempty with
      ⟨first, rest, scan_eq, chars_eq, _, _, _⟩
    rw [scan_eq, List.cons_append, List.cons.injEq] at scanned
    rcases ih scanned.2 with ⟨earlier, later, rest_eq, text_ne, start_eq, after_eq⟩
    refine ⟨first.text ++ earlier, later, ?_, text_ne, ?_, ?_⟩
    · rw [chars_eq, rest_eq, List.append_assoc]
    · intro found same
      rw [start_eq found same, bytes_append, Nat.add_assoc]
    · rw [after_eq, List.append_assoc, lineStart_append atStart, bytes_append first.text,
        Nat.add_assoc]

/-- Where a scan finds no statement, the pattern fits at the start of no line. -/
theorem first?_eq_none_of_statements (least : 0 < leastLength pattern)
    (empty : statements (scan pattern atStart offset 0 chars) = []) {earlier later : List Char}
    (chars_eq : chars = earlier ++ later) (line : lineStart atStart earlier = true)
    (more : later ≠ []) : first? pattern later = none := by
  have unfound : ∀ found ∈ statements (scan pattern atStart offset 0 (earlier ++ later)),
      offset + bytes earlier ≤ found.start := by
    intro found mem
    rw [chars_eq] at empty
    simp [empty] at mem
  have scan_eq := scan_eq_plain unfound
  rw [line] at scan_eq
  rcases scan_step least true (offset + bytes earlier) more with
    ⟨segment, rest, later_eq, _, _, _, plain⟩
  cases segment with
  | plain c => exact plain c rfl rfl
  | statement found =>
    rw [chars_eq, scan_eq, statements_map_plain, later_eq] at empty
    cases empty

end Places

/-! ## Cuts -/

theorem plainText_append (left right : List Segment) :
    plainText (left ++ right) = plainText left ++ plainText right :=
  List.filterMap_append

theorem cutsFrom_append (offset : Nat) (left right : List Segment) :
    cutsFrom offset (left ++ right) =
      cutsFrom offset left ++ cutsFrom (offset + bytes (plainText left)) right := by
  induction left generalizing offset with
  | nil => rfl
  | cons segment rest ih =>
    cases segment with
    | plain c =>
      rw [List.cons_append, cutsFrom_plain, cutsFrom_plain, ih, plainText_plain, bytes_cons,
        Nat.add_assoc]
    | statement found =>
      rw [List.cons_append, cutsFrom_statement, cutsFrom_statement, ih, plainText_statement,
        List.cons_append]

/-- The segments up to a place in the text that is left: all cuts at the place are before it. -/
theorem exists_segments_at {segments : List Segment} {text tail : List Char} {c : Char}
    (left_eq : plainText segments = text ++ c :: tail) :
    ∃ before after, segments = before ++ .plain c :: after ∧ plainText before = text ∧
      plainText after = tail := by
  induction segments generalizing text with
  | nil =>
    have impossible : ([] : List Char) = text ++ c :: tail := left_eq
    simp at impossible
  | cons segment rest ih =>
    cases segment with
    | statement found =>
      rcases ih left_eq with ⟨before, after, rfl, before_eq, after_eq⟩
      exact ⟨.statement found :: before, after, rfl, before_eq, after_eq⟩
    | plain d =>
      rw [plainText_plain] at left_eq
      cases text with
      | nil =>
        rw [List.nil_append, List.cons.injEq] at left_eq
        rcases left_eq with ⟨rfl, rest_eq⟩
        exact ⟨[], rest, rfl, rfl, rest_eq⟩
      | cons e text =>
        rw [List.cons_append, List.cons.injEq] at left_eq
        rcases left_eq with ⟨rfl, rest_eq⟩
        rcases ih rest_eq with ⟨before, after, rfl, before_eq, after_eq⟩
        refine ⟨.plain d :: before, after, rfl, ?_, after_eq⟩
        rw [plainText_plain, before_eq]

/-- A statement of the text that is left was there before if it reaches over no cut. -/
theorem exists_passed {left : Nat} {segments : List Segment} {text rest tail : List Char} {c : Char}
    (left_eq : plainText segments = text ++ (c :: rest ++ tail))
    (unjoined : ∀ cut ∈ cutsFrom left segments, left + bytes text < cut →
      left + bytes text + bytes (c :: rest) ≤ cut) :
    ∃ before others, segments = before ++ ((c :: rest).map .plain ++ others) ∧
      plainText before = text := by
  rcases exists_segments_at left_eq with ⟨before, after, rfl, before_eq, after_eq⟩
  rw [cutsFrom_append, before_eq, cutsFrom_plain, bytes_cons] at unjoined
  have uncut : ∀ cut ∈ cutsFrom (left + bytes text + c.utf8Size) after,
      left + bytes text + c.utf8Size + bytes rest ≤ cut := by
    intro cut mem
    have after_start := le_of_mem_cutsFrom mem
    have c_pos := c.utf8Size_pos
    have stop_le := unjoined cut (List.mem_append_right _ mem) (by omega)
    omega
  have starts : rest <+: plainText after := by
    rw [after_eq]
    exact List.prefix_append rest tail
  rcases exists_map_plain starts uncut with ⟨others, rfl⟩
  exact ⟨before, others, rfl, before_eq⟩

section Leftovers

variable {removed other : Pattern} {atStart : Bool} {place left : Nat} {chars : List Char}

/-- At the starts of lines where nothing is taken out, the other pattern does not fit. -/
def Clear (removed other : Pattern) (atStart : Bool) (chars : List Char) : Prop :=
  ∀ earlier later, chars = earlier ++ later → later ≠ [] → lineStart atStart earlier = true →
    first? removed later = none → first? other later = none

theorem clear_self (pattern : Pattern) (atStart : Bool) (chars : List Char) :
    Clear pattern pattern atStart chars :=
  fun _ _ _ _ _ none_here => none_here

/-- A text that is passed over at the start of a line is no statement. -/
theorem Clear.not_isPrefix (clear : Clear removed other atStart chars)
    (removed_least : 0 < leastLength removed) {earlier later text tail : List Char}
    {rest : List Segment} {way : Way} (chars_eq : chars = earlier ++ later)
    (line : lineStart atStart earlier = true) (nonempty : text ≠ [])
    (scanned : scan removed true place 0 later = text.map .plain ++ rest)
    (first : first? other (text ++ tail) = some way) (taken_eq : way.taken = text.length) :
    False := by
  have starts := isPrefix_of_map_plain scanned
  have more : later ≠ [] := by
    rintro rfl
    exact nonempty (List.prefix_nil.1 starts)
  have none_removed : first? removed later = none := by
    rcases scan_step removed_least true place more with
      ⟨segment, after, scan_eq, _, _, _, plain⟩
    rcases text with _ | ⟨c, text⟩
    · exact absurd rfl nonempty
    · rw [scan_eq, List.map_cons, List.cons_append, List.cons.injEq] at scanned
      exact plain c scanned.1 rfl
  have shared : (text ++ tail).take way.taken <+: later := by
    rw [taken_eq, List.take_left]
    exact starts
  rcases exists_first?_of_isPrefix first shared with ⟨found, here⟩
  rw [clear earlier later chars_eq more line none_removed] at here
  cases here

/-- Where a line starts in the text that is left, a line started before, unless something was taken
out there that did not end its line. -/
theorem exists_line_before (least : 0 < leastLength removed) {before after : List Segment}
    (segments_eq : scan removed atStart place 0 chars = before ++ after)
    (line : lineStart atStart (plainText before) = true)
    (ends_line : ∀ gone, before.getLast? = some (.statement gone) →
      gone.text.getLast? = some '\n') :
    ∃ earlier later offset, chars = earlier ++ later ∧ lineStart atStart earlier = true ∧
      scan removed true offset 0 later = after := by
  rcases List.eq_nil_or_concat before with rfl | ⟨first, last, rfl⟩
  · have start : atStart = true := line
    subst start
    exact ⟨[], chars, place, rfl, rfl, segments_eq⟩
  · rw [List.concat_eq_append] at segments_eq line ends_line
    rw [List.append_assoc, List.singleton_append] at segments_eq
    rcases scan_resumes least segments_eq with ⟨earlier, later, chars_eq, last_ne, _, after_eq⟩
    have line_before : lineStart atStart (earlier ++ last.text) = true := by
      rw [lineStart_append]
      cases last with
      | plain c =>
        rw [plainText_append, lineStart_append] at line
        exact (lineStart_of_ne_nil last_ne _ _).trans line
      | statement gone =>
        rw [Segment.text, lineStart, ends_line gone List.getLast?_concat]
        rfl
    refine ⟨earlier ++ last.text, later, place + bytes (earlier ++ last.text), ?_, line_before, ?_⟩
    · rw [chars_eq, List.append_assoc]
    · rw [after_eq, line_before]

/-- The statement before a cut was found in the text, and ends before the text does. -/
theorem exists_gone (least : 0 < leastLength removed) {before after : List Segment} {gone : Found}
    (segments_eq : scan removed atStart place 0 chars = before ++ after) (more : after ≠ [])
    (last : before.getLast? = some (.statement gone)) :
    gone ∈ statements (scan removed atStart place 0 chars) ∧ gone.stop ≠ place + bytes chars ∧
      left + bytes (plainText before) ∈ cutsFrom left (scan removed atStart place 0 chars) := by
  rcases List.getLast?_eq_some_iff.1 last with ⟨first, rfl⟩
  refine ⟨?_, ?_, ?_⟩
  · rw [segments_eq]
    simp [statements]
  · rw [List.append_assoc, List.singleton_append] at segments_eq
    rcases scan_resumes least segments_eq with ⟨earlier, later, chars_eq, _, start_eq, after_eq⟩
    have later_pos : 0 < bytes later := by
      apply bytes_pos
      rintro rfl
      exact more after_eq
    have gone_start := start_eq gone rfl
    rw [Found.stop, Found.byteLength_eq, gone_start, chars_eq, bytes_append, bytes_append,
      Segment.text]
    omega
  · rw [segments_eq, cutsFrom_append, cutsFrom_append, plainText_append, plainText_statement]
    simp [cutsFrom, plainText]

/-- A statement that is left was uncovered by the removal: it starts at a cut although something
that was taken out did not end its line, or it reaches over a cut. -/
theorem exposed_or_joined (removed_least : 0 < leastLength removed)
    (other_least : 0 < leastLength other) (clear : Clear removed other atStart chars)
    {found : Found} (mem : found ∈ statements (scan other atStart left 0
      (plainText (scan removed atStart place 0 chars)))) :
    (found.start ∈ cutsFrom left (scan removed atStart place 0 chars) ∧
      ∃ gone ∈ statements (scan removed atStart place 0 chars),
        gone.text.getLast? ≠ some '\n' ∧ gone.stop ≠ place + bytes chars) ∨
      ∃ cut ∈ cutsFrom left (scan removed atStart place 0 chars),
        found.start < cut ∧ cut < found.stop := by
  by_contra untouched
  rw [not_or] at untouched
  rcases untouched with ⟨unexposed, unjoined⟩
  have nonempty := text_ne_nil_of_mem other_least mem
  rcases exists_place_of_mem mem with
    ⟨text, tail, way, left_eq, start_eq, line, first, taken_eq, _⟩
  rcases text_eq : found.text with _ | ⟨c, rest⟩
  · exact nonempty text_eq
  · rw [text_eq] at left_eq first taken_eq
    have uncut : ∀ cut ∈ cutsFrom left (scan removed atStart place 0 chars),
        left + bytes text < cut → left + bytes text + bytes (c :: rest) ≤ cut := by
      intro cut cut_mem after_start
      by_contra inside
      apply unjoined
      refine ⟨cut, cut_mem, by omega, ?_⟩
      rw [Found.stop, Found.byteLength_eq, start_eq, text_eq]
      omega
    rcases exists_passed left_eq uncut with ⟨before, others, segments_eq, before_eq⟩
    rw [← before_eq] at line start_eq
    have ends_line : ∀ gone, before.getLast? = some (.statement gone) →
        gone.text.getLast? = some '\n' := by
      intro gone last
      rcases exists_gone removed_least segments_eq (List.cons_ne_nil _ _) last with
        ⟨gone_mem, stop_ne, at_cut⟩
      by_contra midline
      apply unexposed
      rw [start_eq]
      exact ⟨at_cut, gone, gone_mem, midline, stop_ne⟩
    rcases exists_line_before removed_least segments_eq line ends_line with
      ⟨earlier, later, offset, chars_eq, line_before, scanned⟩
    exact clear.not_isPrefix removed_least chars_eq line_before (List.cons_ne_nil c rest) scanned
      first taken_eq

end Leftovers

/-- A statement that is left when others are taken out was not there before: it starts where one was
taken out, although not all of them end their lines, or it reaches over such a place. -/
def Uncovered (removed : Pattern) (text : String) (found : Found) : Prop :=
  (found.start ∈ removed.cuts text ∧ ∃ gone ∈ removed.findAll text,
      gone.text.getLast? ≠ some '\n' ∧ gone.stop ≠ bytes text.toList) ∨
    ∃ cut ∈ removed.cuts text, found.start < cut ∧ cut < found.stop

/-- Statements are taken out of a text with their lines, and no statement of the other pattern is
put together from what was before and after one. -/
structure CutsWhole (removed other : Pattern) (text : String) : Prop where
  ends_line : ∀ gone ∈ removed.findAll text,
    gone.text.getLast? = some '\n' ∨ gone.stop = bytes text.toList
  uncut : ∀ found ∈ other.findAll (removed.strip text), ∀ cut ∈ removed.cuts text,
    cut ≤ found.start ∨ found.stop ≤ cut

section Texts

variable {removed other : Pattern} {text : String}

theorem CutsWhole.of_findAll_eq_nil
    (ends_line : ∀ gone ∈ removed.findAll text,
      gone.text.getLast? = some '\n' ∨ gone.stop = bytes text.toList)
    (empty : other.findAll (removed.strip text) = []) : CutsWhole removed other text :=
  ⟨ends_line, by simp [empty]⟩

theorem toList_strip (pattern : Pattern) (text : String) :
    (pattern.strip text).toList = plainText (scan pattern true 0 0 text.toList) := by
  rw [strip_eq, segments_eq_scan, String.toList_ofList]

theorem uncovered_of_mem (removed_least : 0 < leastLength removed)
    (other_least : 0 < leastLength other) (clear : Clear removed other true text.toList)
    {found : Found} (mem : found ∈ other.findAll (removed.strip text)) :
    removed.Uncovered text found := by
  rw [findAll_eq, segments_eq_scan, toList_strip] at mem
  rw [Uncovered, cuts, findAll_eq, segments_eq_scan]
  have uncovered := exposed_or_joined removed_least other_least clear mem
  rwa [Nat.zero_add] at uncovered

theorem CutsWhole.not_uncovered (whole : CutsWhole removed other text) {found : Found}
    (mem : found ∈ other.findAll (removed.strip text)) : ¬removed.Uncovered text found := by
  rintro (⟨-, gone, gone_mem, midline, inside⟩ | ⟨cut, cut_mem, before, after⟩)
  · rcases whole.ends_line gone gone_mem with ends | ends
    · exact midline ends
    · exact inside ends
  · have := whole.uncut found mem cut cut_mem
    omega

theorem CutsWhole.findAll_eq_nil (whole : CutsWhole removed other text)
    (removed_least : 0 < leastLength removed) (other_least : 0 < leastLength other)
    (clear : Clear removed other true text.toList) : other.findAll (removed.strip text) = [] := by
  apply List.eq_nil_iff_forall_not_mem.2
  intro found mem
  exact whole.not_uncovered mem (uncovered_of_mem removed_least other_least clear mem)

theorem clear_of_findAll (least : 0 < leastLength other) (empty : other.findAll text = []) :
    Clear removed other true text.toList := by
  rw [findAll_eq, segments_eq_scan] at empty
  intro earlier later chars_eq more line _
  exact first?_eq_none_of_statements least empty chars_eq line more

end Texts

/-! ## Blanks at the ends -/

/-- The blanks before the first other character of a text that are on its line. -/
def indent (chars : List Char) : List Char :=
  ((chars.takeWhile Text.isBlank).reverse.takeWhile (· != '\n')).reverse

theorem exists_lines_before_indent (chars : List Char) :
    ∃ lines, chars.takeWhile Text.isBlank = lines ++ indent chars ∧
      lineStart true lines = true := by
  refine ⟨((chars.takeWhile Text.isBlank).reverse.dropWhile (· != '\n')).reverse, ?_, ?_⟩
  · rw [indent, ← List.reverse_append, List.takeWhile_append_dropWhile, List.reverse_reverse]
  · rw [lineStart, List.getLast?_reverse]
    cases head : ((chars.takeWhile Text.isBlank).reverse.dropWhile (· != '\n')).head? with
    | none => rfl
    | some c =>
      have stopped := List.head?_dropWhile_not (· != '\n') (chars.takeWhile Text.isBlank).reverse
      rw [head] at stopped
      simpa using stopped

/-- A pattern that starts with a margin fits as well behind more spaces and tabs. -/
theorem exists_first?_of_indent {pattern rest : Pattern} (starts : pattern = .seq margin rest)
    {indent chars : List Char} {way : Way} (flush : ∀ c ∈ indent, c = ' ' ∨ c = '\t')
    (first : first? pattern chars = some way) :
    ∃ other, first? pattern (indent ++ chars) = some other := by
  subst starts
  induction indent with
  | nil => exact ⟨way, first⟩
  | cons c indent ih =>
    rcases ih fun d mem => flush d (List.mem_cons_of_mem c mem) with ⟨inner, inner_first⟩
    rcases List.mem_flatMap.1 (mem_ways_of_first? inner_first) with ⟨blank, blank_mem, joined_mem⟩
    rcases List.mem_map.1 joined_mem with ⟨later, later_mem, rfl⟩
    rcases List.mem_map.1 blank_mem with ⟨taken, taken_mem, rfl⟩
    have accepted : (c == ' ' || c == '\t') = true := by
      rcases flush c List.mem_cons_self with rfl | rfl <;> rfl
    have wider : ({ taken := taken + 1 } : Way) ∈ ways margin (c :: (indent ++ chars)) := by
      rw [margin, ways]
      apply List.mem_map_of_mem
      rw [runs, if_pos accepted]
      exact List.mem_append_left _ (List.mem_map_of_mem taken_mem)
    have mem : ({ taken := taken + 1 } : Way).andThen later ∈
        ways (.seq margin rest) (c :: (indent ++ chars)) :=
      List.mem_flatMap.2 ⟨_, wider, List.mem_map_of_mem later_mem⟩
    rw [List.cons_append, first?]
    rcases all : ways (.seq margin rest) (c :: (indent ++ chars)) with _ | ⟨other, others⟩
    · simp [all] at mem
    · exact ⟨other, rfl⟩

/-- Without the blanks at its ends a text has no statement that it did not have, if no other blanks
than spaces and tabs are before its first word on the line. -/
theorem findAll_trim {pattern rest : Pattern} (starts : pattern = .seq margin rest)
    (least : 0 < leastLength pattern) {text : String}
    (flush : ∀ c ∈ indent text.toList, c = ' ' ∨ c = '\t') (empty : pattern.findAll text = []) :
    pattern.findAll (Text.trim text) = [] := by
  apply List.eq_nil_iff_forall_not_mem.2
  intro found mem
  rw [findAll_eq, segments_eq_scan] at empty mem
  rw [Text.trim, String.toList_ofList] at mem
  rcases exists_place_of_mem mem with
    ⟨before, after, way, trimmed_eq, -, line, first, taken_eq, _⟩
  rcases Text.exists_trimBlanks_eq text.toList with ⟨ending, text_eq, _⟩
  rcases exists_lines_before_indent text.toList with ⟨lines, blanks_eq, lines_end⟩
  have nonempty := text_ne_nil_of_mem least mem
  -- The pattern would have fitted in the text as well, from the start of the statement's line.
  have fitted : ∃ earlier later other, text.toList = earlier ++ later ∧
      lineStart true earlier = true ∧ first? pattern later = some other ∧ later ≠ [] := by
    have shared : (found.text ++ after).take way.taken <+: found.text ++ (after ++ ending) := by
      rw [taken_eq, List.take_left]
      exact List.prefix_append _ _
    rcases exists_first?_of_isPrefix first shared with ⟨other, other_first⟩
    rcases before with _ | ⟨c, before⟩
    · rcases exists_first?_of_indent starts flush other_first with ⟨wider, wider_first⟩
      refine ⟨lines, indent text.toList ++ (found.text ++ (after ++ ending)), wider, ?_, lines_end,
        wider_first, by simp [nonempty]⟩
      conv_lhs => rw [text_eq, blanks_eq, trimmed_eq]
      simp only [List.nil_append, List.append_assoc]
    · refine ⟨text.toList.takeWhile Text.isBlank ++ (c :: before),
        found.text ++ (after ++ ending), other, ?_, ?_, other_first, by simp [nonempty]⟩
      · conv_lhs => rw [text_eq, trimmed_eq]
        simp only [List.append_assoc]
      · rw [lineStart_append, lineStart_of_ne_nil (List.cons_ne_nil c before) _ true]
        exact line
  rcases fitted with ⟨earlier, later, other, chars_eq, line, fits, more⟩
  rw [first?_eq_none_of_statements least empty chars_eq line more] at fits
  cases fits

end Pattern

namespace Statement

open Pattern (importStatement reExport)

/-- The removal of imports and re-exports and of blanks uncovers no statement in the body of merged
declarations. -/
structure MergesWhole (standsAlone : Bool) (primary : String) : Prop where
  imports : standsAlone = true → importStatement.CutsWhole importStatement primary
  reExports : reExport.CutsWhole reExport (mergedBody standsAlone primary)
  imports_left : standsAlone = true →
    reExport.CutsWhole importStatement (mergedBody standsAlone primary)
  /-- Only spaces and tabs come before the first word on its line. -/
  flush : ∀ c ∈ Pattern.indent (withoutReExports (mergedBody standsAlone primary)).toList,
    c = ' ' ∨ c = '\t'

theorem importSpecifiers_of_findAll {text : String} (empty : importStatement.findAll text = []) :
    importSpecifiers text = [] := by
  rw [importSpecifiers, empty, List.filterMap_nil]

theorem reExports_of_findAll {text : String} (empty : reExport.findAll text = []) :
    reExports text = [] := by
  rw [reExports, empty, List.map_nil]

theorem findAll_withoutImports {text : String}
    (whole : importStatement.CutsWhole importStatement text) :
    importStatement.findAll (withoutImports text) = [] :=
  whole.findAll_eq_nil (by decide) (by decide) (Pattern.clear_self _ _ _)

theorem findAll_withoutReExports {text : String} (whole : reExport.CutsWhole reExport text) :
    reExport.findAll (withoutReExports text) = [] :=
  whole.findAll_eq_nil (by decide) (by decide) (Pattern.clear_self _ _ _)

/-- The body of merged declarations has no statement left. -/
theorem MergesWhole.findAll_body {standsAlone : Bool} {primary body : String}
    (whole : MergesWhole standsAlone primary)
    (mem : body ∈ section? (withoutReExports (mergedBody standsAlone primary))) :
    reExport.findAll body = [] ∧ (standsAlone = true → importStatement.findAll body = []) := by
  have body_eq : body = Text.trim (withoutReExports (mergedBody standsAlone primary)) := by
    rw [section?] at mem
    split at mem
    · simp at mem
    · exact List.mem_singleton.1 mem
  rw [body_eq]
  constructor
  · exact Pattern.findAll_trim rfl (by decide) whole.flush
      (findAll_withoutReExports whole.reExports)
  · rintro rfl
    have clear : Pattern.Clear reExport importStatement true (mergedBody true primary).toList :=
      Pattern.clear_of_findAll (by decide) (findAll_withoutImports (whole.imports rfl))
    have empty := (whole.imports_left rfl).findAll_eq_nil (by decide) (by decide) clear
    exact Pattern.findAll_trim rfl (by decide) whole.flush empty

/-- What is left of a text without its imports or re-exports has statements of that kind only where
the removal uncovers them. If it uncovers none, none is left, and none is in the body of merged
declarations. -/
theorem stripping_complete (text : String) (standsAlone : Bool) (fragments : List String) :
    (∀ found ∈ importStatement.findAll (withoutImports text),
        importStatement.Uncovered text found) ∧
      (importStatement.CutsWhole importStatement text →
        importSpecifiers (withoutImports text) = []) ∧
      (∀ found ∈ reExport.findAll (withoutReExports text), reExport.Uncovered text found) ∧
      (reExport.CutsWhole reExport text → reExports (withoutReExports text) = []) ∧
      merge standsAlone text fragments =
        "\n\n".intercalate (section? (withoutReExports (mergedBody standsAlone text)) ++
          fragments.flatMap section? ++
          if (mergedReExports standsAlone text fragments).isEmpty then []
          else ["\n".intercalate
            ((mergedReExports standsAlone text fragments).map ReExport.print)]) ++ "\n" ∧
      (MergesWhole standsAlone text →
        ∀ body ∈ section? (withoutReExports (mergedBody standsAlone text)),
          reExports body = [] ∧ (standsAlone = true → importSpecifiers body = [])) := by
  refine ⟨?_, ?_, ?_, ?_, merge_eq standsAlone text fragments, ?_⟩
  · intro found mem
    exact Pattern.uncovered_of_mem (by decide) (by decide) (Pattern.clear_self _ _ _) mem
  · exact fun whole => importSpecifiers_of_findAll (findAll_withoutImports whole)
  · intro found mem
    exact Pattern.uncovered_of_mem (by decide) (by decide) (Pattern.clear_self _ _ _) mem
  · exact fun whole => reExports_of_findAll (findAll_withoutReExports whole)
  · intro whole body mem
    have empty := whole.findAll_body mem
    exact ⟨reExports_of_findAll empty.1, fun alone => importSpecifiers_of_findAll (empty.2 alone)⟩

/-- An import and a re-export before an indented line, and an import that ends the text. -/
def trellisText : String :=
  "import 'a'\nexport * from 'b'\n c;\nimport 't'"

theorem withoutImports_trellisText :
    withoutImports trellisText = "export * from 'b'\n c;\n" := by
  decide +kernel

theorem withoutReExports_mergedBody_trellisText :
    withoutReExports (mergedBody true trellisText) = " c;\n" := by
  rw [mergedBody, if_pos rfl, withoutImports_trellisText]
  decide +kernel

theorem cutsWhole_trellisText : importStatement.CutsWhole importStatement trellisText := by
  apply Pattern.CutsWhole.of_findAll_eq_nil
  · decide +kernel
  · rw [← withoutImports, withoutImports_trellisText]
    decide +kernel

theorem mergesWhole_trellisText : MergesWhole true trellisText := by
  have ends_line : ∀ gone ∈ reExport.findAll (mergedBody true trellisText),
      gone.text.getLast? = some '\n' ∨
        gone.stop = Pattern.bytes (mergedBody true trellisText).toList := by
    rw [mergedBody, if_pos rfl, withoutImports_trellisText]
    decide +kernel
  have stripped : reExport.strip (mergedBody true trellisText) = " c;\n" :=
    withoutReExports_mergedBody_trellisText
  refine ⟨fun _ => cutsWhole_trellisText, ?_, fun _ => ?_, ?_⟩
  · apply Pattern.CutsWhole.of_findAll_eq_nil ends_line
    rw [stripped]
    decide +kernel
  · apply Pattern.CutsWhole.of_findAll_eq_nil ends_line
    rw [stripped]
    decide +kernel
  · have indented : Pattern.indent (" c;\n" : String).toList = [' '] := by decide +kernel
    rw [withoutReExports_mergedBody_trellisText, indented]
    simp

theorem stripping_complete_trellis :
    let bodies := section? (withoutReExports (mergedBody true trellisText))
    bodies = ["c;"] ∧ importSpecifiers trellisText = ["a", "t"] ∧
      (reExports trellisText).length = 1 ∧ importSpecifiers (withoutImports trellisText) = [] ∧
      reExports "c;" = [] ∧ importSpecifiers "c;" = [] := by
  have complete := stripping_complete trellisText true []
  have body_eq : section? (withoutReExports (mergedBody true trellisText)) = ["c;"] := by
    rw [withoutReExports_mergedBody_trellisText]
    decide +kernel
  have body := complete.2.2.2.2.2 mergesWhole_trellisText "c;" (by simp [body_eq])
  exact ⟨body_eq, by decide +kernel, by decide +kernel, complete.2.1 cutsWhole_trellisText, body.1,
    body.2 rfl⟩

/-- The second of two statements on a line is left. -/
theorem second_statement_of_line_is_left :
    let imports := "import \"a\"; import \"b\";\n"
    let exports := "export * from \"a\"; export * from \"b\";\n"
    let bodies := section? (withoutReExports (mergedBody false exports))
    importSpecifiers (withoutImports imports) = ["b"] ∧
      (reExports (withoutReExports exports)).map ReExport.specifier = ["b"] ∧
      merge true imports [] = "import \"b\";\n" ∧ bodies = ["export * from \"b\";"] :=
  ⟨by decide +kernel, by decide +kernel, by decide +kernel, by decide +kernel⟩

end Statement

end Componentry
