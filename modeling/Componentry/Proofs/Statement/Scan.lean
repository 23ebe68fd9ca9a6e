import Componentry.Proofs.Statement.Ways

/-!
# Scanning a text for statements

`scan` finds the statements of a pattern by its ways; it is what cutting a text
into segments comes to (`segments_eq_scan`). A scan that stands between two
statements depends on three things only: whether a line starts here, the place
in bytes, and the rest of the text. `scan_skip` takes it past a statement, and
`scan_eq_plain` past a stretch of text in which no statement starts; `scan_step`
says what it does next.
-/

namespace Componentry

namespace Pattern

/-! ## Texts in bytes -/

/-- The length of a text in bytes. -/
def bytes : List Char → Nat
  | [] => 0
  | c :: rest => c.utf8Size + bytes rest

@[simp]
theorem bytes_nil : bytes [] = 0 :=
  rfl

@[simp]
theorem bytes_cons (c : Char) (rest : List Char) : bytes (c :: rest) = c.utf8Size + bytes rest :=
  rfl

theorem bytes_append (left right : List Char) :
    bytes (left ++ right) = bytes left + bytes right := by
  induction left with
  | nil => simp
  | cons c rest ih =>
    rw [List.cons_append, bytes_cons, bytes_cons, ih]
    omega

theorem bytes_pos {text : List Char} (nonempty : text ≠ []) : 0 < bytes text := by
  cases text with
  | nil => exact absurd rfl nonempty
  | cons c rest =>
    have := c.utf8Size_pos
    rw [bytes_cons]
    omega

theorem Found.byteLength_eq (found : Found) : found.byteLength = bytes found.text := by
  have from_total (text : List Char) (total : Nat) :
      text.foldl (fun total c => total + c.utf8Size) total = total + bytes text := by
    induction text generalizing total with
    | nil => rfl
    | cons c rest ih =>
      rw [List.foldl_cons, ih, bytes_cons]
      omega
  rw [byteLength, from_total, Nat.zero_add]

/-- Where a statement ends in the text, in bytes. -/
def Found.stop (found : Found) : Nat :=
  found.start + found.byteLength

/-- Whether a line starts after a text that starts in a line. -/
def lineStart (atStart : Bool) (text : List Char) : Bool :=
  (text.getLast?.map (· == '\n')).getD atStart

@[simp]
theorem lineStart_nil (atStart : Bool) : lineStart atStart [] = atStart :=
  rfl

theorem lineStart_cons (atStart : Bool) (c : Char) (rest : List Char) :
    lineStart atStart (c :: rest) = lineStart (c == '\n') rest := by
  cases rest with
  | nil => rfl
  | cons d rest =>
    cases last : (d :: rest).getLast? with
    | none => simp at last
    | some e => simp [lineStart, List.getLast?_cons_cons, last]

/-! ## Segments -/

/-- The statements among the segments. -/
def statements (segments : List Segment) : List Found :=
  segments.filterMap fun
    | .statement found => some found
    | .plain _ => none

/-- The characters between the statements. -/
def plainText (segments : List Segment) : List Char :=
  segments.filterMap fun
    | .statement _ => none
    | .plain c => some c

/-- The characters that a segment stands for. -/
def Segment.text : Segment → List Char
  | .plain c => [c]
  | .statement found => found.text

section Segments

variable (found : Found) (c : Char) (text : List Char) (rest : List Segment)

@[simp]
theorem statements_statement : statements (.statement found :: rest) = found :: statements rest :=
  rfl

@[simp]
theorem statements_plain : statements (.plain c :: rest) = statements rest :=
  rfl

@[simp]
theorem statements_map_plain : statements (text.map .plain ++ rest) = statements rest := by
  induction text with
  | nil => rfl
  | cons c text ih => simpa using ih

@[simp]
theorem plainText_statement : plainText (.statement found :: rest) = plainText rest :=
  rfl

@[simp]
theorem plainText_plain : plainText (.plain c :: rest) = c :: plainText rest :=
  rfl

@[simp]
theorem plainText_map_plain : plainText (text.map .plain ++ rest) = text ++ plainText rest := by
  induction text with
  | nil => rfl
  | cons c text ih => simpa using ih

end Segments

theorem statements_append (left right : List Segment) :
    statements (left ++ right) = statements left ++ statements right :=
  List.filterMap_append

theorem findAll_eq (pattern : Pattern) (text : String) :
    pattern.findAll text = statements (pattern.segments text) :=
  rfl

theorem strip_eq (pattern : Pattern) (text : String) :
    pattern.strip text = String.ofList (plainText (pattern.segments text)) :=
  rfl

/-! ## Scans -/

/-- Cuts a text into statements and other characters. `atStart` says that a line starts here,
`offset` where the text is in bytes, and `skip` how many characters belong to the statement found
before. -/
def scan (pattern : Pattern) (atStart : Bool) (offset skip : Nat) : List Char → List Segment
  | [] => []
  | c :: rest =>
    match skip with
    | skip + 1 => scan pattern (c == '\n') (offset + c.utf8Size) skip rest
    | 0 =>
      match if atStart then first? pattern (c :: rest) else none with
      | some way =>
        .statement ⟨offset, (c :: rest).take way.taken, way.captures (c :: rest)⟩ ::
          scan pattern (c == '\n') (offset + c.utf8Size) (way.taken - 1) rest
      | none => .plain c :: scan pattern (c == '\n') (offset + c.utf8Size) 0 rest

/-- Cutting a text with a matcher is scanning it. -/
theorem segmentsFrom_eq_scan (pattern : Pattern) (atStart : Bool) (offset skip : Nat)
    (chars : List Char) :
    segmentsFrom (fun _ => fit pattern finished) atStart offset skip chars.length chars =
      scan pattern atStart offset skip chars := by
  induction chars generalizing atStart offset skip with
  | nil => rfl
  | cons c rest ih =>
    cases skip with
    | succ skip => simp [segmentsFrom, scan, ih]
    | zero =>
      cases atStart with
      | false => simp [segmentsFrom, scan, ih]
      | true =>
        rw [segmentsFrom, scan]
        simp only [if_true, fit_finished]
        cases first : first? pattern (c :: rest) with
        | none =>
          rw [first?] at first
          simp [first, ih]
        | some way =>
          have mem := mem_ways_of_first? first
          have taken_le := (bounds_of_mem_ways mem).2
          rw [first?] at first
          have left_eq : (way.outcome (c :: rest).length).left =
              (c :: rest).length - way.taken := rfl
          have length_eq : (c :: rest).length - ((c :: rest).length - way.taken) =
              way.taken := by
            omega
          simp only [first, Option.map_some, left_eq, length_eq, captures_outcome mem]
          simp [ih]

theorem segments_eq_scan (pattern : Pattern) (text : String) :
    pattern.segments text = scan pattern true 0 0 text.toList := by
  rw [segments_eq_fit, segmentsFrom_eq_scan]

section Scans

variable {pattern : Pattern} {atStart : Bool} {offset : Nat} {chars : List Char}

/-- A scan goes on after the statement found before. -/
theorem scan_skip (skip : Nat) :
    scan pattern atStart offset skip chars =
      scan pattern (lineStart atStart (chars.take skip)) (offset + bytes (chars.take skip)) 0
        (chars.drop skip) := by
  induction chars generalizing atStart offset skip with
  | nil => simp [scan]
  | cons c rest ih =>
    cases skip with
    | zero => simp
    | succ skip =>
      rw [scan, ih, List.take_succ_cons, List.drop_succ_cons, lineStart_cons, bytes_cons,
        Nat.add_assoc]

/-- The part of the text that a pattern takes, and the rest. -/
theorem exists_split_of_first? {way : Way} (least : 0 < leastLength pattern)
    (first : first? pattern chars = some way) :
    ∃ text rest, chars = text ++ rest ∧ way.taken = text.length ∧ text ≠ [] := by
  have bounds := bounds_of_mem_ways (mem_ways_of_first? first)
  have text_length := length_take_of_first? first
  refine ⟨chars.take way.taken, chars.drop way.taken, ?_, text_length.symm, ?_⟩
  · exact (List.take_append_drop way.taken chars).symm
  · apply List.ne_nil_of_length_pos
    omega

/-- A scan finds a statement where the pattern fits, and goes on after it. -/
theorem scan_of_first? (offset : Nat) {text rest : List Char} {way : Way}
    (first : first? pattern (text ++ rest) = some way) (taken_eq : way.taken = text.length)
    (nonempty : text ≠ []) :
    scan pattern true offset 0 (text ++ rest) =
      .statement ⟨offset, text, way.captures text⟩ ::
        scan pattern (lineStart true text) (offset + bytes text) 0 rest := by
  have captures_eq : way.captures (text ++ rest) = way.captures text :=
    captures_append (mem_ways_of_first? first) (by omega)
  rcases text with _ | ⟨c, text⟩
  · exact absurd rfl nonempty
  · rw [List.cons_append] at first captures_eq ⊢
    rw [scan]
    simp only [if_true, first]
    rw [scan_skip, captures_eq, taken_eq, List.length_cons, Nat.add_sub_cancel, List.take_succ_cons,
      List.take_left, List.drop_left, lineStart_cons, bytes_cons, Nat.add_assoc]

theorem scan_cons (offset : Nat) {c : Char} {rest : List Char}
    (none_here : atStart = true → first? pattern (c :: rest) = none) :
    scan pattern atStart offset 0 (c :: rest) =
      .plain c :: scan pattern (c == '\n') (offset + c.utf8Size) 0 rest := by
  rw [scan]
  cases atStart with
  | false => rfl
  | true => simp [none_here rfl]

/-- A statement stands where a line starts and its pattern fits. -/
theorem exists_place_of_mem {skip : Nat} {found : Found}
    (mem : found ∈ statements (scan pattern atStart offset skip chars)) :
    ∃ before after way, chars = before ++ (found.text ++ after) ∧
      found.start = offset + bytes before ∧ lineStart atStart before = true ∧
      first? pattern (found.text ++ after) = some way ∧ way.taken = found.text.length ∧
      found.captures = way.captures found.text := by
  induction chars generalizing atStart offset skip with
  | nil => simp [scan, statements] at mem
  | cons c rest ih =>
    have later {skip : Nat} (mem : found ∈ statements (scan pattern (c == '\n')
        (offset + c.utf8Size) skip rest)) :
        ∃ before after way, c :: rest = before ++ (found.text ++ after) ∧
          found.start = offset + bytes before ∧ lineStart atStart before = true ∧
          first? pattern (found.text ++ after) = some way ∧ way.taken = found.text.length ∧
          found.captures = way.captures found.text := by
      rcases ih mem with ⟨before, after, way, rest_eq, start_eq, line, first⟩
      refine ⟨c :: before, after, way, congrArg (c :: ·) rest_eq, ?_, ?_, first⟩
      · rw [start_eq, bytes_cons, Nat.add_assoc]
      · rw [lineStart_cons, line]
    cases skip with
    | succ skip => exact later mem
    | zero =>
      rw [scan] at mem
      cases atStart with
      | false => exact later mem
      | true =>
        cases first : first? pattern (c :: rest) with
        | none =>
          rw [if_pos rfl, first] at mem
          exact later mem
        | some way =>
          rw [if_pos rfl, first] at mem
          rcases List.mem_cons.1 mem with rfl | mem
          · have text_length := length_take_of_first? first
            have whole := List.take_append_drop way.taken (c :: rest)
            refine ⟨[], _, way, whole.symm, rfl, rfl, ?_, text_length.symm, ?_⟩
            · rw [whole, first]
            · conv_lhs => rw [← whole]
              exact captures_append (mem_ways_of_first? first) (Nat.le_of_eq text_length.symm)
          · exact later mem

theorem le_start_of_mem {skip : Nat} {found : Found}
    (mem : found ∈ statements (scan pattern atStart offset skip chars)) : offset ≤ found.start := by
  rcases exists_place_of_mem mem with ⟨before, _, _, _, start_eq, _⟩
  omega

theorem text_ne_nil_of_mem {skip : Nat} {found : Found} (least : 0 < leastLength pattern)
    (mem : found ∈ statements (scan pattern atStart offset skip chars)) : found.text ≠ [] := by
  rcases exists_place_of_mem mem with ⟨_, _, way, _, _, _, first, taken_eq, _⟩
  have bounds := bounds_of_mem_ways (mem_ways_of_first? first)
  apply List.ne_nil_of_length_pos
  omega

/-- A scan goes on after a stretch of text in which no statement starts. -/
theorem scan_eq_plain {text rest : List Char}
    (later : ∀ found ∈ statements (scan pattern atStart offset 0 (text ++ rest)),
      offset + bytes text ≤ found.start) :
    scan pattern atStart offset 0 (text ++ rest) =
      text.map .plain ++ scan pattern (lineStart atStart text) (offset + bytes text) 0 rest := by
  induction text generalizing atStart offset with
  | nil => simp
  | cons c text ih =>
    have c_pos := c.utf8Size_pos
    rw [List.cons_append, bytes_cons] at later
    have none_here : atStart = true → first? pattern (c :: (text ++ rest)) = none := by
      rintro rfl
      cases first : first? pattern (c :: (text ++ rest)) with
      | none => rfl
      | some way =>
        have found_mem : (⟨offset, (c :: (text ++ rest)).take way.taken,
            way.captures (c :: (text ++ rest))⟩ : Found) ∈
            statements (scan pattern true offset 0 (c :: (text ++ rest))) := by
          rw [scan, if_pos rfl, first]
          exact List.mem_cons_self
        have := later _ found_mem
        simp only at this
        omega
    rw [scan_cons offset none_here] at later
    rw [List.cons_append, scan_cons offset none_here, lineStart_cons, bytes_cons, ← Nat.add_assoc,
      List.map_cons, List.cons_append, ih]
    intro found mem
    have := later found mem
    omega

/-- The characters between statements are characters of the text. -/
theorem isPrefix_of_map_plain {text : List Char} {rest : List Segment}
    (scanned : scan pattern atStart offset 0 chars = text.map .plain ++ rest) : text <+: chars := by
  induction text generalizing atStart offset chars with
  | nil => exact List.nil_prefix
  | cons c text ih =>
    cases chars with
    | nil => simp [scan] at scanned
    | cons d chars =>
      rw [scan] at scanned
      split at scanned
      · simp at scanned
      · simp only [List.map_cons, List.cons_append, List.cons.injEq, Segment.plain.injEq]
          at scanned
        rw [scanned.1]
        exact List.cons_prefix_cons.2 ⟨rfl, ih scanned.2⟩

/-- A scan of a text that is not empty passes one segment and goes on behind it. -/
theorem scan_step (least : 0 < leastLength pattern) (atStart : Bool) (offset : Nat)
    (nonempty : chars ≠ []) :
    ∃ segment rest, scan pattern atStart offset 0 chars =
        segment :: scan pattern (lineStart atStart segment.text)
          (offset + bytes segment.text) 0 rest ∧
      chars = segment.text ++ rest ∧ segment.text ≠ [] ∧
      (∀ found, segment = .statement found → found.start = offset ∧ atStart = true ∧
        ∃ way, first? pattern chars = some way ∧ way.taken = found.text.length) ∧
      ∀ c, segment = .plain c → atStart = true → first? pattern chars = none := by
  rcases chars with _ | ⟨c, rest⟩
  · exact absurd rfl nonempty
  · by_cases fits : atStart = true ∧ (first? pattern (c :: rest)).isSome = true
    · rcases fits with ⟨rfl, fits⟩
      rcases Option.isSome_iff_exists.1 fits with ⟨way, first⟩
      rcases exists_split_of_first? least first with ⟨text, tail, chars_eq, taken_eq, text_ne⟩
      rw [chars_eq] at first ⊢
      refine ⟨_, tail, scan_of_first? offset first taken_eq text_ne, rfl, text_ne, ?_, nofun⟩
      intro found same
      cases same
      exact ⟨rfl, rfl, way, first, taken_eq⟩
    · have none_here : atStart = true → first? pattern (c :: rest) = none := by
        intro start
        simpa [start] using fits
      refine ⟨.plain c, rest, ?_, rfl, List.cons_ne_nil c [], nofun, fun _ _ => none_here⟩
      rw [scan_cons offset none_here]
      rfl

end Scans

end Pattern

end Componentry
