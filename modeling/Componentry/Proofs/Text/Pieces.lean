import Mathlib.Data.List.Infix
import Mathlib.Data.List.TakeWhile
import Componentry.Text.Blank

/-!
# Pieces, words and lines of texts

What cutting a text at separators keeps: the pieces have the characters of the
text and no separators, and a text that is put together with separators is cut
into the parts that it was made of. Words are the pieces between blanks, lines
those between line feeds. A text without line ends is found in a text exactly if
it is found in one of its lines.
-/

namespace Componentry

namespace Text

variable {chars word text : List Char} {c : Char}

/-! ## Pieces -/

section Pieces

variable {chars text : List Char}

variable {isSeparator : Char → Bool}

theorem not_isSeparator_of_mem_pieces {piece : List Char} (mem : piece ∈ pieces isSeparator chars) :
    ∀ c ∈ piece, isSeparator c = false := by
  induction chars generalizing piece with
  | nil =>
    rw [pieces, List.mem_singleton] at mem
    simp [mem]
  | cons c rest ih =>
    rw [pieces] at mem
    split at mem
    · rcases List.mem_cons.1 mem with rfl | later
      · simp
      · exact ih later
    · rename_i kept
      cases cut : pieces isSeparator rest with
      | nil => exact absurd cut (pieces_ne_nil isSeparator rest)
      | cons first others =>
        rw [cut] at ih mem
        rcases List.mem_cons.1 mem with rfl | later
        · rw [List.forall_mem_cons]
          exact ⟨by simpa using kept, ih List.mem_cons_self⟩
        · exact ih (List.mem_cons_of_mem first later)

theorem pieces_eq_splitOnP (isSeparator : Char → Bool) (chars : List Char) :
    pieces isSeparator chars = chars.splitOnP isSeparator := by
  induction chars with
  | nil => rfl
  | cons c rest ih => rw [pieces, List.splitOnP_cons_eq_if_modifyHead, ih]

theorem pieces_of_no_separator (none : ∀ c ∈ chars, isSeparator c = false) :
    pieces isSeparator chars = [chars] := by
  rw [pieces_eq_splitOnP, List.splitOnP_eq_singleton none]

theorem pieces_append (none : ∀ c ∈ text, isSeparator c = false) {separator : Char}
    (here : isSeparator separator = true) (rest : List Char) :
    pieces isSeparator (text ++ separator :: rest) = text :: pieces isSeparator rest := by
  simp only [pieces_eq_splitOnP]
  exact List.splitOnP_append_cons_of_forall_mem none separator here rest

/-- The first piece reaches up to the first separator. -/
theorem exists_pieces_eq (isSeparator : Char → Bool) (chars : List Char) :
    ∃ others, pieces isSeparator chars = chars.takeWhile (!isSeparator ·) :: others := by
  induction chars with
  | nil => exact ⟨[], rfl⟩
  | cons c rest ih =>
    rcases ih with ⟨others, rest_eq⟩
    rw [pieces, List.takeWhile_cons]
    cases here : isSeparator c with
    | true => exact ⟨pieces isSeparator rest, rfl⟩
    | false =>
      rw [rest_eq]
      exact ⟨others, rfl⟩

theorem isPrefix_takeWhile (accepts : Char → Bool) (accepted : ∀ c ∈ text, accepts c = true)
    (starts : text <+: chars) :
    text <+: chars.takeWhile accepts := by
  rcases starts with ⟨rest, rfl⟩
  rw [List.takeWhile_append_of_pos accepted]
  exact List.prefix_append _ _

/-- A text without separators is found in a text exactly if it is found in one of its pieces. -/
theorem isInfix_iff_pieces (nonempty : text ≠ []) (none : ∀ c ∈ text, isSeparator c = false) :
    text <:+: chars ↔ ∃ piece ∈ pieces isSeparator chars, text <:+: piece := by
  induction chars with
  | nil => simp [pieces]
  | cons c rest ih =>
    rw [List.infix_cons_iff, ih, pieces]
    cases here : isSeparator c with
    | true =>
      have not_start : ¬text <+: c :: rest := by
        rcases text with _ | ⟨d, text⟩
        · exact absurd rfl nonempty
        · rintro ⟨after, same⟩
          have separator := none d List.mem_cons_self
          rw [List.cons_append, List.cons.injEq] at same
          rw [same.1, here] at separator
          cases separator
      simp [not_start, nonempty]
    | false =>
      rcases exists_pieces_eq isSeparator rest with ⟨others, rest_eq⟩
      have start_iff : text <+: c :: rest ↔
          text <+: c :: rest.takeWhile (!isSeparator ·) := by
        constructor
        · intro starts
          have inside := isPrefix_takeWhile (!isSeparator ·) (by simpa using none) starts
          rwa [List.takeWhile_cons, if_pos (by simp [here])] at inside
        · intro starts
          exact starts.trans
            (List.cons_prefix_cons.2 ⟨rfl, List.takeWhile_prefix (!isSeparator ·)⟩)
      simp only [rest_eq, Bool.false_eq_true, if_false, List.modifyHead_cons, List.mem_cons,
        exists_eq_or_imp, start_iff, List.infix_cons_iff, or_assoc]

theorem mem_of_mem_pieces {piece : List Char} (mem : piece ∈ pieces isSeparator chars) :
    ∀ c ∈ piece, c ∈ chars := by
  intro c c_mem
  have kept := not_isSeparator_of_mem_pieces mem c c_mem
  apply (List.singleton_infix_iff c chars).1
  apply (isInfix_iff_pieces (List.cons_ne_nil c []) (by simpa using kept)).2
  exact ⟨piece, mem, (List.singleton_infix_iff c piece).2 c_mem⟩

theorem exists_mem_pieces {c : Char} (kept : isSeparator c = false) (mem : c ∈ chars) :
    ∃ piece ∈ pieces isSeparator chars, c ∈ piece := by
  have found := (List.singleton_infix_iff c chars).2 mem
  rw [isInfix_iff_pieces (List.cons_ne_nil c []) (by simpa using kept)] at found
  simpa only [List.singleton_infix_iff] using found

theorem mem_of_mem_intercalate {separator : List Char} {texts : List (List Char)} {c : Char}
    (mem : c ∈ separator.intercalate texts) : c ∈ separator ∨ ∃ text ∈ texts, c ∈ text := by
  induction texts with
  | nil => simp at mem
  | cons text texts ih =>
    cases texts with
    | nil =>
      rw [List.intercalate_singleton] at mem
      exact .inr ⟨text, List.mem_cons_self, mem⟩
    | cons next texts =>
      rw [List.intercalate_cons_cons, List.mem_append, List.mem_append] at mem
      rcases mem with (here | between) | later
      · exact .inr ⟨text, List.mem_cons_self, here⟩
      · exact .inl between
      · rcases ih later with between | ⟨other, other_mem, there⟩
        · exact .inl between
        · exact .inr ⟨other, List.mem_cons_of_mem text other_mem, there⟩

end Pieces

/-! ## Words -/

/-- A text without blanks that is not empty. -/
def IsWord (text : List Char) : Prop :=
  text ≠ [] ∧ ∀ c ∈ text, isBlank c = false

theorem words_blank {blank : Char} (here : isBlank blank = true) (rest : List Char) :
    words (blank :: rest) = words rest := by
  rw [words, pieces, if_pos here, words, List.filter_cons_of_neg (by simp)]

theorem words_blanks {blanks : List Char} (all : ∀ c ∈ blanks, isBlank c = true)
    (rest : List Char) : words (blanks ++ rest) = words rest := by
  induction blanks with
  | nil => rfl
  | cons blank blanks ih =>
    rw [List.forall_mem_cons] at all
    rw [List.cons_append, words_blank all.1, ih all.2]

theorem words_append (isWord : IsWord word) {blank : Char} (here : isBlank blank = true)
    (rest : List Char) :
    words (word ++ blank :: rest) = word :: words rest := by
  rw [words, pieces_append isWord.2 here, List.filter_cons_of_pos (by simpa using isWord.1), words]

theorem words_word (isWord : IsWord word) : words word = [word] := by
  rw [words, pieces_of_no_separator isWord.2, List.filter_cons_of_pos (by simpa using isWord.1),
    List.filter_nil]

theorem isWord_of_mem_words (mem : word ∈ words chars) :
    IsWord word ∧ ∀ c ∈ word, c ∈ chars := by
  rw [words, List.mem_filter] at mem
  exact ⟨⟨by simpa using mem.2, not_isSeparator_of_mem_pieces mem.1⟩, mem_of_mem_pieces mem.1⟩

theorem words_ne_nil (kept : isBlank c = false) (mem : c ∈ chars) :
    words chars ≠ [] := by
  rcases exists_mem_pieces kept mem with ⟨piece, piece_mem, c_mem⟩
  apply List.ne_nil_of_mem (a := piece)
  rw [words, List.mem_filter]
  exact ⟨piece_mem, by simpa using List.ne_nil_of_mem c_mem⟩

/-! ## Trimmed texts -/

/-- Neither end of the text is blank. -/
def Trimmed (text : List Char) : Prop :=
  (∀ c ∈ text.head?, isBlank c = false) ∧ ∀ c ∈ text.getLast?, isBlank c = false

theorem IsWord.trimmed (isWord : IsWord word) : Trimmed word :=
  ⟨fun c here => isWord.2 c (List.mem_of_mem_head? here),
    fun c here => isWord.2 c (List.mem_of_getLast? here)⟩

theorem Trimmed.append {left right : List Char} (left_trimmed : Trimmed left)
    (right_trimmed : Trimmed right) (left_nonempty : left ≠ []) (right_nonempty : right ≠ [])
    (between : List Char) : Trimmed (left ++ (between ++ right)) := by
  constructor
  · intro c here
    rw [List.head?_append_of_ne_nil _ left_nonempty] at here
    exact left_trimmed.1 c here
  · intro c here
    rw [← List.append_assoc, List.getLast?_append_of_ne_nil _ right_nonempty] at here
    exact right_trimmed.2 c here

theorem IsWord.trimmed_append {other : List Char} (isWord : IsWord word)
    (other_isWord : IsWord other) (between : List Char) : Trimmed (word ++ (between ++ other)) :=
  isWord.trimmed.append other_isWord.trimmed isWord.1 other_isWord.1 between

theorem dropWhile_of_head? (kept : ∀ c ∈ chars.head?, isBlank c = false) :
    chars.dropWhile isBlank = chars := by
  cases chars with
  | nil => rfl
  | cons c rest => rw [List.dropWhile_cons_of_neg (by simp [kept c rfl])]

theorem trimBlanks_append {before after : List Char} (before_blank : ∀ c ∈ before, isBlank c = true)
    (trimmed : Trimmed text) (after_blank : ∀ c ∈ after, isBlank c = true) :
    trimBlanks (before ++ (text ++ after)) = text := by
  have after_reverse : ∀ c ∈ after.reverse, isBlank c = true := by simpa using after_blank
  rw [trimBlanks, List.dropWhile_append_of_pos before_blank]
  cases text with
  | nil =>
    have none_left : after.dropWhile isBlank = [] := List.dropWhile_eq_nil_iff.2 after_blank
    rw [List.nil_append, none_left]
    rfl
  | cons c text =>
    have first_kept : ∀ d ∈ (c :: text ++ after).head?, isBlank d = false := trimmed.1
    have last_kept : ∀ d ∈ (c :: text).reverse.head?, isBlank d = false := by
      rw [List.head?_reverse]
      exact trimmed.2
    rw [dropWhile_of_head? first_kept, List.reverse_append,
      List.dropWhile_append_of_pos after_reverse, dropWhile_of_head? last_kept,
      List.reverse_reverse]

theorem trimBlanks_of_trimmed (trimmed : Trimmed text) :
    trimBlanks text = text := by
  have nothing : ∀ c ∈ ([] : List Char), isBlank c = true := by simp
  simpa using trimBlanks_append nothing trimmed nothing

theorem trimmed_trimBlanks (chars : List Char) : Trimmed (trimBlanks chars) := by
  have stopped (text : List Char) : ∀ c ∈ (text.dropWhile isBlank).head?, isBlank c = false := by
    intro c here
    have := List.head?_dropWhile_not isBlank text
    rw [Option.mem_def.1 here] at this
    simpa using this
  constructor
  · intro c here
    apply stopped chars c
    have start : trimBlanks chars <+: chars.dropWhile isBlank := by
      rw [trimBlanks, ← List.reverse_suffix, List.reverse_reverse]
      exact List.dropWhile_suffix isBlank
    rcases start with ⟨after, after_eq⟩
    rw [← after_eq, List.head?_append, Option.mem_def.1 here]
    rfl
  · intro c here
    rw [trimBlanks, List.getLast?_reverse] at here
    exact stopped _ c here

/-- Trimming takes blanks off both ends. -/
theorem exists_trimBlanks_eq (chars : List Char) :
    ∃ after, chars = chars.takeWhile isBlank ++ (trimBlanks chars ++ after) ∧
      ∀ c ∈ after, isBlank c = true := by
  refine ⟨((chars.dropWhile isBlank).reverse.takeWhile isBlank).reverse, ?_, ?_⟩
  · rw [trimBlanks, ← List.reverse_append, List.takeWhile_append_dropWhile, List.reverse_reverse,
      List.takeWhile_append_dropWhile]
  · intro c mem
    exact List.mem_takeWhile_imp (List.mem_reverse.1 mem)

theorem mem_of_mem_trimBlanks (mem : c ∈ trimBlanks chars) :
    c ∈ chars := by
  rw [trimBlanks, List.mem_reverse] at mem
  have inside := (List.dropWhile_sublist isBlank).subset mem
  rw [List.mem_reverse] at inside
  exact (List.dropWhile_sublist isBlank).subset inside

theorem mem_dropWhile_isBlank (kept : isBlank c = false) (mem : c ∈ chars) :
    c ∈ chars.dropWhile isBlank := by
  rw [← List.takeWhile_append_dropWhile (p := isBlank) (l := chars), List.mem_append] at mem
  rcases mem with blank | rest
  · rw [List.mem_takeWhile_imp blank] at kept
    cases kept
  · exact rest

theorem mem_trimBlanks (kept : isBlank c = false) (mem : c ∈ chars) : c ∈ trimBlanks chars := by
  rw [trimBlanks, List.mem_reverse]
  apply mem_dropWhile_isBlank kept
  rw [List.mem_reverse]
  exact mem_dropWhile_isBlank kept mem

/-! ## Lines -/

theorem dropReturn_isPrefix (chars : List Char) : dropReturn chars <+: chars := by
  rw [dropReturn]
  split
  · exact List.dropLast_prefix chars
  · exact List.prefix_refl chars

/-- Only a carriage return goes from the end of a line. -/
theorem isInfix_dropReturn_iff (nonempty : text ≠ []) (no_return : '\r' ∉ text) :
    text <:+: dropReturn chars ↔ text <:+: chars := by
  constructor
  · intro found
    exact found.trans (dropReturn_isPrefix chars).isInfix
  · intro found
    rw [dropReturn]
    split
    · rename_i last
      rcases List.getLast?_eq_some_iff.1 last with ⟨line, rfl⟩
      rw [List.dropLast_concat]
      rcases List.infix_concat_iff.1 found with ends | inside
      · exfalso
        apply no_return
        rcases ends with ⟨before, same⟩
        have last_eq := congrArg List.getLast? same
        rw [List.getLast?_append_of_ne_nil _ nonempty, List.getLast?_concat] at last_eq
        exact List.mem_of_getLast? last_eq
      · exact inside
    · exact found

theorem lineFeed_not_mem_lines {text line : String} (mem : line ∈ lines text) :
    '\n' ∉ line.toList := by
  have no_feed {piece : List Char} (piece_mem : piece ∈ pieces (· == '\n') text.toList) :
      '\n' ∉ piece := by
    intro here
    have := not_isSeparator_of_mem_pieces piece_mem '\n' here
    simp at this
  rw [lines] at mem
  rcases List.mem_map.1 mem with ⟨chars, chars_mem, rfl⟩
  rw [String.toList_ofList]
  rcases List.mem_append.1 chars_mem with ended | unended
  · rcases List.mem_map.1 ended with ⟨piece, piece_mem, rfl⟩
    intro here
    exact no_feed (List.mem_of_mem_dropLast piece_mem) ((dropReturn_isPrefix piece).subset here)
  · have piece_mem := (List.mem_filter.1 unended).1
    rw [Option.mem_toList] at piece_mem
    exact no_feed (List.mem_of_getLast? piece_mem)

/-- A text without line ends is found in a text exactly if it is found in one of its lines. -/
theorem isInfix_iff_lines (nonempty : word ≠ []) (no_feed : '\n' ∉ word) (no_return : '\r' ∉ word)
    (text : String) :
    word <:+: text.toList ↔ ∃ line ∈ lines text, word <:+: line.toList := by
  have none : ∀ c ∈ word, (c == '\n') = false := by
    intro c mem
    rw [beq_eq_false_iff_ne]
    rintro rfl
    exact no_feed mem
  rw [isInfix_iff_pieces nonempty none]
  rcases List.eq_nil_or_concat (pieces (· == '\n') text.toList) with empty | ⟨ended, last, all⟩
  · exact absurd empty (pieces_ne_nil _ _)
  · rw [List.concat_eq_append] at all
    have last_iff : (∃ piece ∈ [last].filter (· ≠ []), word <:+: piece) ↔ word <:+: last := by
      by_cases empty : last = []
      · simp [empty, nonempty]
      · simp [empty]
    simp only [lines, all, List.dropLast_concat, List.getLast?_concat, Option.toList_some,
      List.map_append, List.mem_append, or_and_right, exists_or, List.mem_map,
      exists_exists_and_eq_and, String.toList_ofList, isInfix_dropReturn_iff nonempty no_return,
      last_iff, List.mem_singleton, exists_eq_left]

end Text

end Componentry
