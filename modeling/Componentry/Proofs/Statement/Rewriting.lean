import Componentry.Proofs.Statement.Merge
import Componentry.Proofs.Statement.Shapes
import Componentry.Proofs.Text.Pieces

/-!
# Re-exports that are written and read again

Re-exports are printed on one line, with one space between their words, whatever
they looked like before. `WellRead` says what every re-export that was read has
in common: its names are words without commas and braces, and its specifier has
no quotes. This is enough to read the printed form.

One name does not come back. The mark of a type is told from a name by the one
space behind it, while any blanks may separate the other words of an entry. So
`type` with a tab behind it is a name, and may be renamed, but printed with a space
it is a mark, and `as` is read as the name.
-/

namespace Componentry

open Text (IsWord Trimmed)

/-! ## Entries -/

namespace ExportSpecifier

variable {entry : List Char}

/-- A word that may stand between commas in braces. -/
def IsPart (text : String) : Prop :=
  IsWord text.toList ∧ ∀ c ∈ text.toList, c ≠ ',' ∧ c ≠ '\x7b' ∧ c ≠ '\x7d'

/-- The names are words as they may stand in an entry. -/
def WellRead (specifier : ExportSpecifier) : Prop :=
  IsPart specifier.name ∧ ∀ other ∈ specifier.newName, IsPart other

/-- The entry gives another name to what is called `type`. -/
def RenamesType (specifier : ExportSpecifier) : Prop :=
  specifier.name = "type" ∧ specifier.newName.isSome = true ∧ specifier.typeOnly = false

instance (specifier : ExportSpecifier) : Decidable specifier.RenamesType :=
  inferInstanceAs (Decidable (_ ∧ _ ∧ _))

/-- The entry that is read from the printed form of an entry. -/
def reread (specifier : ExportSpecifier) : ExportSpecifier :=
  if specifier.RenamesType then { name := "as", typeOnly := true } else specifier

theorem reread_eq_iff (specifier : ExportSpecifier) :
    specifier.reread = specifier ↔ ¬specifier.RenamesType := by
  rw [reread]
  split
  · rename_i renames
    simp only [renames, not_true, iff_false]
    intro same
    have name_eq := congrArg name same
    rw [renames.1] at name_eq
    revert name_eq
    decide
  · rename_i keeps
    simp [keeps]

/-- The new name among the words of an entry. -/
def newNameOf : List String → Option String
  | _ :: "as" :: other :: _ => some other
  | _ => none

/-- The entry with these words. -/
def ofWords (typeOnly : Bool) (words : List String) : ExportSpecifier where
  name := words.head?.getD ""
  newName := newNameOf words
  typeOnly := typeOnly

theorem mem_of_mem_newNameOf {words : List String} {other : String}
    (mem : other ∈ newNameOf words) : other ∈ words := by
  unfold newNameOf at mem
  split at mem
  · cases mem
    simp
  · cases mem

theorem ofEntry_of_mark {rest : List Char}
    (marked : Pattern.dropWord? "type ".toList entry = some rest) :
    ofEntry entry = ofWords true ((Text.words (Text.trimBlanks rest)).map String.ofList) := by
  rw [ofEntry, marked]
  rfl

theorem ofEntry_of_no_mark (unmarked : Pattern.dropWord? "type ".toList entry = none) :
    ofEntry entry = ofWords false ((Text.words entry).map String.ofList) := by
  rw [ofEntry, unmarked]
  rfl

theorem wellRead_ofWords {words : List String} (nonempty : words ≠ [])
    (parts : ∀ word ∈ words, IsPart word) (typeOnly : Bool) :
    (ofWords typeOnly words).WellRead := by
  rcases words with _ | ⟨first, words⟩
  · exact absurd rfl nonempty
  · refine ⟨parts first List.mem_cons_self, ?_⟩
    intro other other_mem
    exact parts other (mem_of_mem_newNameOf other_mem)

/-- What is read from an entry between commas in braces. -/
theorem wellRead_ofEntry (nonempty : entry ≠ []) (trimmed : Trimmed entry)
    (inner : ∀ c ∈ entry, c ≠ ',' ∧ c ≠ '\x7b' ∧ c ≠ '\x7d') : (ofEntry entry).WellRead := by
  have parts {chars : List Char} (inside : ∀ c ∈ chars, c ∈ entry) :
      ∀ word ∈ (Text.words chars).map String.ofList, IsPart word := by
    intro word mem
    rcases List.mem_map.1 mem with ⟨part, part_mem, rfl⟩
    have isWord := Text.isWord_of_mem_words part_mem
    rw [IsPart, String.toList_ofList]
    exact ⟨isWord.1, fun c c_mem => inner c (inside c (isWord.2 c c_mem))⟩
  have last_kept : ∃ c ∈ entry.getLast?, Text.isBlank c = false := by
    rcases Option.isSome_iff_exists.1 (List.getLast?_isSome.2 nonempty) with ⟨last, last_eq⟩
    exact ⟨last, last_eq, trimmed.2 last last_eq⟩
  rcases last_kept with ⟨last, last_mem, kept⟩
  cases marked : Pattern.dropWord? "type ".toList entry with
  | none =>
    rw [ofEntry_of_no_mark marked]
    apply wellRead_ofWords _ (parts fun c mem => mem)
    have some_word := Text.words_ne_nil kept (List.mem_of_getLast? last_mem)
    simpa using some_word
  | some rest =>
    have entry_eq := Pattern.eq_append_of_dropWord? marked
    have rest_mem : ∀ c ∈ Text.trimBlanks rest, c ∈ entry := by
      intro c mem
      rw [entry_eq]
      exact List.mem_append_right _ (Text.mem_of_mem_trimBlanks mem)
    have last_in_rest : last ∈ rest.getLast? := by
      rcases List.eq_nil_or_concat rest with rfl | ⟨others, c, rfl⟩
      · rw [entry_eq, List.append_nil] at last_mem
        obtain rfl : ' ' = last := Option.some.inj last_mem
        revert kept
        decide
      · rw [entry_eq, List.getLast?_append_of_ne_nil _ (by simp)] at last_mem
        exact last_mem
    have some_word := Text.words_ne_nil kept
      (Text.mem_trimBlanks kept (List.mem_of_getLast? last_in_rest))
    rw [ofEntry_of_mark marked]
    apply wellRead_ofWords _ (parts rest_mem)
    simpa using some_word

/-! ## Printed entries -/

/-- The words of an entry as they are printed. -/
def printedWords (specifier : ExportSpecifier) : List Char :=
  specifier.name.toList ++ match specifier.newName with
    | some other => " as ".toList ++ other.toList
    | none => []

theorem toList_print (specifier : ExportSpecifier) :
    specifier.print.toList =
      (if specifier.typeOnly then "type ".toList else []) ++ specifier.printedWords := by
  rcases specifier with ⟨name, newName, typeOnly⟩
  cases typeOnly <;> cases newName <;> simp [print, printedWords]

section Printed

variable {specifier : ExportSpecifier}

theorem isWord_as : IsWord "as".toList := by
  refine ⟨by decide, ?_⟩
  simp
  decide

theorem isWord_type : IsWord "type".toList := by
  refine ⟨by decide, ?_⟩
  simp
  decide

theorem words_as {other : String} (isWord : IsWord other.toList) :
    Text.words ("as ".toList ++ other.toList) = ["as".toList, other.toList] := by
  have text_eq : "as ".toList ++ other.toList = "as".toList ++ ' ' :: other.toList := by
    simp
  rw [text_eq, Text.words_append isWord_as (by decide), Text.words_word isWord]

theorem WellRead.ofWords_printedWords (wellRead : specifier.WellRead) :
    ofWords specifier.typeOnly
      ((Text.words specifier.printedWords).map String.ofList) = specifier := by
  rcases specifier with ⟨name, newName, typeOnly⟩
  cases newName with
  | none => simp [printedWords, Text.words_word wellRead.1.1, ofWords, newNameOf]
  | some other =>
    have text_eq : name.toList ++ (" as ".toList ++ other.toList) =
        name.toList ++ ' ' :: ("as ".toList ++ other.toList) := by
      simp
    have words_eq : Text.words (name.toList ++ ' ' :: ("as ".toList ++ other.toList)) =
        [name.toList, "as".toList, other.toList] := by
      rw [Text.words_append wellRead.1.1 rfl, words_as (wellRead.2 other rfl).1]
    simp only [printedWords, text_eq, words_eq]
    simp [ofWords, newNameOf]

theorem WellRead.trimmed_printedWords (wellRead : specifier.WellRead) :
    Trimmed specifier.printedWords := by
  rcases specifier with ⟨name, newName, typeOnly⟩
  cases newName with
  | none => simpa [printedWords] using wellRead.1.1.trimmed
  | some other => exact wellRead.1.1.trimmed_append (wellRead.2 other rfl).1 " as ".toList

/-- Words that start like a mark are those of a renamed `type`. -/
theorem WellRead.renamesType_of_mark (wellRead : specifier.WellRead)
    (unmarked : specifier.typeOnly = false)
    (marked : "type ".toList <+: specifier.printedWords) : specifier.RenamesType := by
  rcases specifier with ⟨name, newName, typeOnly⟩
  rcases marked with ⟨rest, text_eq⟩
  have words_eq := congrArg Text.words text_eq
  have marked_eq : "type ".toList ++ rest = "type".toList ++ ' ' :: rest := by
    simp
  rw [marked_eq, Text.words_append isWord_type rfl] at words_eq
  cases newName with
  | none =>
    simp only [printedWords, List.append_nil] at text_eq words_eq
    rw [Text.words_word wellRead.1.1] at words_eq
    have name_eq : name.toList = "type".toList := (List.cons.inj words_eq).1.symm
    have lengths := congrArg List.length text_eq
    rw [name_eq] at lengths
    simp at lengths
  | some other =>
    have parted : printedWords ⟨name, some other, typeOnly⟩ =
        name.toList ++ ' ' :: ("as ".toList ++ other.toList) := by
      simp [printedWords]
    rw [parted, Text.words_append wellRead.1.1 rfl] at words_eq
    have name_eq : name.toList = "type".toList := (List.cons.inj words_eq).1.symm
    exact ⟨String.toList_inj.1 name_eq, rfl, unmarked⟩

theorem ofEntry_of_renamesType (wellRead : specifier.WellRead) (renames : specifier.RenamesType) :
    ofEntry specifier.print.toList = { name := "as", typeOnly := true } := by
  rcases specifier with ⟨name, newName, typeOnly⟩
  rcases renames with ⟨rfl, renamed, rfl⟩
  rcases Option.isSome_iff_exists.1 renamed with ⟨other, rfl⟩
  have other_isWord := (wellRead.2 other rfl).1
  have text_eq : print ⟨"type", some other, false⟩ = "type as " ++ other := by
    rw [← String.toList_inj]
    simp [print]
  have marked : Pattern.dropWord? "type ".toList (print ⟨"type", some other, false⟩).toList =
      some ("as ".toList ++ other.toList) := by
    rw [← Pattern.dropWord?_append "type ".toList, text_eq]
    simp
  have trimmed : Trimmed ("as ".toList ++ other.toList) := by
    simpa using isWord_as.trimmed_append other_isWord " ".toList
  rw [ofEntry_of_mark marked, Text.trimBlanks_of_trimmed trimmed, words_as other_isWord]
  simp [ofWords, newNameOf]

/-- What is read from a printed entry. -/
theorem ofEntry_print (wellRead : specifier.WellRead) :
    ofEntry specifier.print.toList = specifier.reread := by
  rw [reread]
  split
  · rename_i renames
    exact ofEntry_of_renamesType wellRead renames
  rename_i keeps
  rw [toList_print]
  cases typeOnly_eq : specifier.typeOnly with
  | true =>
    have read := wellRead.ofWords_printedWords
    rw [typeOnly_eq] at read
    rw [if_pos rfl, ofEntry_of_mark (Pattern.dropWord?_append _ _),
      Text.trimBlanks_of_trimmed wellRead.trimmed_printedWords, read]
  | false =>
    have unmarked : Pattern.dropWord? "type ".toList specifier.printedWords = none := by
      rw [Option.eq_none_iff_forall_ne_some]
      intro rest marked
      have starts : "type ".toList <+: specifier.printedWords :=
        ⟨rest, (Pattern.eq_append_of_dropWord? marked).symm⟩
      exact keeps (wellRead.renamesType_of_mark typeOnly_eq starts)
    have read := wellRead.ofWords_printedWords
    rw [typeOnly_eq] at read
    rw [if_neg Bool.false_ne_true, List.nil_append, ofEntry_of_no_mark unmarked, read]

theorem WellRead.printedWords_ne_nil (wellRead : specifier.WellRead) :
    specifier.printedWords ≠ [] := by
  intro none
  exact wellRead.1.1.1 (List.append_eq_nil_iff.1 none).1

theorem WellRead.trimmed_print (wellRead : specifier.WellRead) :
    Trimmed specifier.print.toList := by
  rw [toList_print]
  split
  · exact isWord_type.trimmed.append wellRead.trimmed_printedWords isWord_type.1
      wellRead.printedWords_ne_nil [' ']
  · exact wellRead.trimmed_printedWords

theorem WellRead.print_ne_nil (wellRead : specifier.WellRead) : specifier.print.toList ≠ [] := by
  rw [toList_print]
  exact List.append_ne_nil_of_right_ne_nil _ wellRead.printedWords_ne_nil

theorem WellRead.mem_print (wellRead : specifier.WellRead) {c : Char}
    (mem : c ∈ specifier.print.toList) : c ≠ ',' ∧ c ≠ '\x7b' ∧ c ≠ '\x7d' := by
  have of_word {word : String} (plain : (word.toList.all fun c =>
      c != ',' && (c != '\x7b' && c != '\x7d')) = true) (here : c ∈ word.toList) :
      c ≠ ',' ∧ c ≠ '\x7b' ∧ c ≠ '\x7d' := by
    simpa using List.all_eq_true.1 plain c here
  rw [toList_print, List.mem_append] at mem
  rcases mem with marked | words
  · split at marked
    · exact of_word (by decide) marked
    · cases marked
  rcases List.mem_append.1 words with name | renamed
  · exact wellRead.1.2 c name
  cases newName_eq : specifier.newName with
  | none => simp [newName_eq] at renamed
  | some other =>
    rw [newName_eq] at renamed
    rcases List.mem_append.1 renamed with between | new
    · exact of_word (by decide) between
    · exact (wellRead.2 other newName_eq).2 c new

end Printed

end ExportSpecifier

/-! ## Clauses -/

namespace ExportClause

variable {text inner : List Char}

/-- The texts between commas, without what is blank. -/
def entries (inner : List Char) : List (List Char) :=
  ((Text.pieces (· == ',') inner).map Text.trimBlanks).filter (· ≠ [])

/-- The names in a clause may stand where they do. -/
def WellRead : ExportClause → Prop
  | .all none => True
  | .all (some newName) =>
    newName.toList ≠ [] ∧ ∀ c ∈ newName.toList, Pattern.isNameChar c = true
  | .named specifiers => ∀ specifier ∈ specifiers, specifier.WellRead

/-- The clause that is read from the printed form of a clause. -/
def reread : ExportClause → ExportClause
  | .all newName => .all newName
  | .named specifiers => .named (specifiers.map ExportSpecifier.reread)

/-- An entry of the clause gives another name to what is called `type`. -/
def RenamesType : ExportClause → Prop
  | .all _ => False
  | .named specifiers => ∃ specifier ∈ specifiers, specifier.RenamesType

theorem reread_eq_iff (clause : ExportClause) : clause.reread = clause ↔ ¬clause.RenamesType := by
  cases clause with
  | all newName => simp [reread, RenamesType]
  | named specifiers =>
    rw [reread, RenamesType, named.injEq]
    nth_rewrite 2 [← List.map_id specifiers]
    simp only [List.map_inj_left, id_eq, ExportSpecifier.reread_eq_iff, not_exists, not_and]

theorem dropWhile_brace {brace : Char} {rest : List Char} (flat : ∀ c ∈ inner, c ≠ brace)
    (ends : rest.head? ≠ some brace) :
    (brace :: (inner ++ rest)).dropWhile (· == brace) = inner ++ rest := by
  rw [List.dropWhile_cons_of_pos (by simp)]
  cases inner with
  | nil =>
    cases rest with
    | nil => rfl
    | cons c rest =>
      apply List.dropWhile_cons_of_neg
      simpa using ends
  | cons c inner =>
    apply List.dropWhile_cons_of_neg
    simpa using flat c List.mem_cons_self

theorem specifiers_braced (flat : ∀ c ∈ inner, c ≠ '\x7b' ∧ c ≠ '\x7d') :
    specifiers ('\x7b' :: (inner ++ ['\x7d'])) =
      (entries inner).map ExportSpecifier.ofEntry := by
  have opened : ('\x7b' :: (inner ++ ['\x7d'])).dropWhile (· == '\x7b') = inner ++ ['\x7d'] :=
    dropWhile_brace (fun c mem => (flat c mem).1) (by decide)
  have closed : (inner ++ ['\x7d']).reverse.dropWhile (· == '\x7d') = inner.reverse := by
    have reversed : ('\x7d' :: (inner.reverse ++ [])).dropWhile (· == '\x7d') =
        inner.reverse ++ [] := by
      apply dropWhile_brace _ (by simp)
      intro c mem
      exact (flat c (List.mem_reverse.1 mem)).2
    simpa using reversed
  rw [specifiers, opened, closed, List.reverse_reverse]
  rfl

theorem uncut_of_no_comma (one : ',' ∉ text) :
    ∀ c ∈ text, (c == ',') = false := by
  intro c mem
  rw [beq_eq_false_iff_ne]
  rintro rfl
  exact one mem

theorem entries_of_no_comma (one : ',' ∉ text) :
    entries text = [Text.trimBlanks text].filter (· ≠ []) := by
  rw [entries, Text.pieces_of_no_separator (uncut_of_no_comma one), List.map_singleton]

theorem entries_append (one : ',' ∉ text) (rest : List Char) :
    entries (text ++ ',' :: rest) = entries text ++ entries rest := by
  rw [entries_of_no_comma one, entries, entries, Text.pieces_append (uncut_of_no_comma one) rfl,
    List.map_cons, List.filter_cons]
  simp only [List.filter_cons, List.filter_nil]
  split <;> rfl

/-- Blanks around an entry do not belong to it. -/
theorem entries_spaced {after : List Char} (nonempty : text ≠ []) (trimmed : Trimmed text)
    (one : ',' ∉ text) (after_blank : ∀ c ∈ after, c = ' ') :
    entries (' ' :: (text ++ after)) = [text] := by
  have blank {blanks : List Char} (spaces : ∀ c ∈ blanks, c = ' ') :
      ∀ c ∈ blanks, Text.isBlank c = true := by
    intro c mem
    rw [spaces c mem]
    decide
  have no_comma : ',' ∉ ' ' :: (text ++ after) := by
    have not_after : ',' ∉ after := fun mem => absurd (after_blank _ mem) (by decide)
    simp [one, not_after]
  have trimmed_eq : Text.trimBlanks ([' '] ++ (text ++ after)) = text :=
    Text.trimBlanks_append (blank (by simp)) trimmed (blank after_blank)
  rw [List.singleton_append] at trimmed_eq
  rw [entries_of_no_comma no_comma, trimmed_eq]
  simp [nonempty]

/-- The entries of a clause on one line. -/
theorem entries_intercalate {texts : List (List Char)}
    (apart : ∀ text ∈ texts, text ≠ [] ∧ Trimmed text ∧ ',' ∉ text) :
    entries (' ' :: (", ".toList.intercalate texts ++ [' '])) = texts := by
  induction texts with
  | nil => decide
  | cons text texts ih =>
    rw [List.forall_mem_cons] at apart
    rcases apart with ⟨⟨nonempty, trimmed, one⟩, later⟩
    cases texts with
    | nil =>
      rw [List.intercalate_singleton]
      exact entries_spaced nonempty trimmed one (by simp)
    | cons next texts =>
      have inner_eq : ' ' :: (", ".toList.intercalate (text :: next :: texts) ++ [' ']) =
          ' ' :: (text ++ []) ++
            ',' :: ' ' :: (", ".toList.intercalate (next :: texts) ++ [' ']) := by
        simp [List.intercalate_cons_cons]
      have no_comma : ',' ∉ ' ' :: (text ++ []) := by
        simp [one]
      rw [inner_eq, entries_append no_comma, ih later,
        entries_spaced nonempty trimmed one (by simp)]
      rfl

theorem mem_entries {entry : List Char} (mem : entry ∈ entries inner) :
    entry ≠ [] ∧ Trimmed entry ∧ ∀ c ∈ entry, c ∈ inner ∧ c ≠ ',' := by
  rcases List.mem_filter.1 mem with ⟨trimmed_mem, nonempty⟩
  rcases List.mem_map.1 trimmed_mem with ⟨piece, piece_mem, rfl⟩
  refine ⟨by simpa using nonempty, Text.trimmed_trimBlanks piece, ?_⟩
  intro c c_mem
  have c_mem := Text.mem_of_mem_trimBlanks c_mem
  have uncut := Text.not_isSeparator_of_mem_pieces piece_mem c c_mem
  exact ⟨Text.mem_of_mem_pieces piece_mem c c_mem, by simpa using uncut⟩

theorem isWord_of_isNameChar {name : List Char} (nonempty : name ≠ [])
    (named : ∀ c ∈ name, Pattern.isNameChar c = true) : IsWord name :=
  ⟨nonempty, fun c mem => Pattern.isBlank_of_isNameChar (named c mem)⟩

theorem ofText_all : ofText ['*'] = .all none := by
  decide

theorem ofText_renamed {blanks others name : List Char} {other : Char}
    (blanks_blank : ∀ c ∈ blanks, Text.isBlank c = true)
    (others_blank : ∀ c ∈ other :: others, Text.isBlank c = true) (nonempty : name ≠ [])
    (named : ∀ c ∈ name, Pattern.isNameChar c = true) :
    ofText ('*' :: (blanks ++ ("as".toList ++ other :: others ++ name))) =
      .all (some (String.ofList name)) := by
  have isWord := isWord_of_isNameChar nonempty named
  rw [List.forall_mem_cons] at others_blank
  have words_eq : Text.words (blanks ++ ("as".toList ++ other :: others ++ name)) =
      ["as".toList, name] := by
    rw [Text.words_blanks blanks_blank, List.append_assoc, List.cons_append,
      Text.words_append ExportSpecifier.isWord_as others_blank.1,
      Text.words_blanks others_blank.2, Text.words_word isWord]
  have star_isWord : IsWord ['*'] := by
    refine ⟨by decide, ?_⟩
    simp
    decide
  have trimmed : Trimmed ('*' :: (blanks ++ ("as".toList ++ other :: others ++ name))) := by
    simpa using star_isWord.trimmed_append isWord (blanks ++ ("as".toList ++ other :: others))
  rw [ofText, Text.trimBlanks_of_trimmed trimmed]
  simp only [words_eq]

theorem ofText_braced (flat : ∀ c ∈ inner, c ≠ '\x7b' ∧ c ≠ '\x7d') :
    ofText ('\x7b' :: (inner ++ ['\x7d'])) =
      .named ((entries inner).map ExportSpecifier.ofEntry) := by
  have brace_isWord {brace : Char} (kept : Text.isBlank brace = false) : IsWord [brace] :=
    ⟨by simp, by simpa using kept⟩
  have trimmed : Trimmed ('\x7b' :: (inner ++ ['\x7d'])) :=
    (brace_isWord (by decide)).trimmed_append (brace_isWord (by decide)) inner
  rw [ofText, Text.trimBlanks_of_trimmed trimmed, ← specifiers_braced flat]
  rfl

/-- What is read from the text of a clause. -/
theorem wellRead_ofText (isClause : Pattern.IsClause text) :
    (ofText text).WellRead := by
  cases isClause with
  | all =>
    rw [ofText_all]
    trivial
  | renamed blanks_blank others_blank nonempty named =>
    rw [ofText_renamed blanks_blank others_blank nonempty named, WellRead, String.toList_ofList]
    exact ⟨nonempty, named⟩
  | braced flat =>
    rw [ofText_braced flat]
    intro specifier mem
    rcases List.mem_map.1 mem with ⟨entry, entry_mem, rfl⟩
    rcases mem_entries entry_mem with ⟨nonempty, trimmed, inside⟩
    apply ExportSpecifier.wellRead_ofEntry nonempty trimmed
    intro c c_mem
    exact ⟨(inside c c_mem).2, flat c (inside c c_mem).1⟩

section Printed

variable {specifiers : List ExportSpecifier}

/-- What stands in the braces of printed specifiers. -/
def printedInner (specifiers : List ExportSpecifier) : List Char :=
  ' ' :: (", ".toList.intercalate (specifiers.map fun specifier => specifier.print.toList) ++ [' '])

theorem toList_print_named :
    (print (.named specifiers)).toList = '\x7b' :: (printedInner specifiers ++ ['\x7d']) := by
  simp [print, printedInner, Function.comp_def]

theorem flat_printedInner (wellRead : (named specifiers).WellRead) :
    ∀ c ∈ printedInner specifiers, c ≠ '\x7b' ∧ c ≠ '\x7d' := by
  intro c mem
  have space : ' ' ≠ '\x7b' ∧ ' ' ≠ '\x7d' := by decide
  rcases List.mem_cons.1 mem with rfl | mem
  · exact space
  rcases List.mem_append.1 mem with joined | last
  · rcases Text.mem_of_mem_intercalate joined with between | ⟨text, text_mem, c_mem⟩
    · have plain : ∀ d ∈ ", ".toList, d ≠ '\x7b' ∧ d ≠ '\x7d' := by simp
      exact plain c between
    · rcases List.mem_map.1 text_mem with ⟨specifier, specifier_mem, rfl⟩
      exact ((wellRead specifier specifier_mem).mem_print c_mem).2
  · rw [List.mem_singleton.1 last]
    exact space

theorem entries_printedInner (wellRead : (named specifiers).WellRead) :
    entries (printedInner specifiers) =
      specifiers.map fun specifier => specifier.print.toList := by
  apply entries_intercalate
  intro text mem
  rcases List.mem_map.1 mem with ⟨specifier, specifier_mem, rfl⟩
  have specifier_wellRead := wellRead specifier specifier_mem
  refine ⟨specifier_wellRead.print_ne_nil, specifier_wellRead.trimmed_print, ?_⟩
  intro comma
  exact (specifier_wellRead.mem_print comma).1 rfl

/-- What is read from a printed clause. -/
theorem ofText_print {clause : ExportClause} (wellRead : clause.WellRead) :
    ofText clause.print.toList = clause.reread := by
  cases clause with
  | all newName =>
    cases newName with
    | none => exact ofText_all
    | some name =>
      have text_eq : (print (all (some name))).toList =
          '*' :: ([' '] ++ ("as".toList ++ ' ' :: [] ++ name.toList)) := by
        simp [print]
      have blank : ∀ c ∈ [' '], Text.isBlank c = true := by
        simp
        decide
      rw [text_eq, ofText_renamed blank blank wellRead.1 wellRead.2, String.ofList_toList]
      rfl
  | named specifiers =>
    rw [toList_print_named, ofText_braced (flat_printedInner wellRead),
      entries_printedInner wellRead, List.map_map, reread, named.injEq]
    apply List.map_congr_left
    intro specifier mem
    exact ExportSpecifier.ofEntry_print (wellRead specifier mem)

/-- A printed clause is found where it stands. -/
theorem takes_print {clause : ExportClause} (wellRead : clause.WellRead) :
    ∃ opener others, clause.print.toList = opener :: others ∧
      Text.isBlank opener = false ∧ opener ≠ 't' ∧
        ∀ rest, Pattern.Takes Pattern.exportClause (opener :: others) (' ' :: 'f' :: rest) [] := by
  cases clause with
  | all newName =>
    cases newName with
    | none => exact ⟨'*', [], rfl, by decide, by decide, Pattern.takes_all⟩
    | some name =>
      refine ⟨'*', [' '] ++ ("as".toList ++ [' '] ++ name.toList), ?_, by decide, by decide, ?_⟩
      · simp [print]
      · intro rest
        exact Pattern.takes_renamed wellRead.1 wellRead.2 _
  | named specifiers =>
    refine ⟨'\x7b', printedInner specifiers ++ ['\x7d'], toList_print_named, by decide,
      by decide, ?_⟩
    intro rest
    exact Pattern.takes_braced (flat_printedInner wellRead) _

end Printed

end ExportClause

/-! ## Statements -/

namespace ReExport

/-- The clause is well read, and the specifier can be quoted. -/
structure WellRead (statement : ReExport) : Prop where
  clause : statement.clause.WellRead
  nonempty : statement.specifier.toList ≠ []
  unquoted : ∀ c ∈ statement.specifier.toList, Pattern.isQuote c = false

theorem WellRead.without {statement kept : ReExport} (wellRead : statement.WellRead)
    {exported : NameSet} (rewritten : statement.without exported = some kept) : kept.WellRead := by
  rw [ReExport.without] at rewritten
  split at rewritten
  · cases rewritten
    exact wellRead
  · rename_i specifiers clause_eq
    dsimp only at rewritten
    split at rewritten
    · cases rewritten
    · cases rewritten
      refine ⟨?_, wellRead.nonempty, wellRead.unquoted⟩
      intro specifier mem
      have all := wellRead.clause
      rw [clause_eq] at all
      exact all specifier (List.mem_of_mem_filter mem)

/-- A re-export that is printed is found again, as one statement. -/
theorem WellRead.scan_print {statement : ReExport} (wellRead : statement.WellRead) :
    Pattern.scan Pattern.reExport true 0 0 statement.print.toList =
      [.statement ⟨0, statement.print.toList,
        (if statement.typeOnly then [(1, Pattern.mark true)] else []) ++
          [(2, statement.clause.print.toList), (3, statement.specifier.toList)]⟩] := by
  rcases ExportClause.takes_print wellRead.clause with
    ⟨opener, others, print_eq, opens, plain, taken⟩
  have text_eq : statement.print.toList =
      "export ".toList ++ (Pattern.mark statement.typeOnly ++ (opener :: others ++
        (" from \"".toList ++ (statement.specifier.toList ++ "\";".toList)))) := by
    rw [← print_eq, print, Pattern.mark]
    cases statement.typeOnly <;> simp
  have statement_taken := Pattern.takes_reExport statement.typeOnly taken ⟨opens, plain⟩
    wellRead.nonempty wellRead.unquoted
  rw [← text_eq, ← print_eq] at statement_taken
  have nonempty : statement.print.toList ≠ [] := by
    rw [text_eq]
    simp
  have scanned := statement_taken.scan_eq nonempty 0
  rwa [List.append_nil] at scanned

end ReExport

namespace Statement

/-- What is read from a text. -/
theorem wellRead_of_mem {text : String} {statement : ReExport} (mem : statement ∈ reExports text) :
    statement.WellRead := by
  rcases List.mem_map.1 mem with ⟨found, found_mem, rfl⟩
  rw [Pattern.findAll_eq, Pattern.segments_eq_scan] at found_mem
  have matched := Pattern.matches_of_mem (by decide) found_mem
  rcases Pattern.matches_reExport matched with
    ⟨marks, clause, specifier, captures_eq, marked, isClause, nonempty, unquoted⟩
  have unmarked (slot : Nat) (other : 1 ≠ slot) : marks.lookup slot = none :=
    Pattern.lookup_eq_none_of_fst fun mark mark_mem => (marked mark mark_mem).symm ▸ other
  have clause_eq : found.captured? 2 = some clause := by
    rw [Pattern.Found.captured?, captures_eq, List.lookup_append, unmarked 2 (by decide)]
    rfl
  have specifier_eq : found.captured? 3 = some specifier := by
    rw [Pattern.Found.captured?, captures_eq, List.lookup_append, unmarked 3 (by decide)]
    rfl
  constructor
  · rw [ReExport.ofFound, clause_eq]
    exact ExportClause.wellRead_ofText isClause
  · simpa [ReExport.ofFound, specifier_eq] using nonempty
  · simpa [ReExport.ofFound, specifier_eq] using unquoted

/-- A re-export that was read, and what is left of it without some names, is printed as one
statement that says the same, but for names `type` that are renamed. -/
theorem reExports_print_of_mem {text : String} {statement kept : ReExport}
    (mem : statement ∈ reExports text) {exported : NameSet}
    (rewritten : kept = statement ∨ statement.without exported = some kept) :
    ∃ found, reExports kept.print = [found] ∧ found.typeOnly = kept.typeOnly ∧
      found.specifier = kept.specifier ∧ found.clause = kept.clause.reread ∧
      (found.clause = kept.clause ↔ ¬kept.clause.RenamesType) := by
  have wellRead : kept.WellRead := by
    rcases rewritten with rfl | without
    · exact wellRead_of_mem mem
    · exact (wellRead_of_mem mem).without without
  have clause_eq := ExportClause.ofText_print wellRead.clause
  rw [reExports, Pattern.findAll_eq, Pattern.segments_eq_scan, wellRead.scan_print]
  refine ⟨_, rfl, ?_⟩
  rw [← ExportClause.reread_eq_iff, ← clause_eq]
  cases typeOnly_eq : kept.typeOnly with
  | false | true => exact ⟨rfl, String.ofList_toList, rfl, Iff.rfl⟩

/-- A type-only re-export over three lines. -/
def shapesText : String :=
  "import 'a';\nexport type \x7b Square, type Ring\n as\tCircle,\n\x7d from './shapes'\n"

theorem reExports_print_of_mem_shapes :
    ∃ statement ∈ reExports shapesText, ∃ kept,
      statement.without (.ofList ["Square"]) = some kept ∧
      kept.print = "export type \x7b type Ring as Circle \x7d from \"./shapes\";" ∧
      ∃ found, reExports kept.print = [found] ∧ found.typeOnly = kept.typeOnly ∧
        found.specifier = kept.specifier ∧ found.clause = kept.clause := by
  let kept : ReExport :=
    ⟨true, .named [⟨"Ring", some "Circle", true⟩], "./shapes", 12, 74⟩
  have mem : ⟨true, .named [⟨"Square", none, false⟩, ⟨"Ring", some "Circle", true⟩], "./shapes",
      12, 74⟩ ∈ reExports shapesText := by
    decide +kernel
  have without : ReExport.without ⟨true, .named [⟨"Square", none, false⟩,
      ⟨"Ring", some "Circle", true⟩], "./shapes", 12, 74⟩ (.ofList ["Square"]) = some kept := by
    decide +kernel
  refine ⟨_, mem, kept, without, by decide +kernel, ?_⟩
  rcases reExports_print_of_mem mem (.inr without) with
    ⟨found, found_eq, typeOnly_eq, specifier_eq, clause_eq, -⟩
  exact ⟨found, found_eq, typeOnly_eq, specifier_eq, clause_eq⟩

/-- A name `type` that is told from a mark by a tab is a mark in the printed form. -/
theorem renamed_type_reads_as_mark :
    let text := "export \x7b type\tas Kind \x7d from './x';"
    let printed := "export \x7b type as Kind \x7d from \"./x\";"
    (reExports text).map ReExport.clause = [.named [⟨"type", some "Kind", false⟩]] ∧
      (reExports text).map ReExport.print = [printed] ∧
      (reExports printed).map ReExport.clause = [.named [⟨"as", none, true⟩]] := by
  decide +kernel

end Statement

end Componentry
