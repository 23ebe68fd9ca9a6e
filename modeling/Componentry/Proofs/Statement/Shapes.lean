import Mathlib.Data.List.Basic
import Componentry.Proofs.Statement.Matches
import Componentry.Statement

/-!
# Shapes of statements

What a re-export and an exported declaration look like wherever a scan finds
them, and what their patterns take from a text that is written in the plainest
way: one space between words, double quotes and a semicolon.
-/

namespace Componentry

namespace Pattern

variable {text rest name : List Char} {captures : List (Nat × List Char)}

/-! ## Names and blanks -/

/-- The places of the blank characters in Unicode. -/
def blankCodes : List Nat :=
  [9, 10, 11, 12, 13, 0x20, 0x85, 0xA0, 0x1680, 0x2000, 0x2001, 0x2002, 0x2003, 0x2004, 0x2005,
    0x2006, 0x2007, 0x2008, 0x2009, 0x200A, 0x2028, 0x2029, 0x202F, 0x205F, 0x3000]

theorem mem_blankCodes_of_isBlank {c : Char} (blank : Text.isBlank c = true) :
    c.toNat ∈ blankCodes := by
  simp only [Text.isBlank, Bool.or_eq_true, Bool.and_eq_true, decide_eq_true_eq, beq_iff_eq]
    at blank
  simp only [blankCodes, List.mem_cons, List.not_mem_nil, or_false]
  omega

theorem isBlank_of_isNameChar {c : Char} (named : isNameChar c = true) :
    Text.isBlank c = false := by
  have unnamed : blankCodes.all (fun code => !isNameChar (Char.ofNat code)) = true := by
    decide +kernel
  by_contra blank
  rw [Bool.not_eq_false] at blank
  have refused := List.all_eq_true.1 unnamed _ (mem_blankCodes_of_isBlank blank)
  rw [Char.ofNat_toNat, named] at refused
  cases refused

theorem isBlank_of_head_name (nonempty : name ≠ []) (named : ∀ c ∈ name, isNameChar c = true)
    (rest : List Char) :
    ∀ c ∈ (name ++ rest).head?, Text.isBlank c = false := by
  rw [List.head?_append_of_ne_nil _ nonempty]
  intro c here
  exact isBlank_of_isNameChar (named c (List.mem_of_mem_head? here))

/-! ## Keywords -/

theorem first?_seq_eq_none {first second : Pattern} {chars : List Char}
    (absent : first? first chars = none) : first? (.seq first second) chars = none := by
  rw [first?, List.head?_eq_none_iff] at absent ⊢
  rw [ways, absent, List.flatMap_nil]

theorem first?_keywordThen_eq_none {word : String} {chars : List Char}
    (other : chars.head? ≠ word.toList.head?) (nonempty : word.toList ≠ []) :
    first? (keywordThen word) chars = none := by
  apply first?_seq_eq_none
  have not_start : ¬word.toList <+: chars := by
    rintro ⟨rest, rfl⟩
    apply other
    rw [List.head?_append_of_ne_nil _ nonempty]
  rw [first?, keyword, ways, if_neg, List.head?_nil]
  rwa [dropWord?_isSome_iff]

theorem takes_space {least : Nat} (enough : least ≤ 1)
    (stops : ∀ c ∈ rest.head?, Text.isBlank c = false) :
    Takes (.run least Text.isBlank) [' '] rest [] := by
  apply takes_run enough _ stops
  intro c mem
  rw [List.mem_singleton] at mem
  subst mem
  decide

theorem takes_keywordThen (word : String) (stops : ∀ c ∈ rest.head?, Text.isBlank c = false) :
    Takes (keywordThen word) (word.toList ++ [' ']) rest [] :=
  (takes_word word.toList _).seq (takes_space (Nat.le_refl 1) stops) (by simp [slots])

theorem matches_keywordThen {word : String} (matched : Matches (keywordThen word) text captures) :
    ∃ blank blanks, text = word.toList ++ blank :: blanks ∧ Text.isBlank blank = true ∧
      (∀ c ∈ blanks, Text.isBlank c = true) ∧ captures = [] := by
  rcases matches_seq matched with ⟨left, right, before, after, rfl, rfl, start, run⟩
  rcases matches_word start with ⟨rfl, rfl⟩
  rcases matches_run run with ⟨enough, blank, rfl⟩
  rcases right with _ | ⟨first, blanks⟩
  · simp at enough
  · rw [List.forall_mem_cons] at blank
    exact ⟨first, blanks, rfl, blank.1, blank.2, rfl⟩

theorem takes_margin_nil (stops : ∀ c ∈ rest.head?, c ≠ ' ' ∧ c ≠ '\t') :
    Takes margin [] rest [] := by
  apply takes_run (Nat.le_refl 0)
  · simp
  · intro c here
    have other := stops c here
    simp [other.1, other.2]

/-! ## Re-exports -/

/-- The text of what a re-export lists. -/
inductive IsClause : List Char → Prop
  | all : IsClause ['*']
  | renamed {blank other : Char} {blanks others name : List Char}
      (blanks_blank : ∀ c ∈ blank :: blanks, Text.isBlank c = true)
      (others_blank : ∀ c ∈ other :: others, Text.isBlank c = true) (nonempty : name ≠ [])
      (named : ∀ c ∈ name, isNameChar c = true) :
      IsClause ('*' :: (blank :: blanks ++ ("as".toList ++ other :: others ++ name)))
  | braced {inner : List Char} (flat : ∀ c ∈ inner, c ≠ '\x7b' ∧ c ≠ '\x7d') :
      IsClause ('\x7b' :: (inner ++ ['\x7d']))

theorem matches_someBlanks (matched : Matches someBlanks text captures) :
    ∃ blank blanks, text = blank :: blanks ∧ (∀ c ∈ text, Text.isBlank c = true) ∧
      captures = [] := by
  rcases matches_run matched with ⟨enough, blank, rfl⟩
  rcases text with _ | ⟨first, blanks⟩
  · simp at enough
  · exact ⟨first, blanks, rfl, blank, rfl⟩

theorem matches_braced (matched : Matches braced text captures) : IsClause text := by
  rcases matches_seq matched with ⟨_, _, _, _, rfl, -, opening, inner_closing⟩
  rcases matches_word opening with ⟨rfl, -⟩
  rcases matches_seq inner_closing with ⟨inner, _, _, _, rfl, -, run, closing⟩
  rcases matches_word closing with ⟨rfl, -⟩
  apply IsClause.braced
  intro c mem
  have flat := (matches_run run).2.1 c mem
  simpa using flat

theorem matches_exportClause (matched : Matches exportClause text captures) : IsClause text := by
  rcases matches_orElse matched with starred | braces
  · rcases matches_seq starred with ⟨_, _, _, _, rfl, -, star, more⟩
    rcases matches_word star with ⟨rfl, -⟩
    rcases matches_orElse more with named | nothing
    · rcases matches_seq named with ⟨_, _, _, _, rfl, -, run, as_name⟩
      rcases matches_someBlanks run with ⟨blank, blanks, rfl, blanks_blank, -⟩
      rcases matches_seq as_name with ⟨_, name, _, _, rfl, -, before, name_run⟩
      rcases matches_keywordThen before with ⟨other, others, rfl, other_blank, others_blank, -⟩
      rcases matches_run name_run with ⟨enough, named, -⟩
      apply IsClause.renamed blanks_blank _ (List.length_pos_iff.1 enough) named
      exact List.forall_mem_cons.2 ⟨other_blank, others_blank⟩
    · rcases matches_word nothing with ⟨rfl, -⟩
      exact IsClause.all
  · exact matches_braced braces

theorem matches_specifier {slot : Nat} (matched : Matches (specifier slot) text captures) :
    ∃ inner, captures = [(slot, inner)] ∧ inner ≠ [] ∧ ∀ c ∈ inner, isQuote c = false := by
  rcases matches_seq matched with ⟨_, _, _, _, -, rfl, opening, inner_closing⟩
  rcases matches_seq inner_closing with ⟨inner, _, _, _, -, rfl, kept, closing⟩
  rcases matches_capture kept with ⟨_, rfl, run⟩
  rcases matches_run run with ⟨enough, unquoted, rfl⟩
  rw [opening.captures_eq_nil rfl, closing.captures_eq_nil rfl]
  refine ⟨inner, rfl, List.length_pos_iff.1 enough, ?_⟩
  intro c mem
  simpa using unquoted c mem

/-- A re-export keeps its mark, its clause and its specifier. -/
theorem matches_reExport (matched : Matches reExport text captures) :
    ∃ marks clause specifier, captures = marks ++ [(2, clause), (3, specifier)] ∧
      (∀ mark ∈ marks, mark.1 = 1) ∧ IsClause clause ∧ specifier ≠ [] ∧
      ∀ c ∈ specifier, isQuote c = false := by
  rcases matches_seq matched with ⟨_, _, _, _, -, rfl, indent, after_margin⟩
  rcases matches_seq after_margin with ⟨_, _, _, _, -, rfl, start, after_start⟩
  rcases matches_seq after_start with ⟨_, _, marks, _, -, rfl, mark, after_mark⟩
  rcases matches_seq after_mark with ⟨clause, _, _, _, -, rfl, kept, after_clause⟩
  rcases matches_seq after_clause with ⟨_, _, _, _, -, rfl, space, after_space⟩
  rcases matches_seq after_space with ⟨_, _, _, _, -, rfl, source, after_source⟩
  rcases matches_seq after_source with ⟨_, _, _, _, -, rfl, quoted, ending⟩
  rcases matches_capture kept with ⟨_, rfl, clause_matched⟩
  rcases matches_specifier quoted with ⟨specifier, rfl, nonempty, unquoted⟩
  rw [indent.captures_eq_nil rfl, start.captures_eq_nil rfl, clause_matched.captures_eq_nil rfl,
    space.captures_eq_nil rfl, source.captures_eq_nil rfl, ending.captures_eq_nil rfl]
  refine ⟨marks, clause, specifier, rfl, ?_, matches_exportClause clause_matched, nonempty,
    unquoted⟩
  intro capture mem
  simpa [slots, optional, keywordThen, keyword, someBlanks] using mark.mem_slots capture mem

theorem takes_ending : Takes ending [';'] [] [] := by
  have no_line_end : first? (.seq (optional (.word ['\r'])) (.word ['\n'])) [] = none := rfl
  have margin_before : Takes margin [] [';'] [] := takes_margin_nil (by simp)
  have margin_after : Takes margin [] [] [] := takes_margin_nil (by simp)
  have semicolon : Takes (optional (.word [';'])) [';'] [] [] := (takes_word [';'] []).first
  have after := margin_after.seq (takes_optional_nil no_line_end) (by decide)
  exact margin_before.seq (semicolon.seq after (by decide)) (by decide)

theorem takes_specifier (slot : Nat) {inner : List Char} (nonempty : inner ≠ [])
    (unquoted : ∀ c ∈ inner, isQuote c = false) :
    Takes (specifier slot) ('"' :: (inner ++ ['"'])) rest [(slot, inner)] := by
  have run : Takes (.run 1 fun c => !isQuote c) inner ('"' :: rest) [] := by
    apply takes_run (List.length_pos_iff.2 nonempty)
    · intro c mem
      rw [unquoted c mem]
      rfl
    · intro c here
      obtain rfl : '"' = c := Option.some.inj here
      rfl
  have quote_taken (rest : List Char) : Takes quote ['"'] rest [] := (takes_word ['"'] rest).first
  have kept := run.capture slot (by simp [slots])
  have inner_closing := kept.seq (quote_taken rest) (by simp [slots, quote])
  exact (quote_taken _).seq inner_closing (by simp [slots, quote])

/-- The mark of a re-export of types, with the space behind it. -/
def mark (typeOnly : Bool) : List Char :=
  if typeOnly then "type".toList ++ [' '] else []

theorem takes_mark (typeOnly : Bool) (opens : ∀ c ∈ rest.head?, Text.isBlank c = false ∧ c ≠ 't') :
    Takes (optional (.capture 1 (keywordThen "type"))) (mark typeOnly) rest
      (if typeOnly then [(1, mark true)] else []) := by
  cases typeOnly with
  | true =>
    have keyword_taken := takes_keywordThen "type" fun c here => (opens c here).1
    exact (keyword_taken.capture 1 (by decide)).first
  | false =>
    apply takes_optional_nil
    have unmarked : first? (keywordThen "type") rest = none := by
      apply first?_keywordThen_eq_none
      · intro same
        exact (opens 't' same).2 rfl
      · decide
    rw [first?, List.head?_eq_none_iff] at unmarked ⊢
    rw [ways, unmarked, List.map_nil]

/-- A re-export that is written with one space between its parts. -/
theorem takes_reExport (typeOnly : Bool) {opener : Char} {clause specifier : List Char}
    (clause_taken : ∀ rest, Takes exportClause (opener :: clause) (' ' :: 'f' :: rest) [])
    (opens : Text.isBlank opener = false ∧ opener ≠ 't')
    (nonempty : specifier ≠ []) (unquoted : ∀ c ∈ specifier, isQuote c = false) :
    Takes reExport
      ("export ".toList ++ (mark typeOnly ++ (opener :: clause ++ (" from \"".toList ++
        (specifier ++ "\";".toList))))) []
      ((if typeOnly then [(1, mark true)] else []) ++
        [(2, opener :: clause), (3, specifier)]) := by
  have after_export (rest : List Char) :
      ∀ c ∈ (mark typeOnly ++ (opener :: clause ++ rest) ++ []).head?, Text.isBlank c = false := by
    intro c here
    cases typeOnly with
    | true =>
      obtain rfl : 't' = c := Option.some.inj here
      decide
    | false =>
      obtain rfl : opener = c := Option.some.inj here
      exact opens.1
  have after_mark (rest : List Char) :
      ∀ c ∈ (opener :: rest).head?, Text.isBlank c = false ∧ c ≠ 't' := by
    intro c here
    obtain rfl : opener = c := Option.some.inj here
    exact opens
  have text_eq : "export ".toList ++ (mark typeOnly ++ (opener :: clause ++ (" from \"".toList ++
      (specifier ++ "\";".toList)))) =
      [] ++ (("export".toList ++ [' ']) ++ (mark typeOnly ++ (opener :: clause ++ ([' '] ++
        (("from".toList ++ [' ']) ++ ('"' :: (specifier ++ ['"']) ++ [';'])))))) := by
    simp
  have quoted := (takes_specifier 3 nonempty unquoted).seq takes_ending (by decide)
  have source := (takes_keywordThen "from" (by simp; decide)).seq quoted (by decide)
  have spaced := (takes_space (Nat.zero_le 1) (by simp; decide)).seq source (by simp [slots])
  have kept := ((clause_taken _).capture 2 (by decide)).seq spaced (by decide)
  have marked := (takes_mark typeOnly (after_mark _)).seq kept (by decide)
  have exported := (takes_keywordThen "export" (after_export _)).seq marked (by decide)
  rw [text_eq]
  exact (takes_margin_nil (by simp)).seq exported (by decide)

/-! ## Clauses -/

theorem takes_all (rest : List Char) : Takes exportClause ['*'] (' ' :: 'f' :: rest) [] := by
  have unnamed : first? (sequence [someBlanks, keywordThen "as", name]) (' ' :: 'f' :: rest) =
      none := by
    apply first?_eq_none_of_matches (by decide)
    intro text captures matched starts
    rcases matches_seq matched with ⟨_, _, _, _, rfl, -, run, as_name⟩
    rcases matches_someBlanks run with ⟨blank, blanks, rfl, blanks_blank, -⟩
    rcases matches_seq as_name with ⟨_, _, _, _, rfl, -, before, -⟩
    rcases matches_keywordThen before with ⟨_, _, rfl, -⟩
    rcases List.cons_prefix_cons.1 starts with ⟨-, starts⟩
    rcases blanks with _ | ⟨other, blanks⟩
    · simp at starts
    · have other_blank := blanks_blank other (by simp)
      rw [(List.cons_prefix_cons.1 starts).1] at other_blank
      revert other_blank
      decide
  exact ((takes_word ['*'] _).seq (takes_optional_nil unnamed) (by decide)).first

theorem takes_renamed (nonempty : name ≠ []) (named : ∀ c ∈ name, isNameChar c = true)
    (rest : List Char) :
    Takes exportClause ('*' :: ([' '] ++ ("as".toList ++ [' '] ++ name))) (' ' :: rest) [] := by
  have unspaced := isBlank_of_head_name nonempty named (' ' :: rest)
  have name_taken : Takes (.run 1 isNameChar) name (' ' :: rest) [] := by
    apply takes_run (List.length_pos_iff.2 nonempty) named
    intro c here
    obtain rfl : ' ' = c := Option.some.inj here
    decide
  have as_name := (takes_keywordThen "as" unspaced).seq name_taken (by decide)
  have spaced := (takes_space (Nat.le_refl 1) (by simp; decide)).seq as_name (by decide)
  exact ((takes_word ['*'] _).seq spaced.first (by decide)).first

theorem takes_braced {inner : List Char} (flat : ∀ c ∈ inner, c ≠ '\x7b' ∧ c ≠ '\x7d')
    (rest : List Char) : Takes exportClause ('\x7b' :: (inner ++ ['\x7d'])) rest [] := by
  have inner_taken : Takes (.run 0 fun c => !(c == '\x7b' || c == '\x7d')) inner
      ('\x7d' :: rest) [] := by
    apply takes_run (Nat.zero_le _)
    · intro c mem
      simp [flat c mem]
    · intro c here
      obtain rfl : '\x7d' = c := Option.some.inj here
      rfl
  have closed := inner_taken.seq (takes_word ['\x7d'] rest) (by decide)
  exact ((takes_word ['\x7b'] _).seq closed (by decide)).second (first?_seq_eq_none rfl)

/-! ## Exported declarations -/

/-- An exported declaration starts with its keyword. -/
theorem matches_exportedDeclaration (matched : Matches exportedDeclaration text captures) :
    ∃ indent blank rest, text = indent ++ ("export".toList ++ blank :: rest) ∧
      (∀ c ∈ indent, c = ' ' ∨ c = '\t') ∧ Text.isBlank blank = true := by
  rcases matches_seq matched with ⟨indent, _, _, _, rfl, -, run, declaration⟩
  rcases matches_seq declaration with ⟨_, others, _, _, rfl, -, start, -⟩
  rcases matches_keywordThen start with ⟨blank, blanks, rfl, is_blank, -⟩
  refine ⟨indent, blank, blanks ++ others, ?_, ?_, is_blank⟩
  · simp
  · intro c mem
    have flush := (matches_run run).2.1 c mem
    simpa using flush

/-- An exported interface or type that is written with one space between its words. -/
theorem takes_exportedDeclaration {kind : String} (known : kind = "interface" ∨ kind = "type")
    (nonempty : name ≠ []) (named : ∀ c ∈ name, isNameChar c = true)
    (stops : ∀ c ∈ rest.head?, isNameChar c = false) :
    Takes exportedDeclaration ("export ".toList ++ (kind.toList ++ (' ' :: name))) rest
      [(1, name)] := by
  have unspaced := isBlank_of_head_name nonempty named rest
  have opens (more : List Char) : Takes (anyOf ["interface", "type", "class", "const", "let",
        "var", "function", "enum", "namespace"]) kind.toList more [] ∧
      ((kind.toList ++ more).head? = some 'i' ∨ (kind.toList ++ more).head? = some 't') := by
    rcases known with rfl | rfl
    · exact ⟨(takes_word _ _).first, Or.inl rfl⟩
    · exact ⟨Takes.second rfl (takes_word _ _).first, Or.inr rfl⟩
  have head : (kind.toList ++ ([' '] ++ name) ++ rest).head? = some 'i' ∨
      (kind.toList ++ ([' '] ++ name) ++ rest).head? = some 't' := by
    rw [List.append_assoc]
    exact (opens _).2
  have after_export : ∀ c ∈ (kind.toList ++ ([' '] ++ name) ++ rest).head?,
      Text.isBlank c = false := by
    intro c here
    rcases head with start | start <;>
      · rw [start] at here
        cases here
        decide
  have unmarked (word : String) (word_ne : word.toList ≠ [])
      (other : word.toList.head? ≠ some 'i' ∧ word.toList.head? ≠ some 't') :
      first? (keywordThen word) (kind.toList ++ ([' '] ++ name) ++ rest) = none := by
    apply first?_keywordThen_eq_none _ word_ne
    rcases head with start | start <;> rw [start]
    · exact Ne.symm other.1
    · exact Ne.symm other.2
  have text_eq : "export ".toList ++ (kind.toList ++ (' ' :: name)) =
      [] ++ (("export".toList ++ [' ']) ++ ([] ++ ([] ++ (kind.toList ++ ([' '] ++ name))))) := by
    simp
  have name_taken := (takes_run (List.length_pos_iff.2 nonempty) named stops).capture 1
    (by simp [slots])
  have spaced := (takes_space (Nat.le_refl 1) unspaced).seq name_taken (by simp [slots])
  have kind_name := (opens _).1.seq spaced (by decide)
  have concrete := (takes_optional_nil (unmarked "abstract" (by decide) (by decide))).seq kind_name
    (by decide)
  have undeclared := (takes_optional_nil (unmarked "declare" (by decide) (by decide))).seq concrete
    (by decide)
  have exported := (takes_keywordThen "export" after_export).seq undeclared (by decide)
  rw [text_eq]
  exact (takes_margin_nil (by simp)).seq exported (by decide)

end Pattern

end Componentry
