import Componentry.Proofs.TypeExpr.Reader

/-!
# Reading the text of a type

The text of a plain type determines its normal form. The proof is a reader: what
`readType` reads from the text of a plain type is the normal form of the type,
whatever follows (`readType_print`). Two plain types with the same text therefore
have the same normal form.

The reader is followed through the text of a type from the inside out: what is
read at each kind of operand (`Operand`), then how operands start, so that no
group is taken for a function type, and last chains of operands and functions.
-/

namespace Componentry

open Pattern (dropWord?)

namespace TypeExpr

/-! ## Kinds of operands -/

variable {type : TypeExpr}

theorem printOperand_of_needsParens (parens : type.needsParens = true) :
    type.printOperand = "(" ++ type.print ++ ")" := by
  rw [printOperand, grouped, if_pos parens]

theorem printOperand_of_not_needsParens (bare : type.needsParens = false) :
    type.printOperand = type.print := by
  rw [printOperand, grouped, bare, if_neg (by simp)]

/-- The kinds of operands, each with its text and its normal form. -/
inductive Operand : TypeExpr → Prop
  | word {type : TypeExpr} {word : String} : isIdentifier word = true →
      type.printOperand = word → ofWord word = type.normalize false → Operand type
  | quoted {value : String} : '"' ∉ value.toList → Operand (.literal (.string value))
  | applied {type : TypeExpr} {name : String} {args : List TypeExpr} :
      isTypeName name = true → areAllPlain args = true → sizeAll args < type.size →
      type.printOperand = applied name (printAll args) →
      type.normalize false = .reference name (normalizeAll false args) → Operand type
  | object {typeArgs : List TypeExpr} {members : List Member} : areMembersPlain members = true →
      Operand (.struct none typeArgs members)
  | array {element : TypeExpr} : Operand element → Operand (.array element)
  /-- A union or intersection of one member is that member. -/
  | single {type member : TypeExpr} : Operand member → member.size < type.size →
      type.printOperand = member.printOperand → type.normalize false = member.normalize false →
      Operand type
  | group {type : TypeExpr} : type.isPlain = true → type.needsParens = true → Operand type

theorem operand_of_applied {name : String} {args : List TypeExpr}
    (plain : (isTypeName name && areAllPlain args) = true) (smaller : sizeAll args < type.size)
    (text_eq : type.printOperand = applied name (printAll args))
    (normal_eq : type.normalize false = .reference name (normalizeAll false args)) :
    Operand type := by
  rw [Bool.and_eq_true] at plain
  exact .applied plain.1 plain.2 smaller text_eq normal_eq

theorem operand_of_isPlain (type : TypeExpr) (plain : type.isPlain = true) : Operand type := by
  match type with
  | .primitive keyword =>
    have identifier : isIdentifier keyword.keyword = true := by
      cases keyword <;> decide
    have word_eq : ofWord keyword.keyword = .primitive keyword := by
      rw [ofWord, Primitive.ofKeyword?_keyword]
    exact .word identifier rfl word_eq
  | .any => exact .word (by decide) rfl rfl
  | .unknown => exact .word (by decide) rfl rfl
  | .null => exact .word (by decide) rfl rfl
  | .literal (.boolean true) => exact .word (by decide) rfl rfl
  | .literal (.boolean false) => exact .word (by decide) rfl rfl
  | .literal (.number value) => simp [isPlain] at plain
  | .literal (.string value) =>
    apply Operand.quoted
    simpa [isPlain] using plain
  | .array element => exact .array (operand_of_isPlain element plain)
  | .struct (some name) typeArgs members =>
    exact operand_of_applied plain (by rw [size]; omega) rfl rfl
  | .struct none typeArgs members => exact .object plain
  | .reference name args => exact operand_of_applied plain (by simp [size]) rfl rfl
  | .mapped wrapper args => exact operand_of_applied plain (by simp [size]) rfl rfl
  | .generic name constraint =>
    exact .word (isIdentifier_of_isTypeName plain) rfl (ofWord_of_isTypeName plain)
  | .union [] => simp [isPlain] at plain
  | .union [member] =>
    have member_plain : member.isPlain = true := by
      simpa [isPlain, areAllPlain] using plain
    exact .single (operand_of_isPlain member member_plain) (by simp [size, sizeAll]) rfl rfl
  | .union (first :: second :: others) => exact .group plain rfl
  | .intersection [] => simp [isPlain] at plain
  | .intersection [member] =>
    have member_plain : member.isPlain = true := by
      simpa [isPlain, areAllPlain] using plain
    exact .single (operand_of_isPlain member member_plain) (by simp [size, sizeAll]) rfl rfl
  | .intersection (first :: second :: others) => exact .group plain rfl
  | .function params returns => exact .group plain rfl
  | .conditional text resolved => simp [isPlain] at plain
termination_by type.size
decreasing_by
  all_goals simp [size, sizeAll]

/-! ## Operands -/

/-- The reader reads every plain type of a size that the budget allows. -/
def ReadsWithin (inner : Reader TypeExpr) (budget : Nat) : Prop :=
  ∀ type : TypeExpr, type.isPlain = true → 2 * type.size ≤ budget → ∀ rest, Closes rest →
    inner (type.print.toList ++ rest) = some (type.normalize false, rest)

theorem ReadsWithin.of_sizeAll {inner : Reader TypeExpr} {budget : Nat}
    (reads : ReadsWithin inner budget) {types : List TypeExpr} (small : 2 * sizeAll types ≤ budget)
    (mem : type ∈ types) (plain : type.isPlain = true) (rest : List Char) (closes : Closes rest) :
    inner (type.print.toList ++ rest) = some (type.normalize false, rest) := by
  have := size_le_sizeAll mem
  exact reads type plain (by omega) rest closes

section Parts

variable {rest text : List Char} {name : String} {type : TypeExpr} {inner : Reader TypeExpr}
  {bound : Nat}

theorem readBase_name (identifier : isIdentifier name = true) (rest : List Char) :
    readBase inner bound (name.toList ++ rest) = readNamed inner bound (name.toList ++ rest) := by
  rcases exists_cons_of_isIdentifier identifier with ⟨c, tail, name_eq, part⟩
  have other {d : Char} (separate : isNamePart d = false) : c ≠ d := by
    rintro rfl
    simp [part] at separate
  rw [name_eq, List.cons_append, readBase, if_neg (other (by decide)), if_neg (other (by decide)),
    if_neg (other (by decide))]

/-- A word without arguments. -/
theorem readBase_word {word : String} (identifier : isIdentifier word = true)
    (ends : EndsBase rest) :
    readBase inner bound (word.toList ++ rest) = some (ofWord word, rest) := by
  rw [readBase_name identifier, readNamed, (takeName_append identifier ends.not_isNamePart).1,
    (takeName_append identifier ends.not_isNamePart).2, ends.dropWord? (by decide)]

theorem toList_intercalate_map {α : Type} (separator : String) (text : α → String)
    (items : List α) :
    (separator.intercalate (items.map text)).toList =
      separator.toList.intercalate (items.map fun item => (text item).toList) := by
  simp [Function.comp_def]

theorem readBase_applied (reads : ReadsWithin inner bound) (typeName : isTypeName name = true)
    {args : List TypeExpr} (plain : areAllPlain args = true) (small : 2 * sizeAll args ≤ bound)
    (ends : EndsBase rest) :
    readBase inner bound ((applied name (printAll args)).toList ++ rest) =
      some (.reference name (normalizeAll false args), rest) := by
  have identifier := isIdentifier_of_isTypeName typeName
  rw [printAll_eq_map, normalizeAll_eq_map, applied]
  rw [areAllPlain_eq_all, List.all_eq_true] at plain
  by_cases empty : args = []
  · subst empty
    rw [List.map_nil, List.isEmpty_nil, if_pos rfl, readBase_word identifier ends,
      ofWord_of_isTypeName typeName]
    rfl
  · have length_le := length_le_sizeAll args
    have args_read : readSeparated inner ", ".toList bound
        ((", ".intercalate (args.map print)).toList ++ '>' :: rest) =
          some (args.map (normalize false), '>' :: rest) := by
      rw [toList_intercalate_map]
      apply readSeparated_intercalate _ _ _ Closes empty (by omega)
      · exact fun type mem => reads.of_sizeAll small mem (plain type mem)
      · simp [Closes]
      · simp [Closes]
      · rfl
    have separate : isNamePart '<' = false := by decide
    rw [if_neg (by simpa using empty)]
    simp only [String.toList_append, List.append_assoc]
    change readBase inner bound (name.toList ++ '<' :: (_ ++ '>' :: rest)) = _
    rw [readBase_name identifier, readNamed, (takeName_append identifier (stops_cons separate _)).1,
      (takeName_append identifier (stops_cons separate _)).2]
    simp only [Pattern.dropWord?, if_true]
    rw [args_read]
    rfl

variable {value : TypeExpr}

theorem readField_text (identifier : isIdentifier name = true) (optional : Bool)
    (reads : inner (type.print.toList ++ rest) = some (value, rest)) :
    readField inner
        ((name ++ (if optional then "?" else "") ++ ": " ++ type.print).toList ++ rest) =
      some ((name, optional, value), rest) := by
  have colon : isNamePart ':' = false := by decide
  have mark : isNamePart '?' = false := by decide
  simp only [String.toList_append, List.append_assoc]
  cases optional with
  | false =>
    change readField inner (name.toList ++ ':' :: ' ' :: (type.print.toList ++ rest)) = _
    have name_read := takeName_append identifier
      (stops_cons colon (' ' :: (type.print.toList ++ rest)))
    simp [readField, name_read, Pattern.dropWord?, reads]
  | true =>
    change readField inner (name.toList ++ '?' :: ':' :: ' ' :: (type.print.toList ++ rest)) = _
    have name_read := takeName_append identifier
      (stops_cons mark (':' :: ' ' :: (type.print.toList ++ rest)))
    simp [readField, name_read, Pattern.dropWord?, reads]

theorem readParam_print {param : Parameter} (identifier : isIdentifier param.name = true)
    (reads : inner (param.type.print.toList ++ rest) = some (value, rest)) :
    readParam inner ((printParam param).toList ++ rest) =
      some ({ param with type := value }, rest) := by
  rw [readParam, printParam, readField_text identifier param.optional reads]
  rfl

/-- A name is not mistaken for the mark of a member that is only read. -/
theorem dropWord?_readonly (identifier : isIdentifier name = true) {c : Char}
    (separate : isNamePart c = false) (not_blank : c ≠ ' ') (rest : List Char) :
    dropWord? "readonly ".toList (name.toList ++ c :: rest) = none := by
  cases dropped : dropWord? "readonly ".toList (name.toList ++ c :: rest) with
  | none => rfl
  | some tail =>
    have text_eq := Pattern.eq_append_of_dropWord? dropped
    have mark : isIdentifier "readonly" = true := by decide
    have blank : isNamePart ' ' = false := by decide
    have name_rest := (takeName_append identifier (stops_cons separate rest)).2
    have mark_rest := (takeName_append mark (stops_cons blank tail)).2
    change name.toList ++ c :: rest = "readonly".toList ++ ' ' :: tail at text_eq
    rw [text_eq, mark_rest, List.cons.injEq] at name_rest
    exact absurd name_rest.1.symm not_blank

theorem readMember_print {member : Member} (identifier : isIdentifier member.name = true)
    (reads : inner (member.type.print.toList ++ rest) = some (value, rest)) :
    readMember inner (member.print.toList ++ rest) =
      some ({ member with type := value }, rest) := by
  rcases member with ⟨name, type, optional, readonly⟩
  have field_read := readField_text identifier optional reads
  cases readonly with
  | true =>
    have text_eq : (Member.print ⟨name, type, optional, true⟩).toList ++ rest =
        "readonly ".toList ++
          ((name ++ (if optional then "?" else "") ++ ": " ++ type.print).toList ++ rest) := by
      simp [Member.print, memberText]
    rw [readMember, text_eq, Pattern.dropWord?_append]
    simp only [Option.getD_some]
    rw [field_read]
    rfl
  | false =>
    have text_eq : (Member.print ⟨name, type, optional, false⟩).toList ++ rest =
        (name ++ (if optional then "?" else "") ++ ": " ++ type.print).toList ++ rest := by
      simp [Member.print, memberText]
    have unmarked : dropWord? "readonly ".toList
        ((name ++ (if optional then "?" else "") ++ ": " ++ type.print).toList ++ rest) =
          none := by
      simp only [String.toList_append, List.append_assoc]
      cases optional with
      | true => exact dropWord?_readonly identifier (c := '?') (by decide) (by decide) _
      | false => exact dropWord?_readonly identifier (c := ':') (by decide) (by decide) _
    rw [readMember, text_eq, unmarked]
    simp only [Option.getD_none]
    rw [field_read]
    rfl

theorem readQuoted_print {value : String} (no_quote : '"' ∉ value.toList) (rest : List Char) :
    readQuoted (value.toList ++ '"' :: rest) = some (.literal (.string value), rest) := by
  have inside : ∀ c ∈ value.toList, (c != '"') = true := by
    intro c mem
    rw [bne_iff_ne]
    rintro rfl
    exact no_quote mem
  simp [readQuoted, List.takeWhile_append_of_pos inside, List.dropWhile_append_of_pos inside,
    Pattern.dropWord?]

theorem flatMap_escapeQuote {chars : List Char} (no_quote : '"' ∉ chars) :
    chars.flatMap Literal.escapeQuote = chars := by
  induction chars with
  | nil => rfl
  | cons c rest ih =>
    rw [List.mem_cons, not_or] at no_quote
    rw [List.flatMap_cons, ih no_quote.2, Literal.escapeQuote, if_neg (Ne.symm no_quote.1)]
    rfl

theorem readBase_string {value : String} (no_quote : '"' ∉ value.toList) (rest : List Char) :
    readBase inner bound ((TypeExpr.literal (.string value)).print.toList ++ rest) =
      some (.literal (.string value), rest) := by
  have text_eq : (TypeExpr.literal (.string value)).print.toList ++ rest =
      '"' :: (value.toList ++ '"' :: rest) := by
    simp [print, Literal.print, flatMap_escapeQuote no_quote]
  rw [text_eq, readBase, if_neg (by decide), if_pos rfl, readQuoted_print no_quote]

theorem readBase_object (reads : ReadsWithin inner bound) (typeArgs : List TypeExpr)
    {members : List Member} (plain : areMembersPlain members = true)
    (small : 2 * sizeMembers members ≤ bound) (rest : List Char) :
    readBase inner bound ((TypeExpr.struct none typeArgs members).print.toList ++ rest) =
      some (.struct none [] (normalizeMembers false members), rest) := by
  by_cases empty : members = []
  · subst empty
    simp [print, readBase, readObject, Pattern.dropWord?, normalizeMembers]
  · have text_eq : (TypeExpr.struct none typeArgs members).print.toList ++ rest =
        '\x7b' :: ' ' :: (("; ".intercalate (members.map Member.print)).toList ++
          ' ' :: '\x7d' :: rest) := by
      rcases members with _ | ⟨member, others⟩
      · exact absurd rfl empty
      · rw [print, printMembers_eq_map]
        · simp
        · simp
    rw [sizeMembers_eq_sizeAll] at small
    rw [areMembersPlain_eq_all, List.all_eq_true] at plain
    have length_le := length_le_sizeAll (members.map Member.type)
    rw [List.length_map] at length_le
    have members_read : readSeparated (readMember inner) "; ".toList bound
        (("; ".intercalate (members.map Member.print)).toList ++ ' ' :: '\x7d' :: rest) =
          some (normalizeMembers false members, ' ' :: '\x7d' :: rest) := by
      rw [toList_intercalate_map, normalizeMembers_eq_map]
      apply readSeparated_intercalate _ _ _ Closes empty (by omega)
      · intro member mem after closes
        have member_plain := plain member mem
        rw [Bool.and_eq_true] at member_plain
        exact readMember_print member_plain.1
          (reads.of_sizeAll small (List.mem_map_of_mem mem) member_plain.2 after closes)
      · simp [Closes]
      · simp [Closes]
      · rfl
    rw [text_eq, readBase, if_neg (by decide), if_neg (by decide), if_pos rfl, readObject]
    simp only [Pattern.dropWord?, Char.reduceEq, if_false, if_true, Option.bind_eq_bind,
      Option.bind_some]
    rw [members_read]
    rfl

theorem readBase_group (reads : ReadsWithin inner bound)
    (plain : type.isPlain = true) (small : 2 * type.size ≤ bound) (rest : List Char) :
    readBase inner bound (("(" ++ type.print ++ ")").toList ++ rest) =
      some (type.normalize false, rest) := by
  have closes : Closes (')' :: rest) := by
    simp [Closes]
  have text_eq : ("(" ++ type.print ++ ")").toList ++ rest =
      '(' :: (type.print.toList ++ ')' :: rest) := by
    simp
  rw [text_eq, readBase, if_pos rfl, readGroup, reads type plain small _ closes]
  rfl

/-- An operand is read with its brackets as soon as it is read without them. -/
theorem readOperand_of_base
    (reads : ∀ tail, EndsBase tail → readBase inner bound (text ++ tail) = some (type, tail))
    (count : Nat) (ends : EndsOperand rest) :
    readOperand inner bound (text ++ (brackets count ++ rest)) =
      some (arrays count type, rest) := by
  have ends_base : EndsBase (brackets count ++ rest) := by
    cases count with
    | zero => simpa [brackets] using ends.endsBase
    | succ count => simp [brackets, List.replicate_succ, EndsBase]
  have no_bracket : '[' ∉ rest.head? := by
    intro head
    simpa using ends.head_mem '[' head
  rw [readOperand, reads _ ends_base]
  simp [readBrackets_brackets count type no_bracket]

theorem operand_small (inside : TypeExpr) (smaller : inside.size < type.size)
    (small : 2 * type.size + (if type.needsParens then 1 else 0) ≤ bound + 1) :
    2 * inside.size + (if inside.needsParens then 1 else 0) ≤ bound + 1 := by
  split <;> omega

/-- Every plain type is read as an operand, with the brackets that follow it. -/
theorem readOperand_print (reads : ReadsWithin inner bound)
    (operand : Operand type)
    (small : 2 * type.size + (if type.needsParens then 1 else 0) ≤ bound + 1) (count : Nat)
    (ends : EndsOperand rest) :
    readOperand inner bound (type.printOperand.toList ++ (brackets count ++ rest)) =
      some (arrays count (type.normalize false), rest) := by
  -- The element of an array is read with one more pair of brackets.
  induction operand generalizing count with
  | word identifier text_eq word_eq =>
    rw [text_eq, ← word_eq]
    exact readOperand_of_base (fun tail follows => readBase_word identifier follows) count ends
  | quoted no_quote =>
    exact readOperand_of_base (fun tail _ => readBase_string no_quote tail) count ends
  | applied typeName plain smaller text_eq normal_eq =>
    rw [text_eq, normal_eq]
    apply readOperand_of_base _ count ends
    exact fun tail follows => readBase_applied reads typeName plain (by omega) follows
  | object plain =>
    rw [size] at small
    apply readOperand_of_base _ count ends
    exact fun tail _ => readBase_object reads _ plain (by omega) tail
  | @array element _ ih =>
    have element_read := ih (operand_small element (by simp [size]) small) (count + 1)
    have text_eq : (TypeExpr.array element).printOperand.toList ++ (brackets count ++ rest) =
        element.printOperand.toList ++ (brackets (count + 1) ++ rest) := by
      simp [print, printOperand, grouped, needsParens, brackets, List.replicate_succ]
    rw [text_eq, element_read]
    rfl
  | @single type member _ smaller text_eq normal_eq ih =>
    rw [text_eq, normal_eq]
    exact ih (operand_small member smaller small) count
  | group plain parens =>
    rw [if_pos parens] at small
    rw [printOperand_of_needsParens parens]
    exact readOperand_of_base (fun tail _ => readBase_group reads plain (by omega) tail) count
      ends

/-! ## How operands start -/

/-- What the text of an operand can start with. -/
inductive Opens : List Char → Prop
  | word {name : String} {rest : List Char} : isIdentifier name = true →
      (∀ c ∈ rest.head?, c ∈ ['<', '[']) → Opens (name.toList ++ rest)
  | quote (rest : List Char) : Opens ('"' :: rest)
  | brace (rest : List Char) : Opens ('\x7b' :: rest)
  | group {type : TypeExpr} (rest : List Char) : type.isPlain = true → type.needsParens = true →
      Opens ('(' :: (type.print.toList ++ ')' :: rest))

theorem Opens.append_brackets (opens : Opens text) :
    Opens (text ++ ['[', ']']) := by
  cases opens with
  | @word name rest identifier follows =>
    rw [List.append_assoc]
    apply Opens.word identifier
    cases rest with
    | nil => simp
    | cons c tail => simpa using follows
  | quote rest => exact .quote (rest ++ ['[', ']'])
  | brace rest => exact .brace (rest ++ ['[', ']'])
  | @group type rest plain parens =>
    simpa using Opens.group (rest ++ ['[', ']']) plain parens

theorem opens_word {word : String} (identifier : isIdentifier word = true) : Opens word.toList := by
  rw [← List.append_nil word.toList]
  exact .word identifier (by simp)

theorem Operand.opens (operand : Operand type) :
    Opens type.printOperand.toList := by
  induction operand with
  | word identifier text_eq word_eq =>
    rw [text_eq]
    exact opens_word identifier
  | quoted no_quote =>
    simpa [printOperand, grouped, needsParens, print, Literal.print] using Opens.quote _
  | applied typeName plain smaller text_eq normal_eq =>
    have identifier := isIdentifier_of_isTypeName typeName
    rw [text_eq, TypeExpr.applied]
    split
    · exact opens_word identifier
    · simp only [String.toList_append, List.append_assoc]
      apply Opens.word identifier
      simp
  | @object typeArgs members plain =>
    cases members <;> simpa [printOperand, grouped, needsParens, print] using Opens.brace _
  | array _ ih => simpa [printOperand, grouped, needsParens, print] using ih.append_brackets
  | single _ smaller text_eq normal_eq ih =>
    rw [text_eq]
    exact ih
  | group plain parens =>
    rw [printOperand_of_needsParens parens]
    simpa using Opens.group [] plain parens

/-- The first word of an operand is not followed by what follows the name of a parameter. -/
theorem Opens.dropName_head {tail : List Char} (opens : Opens text)
    (follows : ∀ c ∈ tail.head?, c = ' ') :
    ∀ c ∈ (dropName (text ++ tail)).head?, c ∈ [' ', '<', '[', '"', '\x7b', '('] := by
  cases opens with
  | @word name rest identifier rest_follows =>
    have head_mem : ∀ c ∈ (rest ++ tail).head?, c ∈ [' ', '<', '['] := by
      intro c head
      cases rest with
      | nil => simp [follows c head]
      | cons d others => simpa using Or.inr (rest_follows c head)
    have stops : ∀ c ∈ (rest ++ tail).head?, isNamePart c = false := by
      intro c head
      have c_mem := head_mem c head
      simp only [List.mem_cons, List.not_mem_nil, or_false] at c_mem
      rcases c_mem with rfl | rfl | rfl <;> decide
    rw [List.append_assoc, (takeName_append identifier stops).2]
    exact fun c head => List.mem_append_left ['"', '\x7b', '('] (head_mem c head)
  | quote rest | brace rest | group rest plain parens => simp [dropName, isNamePart, punctuation]

/-- The text of a group does not start with the parameters of a function. -/
theorem dropName_head_of_needsParens (plain : type.isPlain = true)
    (parens : type.needsParens = true) (tail : List Char) :
    ∀ c ∈ (dropName (type.print.toList ++ tail)).head?, c ∈ [' ', '<', '[', '"', '\x7b', '('] := by
  have operands {first second : TypeExpr} {others : List TypeExpr}
      (all_plain : areAllPlain (first :: second :: others) = true) (operator : Char) :
      ∀ c ∈ (dropName (([' ', operator, ' '].intercalate
        ((first :: second :: others).map fun type => type.printOperand.toList)) ++ tail)).head?,
        c ∈ [' ', '<', '[', '"', '\x7b', '('] := by
    rw [areAllPlain, Bool.and_eq_true] at all_plain
    simp only [List.map_cons, List.intercalate_cons_cons, List.append_assoc]
    apply (operand_of_isPlain first all_plain.1).opens.dropName_head
    simp
  cases type with
  | union members =>
    rcases members with _ | ⟨first, _ | ⟨second, others⟩⟩
    · simp [needsParens] at parens
    · simp [needsParens] at parens
    · rw [isPlain, Bool.and_eq_true] at plain
      rw [print, printOperands_eq_map, toList_intercalate_map]
      exact operands plain.2 '|'
  | intersection members =>
    rcases members with _ | ⟨first, _ | ⟨second, others⟩⟩
    · simp [needsParens] at parens
    · simp [needsParens] at parens
    · rw [isPlain, Bool.and_eq_true] at plain
      rw [print, printOperands_eq_map, toList_intercalate_map]
      exact operands plain.2 '&'
  | function params returns => simp [print, dropName, isNamePart, punctuation]
  | conditional text resolved => simp [isPlain] at plain
  | _ => simp [needsParens] at parens

theorem Opens.not_startsFunction (opens : Opens text) (tail : List Char) :
    startsFunction (text ++ tail) = false := by
  cases opens with
  | @word name rest identifier rest_follows =>
    rcases exists_cons_of_isIdentifier identifier with ⟨c, others, name_eq, part⟩
    rw [name_eq, List.cons_append, List.cons_append, startsFunction]
    intro after text_eq
    rw [List.cons.injEq] at text_eq
    simp [text_eq.1, isNamePart, punctuation] at part
  | quote rest => rfl
  | brace rest => rfl
  | @group type rest plain parens =>
    have head_mem := dropName_head_of_needsParens plain parens (')' :: rest ++ tail)
    rw [List.cons_append, List.append_assoc, startsFunction]
    cases head : (dropName (type.print.toList ++ (')' :: rest ++ tail))).head? with
    | none => rfl
    | some c =>
      have c_mem := head_mem c head
      simp only [List.mem_cons, List.not_mem_nil, or_false] at c_mem
      rcases c_mem with rfl | rfl | rfl | rfl | rfl | rfl <;> rfl

/-! ## Types -/

theorem readOperand_of_mem (reads : ReadsWithin inner bound) {types : List TypeExpr}
    (small : 2 * sizeAll types ≤ bound) (plain : areAllPlain types = true) (mem : type ∈ types)
    (rest : List Char) (ends : EndsOperand rest) :
    readOperand inner bound (type.printOperand.toList ++ rest) =
      some (type.normalize false, rest) := by
  rw [areAllPlain_eq_all, List.all_eq_true] at plain
  have size_le := size_le_sizeAll mem
  have operand_read := readOperand_print reads (operand_of_isPlain type (plain type mem))
    (by split <;> omega) 0 ends
  exact operand_read

/-- The type of several operands with an operator between them. -/
def chainOf (operator : Char) (operands : List TypeExpr) : TypeExpr :=
  if operator = '|' then .union operands else .intersection operands

/-- A union or intersection of several operands is read up to its end. -/
theorem readChain_operands (reads : ReadsWithin inner bound) {first second : TypeExpr}
    {others : List TypeExpr} (small : 2 * sizeAll (first :: second :: others) ≤ bound)
    (plain : areAllPlain (first :: second :: others) = true) {operator : Char}
    (mem : operator ∈ ['|', '&']) (closes : Closes rest) :
    readChain inner bound
        ([' ', operator, ' '].intercalate
          ((first :: second :: others).map fun type => type.printOperand.toList) ++ rest) =
      some (chainOf operator (normalizeAll false (first :: second :: others)), rest) := by
  have operand_read {type : TypeExpr} (type_mem : type ∈ first :: second :: others) :=
    readOperand_of_mem reads small plain type_mem
  have separates (tail : List Char) : EndsOperand ([' ', operator, ' '] ++ tail) :=
    .inr ⟨operator, mem, tail, rfl⟩
  have length_le := length_le_sizeAll (first :: second :: others)
  have others_read : readSeparated (readOperand inner bound) [' ', operator, ' '] bound
      ([' ', operator, ' '].intercalate
        ((second :: others).map fun type => type.printOperand.toList) ++ rest) =
      some ((second :: others).map (normalize false), rest) := by
    rw [List.length_cons] at length_le
    apply readSeparated_intercalate _ _ _ EndsOperand (by simp) (by omega)
    · exact fun type type_mem => operand_read (List.mem_cons_of_mem first type_mem)
    · exact separates
    · exact .inl closes
    · exact closes.dropWord?_operator mem
  rw [List.map_cons] at others_read
  rw [normalizeAll_eq_map, List.map_cons, List.map_cons, List.intercalate_cons_cons,
    List.append_assoc, List.append_assoc, readChain,
    operand_read List.mem_cons_self _ (separates _)]
  simp only [List.mem_cons, List.not_mem_nil, or_false] at mem
  rcases mem with rfl | rfl
  · simp [Pattern.dropWord?, others_read, chainOf]
  · simp [Pattern.dropWord?, others_read, chainOf]

theorem readChain_single (closes : Closes rest)
    (reads : readOperand inner bound (text ++ rest) = some (type, rest)) :
    readChain inner bound (text ++ rest) = some (type, rest) := by
  have no_bar := closes.dropWord?_operator (List.mem_cons_self (a := '|'))
  have no_and := closes.dropWord?_operator (List.mem_cons_of_mem '|' (List.mem_singleton_self '&'))
  rw [readChain, reads]
  simp [no_bar, no_and]

/-- The text of a function type after the opening parenthesis. -/
def functionTail (params : List Parameter) (returns : TypeExpr) : List Char :=
  (", ".intercalate (params.map printParam)).toList ++ (") => ".toList ++ returns.print.toList)

theorem print_function (params : List Parameter) (returns : TypeExpr) :
    (TypeExpr.function params returns).print.toList = '(' :: functionTail params returns := by
  simp [print, printParams_eq_map, functionTail]

theorem functionTail_cons (param : Parameter) (others : List Parameter) (returns : TypeExpr) :
    ∃ c ∈ [':', '?'], ∃ after,
      functionTail (param :: others) returns = param.name.toList ++ c :: after := by
  have starts : ∃ more,
      functionTail (param :: others) returns = (printParam param).toList ++ more := by
    cases others <;> simp [functionTail]
  rcases starts with ⟨more, text_eq⟩
  rw [text_eq, printParam]
  cases param.optional with
  | false => exact ⟨':', by simp, by simp⟩
  | true => exact ⟨'?', by simp, by simp⟩

theorem startsFunction_functionTail {params : List Parameter} (plain : areParamsPlain params = true)
    (returns : TypeExpr) (rest : List Char) :
    startsFunction ('(' :: (functionTail params returns ++ rest)) = true := by
  cases params with
  | nil => rfl
  | cons param others =>
    simp only [areParamsPlain_eq_all, List.all_cons, Bool.and_eq_true] at plain
    rcases functionTail_cons param others returns with ⟨c, c_mem, after, text_eq⟩
    have separate : isNamePart c = false := by
      simp only [List.mem_cons, List.not_mem_nil, or_false] at c_mem
      rcases c_mem with rfl | rfl <;> decide
    rw [text_eq, List.append_assoc, startsFunction, List.cons_append,
      (takeName_append plain.1.1 (stops_cons separate _)).2]
    simp only [List.mem_cons, List.not_mem_nil, or_false] at c_mem
    rcases c_mem with rfl | rfl <;> rfl

theorem readFunction_functionTail (reads : ReadsWithin inner bound) {params : List Parameter}
    (params_plain : areParamsPlain params = true) (params_small : 2 * sizeParams params ≤ bound)
    {returns : TypeExpr} (returns_plain : returns.isPlain = true)
    (returns_small : 2 * returns.size ≤ bound) (closes : Closes rest) :
    readFunction inner bound (functionTail params returns ++ rest) =
      some (.function (normalizeParams false params) (returns.normalize false), rest) := by
  have returns_read := reads returns returns_plain returns_small rest closes
  by_cases empty : params = []
  · subst empty
    simp [functionTail, readFunction, Pattern.dropWord?, returns_read, normalizeParams]
  · rw [sizeParams_eq_sizeAll] at params_small
    rw [areParamsPlain_eq_all, List.all_eq_true] at params_plain
    have length_le := length_le_sizeAll (params.map Parameter.type)
    rw [List.length_map] at length_le
    have params_read : readSeparated (readParam inner) ", ".toList bound
        ((", ".intercalate (params.map printParam)).toList ++
          (") => ".toList ++ (returns.print.toList ++ rest))) =
        some (normalizeParams false params, ") => ".toList ++ (returns.print.toList ++ rest)) := by
      rw [toList_intercalate_map, normalizeParams_eq_map]
      apply readSeparated_intercalate _ _ _ Closes empty (by omega)
      · intro param mem after after_closes
        have param_plain := params_plain param mem
        rw [Bool.and_eq_true] at param_plain
        exact readParam_print param_plain.1
          (reads.of_sizeAll params_small (List.mem_map_of_mem mem) param_plain.2 after after_closes)
      · simp [Closes]
      · simp [Closes]
      · rfl
    have not_closed : (functionTail params returns ++ rest).head? ≠ some ')' := by
      rcases params with _ | ⟨param, others⟩
      · exact absurd rfl empty
      · have param_plain := params_plain param List.mem_cons_self
        rw [Bool.and_eq_true] at param_plain
        rcases functionTail_cons param others returns with ⟨c, _, after, text_eq⟩
        rcases exists_cons_of_isIdentifier param_plain.1 with ⟨d, tail, name_eq, part⟩
        rw [text_eq, name_eq, List.append_assoc, List.cons_append, List.head?_cons]
        rintro ⟨rfl⟩
        simp [isNamePart, punctuation] at part
    rw [readFunction, if_neg not_closed, functionTail, List.append_assoc, List.append_assoc,
      params_read]
    simp only [Option.bind_eq_bind, Option.bind_some]
    rw [Pattern.dropWord?_append, Option.bind_some, returns_read]
    rfl

theorem readStep_operands (reads : ReadsWithin inner bound) {first second : TypeExpr}
    {others : List TypeExpr} (small : 2 * sizeAll (first :: second :: others) ≤ bound)
    (plain : areAllPlain (first :: second :: others) = true) (operator : Char)
    (mem : operator ∈ ['|', '&']) (closes : Closes rest) :
    readStep inner bound
        ([' ', operator, ' '].intercalate
          ((first :: second :: others).map fun type => type.printOperand.toList) ++ rest) =
      some (chainOf operator (normalizeAll false (first :: second :: others)), rest) := by
  rw [← readChain_operands reads small plain mem closes, readStep]
  rw [areAllPlain, Bool.and_eq_true] at plain
  have opens := (operand_of_isPlain first plain.1).opens
  rw [if_neg]
  simp only [List.map_cons, List.intercalate_cons_cons, List.append_assoc]
  simp [opens.not_startsFunction]

/-- One step of the reader reads a type if the types inside it are read. -/
theorem readStep_print (reads : ReadsWithin inner bound) :
    ReadsWithin (readStep inner bound) (bound + 1) := by
  intro type plain small rest closes
  by_cases parens : type.needsParens = true
  · match type with
    | .union (first :: second :: others) =>
      simp only [isPlain, List.isEmpty_cons, Bool.not_false, Bool.true_and] at plain
      rw [size] at small
      rw [print, printOperands_eq_map, toList_intercalate_map, normalize]
      · exact readStep_operands reads (by omega) plain '|' (by simp) closes
      · simp
    | .intersection (first :: second :: others) =>
      simp only [isPlain, List.isEmpty_cons, Bool.not_false, Bool.true_and] at plain
      rw [size] at small
      rw [print, printOperands_eq_map, toList_intercalate_map, normalize]
      · exact readStep_operands reads (by omega) plain '&' (by simp) closes
      · simp
    | .function params returns =>
      rw [isPlain, Bool.and_eq_true] at plain
      rw [size] at small
      rw [readStep, print_function, List.cons_append,
        if_pos (startsFunction_functionTail plain.1 returns rest)]
      exact readFunction_functionTail reads plain.1 (by omega) plain.2 (by omega) closes
    | .conditional text resolved => simp [isPlain] at plain
  · rw [Bool.not_eq_true] at parens
    have operand := operand_of_isPlain type plain
    rw [readStep, ← printOperand_of_not_needsParens parens,
      if_neg (by simp [operand.opens.not_startsFunction])]
    apply readChain_single closes
    exact readOperand_print reads operand (by simpa [parens]) 0 (.inl closes)

end Parts

/-- A plain type is read back in its normal form, whatever follows it. -/
theorem readType_print (budget : Nat) : ReadsWithin (readType budget) budget := by
  induction budget with
  | zero =>
    intro type plain small
    have := type.size_pos
    omega
  | succ budget ih => exact readStep_print ih

/-- Plain types with the same text have the same normal form. -/
theorem normalize_eq_of_print_eq {left right : TypeExpr} (left_plain : left.isPlain = true)
    (right_plain : right.isPlain = true) (same : left.print = right.print) :
    left.normalize false = right.normalize false := by
  have closes : Closes [] := .inl rfl
  have reads := readType_print (2 * left.size + 2 * right.size)
  have left_read := reads left left_plain (by omega) [] closes
  have right_read := reads right right_plain (by omega) [] closes
  rw [same, right_read] at left_read
  simpa using left_read.symm

/-- An array of a named object type, and a union whose one member is an array of a wrapper. -/
theorem normalize_eq_of_print_eq_handlers :
    let handler : TypeExpr := .function [⟨"event", .union [.generic "E" none, .null], true⟩] .any
    let left : TypeExpr := .array (.struct (some "Map") [handler] [])
    let right : TypeExpr := .union [.array (.intersection [.mapped "Map" [handler]])]
    left.print = "Map<(event?: E | null) => any>[]" ∧ left ≠ right ∧
      left.normalize false = right.normalize false := by
  refine ⟨by rfl, by simp, ?_⟩
  exact normalize_eq_of_print_eq (by decide) (by decide) rfl

/-- The text of an object literal does not show its type arguments. -/
theorem print_hides_args_of_object_literal :
    (TypeExpr.struct none [.primitive .string] []).print = (TypeExpr.struct none [] []).print ∧
      (TypeExpr.struct none [.primitive .string] []).normalize true ≠
        (TypeExpr.struct none [] []).normalize true := by
  refine ⟨rfl, ?_⟩
  simp [normalize, normalizeAll]

end TypeExpr

end Componentry
