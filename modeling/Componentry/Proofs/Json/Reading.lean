import Componentry.Proofs.Json.Numbers

/-!
# Written documents are read back

The compact text of a value is read as that value, if the value is not nested too
deeply and its numbers are read back from their own texts. The text of a value may
stand anywhere in a document: what is behind it only has to end it.
-/

namespace Componentry.Json

variable {c : Char} {value : Json} {n : JsonNumber} {shape : Shape} {others : List Char}
  {index : Nat} {after : Cursor}

theorem Cursor.skipSpace_cons (visible : isSpace c = false) (others : List Char) (index : Nat) :
    (⟨c :: others, index⟩ : Cursor).skipSpace = ⟨c :: others, index⟩ := by
  simp [skipSpace, advance, visible]

/-- The text of a value. -/
def textOf (value : Json) : List Char :=
  value.compact.toList

/-- A text from which a value is read, whatever ends it. -/
structure Reads (read : Cursor → Except Failure (Json × Cursor)) (chars : List Char)
    (value : Json) : Prop where
  starts : ∃ c others, chars = c :: others ∧ Cursor.isSpace c = false ∧ c ≠ ']'
  reads : ∀ rest start, Ends rest →
    ∃ stop, read ⟨chars ++ rest, start⟩ = .ok (value, ⟨rest, stop⟩)

variable {length : Nat} {nested : Option (Shape → Cursor → Except Failure (Json × Cursor))}

/-! ## Numbers -/

/-- The number is what its own text says. -/
def ReadsBack (n : JsonNumber) : Prop :=
  parse (numberText n) = .ok (.number n)

/-- The number that a document is. -/
def number? : Except String Json → Option JsonNumber
  | .ok (.number n) => some n
  | _ => none

theorem number?_eq_some_iff {document : Except String Json} :
    number? document = some n ↔ document = .ok (.number n) := by
  rw [number?.eq_def]
  split
  · simp
  · rename_i no_number
    simp only [reduceCtorEq, false_iff]
    exact no_number n

instance (n : JsonNumber) : Decidable (ReadsBack n) :=
  decidable_of_iff (number? (parse (numberText n)) = some n) number?_eq_some_iff

def isNumeric (c : Char) : Bool :=
  c.isDigit || c == '.' || c == 'e' || c == '+' || c == '-'

theorem isSpace_of_isNumeric (numeric : isNumeric c = true) :
    Cursor.isSpace c = false := by
  cases blank : Cursor.isSpace c with
  | false => rfl
  | true =>
    simp only [Cursor.isSpace, Bool.or_eq_true, beq_iff_eq] at blank
    rcases blank with ((rfl | rfl) | rfl) | rfl
    · contradiction
    · contradiction
    · contradiction
    · contradiction

theorem isNumeric_of_mem_toDigits {n : Nat} (inside : c ∈ Nat.toDigits 10 n) :
    isNumeric c = true := by
  have digit := Nat.isDigit_of_mem_toDigits (by omega) (by omega) inside
  simp [isNumeric, digit]

theorem isNumeric_of_mem_positional {x : Decimal} (inside : c ∈ x.positional) :
    isNumeric c = true := by
  have digits : ∀ c ∈ x.digitChars, isNumeric c = true := fun c => isNumeric_of_mem_toDigits
  rw [Decimal.positional] at inside
  split at inside
  · simp only [List.mem_append, List.mem_replicate] at inside
    rcases inside with inside | ⟨_, rfl⟩
    · exact digits c inside
    · rfl
  · split at inside
    · simp only [List.mem_append, List.mem_cons] at inside
      rcases inside with inside | rfl | inside
      · exact digits c (List.mem_of_mem_take inside)
      · rfl
      · exact digits c (List.mem_of_mem_drop inside)
    · simp only [List.mem_append, List.mem_cons, List.mem_replicate] at inside
      rcases inside with (rfl | rfl | ⟨_, rfl⟩) | inside
      · rfl
      · rfl
      · rfl
      · exact digits c inside

theorem isNumeric_of_mem_scientific {x : Decimal} (inside : c ∈ x.scientific) :
    isNumeric c = true := by
  have digits : ∀ c ∈ x.digitChars, isNumeric c = true := fun c => isNumeric_of_mem_toDigits
  simp only [Decimal.scientific, List.mem_append, List.mem_cons] at inside
  rcases inside with inside | rfl | rfl | inside
  · split at inside
    · contradiction
    · rename_i digit chars_eq
      rw [chars_eq] at digits
      exact digits c inside
    · rename_i digit others _ chars_eq
      rw [chars_eq] at digits
      simp only [List.mem_cons] at inside
      rcases inside with rfl | rfl | inside
      · exact digits _ List.mem_cons_self
      · rfl
      · exact digits c (List.mem_cons_of_mem _ inside)
  · rfl
  · split
    · rfl
    · rfl
  · exact isNumeric_of_mem_toDigits inside

theorem isNumeric_of_mem_floatText {x : Double} (inside : c ∈ (floatText x).toList) :
    isNumeric c = true := by
  rw [floatText, String.toList_ofList, List.mem_append] at inside
  rcases inside with inside | inside
  · split at inside
    · rw [List.mem_singleton.1 inside]
      rfl
    · contradiction
  · have zero : ∀ c ∈ ['0', '.', '0'], isNumeric c = true := by
      intro c inside
      simp only [List.mem_cons, List.not_mem_nil, or_false] at inside
      rcases inside with rfl | rfl | rfl
      · rfl
      · rfl
      · rfl
    split at inside
    · exact zero c inside
    · dsimp only at inside
      split at inside
      · split at inside
        · rw [List.mem_append] at inside
          rcases inside with inside | inside
          · exact isNumeric_of_mem_positional inside
          · exact zero c (List.mem_cons_of_mem _ inside)
        · exact isNumeric_of_mem_positional inside
      · exact isNumeric_of_mem_scientific inside

theorem toList_toString (value : Int) :
    (toString value).toList =
      if 0 ≤ value then Nat.toDigits 10 value.toNat
      else '-' :: Nat.toDigits 10 (-value).toNat := by
  rw [Int.toString_eq_repr, Int.repr_eq_if]
  split
  · rw [Nat.repr_eq_ofList_toDigits, String.toList_ofList]
  · rw [Nat.repr_eq_ofList_toDigits, String.toList_append, String.toList_ofList,
      String.toList_ofList]
    rfl

theorem isSpace_of_mem_numberText (inside : c ∈ (numberText n).toList) :
    Cursor.isSpace c = false := by
  apply isSpace_of_isNumeric
  cases n with
  | float x => exact isNumeric_of_mem_floatText inside
  | integer value =>
    rw [numberText, toList_toString] at inside
    split at inside
    · exact isNumeric_of_mem_toDigits inside
    · rcases List.mem_cons.1 inside with rfl | inside
      · rfl
      · exact isNumeric_of_mem_toDigits inside

theorem map_eq_ok_iff {α β : Type} {f : α → β} {read : Except Failure α} {value : β} :
    read.map f = .ok value ↔ ∃ found, read = .ok found ∧ f found = value := by
  cases read with
  | error failure | ok found => simp [Except.map]

theorem readWith_digit (digit : c.isDigit = true) (shape : Shape) (others : List Char)
    (index : Nat) :
    readWith length nested shape ⟨c :: others, index⟩ =
      (readNumber false ⟨c :: others, index⟩).map fun found => (.number found.1, found.2) := by
  have visible : Cursor.isSpace c = false := isSpace_of_isNumeric (by simp [isNumeric, digit])
  simp only [readWith, Cursor.skipSpace_cons visible]
  split
  case h_1 text => contradiction
  case h_9 text =>
    cases text
    rw [if_pos digit]
  all_goals
    rename_i text
    cases text
    contradiction

/-- A number is read from its sign or its first digit on. -/
theorem readNumber_of_readWith (visible : Cursor.isSpace c = false)
    (read : readWith length nested shape ⟨c :: others, index⟩ = .ok (.number n, after)) :
    (c = '-' ∧ readNumber true ⟨others, index + 1⟩ = .ok (n, after)) ∨
      (c.isDigit = true ∧ readNumber false ⟨c :: others, index⟩ = .ok (n, after)) := by
  simp only [readWith, Cursor.skipSpace_cons visible] at read
  split at read
  · contradiction
  · simp [map_eq_ok_iff] at read
  · simp [map_eq_ok_iff] at read
  · simp [map_eq_ok_iff] at read
  · simp [map_eq_ok_iff] at read
  · rename_i text
    cases text
    rcases map_eq_ok_iff.1 read with ⟨found, number_read, found_eq⟩
    cases found_eq
    exact .inl ⟨rfl, number_read⟩
  · cases nested with
    | none => contradiction
    | some item => simp [map_eq_ok_iff] at read
  · cases nested with
    | none => contradiction
    | some item => simp [map_eq_ok_iff] at read
  · rename_i text
    cases text
    split at read
    · rename_i digit
      rcases map_eq_ok_iff.1 read with ⟨found, number_read, found_eq⟩
      cases found_eq
      exact .inr ⟨digit, number_read⟩
    · contradiction

theorem of_parse {text : String} (parsed : parse text = .ok value) :
    ∃ after : Cursor, readValue text.toList.length maxLevels .whole ⟨text.toList, 0⟩ =
      .ok (value, after) ∧ after.skipSpace.rest = [] := by
  rw [parse, parseShaped] at parsed
  split at parsed
  · rename_i found document
    cases parsed
    rw [readDocument] at document
    cases read : readValue text.toList.length maxLevels .whole ⟨text.toList, 0⟩ with
    | error failure =>
      rw [read] at document
      contradiction
    | ok result =>
      rcases result with ⟨found, after⟩
      rw [read] at document
      simp only [bind, Except.bind] at document
      split at document
      · rename_i ended
        cases document
        exact ⟨after, rfl, List.isEmpty_iff.1 ended⟩
      · contradiction
  · contradiction

theorem rest_eq_nil (visible : ∀ c ∈ after.rest, Cursor.isSpace c = false)
    (ended : after.skipSpace.rest = []) : after.rest = [] := by
  rcases after with ⟨chars, index⟩
  cases chars with
  | nil => rfl
  | cons c others =>
    rw [Cursor.skipSpace_cons (visible c List.mem_cons_self)] at ended
    exact ended

theorem reads_number (back : ReadsBack n) :
    Reads (readWith length nested .whole) (numberText n).toList (.number n) := by
  rcases of_parse back with ⟨after, read, ended⟩
  have visible : ∀ c ∈ (numberText n).toList, Cursor.isSpace c = false :=
    fun c => isSpace_of_mem_numberText
  cases text : (numberText n).toList with
  | nil =>
    rw [text] at read
    contradiction
  | cons c others =>
    rw [text] at read visible
    have first := visible c List.mem_cons_self
    -- what is left of the text has no blanks either, so nothing is left of it
    have all_read (within : after.rest <:+ c :: others) : after.rest = [] := by
      apply rest_eq_nil _ ended
      intro c inside
      exact visible c (within.mem inside)
    rcases readNumber_of_readWith first read with ⟨rfl, number_read⟩ | ⟨digit, number_read⟩
    · rcases localAt_readNumber _ _ _ _ _ number_read with ⟨within, stops⟩
      refine ⟨⟨_, _, rfl, first, by decide⟩, ?_⟩
      intro rest start ends
      rcases stops rest (start + 1) ends with ⟨stop, number_read⟩
      rw [all_read (within.trans (List.suffix_cons _ _))] at number_read
      refine ⟨stop, ?_⟩
      exact congrArg (Except.map fun found => (number found.1, found.2)) number_read
    · rcases localAt_readNumber _ _ _ _ _ number_read with ⟨within, stops⟩
      refine ⟨⟨_, _, rfl, first, ?_⟩, ?_⟩
      · rintro rfl
        contradiction
      · intro rest start ends
        rcases stops rest start ends with ⟨stop, number_read⟩
        rw [all_read within] at number_read
        refine ⟨stop, ?_⟩
        rw [List.cons_append, readWith_digit digit, ← List.cons_append, number_read]
        rfl

theorem parse_of_readValue {text : String}
    (read : ∃ stop, readValue text.toList.length maxLevels .whole ⟨text.toList, 0⟩ =
      .ok (value, ⟨[], stop⟩)) : parse text = .ok value := by
  rcases read with ⟨stop, read⟩
  have document : readDocument .whole text = .ok value := by
    rw [readDocument, read]
    rfl
  rw [parse, parseShaped, document]

/-- An integer of 64 bits is read back. -/
theorem readsBack_integer {value : Int} (lower : -(Nat.pow 2 63 : Nat) ≤ value)
    (upper : value ≤ maxWord) :
    ReadsBack (.integer value) := by
  have text := toList_toString value
  by_cases natural : 0 ≤ value
  · rw [if_pos natural] at text
    rcases readNumber_toDigits false (show value.toNat ≤ maxWord by omega) 0 with ⟨stop, read⟩
    apply parse_of_readValue
    refine ⟨stop, ?_⟩
    rw [numberText, text]
    cases digits : Nat.toDigits 10 value.toNat with
    | nil => exact absurd digits Nat.toDigits_ne_nil
    | cons c others =>
      have digit : c.isDigit = true := by
        apply Nat.isDigit_of_mem_toDigits (b := 10) (n := value.toNat) (by omega) (by omega)
        rw [digits]
        exact List.mem_cons_self
      rw [digits] at read
      rw [maxLevels, readValue, readWith_digit digit, read]
      have back : (value.toNat : Int) = value := Int.toNat_of_nonneg natural
      simp [finishDigits, integerNumber, Except.map, back]
  · rw [if_neg natural] at text
    have fits : (-value).toNat ≤ Nat.pow 2 63 := by omega
    rcases readNumber_toDigits true (Nat.le_trans fits (by decide)) 1 with ⟨stop, read⟩
    have made : integerNumber true (-value).toNat = some (.integer value) := by
      have positive : (-value).toNat ≠ 0 := by omega
      have back : -((-value).toNat : Int) = value := by omega
      have in_range : (decide ((-value).toNat ≠ 0) && decide ((-value).toNat ≤ Nat.pow 2 63)) =
          true := Bool.and_eq_true_iff.2 ⟨decide_eq_true positive, decide_eq_true fits⟩
      rw [integerNumber, if_neg (by decide), if_pos in_range, back]
    have number_read : readNumber true ⟨Nat.toDigits 10 (-value).toNat, 1⟩ =
        .ok (.integer value, ⟨[], stop⟩) := by
      rw [read, finishDigits, if_pos rfl, made]
    apply parse_of_readValue
    refine ⟨stop, ?_⟩
    rw [numberText, text]
    exact congrArg (Except.map fun found => (number found.1, found.2)) number_read

/-! ## Strings -/

theorem readStringFrom_escape {letter decoded : Char}
    (escape : ∀ others index, readEscape (letter :: others) index = .ok (decoded, 1))
    (done rest : List Char) (index : Nat) :
    readStringFrom done ('\\' :: letter :: rest) index =
      readStringFrom (decoded :: done) rest (index + 2) := by
  rw [readStringFrom, if_neg (by decide), if_pos rfl, escape]
  rfl

theorem hexValue?_digitChar : ∀ digit < 16, Text.hexValue? digit.digitChar = some digit := by
  decide

theorem utf8Size_digitChar : ∀ digit < 16, digit.digitChar.utf8Size = 1 := by
  decide

theorem readHex_hexPair {code : Nat} (control : code < 32) (rest : List Char) (index : Nat) :
    readHex ('0' :: '0' :: (hexPair code ++ rest)) index = .ok code := by
  have bytes : byteLength ['0', '0', (code / 16).digitChar, (code % 16).digitChar] = 4 := by
    simp only [byteLength, List.foldl_cons, List.foldl_nil,
      utf8Size_digitChar (code / 16) (by omega), utf8Size_digitChar (code % 16) (by omega)]
    rfl
  have zero : Text.hexValue? '0' = some 0 := rfl
  simp only [readHex, hexPair, List.cons_append, List.nil_append, List.take_succ_cons,
    List.take_zero, bytes, Nat.lt_irrefl, if_false, zero,
    hexValue?_digitChar (code / 16) (by omega), hexValue?_digitChar (code % 16) (by omega)]
  congr 1
  omega

theorem readEscape_hexPair {code : Nat} (control : code < 32) (rest : List Char) (index : Nat) :
    readEscape ('u' :: '0' :: '0' :: (hexPair code ++ rest)) index = .ok (Char.ofNat code, 5) := by
  have no_trail : (decide (0xDC00 ≤ code) && decide (code ≤ 0xDFFF)) = false := by
    rw [decide_eq_false (by omega), Bool.false_and]
  have no_lead : (decide (0xD800 ≤ code) && decide (code ≤ 0xDBFF)) = false := by
    rw [decide_eq_false (by omega), Bool.false_and]
  simp only [readEscape, readHex_hexPair control, bind, Except.bind, no_trail, no_lead]
  rfl

theorem readStringFrom_escapeChar (c : Char) (done rest : List Char) (index : Nat) :
    ∃ next, readStringFrom done (escapeChar c ++ rest) index =
      readStringFrom (c :: done) rest next := by
  have short {letter decoded : Char} (c_eq : c = decoded)
      (escape : ∀ others index, readEscape (letter :: others) index = .ok (decoded, 1)) :
      ∃ next, readStringFrom done ('\\' :: letter :: rest) index =
        readStringFrom (c :: done) rest next := by
    rw [c_eq]
    exact ⟨_, readStringFrom_escape escape done rest index⟩
  have eq_ofNat {code : Nat} (code_eq : c.toNat = code) : c = Char.ofNat code := by
    rw [← code_eq, Char.ofNat_toNat]
  rw [escapeChar]
  split
  · rename_i c_eq
    exact short c_eq fun _ _ => rfl
  split
  · rename_i c_eq
    exact short c_eq fun _ _ => rfl
  split
  · rename_i c_eq
    exact short c_eq fun _ _ => rfl
  split
  · rename_i c_eq
    exact short c_eq fun _ _ => rfl
  split
  · rename_i c_eq
    exact short c_eq fun _ _ => rfl
  split
  · rename_i code_eq
    exact short (eq_ofNat code_eq) fun _ _ => rfl
  split
  · rename_i code_eq
    exact short (eq_ofNat code_eq) fun _ _ => rfl
  split
  · rename_i control
    refine ⟨index + 6, ?_⟩
    simp only [List.cons_append, List.nil_append]
    rw [readStringFrom, if_neg (by decide), if_pos rfl, readEscape_hexPair control,
      Char.ofNat_toNat]
    rfl
  · rename_i no_quote no_backslash _ _ _ _ _ printable
    refine ⟨index + c.utf8Size, ?_⟩
    rw [List.singleton_append, readStringFrom, if_neg no_quote, if_neg no_backslash,
      if_neg printable]

theorem readStringFrom_flatMap (chars done rest : List Char) (index : Nat) :
    ∃ stop, readStringFrom done (chars.flatMap escapeChar ++ '"' :: rest) index =
      .ok (String.ofList (done.reverse ++ chars), ⟨rest, stop⟩) := by
  induction chars generalizing done index with
  | nil =>
    refine ⟨index + 1, ?_⟩
    rw [List.flatMap_nil, List.nil_append, readStringFrom, if_pos rfl, List.append_nil]
  | cons c others ih =>
    rw [List.flatMap_cons, List.append_assoc]
    rcases readStringFrom_escapeChar c done (others.flatMap escapeChar ++ '"' :: rest) index with
      ⟨next, step⟩
    rcases ih (c :: done) next with ⟨stop, read⟩
    refine ⟨stop, ?_⟩
    rw [step, read, List.reverse_cons, List.append_assoc, List.singleton_append]

theorem reads_string (text : String) :
    Reads (readWith length nested .whole) (quoted text).toList (.string text) := by
  rw [quoted, String.toList_ofList]
  refine ⟨⟨_, _, rfl, rfl, by decide⟩, ?_⟩
  intro rest start _
  rcases readStringFrom_flatMap text.toList [] rest (start + 1) with ⟨stop, read⟩
  rw [List.reverse_nil, List.nil_append, String.ofList_toList] at read
  refine ⟨stop, ?_⟩
  simp only [List.cons_append, List.append_assoc, List.nil_append]
  exact congrArg (Except.map fun found => (string found.1, found.2)) read

/-! ## Lists -/

theorem ends_cons {rest : List Char} (closes : c ∈ [',', ']', '\x7d']) :
    Ends (c :: rest) := by
  intro first first_eq
  cases first_eq
  simpa using closes

/-- Texts with a comma before each of them. -/
def following (texts : List (List Char)) : List Char :=
  texts.flatMap (',' :: ·)

/-- Texts with commas between them. -/
def separated : List (List Char) → List Char
  | [] => []
  | first :: others => first ++ following others

theorem ends_following {rest : List Char} (texts : List (List Char))
    (closes : c ∈ [',', ']', '\x7d']) : Ends (following texts ++ c :: rest) := by
  cases texts with
  | nil => exact ends_cons closes
  | cons first others => exact ends_cons List.mem_cons_self

theorem length_le_following {text : List Char} {texts : List (List Char)} (inside : text ∈ texts) :
    text.length ≤ (following texts).length := by
  rcases List.append_of_mem inside with ⟨before, after, rfl⟩
  simp only [following, List.flatMap_append, List.flatMap_cons, List.length_append,
    List.length_cons]
  omega

theorem length_le_separated {text : List Char} {texts : List (List Char)} (inside : text ∈ texts) :
    text.length ≤ (separated texts).length := by
  cases texts with
  | nil => contradiction
  | cons first others =>
    rw [separated, List.length_append]
    rcases List.mem_cons.1 inside with rfl | inside
    · omega
    · have le := length_le_following inside
      omega

theorem count_le_following (texts : List (List Char)) :
    texts.length ≤ (following texts).length := by
  induction texts with
  | nil => exact Nat.le_refl 0
  | cons first others ih =>
    simp only [following, List.flatMap_cons, List.length_append, List.length_cons] at ih ⊢
    omega

theorem count_le_separated (texts : List (List Char)) :
    texts.length ≤ (separated texts).length + 1 := by
  cases texts with
  | nil => exact Nat.zero_le _
  | cons first others =>
    have le := count_le_following others
    rw [separated, List.length_append, List.length_cons]
    omega

section

variable {α : Type} {text : α → List Char} {close : Char} {items : List α} {bound : Nat}
  {loop : Nat → Bool → List α → Cursor → Except Failure (List α × Cursor)}

/-- The loop takes an item that is the first one, or that stands behind a comma. -/
def Takes (loop : Nat → Bool → List α → Cursor → Except Failure (List α × Cursor))
    (text : List Char) (item : α) : Prop :=
  ∀ rest start, Ends rest → ∃ stop, ∀ bound,
    loop (bound + 1) true [] ⟨text ++ rest, start + 1⟩ = loop bound false [item] ⟨rest, stop⟩ ∧
      ∀ last done, loop (bound + 1) false (last :: done) ⟨',' :: (text ++ rest), start⟩ =
        loop bound false (item :: last :: done) ⟨rest, stop⟩

theorem loop_following (takes : ∀ item ∈ items, Takes loop (text item) item)
    (closes : ∀ bound first done rest start,
      loop (bound + 1) first done ⟨close :: rest, start⟩ = .ok (done.reverse, ⟨rest, start + 1⟩))
    (closing : close ∈ [',', ']', '\x7d']) (fits : items.length < bound) (last : α)
    (done : List α) (rest : List Char) (start : Nat) :
    ∃ stop, loop bound false (last :: done) ⟨following (items.map text) ++ close :: rest, start⟩ =
      .ok ((last :: done).reverse ++ items, ⟨rest, stop⟩) := by
  induction items generalizing bound last done start with
  | nil =>
    cases bound with
    | zero => contradiction
    | succ bound =>
      refine ⟨start + 1, ?_⟩
      rw [List.append_nil]
      exact closes bound false (last :: done) rest start
  | cons item others ih =>
    cases bound with
    | zero => contradiction
    | succ bound =>
      rw [List.forall_mem_cons] at takes
      rcases takes.1 (following (others.map text) ++ close :: rest) start
        (ends_following _ closing) with ⟨middle, taken⟩
      rcases ih takes.2 (Nat.lt_of_succ_lt_succ fits) item (last :: done) middle with
        ⟨stop, others_read⟩
      refine ⟨stop, ?_⟩
      simp only [following, List.map_cons, List.flatMap_cons, List.cons_append,
        List.append_assoc] at taken others_read ⊢
      rw [(taken bound).2, others_read]
      simp

/-- Items with commas between them are read one after the other by a loop that takes each of them
and stops at the closing bracket. -/
theorem loop_separated (close : Char) (takes : ∀ item ∈ items, Takes loop (text item) item)
    (closes : ∀ bound first done rest start,
      loop (bound + 1) first done ⟨close :: rest, start⟩ = .ok (done.reverse, ⟨rest, start + 1⟩))
    (closing : close ∈ [',', ']', '\x7d']) (fits : items.length ≤ bound) (rest : List Char)
    (start : Nat) :
    ∃ stop, loop (bound + 1) true [] ⟨separated (items.map text) ++ close :: rest, start + 1⟩ =
      .ok (items, ⟨rest, stop⟩) := by
  cases items with
  | nil => exact ⟨_, closes bound true [] rest (start + 1)⟩
  | cons item others =>
    rw [List.forall_mem_cons] at takes
    rcases takes.1 (following (others.map text) ++ close :: rest) start
      (ends_following _ closing) with ⟨middle, taken⟩
    rcases loop_following takes.2 closes closing fits item [] rest middle with ⟨stop, others_read⟩
    refine ⟨stop, ?_⟩
    rw [List.map_cons, separated, List.append_assoc, (taken bound).1, others_read]
    rfl

end

theorem toList_compactItems (items : List Json) :
    (compactItems items).toList = separated (items.map textOf) := by
  induction items with
  | nil => rfl
  | cons item rest ih =>
    cases rest with
    | nil => simp [compactItems, separated, following, textOf]
    | cons next others =>
      rw [compactItems, String.toList_append, String.toList_append, ih]
      · simp [separated, following, textOf]
      · simp

theorem textOf_array (items : List Json) :
    textOf (.array items) = '[' :: separated (items.map textOf) ++ [']'] := by
  simp [textOf, compact, toList_compactItems]

section

variable {item : Cursor → Except Failure (Json × Cursor)}

theorem readItems_first (visible : Cursor.isSpace c = false) (opens : c ≠ ']')
    (read : item ⟨c :: others, index⟩ = .ok (value, after))
    (bound : Nat) :
    readItems item (bound + 1) [] ⟨c :: others, index⟩ = readItems item bound [value] after := by
  rw [readItems]
  simp only [Cursor.skipSpace_cons visible]
  rw [if_pos List.isEmpty_nil, read]
  rfl

theorem readItems_next (visible : Cursor.isSpace c = false) (opens : c ≠ ']')
    (read : item ⟨c :: others, index + 1⟩ = .ok (value, after))
    (bound : Nat) (last : Json) (done : List Json) :
    readItems item (bound + 1) (last :: done) ⟨',' :: c :: others, index⟩ =
      readItems item bound (value :: last :: done) after := by
  rw [readItems]
  simp only [Cursor.skipSpace_cons (c := ',') rfl]
  split
  · contradiction
  · rename_i text
    cases text
  · rename_i text
    cases text
    simp only [List.isEmpty_cons, Bool.false_eq_true, if_false, if_true, Cursor.advance,
      List.drop_one, List.tail_cons, Cursor.skipSpace_cons visible]
    split
    · contradiction
    · rename_i text
      cases text
      contradiction
    · rw [read]
      rfl

theorem takes_readItems {text : List Char} (known : Reads item text value) :
    Takes (fun bound _ done => readItems item bound done) text value := by
  rcases known with ⟨⟨c, chars, rfl, visible, opens⟩, reads⟩
  intro rest start ends
  rcases reads rest (start + 1) ends with ⟨stop, read⟩
  refine ⟨stop, fun bound => ⟨?_, ?_⟩⟩
  · exact readItems_first visible opens read bound
  · exact readItems_next visible opens read bound

theorem reads_array {nested : Shape → Cursor → Except Failure (Json × Cursor)} {items : List Json}
    (known : ∀ value ∈ items, Reads (nested .whole) (textOf value) value)
    (fits : items.length ≤ length) :
    Reads (readWith length (some nested) .whole) (textOf (.array items))
      (.array items) := by
  rw [textOf_array]
  refine ⟨⟨_, _, rfl, rfl, by decide⟩, ?_⟩
  intro rest start _
  rcases loop_separated ']' (fun value mem => takes_readItems (known value mem))
    (fun _ _ _ _ _ => rfl) (by decide) fits rest start with ⟨stop, read⟩
  refine ⟨stop, ?_⟩
  rw [List.append_assoc]
  exact congrArg (Except.map fun found => (array found.1, found.2)) read

end

/-! ## Objects -/

/-- The text of a field. -/
def fieldText (field : String × Json) : List Char :=
  (quoted field.1).toList ++ ':' :: textOf field.2

theorem toList_compactFields (fields : List (String × Json)) :
    (compactFields fields).toList = separated (fields.map fieldText) := by
  induction fields with
  | nil => rfl
  | cons field rest ih =>
    rcases field with ⟨key, value⟩
    cases rest with
    | nil => simp [compactFields, separated, following, fieldText, textOf]
    | cons next others =>
      rw [compactFields, String.toList_append, String.toList_append, String.toList_append,
        String.toList_append, ih]
      · simp [separated, following, fieldText, textOf]
      · simp

theorem textOf_object (fields : List (String × Json)) :
    textOf (.object fields) =
      '\x7b' :: separated (fields.map fieldText) ++ ['\x7d'] := by
  simp [textOf, compact, toList_compactFields]

section

variable {field : String × Json} {item : Shape → Cursor → Except Failure (Json × Cursor)}

/-- A field of an object that is read as a whole. -/
theorem readField_whole (known : Reads (item .whole) (textOf field.2) field.2) {rest : List Char}
    (ends : Ends rest) (start : Nat) :
    ∃ stop, readField length .whole item ⟨fieldText field ++ rest, start⟩ =
      .ok (some field, ⟨rest, stop⟩) := by
  rcases field with ⟨key, value⟩
  rcases readStringFrom_flatMap key.toList [] (':' :: textOf value ++ rest) (start + 1)
    with ⟨colon, key_read⟩
  rw [List.reverse_nil, List.nil_append, String.ofList_toList] at key_read
  rcases known.reads rest (colon + 1) ends with ⟨stop, value_read⟩
  refine ⟨stop, ?_⟩
  simp only [readField, fieldText, quoted, String.toList_ofList, List.cons_append,
    List.append_assoc, List.nil_append, List.drop_one, List.tail_cons] at key_read ⊢
  rw [key_read]
  exact congrArg (Except.map fun found => (some (key, found.1), found.2)) value_read

theorem takes_readFields (known : Reads (item .whole) (textOf field.2) field.2) :
    Takes (readFields length .whole item) (fieldText field) field := by
  intro rest start ends
  rcases readField_whole known ends (start + 1) with ⟨stop, read⟩
  have text_eq : fieldText field = '"' :: (fieldText field).tail := by
    simp [fieldText, quoted]
  rw [text_eq] at read ⊢
  refine ⟨stop, fun bound => ⟨?_, fun last done => ?_⟩⟩
  · exact congrArg (· >>= fun found =>
      readFields length .whole item bound false (found.1.toList ++ []) found.2) read
  · exact congrArg (· >>= fun found =>
      readFields length .whole item bound false (found.1.toList ++ last :: done) found.2) read

theorem reads_object {fields : List (String × Json)}
    (known : ∀ field ∈ fields, Reads (item .whole) (textOf field.2) field.2)
    (fits : fields.length ≤ length) :
    Reads (readWith length (some item) .whole) (textOf (.object fields))
      (.object fields) := by
  rw [textOf_object]
  refine ⟨⟨_, _, rfl, rfl, by decide⟩, ?_⟩
  intro rest start _
  rcases loop_separated '\x7d' (fun field mem => takes_readFields (known field mem))
    (fun _ _ _ _ _ => rfl) (by decide) fits rest start with ⟨stop, read⟩
  refine ⟨stop, ?_⟩
  rw [List.append_assoc]
  exact congrArg (Except.map fun found => (object found.1, found.2)) read

end

/-! ## Documents -/

mutual

/-- How many lists and objects are nested in a document. -/
def depth : Json → Nat
  | .array items => depthItems items + 1
  | .object fields => depthFields fields + 1
  | .null | .bool _ | .number _ | .string _ => 0

/-- How deeply the items of a list are nested. -/
def depthItems : List Json → Nat
  | [] => 0
  | item :: rest => max item.depth (depthItems rest)

/-- How deeply the values of fields are nested. -/
def depthFields : List (String × Json) → Nat
  | [] => 0
  | (_, value) :: rest => max value.depth (depthFields rest)

end

theorem depthItems_le_iff {items : List Json} {levels : Nat} :
    depthItems items ≤ levels ↔ ∀ item ∈ items, item.depth ≤ levels := by
  induction items with
  | nil => simp [depthItems]
  | cons item rest ih => simp only [depthItems, Nat.max_le, ih, List.forall_mem_cons]

theorem depthFields_le_iff {fields : List (String × Json)} {levels : Nat} :
    depthFields fields ≤ levels ↔ ∀ field ∈ fields, field.2.depth ≤ levels := by
  induction fields with
  | nil => simp [depthFields]
  | cons field rest ih => simp only [depthFields, Nat.max_le, ih, List.forall_mem_cons]

/-- A document whose integers have 64 bits and whose fractions are read back from their texts. -/
inductive Legible : Json → Prop
  | null : Legible .null
  | bool (value : Bool) : Legible (.bool value)
  | integer {value : Int} (lower : -(Nat.pow 2 63 : Nat) ≤ value) (upper : value ≤ maxWord) :
      Legible (.number (.integer value))
  | float {value : Double} (back : ReadsBack (.float value)) : Legible (.number (.float value))
  | string (value : String) : Legible (.string value)
  | array {items : List Json} (inside : ∀ item ∈ items, Legible item) : Legible (.array items)
  | object {fields : List (String × Json)} (inside : ∀ field ∈ fields, Legible field.2) :
      Legible (.object fields)

theorem reads_null : Reads (readWith length nested .whole) (textOf .null) .null := by
  refine ⟨⟨_, _, rfl, rfl, by decide⟩, ?_⟩
  intro rest start _
  exact ⟨_, rfl⟩

theorem reads_bool (value : Bool) :
    Reads (readWith length nested .whole) (textOf (.bool value)) (.bool value) := by
  cases value with
  | true | false =>
    refine ⟨⟨_, _, rfl, rfl, by decide⟩, ?_⟩
    intro rest start _
    exact ⟨_, rfl⟩

/-- A value without brackets is read at every level. -/
theorem Reads.at_level {chars : List Char}
    (reads : ∀ nested, Reads (readWith length nested .whole) chars value) (levels : Nat) :
    Reads (readValue length levels .whole) chars value := by
  cases levels with
  | zero => exact reads none
  | succ levels => exact reads (some (readValue length levels))

/-- The text of a document is read with as many levels as the document has, or more. -/
theorem reads_textOf {levels : Nat} (legible : value.Legible) (within : value.depth ≤ levels)
    (fits : (textOf value).length ≤ length) :
    Reads (readValue length levels .whole) (textOf value) value := by
  induction legible generalizing levels with
  | null => exact .at_level (fun _ => reads_null) levels
  | bool value => exact .at_level (fun _ => reads_bool value) levels
  | integer lower upper =>
    exact .at_level (fun _ => reads_number (readsBack_integer lower upper)) levels
  | float back => exact .at_level (fun _ => reads_number back) levels
  | string value => exact .at_level (fun _ => reads_string value) levels
  | @array items inside ih =>
    cases levels with
    | zero => cases within
    | succ levels =>
      rw [textOf_array, List.length_append, List.length_cons] at fits
      apply reads_array
      · intro value mem
        apply ih value mem (depthItems_le_iff.1 (Nat.le_of_succ_le_succ within) value mem)
        have le := length_le_separated (List.mem_map_of_mem (f := textOf) mem)
        exact Nat.le_trans le (by omega)
      · have le := count_le_separated (items.map textOf)
        rw [List.length_map] at le
        omega
  | @object fields inside ih =>
    cases levels with
    | zero => cases within
    | succ levels =>
      rw [textOf_object, List.length_append, List.length_cons] at fits
      apply reads_object
      · intro field mem
        apply ih field mem (depthFields_le_iff.1 (Nat.le_of_succ_le_succ within) field mem)
        have le := length_le_separated (List.mem_map_of_mem (f := fieldText) mem)
        rw [fieldText, List.length_append, List.length_cons] at le
        omega
      · have le := count_le_separated (fields.map fieldText)
        rw [List.length_map] at le
        omega

end Componentry.Json
