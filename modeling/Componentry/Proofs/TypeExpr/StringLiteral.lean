import Mathlib.Data.List.Basic
import Componentry.Text.Blank
import Componentry.TypeExpr.Print

/-!
# String literals that are read again

A string literal of TypeScript ends at the first quote that is not escaped, and
its value is a sequence of UTF-16 code units. Printing escapes quotes only, so a
backslash of the value becomes the start of an escape, and a line break ends the
literal. Other values are read back, and no value with a backslash or a line break is.

The second part is a matter of counting. Each escape is longer than what it stands
for. So a literal that stands for as much as a printed one has room for its quotes
and for nothing else (`Bounds`).
-/

namespace Componentry

/-! ## Code units -/

/-- The UTF-16 code units of a code point. -/
def codeUnits (code : Nat) : List Nat :=
  if code < 0x10000 then [code]
  else [0xD800 + (code - 0x10000) / 0x400, 0xDC00 + (code - 0x10000) % 0x400]

/-- The UTF-16 code units of a text. -/
def utf16 (chars : List Char) : List Nat :=
  chars.flatMap fun c => codeUnits c.toNat

theorem length_codeUnits (code : Nat) :
    1 ≤ (codeUnits code).length ∧ (codeUnits code).length ≤ 2 := by
  rw [codeUnits]
  split <;> simp

theorem mem_codeUnits {code unit : Nat} (small : unit < 0xD800) :
    unit ∈ codeUnits code ↔ unit = code := by
  rw [codeUnits]
  split
  · simp
  · simp only [List.mem_cons, List.not_mem_nil, or_false]
    omega

theorem count_codeUnits {code unit : Nat} (small : unit < 0xD800) :
    (codeUnits code).count unit = if code = unit then 1 else 0 := by
  by_cases same : code = unit
  · subst same
    have plain : code < 0x10000 := by omega
    simp [codeUnits, plain]
  · rw [if_neg same, List.count_eq_zero, mem_codeUnits small]
    exact Ne.symm same

theorem utf16_append (left right : List Char) : utf16 (left ++ right) = utf16 left ++ utf16 right :=
  List.flatMap_append

theorem utf16_cons (c : Char) (rest : List Char) :
    utf16 (c :: rest) = codeUnits c.toNat ++ utf16 rest :=
  List.flatMap_cons

theorem length_le_utf16 (chars : List Char) : chars.length ≤ (utf16 chars).length := by
  induction chars with
  | nil => exact Nat.le_refl 0
  | cons c rest ih =>
    have one := (length_codeUnits c.toNat).1
    rw [utf16_cons, List.length_append, List.length_cons]
    omega

theorem count_utf16_quote (chars : List Char) : (utf16 chars).count 34 = chars.count '"' := by
  induction chars with
  | nil => rfl
  | cons c rest ih =>
    have same_iff : c.toNat = 34 ↔ c = '"' := by
      rw [← Char.toNat_inj]
      rfl
    rw [utf16_cons, List.count_append, ih, count_codeUnits (by decide), List.count_cons]
    simp only [same_iff, beq_iff_eq, Nat.add_comm]

/-! ## Reading -/

namespace StringLiteral

variable {units : List Nat} {chars rest : List Char} {count : Nat}

def isHex (c : Char) : Bool :=
  (Text.hexValue? c).isSome

def hexCode (digits : List Char) : Nat :=
  digits.foldl (fun code c => code * 16 + (Text.hexValue? c).getD 0) 0

/-- The code of so many hexadecimal digits. -/
def coded? (count : Nat) (chars : List Char) : Option Nat :=
  if (chars.take count).length = count ∧ (chars.take count).all isHex then
    some (hexCode (chars.take count))
  else none

/-- Reads a code point in braces: the code units and the number of characters read. -/
def braced? (chars : List Char) : Option (List Nat × Nat) :=
  let digits := chars.takeWhile isHex
  if digits ≠ [] ∧ (chars.drop digits.length).head? = some '\x7d' ∧ hexCode digits ≤ 0x10FFFF then
    some (codeUnits (hexCode digits), digits.length + 1)
  else none

/-- The control characters that have a letter. -/
def control? : Char → Option Nat
  | 'b' => some 8
  | 't' => some 9
  | 'n' => some 10
  | 'v' => some 11
  | 'f' => some 12
  | 'r' => some 13
  | _ => none

def isLineBreak (c : Char) : Bool :=
  c == '\n' || c == '\r' || c == '\u2028' || c == '\u2029'

/-- Reads an escape after its backslash: the code units and the number of characters read. Line
breaks are left out, digits other than a lone zero are refused, and a character without a meaning
of its own stands for itself. -/
def escape? : List Char → Option (List Nat × Nat)
  | [] => none
  | 'u' :: '\x7b' :: rest => (braced? rest).map fun (units, count) => (units, count + 2)
  | 'u' :: rest => (coded? 4 rest).map fun code => ([code], 5)
  | 'x' :: rest => (coded? 2 rest).map fun code => ([code], 3)
  | '\r' :: '\n' :: _ => some ([], 2)
  | c :: rest =>
    if c.isDigit then
      if c = '0' ∧ rest.head?.all (!·.isDigit) then some ([0], 1) else none
    else if isLineBreak c then some ([], 1)
    else some (((control? c).map ([·])).getD (codeUnits c.toNat), 1)

/-- Reads up to the quote that ends a literal: the code units and the rest of the text. `skip`
counts the characters that belong to the escape read before. -/
def readFrom (skip : Nat) : List Char → Option (List Nat × List Char)
  | [] => none
  | c :: rest =>
    match skip with
    | skip + 1 => readFrom skip rest
    | 0 =>
      if c = '"' then some ([], rest)
      else if c = '\\' then
        match escape? rest with
        | some (units, count) =>
          (readFrom count rest).map fun (more, after) => (units ++ more, after)
        | none => none
      else if c = '\n' ∨ c = '\r' then none
      else (readFrom 0 rest).map fun (more, after) => (codeUnits c.toNat ++ more, after)

/-- Reads a string literal: its value and the rest of the text. -/
def read : List Char → Option (List Nat × List Char)
  | '"' :: rest => readFrom 0 rest
  | _ => none

/-! ## Room in literals -/

/-- The text between the quotes of a literal has room for what it stands for and for a backslash
before each quote; if it has room for nothing else, what it stands for needs no other escape. -/
structure Bounds (content : List Char) (units : List Nat) : Prop where
  quotes : content.count '"' ≤ units.count 34
  room : units.length + units.count 34 ≤ (utf16 content).length
  plain : units.length + units.count 34 = (utf16 content).length →
    ∀ unit ∈ units, unit ≠ 92 ∧ unit ≠ 10 ∧ unit ≠ 13

theorem bounds_nil : Bounds [] [] where
  quotes := Nat.le_refl 0
  room := Nat.le_refl 0
  plain := by simp

theorem Bounds.append {content more : List Char} {others : List Nat} (bounds : Bounds content units)
    (more_bounds : Bounds more others) :
    Bounds (content ++ more) (units ++ others) := by
  have room := bounds.room
  have more_room := more_bounds.room
  refine ⟨?_, ?_, ?_⟩
  · rw [List.count_append, List.count_append]
    exact Nat.add_le_add bounds.quotes more_bounds.quotes
  · rw [utf16_append, List.length_append, List.length_append, List.count_append]
    omega
  · rw [utf16_append, List.length_append, List.length_append, List.count_append]
    intro exact_room unit mem
    rcases List.mem_append.1 mem with here | there
    · exact bounds.plain (by omega) unit here
    · exact more_bounds.plain (by omega) unit there

/-- A text with room to spare. -/
theorem bounds_of_lt {content : List Char} (no_quote : '"' ∉ content)
    (spare : units.length + units.count 34 < (utf16 content).length) : Bounds content units where
  quotes := by
    rw [List.count_eq_zero.2 no_quote]
    exact Nat.zero_le _
  room := Nat.le_of_lt spare
  plain := fun exact_room => absurd exact_room (Nat.ne_of_lt spare)

theorem bounds_char {c : Char} (ordinary : c ≠ '"' ∧ c ≠ '\\' ∧ c ≠ '\n' ∧ c ≠ '\r') :
    Bounds [c] (codeUnits c.toNat) := by
  have other (d : Char) (differs : c ≠ d) : c.toNat ≠ d.toNat := fun same =>
    differs (Char.toNat_inj.1 same)
  have no_quote : (codeUnits c.toNat).count 34 = 0 := by
    rw [count_codeUnits (by decide)]
    exact if_neg (other '"' ordinary.1)
  refine ⟨?_, ?_, ?_⟩
  · simp [ordinary.1]
  · rw [no_quote, utf16_cons]
    simp
  · intro _ unit mem
    have of_eq {code : Nat} (small : code < 0xD800) (differs : c.toNat ≠ code) : unit ≠ code := by
      rintro rfl
      exact differs ((mem_codeUnits small).1 mem).symm
    exact ⟨of_eq (by decide) (other '\\' ordinary.2.1),
      of_eq (by decide) (other '\n' ordinary.2.2.1),
      of_eq (by decide) (other '\r' ordinary.2.2.2)⟩

theorem quote_not_mem_of_all {digits : List Char} (all : digits.all isHex = true) :
    '"' ∉ digits := by
  intro mem
  have here := List.all_eq_true.1 all _ mem
  revert here
  decide

theorem coded?_eq_some {code : Nat} (coded : coded? count chars = some code) :
    count ≤ chars.length ∧ '"' ∉ chars.take count := by
  rw [coded?] at coded
  split at coded
  · rename_i digits
    rw [List.length_take] at digits
    exact ⟨by omega, quote_not_mem_of_all digits.2⟩
  · cases coded

theorem braced?_eq_some (braced : braced? chars = some (units, count)) :
    2 ≤ count ∧ count ≤ chars.length ∧ '"' ∉ chars.take count ∧ units.length ≤ 2 := by
  simp only [braced?] at braced
  split at braced
  · rename_i digits
    cases braced
    rcases digits with ⟨nonempty, closed, -⟩
    have some_digit := List.length_pos_iff.2 nonempty
    have prefix_eq : chars.take (chars.takeWhile isHex).length = chars.takeWhile isHex :=
      (List.prefix_iff_eq_take.1 (List.takeWhile_prefix isHex)).symm
    have not_last : (chars.takeWhile isHex).length < chars.length := by
      by_contra not_less
      rw [List.drop_eq_nil_of_le (Nat.le_of_not_lt not_less)] at closed
      cases closed
    refine ⟨by omega, not_last, ?_, (length_codeUnits _).2⟩
    rw [List.take_add_one, prefix_eq, ← List.head?_drop, closed]
    intro quote
    rcases List.mem_append.1 quote with digit | brace
    · exact quote_not_mem_of_all List.all_takeWhile digit
    · simp at brace
  · cases braced

/-- Any escape but that of a quote has room to spare. -/
theorem bounds_escape {taken : List Char} (no_quote : '"' ∉ taken)
    (spare : units.length + units.count 34 ≤ taken.length) : Bounds ('\\' :: taken) units := by
  have long := length_le_utf16 ('\\' :: taken)
  rw [List.length_cons] at long
  apply bounds_of_lt
  · simp [no_quote]
  · omega

theorem bounds_escaped_quote : Bounds ['\\', '"'] [34] where
  quotes := by decide
  room := by decide
  plain := by decide

/-- A character that stands for itself, or for a control character. -/
theorem bounds_escaped_char (c : Char) :
    Bounds ['\\', c] (((control? c).map ([·])).getD (codeUnits c.toNat)) := by
  by_cases quote : c = '"'
  · subst quote
    exact bounds_escaped_quote
  have no_quote : '"' ∉ ['\\', c] := by
    simp [Ne.symm quote]
  have units_eq : utf16 ['\\', c] = codeUnits 92 ++ codeUnits c.toNat := by
    simp [utf16]
  apply bounds_of_lt no_quote
  rw [units_eq, List.length_append]
  cases control : control? c with
  | none =>
    have other : c.toNat ≠ 34 := fun same => quote (Char.toNat_inj.1 same)
    have back := (length_codeUnits 92).1
    have no_count : (codeUnits c.toNat).count 34 = 0 := by
      rw [count_codeUnits (by decide), if_neg other]
    rw [Option.map_none, Option.getD_none, no_count]
    omega
  | some code =>
    have small : code ≠ 34 := by
      rw [control?.eq_def] at control
      split at control <;> cases control <;> decide
    have lengths := (length_codeUnits 92).1
    have char_lengths := (length_codeUnits c.toNat).1
    have no_count : [code].count 34 = 0 := by
      simp [small]
    rw [Option.map_some, Option.getD_some, no_count, List.length_singleton]
    omega

theorem bounds_coded {letter : Char} (other : '"' ≠ letter) {code : Nat} (some_digit : 1 ≤ count)
    (coded : coded? count rest = some code) :
    count + 1 ≤ (letter :: rest).length ∧
      Bounds ('\\' :: (letter :: rest).take (count + 1)) [code] := by
  rcases coded?_eq_some coded with ⟨inside, no_quote⟩
  have quotes : [code].count 34 ≤ 1 := List.count_le_length
  refine ⟨Nat.add_le_add_right inside 1, bounds_escape ?_ ?_⟩
  · simp [other, no_quote]
  · simp only [List.take_succ_cons, List.length_cons, List.length_take, List.length_nil]
    omega

theorem bounds_braced (braced : braced? rest = some (units, count)) :
    count + 2 ≤ ('u' :: '\x7b' :: rest).length ∧
      Bounds ('\\' :: ('u' :: '\x7b' :: rest).take (count + 2)) units := by
  rcases braced?_eq_some braced with ⟨two, inside, no_quote, short⟩
  have quotes : units.count 34 ≤ units.length := List.count_le_length
  refine ⟨Nat.add_le_add_right inside 2, bounds_escape ?_ ?_⟩
  · simp [no_quote]
  · simp only [List.take_succ_cons, List.length_cons, List.length_take]
    omega

/-- An escape is longer than what it stands for. -/
theorem bounds_of_escape? (escaped : escape? chars = some (units, count)) :
    count ≤ chars.length ∧ Bounds ('\\' :: chars.take count) units := by
  rw [escape?.eq_def] at escaped
  split at escaped
  · cases escaped
  · rcases Option.map_eq_some_iff.1 escaped with ⟨⟨found, length⟩, braced, same⟩
    cases same
    exact bounds_braced braced
  · rcases Option.map_eq_some_iff.1 escaped with ⟨code, coded, same⟩
    cases same
    exact bounds_coded (by decide) (by decide) coded
  · rcases Option.map_eq_some_iff.1 escaped with ⟨code, coded, same⟩
    cases same
    exact bounds_coded (by decide) (by decide) coded
  · cases escaped
    exact ⟨by simp, bounds_escape (by simp) (by simp)⟩
  · rename_i c rest _ _ _ _
    split at escaped
    · split at escaped
      · rename_i zero
        cases escaped
        exact ⟨by simp, bounds_escape (by simp [zero.1]) (by simp)⟩
      · cases escaped
    · split at escaped
      · rename_i broken
        cases escaped
        have other : '"' ≠ c := by
          rintro rfl
          revert broken
          decide
        exact ⟨by simp, bounds_escape (by simp [other]) (by simp)⟩
      · cases escaped
        exact ⟨by simp, bounds_escaped_char c⟩

/-- What is read up to the end of a literal. -/
theorem bounds_of_readFrom {skip : Nat} (read : readFrom skip chars = some (units, rest))
    (enough : skip ≤ chars.length) :
    ∃ content, chars.drop skip = content ++ '"' :: rest ∧ Bounds content units := by
  induction chars generalizing skip units with
  | nil => cases read
  | cons c chars ih =>
    cases skip with
    | succ skip => exact ih read (Nat.le_of_succ_le_succ enough)
    | zero =>
      rw [readFrom] at read
      split at read
      · rename_i closes
        cases read
        exact ⟨[], by simp [closes], bounds_nil⟩
      · rename_i not_quote
        split at read
        · rename_i backslash
          cases escaped : escape? chars with
          | none => simp [escaped] at read
          | some found =>
            rcases found with ⟨found, count⟩
            simp only [escaped, Option.map_eq_some_iff] at read
            rcases read with ⟨⟨more, after⟩, later, same⟩
            cases same
            rcases bounds_of_escape? escaped with ⟨count_le, bounds⟩
            rcases ih later count_le with ⟨content, drop_eq, more_bounds⟩
            refine ⟨'\\' :: chars.take count ++ content, ?_, bounds.append more_bounds⟩
            have parts := List.take_append_drop count chars
            rw [drop_eq] at parts
            rw [List.drop_zero, backslash, List.append_assoc, List.cons_append, parts]
        · rename_i not_backslash
          split at read
          · cases read
          · rename_i not_break
            rw [not_or] at not_break
            simp only [Option.map_eq_some_iff] at read
            rcases read with ⟨⟨more, after⟩, later, same⟩
            cases same
            rcases ih later (Nat.zero_le _) with ⟨content, drop_eq, more_bounds⟩
            have bounds := bounds_char ⟨not_quote, not_backslash, not_break⟩
            refine ⟨[c] ++ content, ?_, bounds.append more_bounds⟩
            rw [List.drop_zero] at drop_eq ⊢
            rw [drop_eq]
            rfl

/-! ## Printed literals -/

/-- The text between the quotes of a printed literal. -/
def content (chars : List Char) : List Char :=
  chars.flatMap Literal.escapeQuote

/-- No character of the text needs an escape other than that of a quote. -/
def Plain (chars : List Char) : Prop :=
  ∀ c ∈ chars, c ≠ '\\' ∧ c ≠ '\n' ∧ c ≠ '\r'

theorem content_cons (c : Char) (rest : List Char) :
    content (c :: rest) = Literal.escapeQuote c ++ content rest :=
  List.flatMap_cons

theorem count_content (chars : List Char) : (content chars).count '"' = chars.count '"' := by
  induction chars with
  | nil => rfl
  | cons c rest ih =>
    rw [content_cons, List.count_append, ih, Literal.escapeQuote, List.count_cons]
    by_cases quote : c = '"' <;> simp [quote, Nat.add_comm]

/-- A printed literal has room for its quotes and for nothing else. -/
theorem length_utf16_content (chars : List Char) :
    (utf16 (content chars)).length = (utf16 chars).length + (utf16 chars).count 34 := by
  induction chars with
  | nil => rfl
  | cons c rest ih =>
    rw [content_cons, utf16_append, utf16_cons, List.length_append, List.length_append,
      List.count_append, ih, Literal.escapeQuote]
    by_cases quote : c = '"'
    · subst quote
      have escaped : (utf16 ['\\', '"']).length = 2 := rfl
      have alone : (codeUnits '"'.toNat).length = 1 ∧ (codeUnits '"'.toNat).count 34 = 1 :=
        ⟨rfl, rfl⟩
      rw [if_pos rfl, escaped, alone.1, alone.2]
      omega
    · have other : c.toNat ≠ 34 := fun same => quote (Char.toNat_inj.1 same)
      have no_count : (codeUnits c.toNat).count 34 = 0 := by
        rw [count_codeUnits (by decide), if_neg other]
      have alone : utf16 [c] = codeUnits c.toNat := by
        rw [utf16_cons]
        exact List.append_nil _
      rw [if_neg quote, no_count, alone]
      omega

theorem plain_of_units (units : ∀ unit ∈ utf16 chars, unit ≠ 92 ∧ unit ≠ 10 ∧ unit ≠ 13) :
    Plain chars := by
  intro c mem
  have inside {code : Nat} (small : code < 0xD800) (same : code = c.toNat) : code ∈ utf16 chars :=
    List.mem_flatMap.2 ⟨c, mem, (mem_codeUnits small).2 same⟩
  refine ⟨?_, ?_, ?_⟩
  · rintro rfl
    exact (units 92 (inside (by decide) rfl)).1 rfl
  · rintro rfl
    exact (units 10 (inside (by decide) rfl)).2.1 rfl
  · rintro rfl
    exact (units 13 (inside (by decide) rfl)).2.2 rfl

theorem readFrom_content (plain : Plain chars) (rest : List Char) :
    readFrom 0 (content chars ++ '"' :: rest) = some (utf16 chars, rest) := by
  induction chars with
  | nil => rfl
  | cons c chars ih =>
    have later := ih fun d mem => plain d (List.mem_cons_of_mem c mem)
    have ordinary := plain c List.mem_cons_self
    rw [content_cons, Literal.escapeQuote, utf16_cons]
    by_cases quote : c = '"'
    · subst quote
      have step : readFrom 0 ('\\' :: '"' :: (content chars ++ '"' :: rest)) =
          (readFrom 0 (content chars ++ '"' :: rest)).map fun found => (34 :: found.1, found.2) :=
        rfl
      rw [if_pos rfl, List.append_assoc]
      exact step.trans (by rw [later]; rfl)
    · rw [if_neg quote, List.append_assoc, List.singleton_append, readFrom]
      simp [quote, ordinary, later]

/-- If a printed literal is read with its value, it is read to its end and the value is plain. -/
theorem of_readFrom_content {after : List Char}
    (read : readFrom 0 (content chars ++ '"' :: rest) = some (utf16 chars, after)) :
    after = rest ∧ Plain chars := by
  rcases bounds_of_readFrom read (Nat.zero_le _) with ⟨found, text_eq, bounds⟩
  have room := bounds.room
  rw [← length_utf16_content] at room
  have quotes : found.count '"' ≤ (content chars).count '"' := by
    rw [count_content, ← count_utf16_quote chars]
    exact bounds.quotes
  have plain_of_eq (same : content chars = found) : Plain chars := by
    apply plain_of_units
    apply bounds.plain
    rw [← length_utf16_content, same]
  rw [List.drop_zero, List.append_eq_append_iff] at text_eq
  rcases text_eq with ⟨more, found_eq, rest_eq⟩ | ⟨more, content_eq, rest_eq⟩
  · rcases more with _ | ⟨c, more⟩
    · rw [List.append_nil] at found_eq
      exact ⟨(List.cons.inj rest_eq).2.symm, plain_of_eq found_eq.symm⟩
    · -- The literal goes on after its own end, so that it has one quote too many.
      obtain rfl : '"' = c := (List.cons.inj rest_eq).1
      rw [found_eq, List.count_append, List.count_cons_self] at quotes
      omega
  · rcases more with _ | ⟨c, more⟩
    · rw [List.append_nil] at content_eq
      exact ⟨(List.cons.inj rest_eq).2, plain_of_eq content_eq⟩
    · -- The literal ends before its own end, where it has no room for its value.
      have last := length_le_utf16 (c :: more)
      rw [content_eq, utf16_append, List.length_append] at room
      rw [List.length_cons] at last
      omega

theorem toList_print (value : String) :
    (Literal.string value).print.toList = '"' :: (content value.toList ++ ['"']) := by
  rw [Literal.print, String.toList_ofList]
  rfl

/-- A printed literal is read back, whatever follows it, exactly if it is plain. -/
theorem read_print_iff (value : String) (rest : List Char) :
    read ((Literal.string value).print.toList ++ rest) = some (utf16 value.toList, rest) ↔
      Plain value.toList := by
  have text_eq : (Literal.string value).print.toList ++ rest =
      '"' :: (content value.toList ++ '"' :: rest) := by
    simp [toList_print]
  rw [text_eq, read]
  exact ⟨fun found => (of_readFrom_content found).2, fun plain => readFrom_content plain rest⟩

/-! ## Unions -/

/-- What a union of string literals is made of. -/
inductive Token where
  | string (units : List Nat)
  | bar
deriving DecidableEq, Repr

/-- Cuts a text into string literals and bars. Blanks are left out, and there is nothing else.
`skip` counts the characters that belong to the literal read before. -/
def lexFrom (skip : Nat) : List Char → Option (List Token)
  | [] => some []
  | c :: rest =>
    match skip with
    | skip + 1 => lexFrom skip rest
    | 0 =>
      if c = '"' then
        match readFrom 0 rest with
        | some (units, after) =>
          (lexFrom (rest.length - after.length) rest).map (.string units :: ·)
        | none => none
      else if c = '|' then (lexFrom 0 rest).map (.bar :: ·)
      else if Text.isBlank c then lexFrom 0 rest
      else none

/-- The string literals and bars of a text. -/
def lex (chars : List Char) : Option (List Token) :=
  lexFrom 0 chars

/-- The tokens of a union of values. -/
def tokens (values : List String) : List Token :=
  (values.map fun value => Token.string (utf16 value.toList)).intersperse .bar

theorem lexFrom_length (text rest : List Char) :
    lexFrom text.length (text ++ rest) = lex rest := by
  induction text with
  | nil => rfl
  | cons c text ih => exact ih

/-- When the text of a literal is one string token of its value. -/
theorem lex_string_iff (value rest : List Char) (later : List Token) :
    lex ('"' :: (content value ++ '"' :: rest)) = some (.string (utf16 value) :: later) ↔
      Plain value ∧ lex rest = some later := by
  have skipped : lexFrom ((content value ++ '"' :: rest).length - rest.length)
      (content value ++ '"' :: rest) = lex rest := by
    have length_eq : (content value ++ '"' :: rest).length - rest.length =
        (content value ++ ['"']).length := by
      simp only [List.length_append, List.length_cons, List.length_nil]
      omega
    rw [length_eq, ← lexFrom_length (content value ++ ['"']), List.append_assoc]
    rfl
  rw [lex, lexFrom, if_pos rfl]
  constructor
  · intro lexed
    cases found : readFrom 0 (content value ++ '"' :: rest) with
    | none => simp [found] at lexed
    | some result =>
      rcases result with ⟨units, after⟩
      simp only [found, Option.map_eq_some_iff] at lexed
      rcases lexed with ⟨others, others_eq, same⟩
      cases same
      rcases of_readFrom_content found with ⟨rfl, plain⟩
      rw [skipped] at others_eq
      exact ⟨plain, others_eq⟩
  · rintro ⟨plain, later_eq⟩
    simp only [readFrom_content plain rest, skipped, later_eq]
    rfl

theorem lex_bar (rest : List Char) : lex (" | ".toList ++ rest) = (lex rest).map (.bar :: ·) :=
  rfl

theorem toList_print_union (values : List String) :
    (TypeExpr.union (values.map TypeExpr.stringLiteral)).print.toList =
      " | ".toList.intercalate
        (values.map fun value => '"' :: (content value.toList ++ ['"'])) := by
  have operands : TypeExpr.printOperands (values.map TypeExpr.stringLiteral) =
      values.map fun value => (Literal.string value).print := by
    induction values with
    | nil => rfl
    | cons value values ih =>
      rw [List.map_cons, TypeExpr.printOperands, ih]
      rfl
  rw [TypeExpr.print, operands, String.toList_intercalate, List.map_map]
  simp only [Function.comp_def, toList_print]

/-- The text of a union of string literals has its tokens exactly if all values are plain. -/
theorem lex_print_union_iff (values : List String) :
    lex (TypeExpr.union (values.map TypeExpr.stringLiteral)).print.toList = some (tokens values) ↔
      ∀ value ∈ values, Plain value.toList := by
  rw [toList_print_union]
  induction values with
  | nil => simp [lex, lexFrom, tokens]
  | cons value values ih =>
    cases values with
    | nil =>
      have one := lex_string_iff value.toList [] []
      simpa [tokens, lex, lexFrom] using one
    | cons next values =>
      have text_eq : " | ".toList.intercalate ((value :: next :: values).map fun value =>
          '"' :: (content value.toList ++ ['"'])) =
          '"' :: (content value.toList ++ '"' :: (" | ".toList ++
            " | ".toList.intercalate ((next :: values).map fun value =>
              '"' :: (content value.toList ++ ['"'])))) := by
        simp [List.intercalate_cons_cons]
      have tokens_eq : tokens (value :: next :: values) =
          .string (utf16 value.toList) :: .bar :: tokens (next :: values) :=
        rfl
      rw [text_eq, tokens_eq, lex_string_iff, lex_bar, List.forall_mem_cons]
      simpa using and_congr_right fun _ => ih

/-- String literals, alone or in unions, are read back exactly if their values have no backslash and
no line break. -/
theorem string_literals_read_back_iff (value : String) (rest : List Char)
    (values : List String) :
    (read ((Literal.string value).print.toList ++ rest) = some (utf16 value.toList, rest) ↔
        Plain value.toList) ∧
      (lex (TypeExpr.union (values.map TypeExpr.stringLiteral)).print.toList =
          some (tokens values) ↔
        ∀ value ∈ values, Plain value.toList) :=
  ⟨read_print_iff value rest, lex_print_union_iff values⟩

/-- A backslash at the end of a value escapes the quote that ends the literal. -/
theorem backslash_escapes_last_quote :
    (Literal.string "a\\").print = "\"a\\\"" ∧ read (Literal.string "a\\").print.toList = none ∧
      lex (TypeExpr.union [.stringLiteral "a\\", .stringLiteral "b"]).print.toList = none := by
  decide

end StringLiteral

end Componentry
