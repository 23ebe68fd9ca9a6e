import Componentry.Json.Reader
import Componentry.Json.Writer
import Componentry.Proofs.Text.Ascii

/-!
# Numbers are read back

A number ends where no digit, point or exponent follows, so it is read alike
whatever stands behind it in a document (`local_readNumber`). Each part of the
reader is local because it hands the text on, perhaps without its first
characters, to a part that is (`LocalAt.shift`).

An integer is read back if it fits 64 bits. That a floating-point number is read
back from its text has to be assumed of the number: reading rounds twice, and not
every number survives that.
-/

namespace Componentry.Json

/-- What can stand behind a value in a text without blanks. -/
def Ends (rest : List Char) : Prop :=
  ∀ c ∈ rest.head?, c = ',' ∨ c = ']' ∨ c = '\x7d'

theorem ends_nil : Ends [] := by
  simp [Ends]

namespace Ends

variable {chars rest : List Char}

theorem head?_append (ends : Ends rest) {c : Char} (inside : c ∉ [',', ']', '\x7d']) :
    (chars ++ rest).head? = some c ↔ chars.head? = some c := by
  cases chars with
  | nil =>
    simp only [List.nil_append, List.head?_nil, reduceCtorEq, iff_false]
    intro first
    have closes := ends c first
    simp only [List.mem_cons, List.not_mem_nil, or_false] at inside
    exact inside closes
  | cons head rest => simp

theorem exponent_append (ends : Ends rest) :
    ((chars ++ rest).head? = some 'e' ∨ (chars ++ rest).head? = some 'E') ↔
      (chars.head? = some 'e' ∨ chars.head? = some 'E') := by
  rw [ends.head?_append (by decide), ends.head?_append (by decide)]

theorem takeWhile_append (ends : Ends rest) :
    (chars ++ rest).takeWhile Char.isDigit = chars.takeWhile Char.isDigit := by
  induction chars with
  | nil =>
    cases rest with
    | nil => rfl
    | cons head others =>
      have no_digit : head.isDigit = false := by
        rcases ends head rfl with rfl | rfl | rfl
        · rfl
        · rfl
        · rfl
      simp [no_digit]
  | cons head others ih =>
    rw [List.cons_append, List.takeWhile_cons, List.takeWhile_cons, ih]

end Ends

theorem length_takeWhile_le (chars : List Char) :
    (chars.takeWhile Char.isDigit).length ≤ chars.length :=
  (List.takeWhile_sublist _).length_le

theorem Cursor.advance_append {chars : List Char} {count : Nat} (inside : count ≤ chars.length)
    (rest : List Char) (index : Nat) :
    (⟨chars ++ rest, index⟩ : Cursor).advance count =
      ⟨chars.drop count ++ rest, index + count⟩ := by
  rw [advance, List.drop_append_of_le_length inside]

/-! ## Readers that stop -/

/-- What is read from a text does not depend on what ends the value behind it. -/
def LocalAt {α : Type} (read : Cursor → Except Failure (α × Cursor)) (chars : List Char) : Prop :=
  ∀ index value after, read ⟨chars, index⟩ = .ok (value, after) →
    after.rest <:+ chars ∧ ∀ rest start, Ends rest →
      ∃ stop, read ⟨chars ++ rest, start⟩ = .ok (value, ⟨after.rest ++ rest, stop⟩)

section

variable {α : Type} {read other : Cursor → Except Failure (α × Cursor)} {chars : List Char}

theorem LocalAt.shift {inner : List Char} (skipped : Nat) (inside : inner <:+ chars)
    (stops : LocalAt other inner)
    (same : ∀ rest start, Ends rest →
      read ⟨chars ++ rest, start⟩ = other ⟨inner ++ rest, start + skipped⟩) :
    LocalAt read chars := by
  intro index value after succeeded
  have alone := same [] index ends_nil
  rw [List.append_nil, List.append_nil] at alone
  rcases stops _ _ _ (alone.symm.trans succeeded) with ⟨shorter, appended⟩
  refine ⟨shorter.trans inside, ?_⟩
  intro rest start ends
  rw [same rest start ends]
  exact appended rest _ ends

theorem LocalAt.congr (stops : LocalAt other chars)
    (same : ∀ rest start, Ends rest →
      read ⟨chars ++ rest, start⟩ = other ⟨chars ++ rest, start⟩) : LocalAt read chars :=
  stops.shift 0 (List.suffix_refl _) same

theorem localAt_of_fails (fails : ∀ index, ∃ failure, read ⟨chars, index⟩ = .error failure) :
    LocalAt read chars := by
  intro index value after succeeded
  rcases fails index with ⟨failure, failed⟩
  rw [failed] at succeeded
  contradiction

/-- A reader that moves over some characters and gives a value. -/
theorem localAt_of_advance {count : Nat} {result : α} (inside : count ≤ chars.length)
    (reads : ∀ rest start, read ⟨chars ++ rest, start⟩ =
      .ok (result, (⟨chars ++ rest, start⟩ : Cursor).advance count)) : LocalAt read chars := by
  intro index value after succeeded
  have alone := reads [] index
  rw [List.append_nil] at alone
  cases alone.symm.trans succeeded
  refine ⟨List.drop_suffix _ _, ?_⟩
  intro rest start _
  rw [reads rest start, Cursor.advance_append inside]
  exact ⟨_, rfl⟩

end

/-! ## Parts of numbers -/

section

variable (negative : Bool) (digits : Nat) (power : Int) (chars : List Char)

theorem localAt_finishFloat : LocalAt (finishFloat negative digits power) chars := by
  cases made : Double.ofDecimal? negative digits power with
  | none =>
    apply localAt_of_fails
    intro index
    simp [finishFloat, made, Cursor.fail]
  | some result =>
    apply localAt_of_advance (Nat.zero_le _)
    intro rest start
    rw [finishFloat, made]
    rfl

theorem absorbExponent_cons (value used : Nat) (c : Char) (rest : List Char) :
    absorbExponent value used (c :: rest) =
      if value * 10 + digitValue c < Nat.pow 2 31 then
        absorbExponent (value * 10 + digitValue c) (used + 1) rest
      else (none, used + 1) :=
  rfl

theorem absorbExponent_le (value used : Nat) (run : List Char) :
    (absorbExponent value used run).2 ≤ used + run.length := by
  induction run generalizing value used with
  | nil => exact Nat.le_refl used
  | cons c rest ih =>
    rw [absorbExponent_cons, List.length_cons]
    split
    · have le := ih (value * 10 + digitValue c) (used + 1)
      omega
    · dsimp only
      omega

/-- Ends a number by the digits of its exponent. -/
def applyExponent (raised : Bool) (run : List Char) (start : Cursor) :
    Except Failure (JsonNumber × Cursor) :=
  match absorbExponent 0 0 run with
  | (some exponent, used) =>
    finishFloat negative digits (if raised then power + exponent else power - exponent)
      (start.advance used)
  | (none, used) =>
    if digits ≠ 0 && raised then (start.advance used).fail .numberOutOfRange
    else .ok (.float (Double.zero negative), start.advance run.length)

theorem localAt_applyExponent (raised : Bool) {run : List Char}
    (inside : run.length ≤ chars.length) :
    LocalAt (applyExponent negative digits power raised run) chars := by
  have used_le := absorbExponent_le 0 0 run
  rcases absorbed : absorbExponent 0 0 run with ⟨exponent, used⟩
  rw [absorbed] at used_le
  cases exponent with
  | some exponent =>
    apply (localAt_finishFloat negative digits _ _).shift used (List.drop_suffix used chars)
    intro rest start _
    simp only [applyExponent, absorbed]
    rw [Cursor.advance_append (by omega)]
  | none =>
    by_cases overflows : (digits ≠ 0 && raised) = true
    · apply localAt_of_fails
      intro index
      simp only [applyExponent, absorbed]
      rw [if_pos overflows]
      exact ⟨_, rfl⟩
    · apply localAt_of_advance inside
      intro rest start
      simp only [applyExponent, absorbed]
      rw [if_neg overflows]

/-- Reads an exponent after its sign. -/
def readPower (raised : Bool) (start : Cursor) : Except Failure (JsonNumber × Cursor) :=
  match start.rest with
  | [] => start.fail .endInValue
  | c :: _ =>
    if c.isDigit then
      applyExponent negative digits power raised (start.rest.takeWhile Char.isDigit) start
    else (start.advance 1).fail .invalidNumber

theorem localAt_readPower (raised : Bool) :
    LocalAt (readPower negative digits power raised) chars := by
  cases chars with
  | nil => exact localAt_of_fails fun index => ⟨_, rfl⟩
  | cons c others =>
    by_cases digit : c.isDigit = true
    · apply (localAt_applyExponent negative digits power (c :: others) raised
        (length_takeWhile_le _)).congr
      intro rest start ends
      rw [readPower]
      dsimp only [List.cons_append]
      rw [if_pos digit, ← List.cons_append, ends.takeWhile_append]
    · apply localAt_of_fails
      intro index
      rw [readPower]
      dsimp only
      rw [if_neg digit]
      exact ⟨_, rfl⟩

/-- The sign of an exponent, and where its digits start. -/
def exponentSign (start : Cursor) : Bool × Cursor :=
  match start.rest with
  | '+' :: _ => (true, start.advance 1)
  | '-' :: _ => (false, start.advance 1)
  | _ => (true, start)

theorem readExponent_eq (cursor : Cursor) :
    readExponent negative digits power cursor =
      readPower negative digits power (exponentSign (cursor.advance 1)).1
        (exponentSign (cursor.advance 1)).2 :=
  rfl

theorem head?_ne_of_ne_cons {chars : List Char} {c : Char}
    (different : ∀ rest, chars = c :: rest → False) : chars.head? ≠ some c := by
  intro first
  rcases List.head?_eq_some_iff.1 first with ⟨rest, chars_eq⟩
  exact different rest chars_eq

theorem exponentSign_eq (start : Cursor) :
    exponentSign start =
      if start.rest.head? = some '+' then (true, start.advance 1)
      else if start.rest.head? = some '-' then (false, start.advance 1)
      else (true, start) := by
  rw [exponentSign]
  split
  · rename_i plus
    simp [plus]
  · rename_i minus
    simp [minus]
  · rename_i no_plus no_minus
    rw [if_neg (head?_ne_of_ne_cons no_plus), if_neg (head?_ne_of_ne_cons no_minus)]

theorem localAt_readExponent : LocalAt (readExponent negative digits power) chars := by
  cases chars with
  | nil => exact localAt_of_fails fun index => ⟨_, rfl⟩
  | cons letter others =>
    have longer : others <:+ letter :: others := List.suffix_cons _ _
    by_cases plus : others.head? = some '+'
    · rcases List.head?_eq_some_iff.1 plus with ⟨exponent, rfl⟩
      apply (localAt_readPower negative digits power exponent true).shift 2
        ((List.suffix_cons _ _).trans longer)
      intro rest start _
      rfl
    · by_cases minus : others.head? = some '-'
      · rcases List.head?_eq_some_iff.1 minus with ⟨exponent, rfl⟩
        apply (localAt_readPower negative digits power exponent false).shift 2
          ((List.suffix_cons _ _).trans longer)
        intro rest start _
        rfl
      · apply (localAt_readPower negative digits power others true).shift 1 longer
        intro rest start ends
        have no_plus : (others ++ rest).head? ≠ some '+' := by
          rwa [Ne, ends.head?_append (by decide)]
        have no_minus : (others ++ rest).head? ≠ some '-' := by
          rwa [Ne, ends.head?_append (by decide)]
        rw [readExponent_eq, exponentSign_eq]
        simp only [Cursor.advance, List.cons_append, List.drop_one, List.tail_cons]
        rw [if_neg no_plus, if_neg no_minus]

theorem readScale_eq (cursor : Cursor) :
    readScale negative digits power cursor =
      if cursor.rest.head? = some 'e' ∨ cursor.rest.head? = some 'E' then
        readExponent negative digits power cursor
      else finishFloat negative digits power cursor := by
  rw [readScale]
  split
  · rename_i small
    simp [small]
  · rename_i large
    simp [large]
  · rename_i no_small no_large
    rw [if_neg (not_or.2 ⟨head?_ne_of_ne_cons no_small, head?_ne_of_ne_cons no_large⟩)]

theorem localAt_readScale : LocalAt (readScale negative digits power) chars := by
  by_cases letter : chars.head? = some 'e' ∨ chars.head? = some 'E'
  · apply (localAt_readExponent negative digits power chars).congr
    intro rest start ends
    rw [← ends.exponent_append] at letter
    rw [readScale_eq, if_pos letter]
  · apply (localAt_finishFloat negative digits power chars).congr
    intro rest start ends
    rw [← ends.exponent_append] at letter
    rw [readScale_eq, if_neg letter]

theorem localAt_readFraction : LocalAt (readFraction negative digits power) chars := by
  cases chars with
  | nil => exact localAt_of_fails fun index => ⟨_, rfl⟩
  | cons point others =>
    by_cases no_digits : (others.takeWhile Char.isDigit).isEmpty = true
    · apply localAt_of_fails
      intro index
      rw [readFraction]
      simp only [Cursor.advance, List.drop_one, List.tail_cons]
      rw [if_pos no_digits]
      split
      · exact ⟨_, rfl⟩
      · exact ⟨_, rfl⟩
    · apply (localAt_readScale negative _ _ _).shift _
        ((List.drop_suffix (others.takeWhile Char.isDigit).length others).trans
          (List.suffix_cons _ _))
      intro rest start ends
      rw [readFraction]
      simp only [Cursor.advance, List.cons_append, List.drop_one, List.tail_cons]
      rw [ends.takeWhile_append, if_neg no_digits,
        List.drop_append_of_le_length (length_takeWhile_le others), Nat.add_assoc]

/-- Ends a number that has digits only. -/
def finishDigits (dropped : Nat) (after : Cursor) : Except Failure (JsonNumber × Cursor) :=
  if dropped = 0 then
    match integerNumber negative digits with
    | some value => .ok (value, after)
    | none => after.fail .numberOutOfRange
  else finishFloat negative digits dropped after

theorem localAt_finishDigits (dropped : Nat) :
    LocalAt (finishDigits negative digits dropped) chars := by
  by_cases all_read : dropped = 0
  · cases number : integerNumber negative digits with
    | none =>
      apply localAt_of_fails
      intro index
      simp [finishDigits, all_read, number, Cursor.fail]
    | some result =>
      apply localAt_of_advance (Nat.zero_le _)
      intro rest start
      rw [finishDigits, if_pos all_read, number]
      rfl
  · apply (localAt_finishFloat negative digits dropped chars).congr
    intro rest start _
    rw [finishDigits, if_neg all_read]

/-- Goes on after the first digits of a number. -/
def readTail (dropped : Nat) (after : Cursor) : Except Failure (JsonNumber × Cursor) :=
  match after.rest with
  | '.' :: _ => readFraction negative digits dropped after
  | 'e' :: _ => readExponent negative digits dropped after
  | 'E' :: _ => readExponent negative digits dropped after
  | _ => finishDigits negative digits dropped after

theorem readTail_eq (dropped : Nat) (after : Cursor) :
    readTail negative digits dropped after =
      if after.rest.head? = some '.' then readFraction negative digits dropped after
      else if after.rest.head? = some 'e' ∨ after.rest.head? = some 'E' then
        readExponent negative digits dropped after
      else finishDigits negative digits dropped after := by
  rw [readTail]
  split
  · rename_i point
    simp [point]
  · rename_i small
    simp [small]
  · rename_i large
    simp [large]
  · rename_i no_point no_small no_large
    rw [if_neg (head?_ne_of_ne_cons no_point),
      if_neg (not_or.2 ⟨head?_ne_of_ne_cons no_small, head?_ne_of_ne_cons no_large⟩)]

theorem localAt_readTail (dropped : Nat) : LocalAt (readTail negative digits dropped) chars := by
  by_cases point : chars.head? = some '.'
  · apply (localAt_readFraction negative digits dropped chars).congr
    intro rest start ends
    rw [← ends.head?_append (by decide)] at point
    rw [readTail_eq, if_pos point]
  · by_cases letter : chars.head? = some 'e' ∨ chars.head? = some 'E'
    · apply (localAt_readExponent negative digits dropped chars).congr
      intro rest start ends
      rw [← ends.head?_append (by decide)] at point
      rw [← ends.exponent_append] at letter
      rw [readTail_eq, if_neg point, if_pos letter]
    · apply (localAt_finishDigits negative digits chars dropped).congr
      intro rest start ends
      rw [← ends.head?_append (by decide)] at point
      rw [← ends.exponent_append] at letter
      rw [readTail_eq, if_neg point, if_neg letter]

theorem readNumber_cons (c : Char) (others : List Char) (index : Nat) :
    readNumber negative ⟨c :: others, index⟩ =
      if !c.isDigit then ((⟨c :: others, index⟩ : Cursor).advance 1).fail .invalidNumber
      else if c = '0' && 1 < ((c :: others).takeWhile Char.isDigit).length then
        ((⟨c :: others, index⟩ : Cursor).advance 1).failNext .invalidNumber
      else
        readTail negative (absorbDigits 0 ((c :: others).takeWhile Char.isDigit)).1
          (absorbDigits 0 ((c :: others).takeWhile Char.isDigit)).2
          ((⟨c :: others, index⟩ : Cursor).advance
            ((c :: others).takeWhile Char.isDigit).length) :=
  rfl

theorem localAt_readNumber : LocalAt (readNumber negative) chars := by
  cases chars with
  | nil => exact localAt_of_fails fun index => ⟨_, rfl⟩
  | cons c others =>
    by_cases no_digit : (!c.isDigit) = true
    · apply localAt_of_fails
      intro index
      rw [readNumber_cons, if_pos no_digit]
      exact ⟨_, rfl⟩
    · by_cases zero : (c = '0' && 1 < ((c :: others).takeWhile Char.isDigit).length) = true
      · apply localAt_of_fails
        intro index
        rw [readNumber_cons, if_neg no_digit, if_pos zero]
        exact ⟨_, rfl⟩
      · apply (localAt_readTail negative _ _ _).shift _ (List.drop_suffix
          ((c :: others).takeWhile Char.isDigit).length (c :: others))
        intro rest start ends
        rw [List.cons_append, readNumber_cons, if_neg no_digit, ← List.cons_append,
          ends.takeWhile_append, if_neg zero,
          Cursor.advance_append (length_takeWhile_le (c :: others))]

end

/-! ## Integers -/

theorem le_ofDigitChars (value : Nat) (digits : List Char) :
    value ≤ Nat.ofDigitChars 10 digits value := by
  induction digits generalizing value with
  | nil => exact Nat.le_refl value
  | cons c rest ih =>
    rw [Nat.ofDigitChars_cons]
    have le := ih (10 * value + (c.toNat - '0'.toNat))
    omega

theorem absorbDigits_eq {value : Nat} {digits : List Char}
    (fits : Nat.ofDigitChars 10 digits value ≤ maxWord) :
    absorbDigits value digits = (Nat.ofDigitChars 10 digits value, 0) := by
  induction digits generalizing value with
  | nil => rfl
  | cons c rest ih =>
    rw [Nat.ofDigitChars_cons, Nat.mul_comm] at fits ⊢
    have le := le_ofDigitChars (value * 10 + (c.toNat - '0'.toNat)) rest
    rw [absorbDigits, digitValue, if_pos (Nat.le_trans le fits), ih fits]

/-- The digits of a number that fits a word are read as that number. -/
theorem readNumber_toDigits (negative : Bool) {n : Nat} (fits : n ≤ maxWord) (index : Nat) :
    ∃ stop, readNumber negative ⟨Nat.toDigits 10 n, index⟩ =
      finishDigits negative n 0 ⟨[], stop⟩ := by
  have digits : ∀ c ∈ Nat.toDigits 10 n, c.isDigit = true := by
    intro c inside
    exact Nat.isDigit_of_mem_toDigits (by omega) (by omega) inside
  have value_eq : Nat.ofDigitChars 10 (Nat.toDigits 10 n) 0 = n :=
    Nat.ofDigitChars_toDigits (by omega) (by omega)
  have no_zero : ∀ others, Nat.toDigits 10 n = '0' :: others → others = [] := by
    intro others starts
    by_cases positive : 0 < n
    · have first := Text.head?_toDigits_ne positive
      rw [starts] at first
      contradiction
    · have zero : n = 0 := by omega
      rw [zero, Nat.toDigits_of_lt_base (by omega)] at starts
      cases starts
      rfl
  cases text : Nat.toDigits 10 n with
  | nil => exact absurd text Nat.toDigits_ne_nil
  | cons c others =>
    rw [text] at digits value_eq
    have run : (c :: others).takeWhile Char.isDigit = c :: others := by
      have run : (c :: others ++ []).takeWhile Char.isDigit = c :: others ++ [] :=
        List.takeWhile_append_of_pos digits
      rwa [List.append_nil] at run
    have one_zero : (decide (c = '0') && decide (1 < (c :: others).length)) = false := by
      by_cases zero : c = '0'
      · subst zero
        rw [no_zero others text]
        rfl
      · simp [zero]
    have first : c.isDigit = true := digits c List.mem_cons_self
    rw [readNumber_cons, run, absorbDigits_eq (by rw [value_eq]; exact fits), value_eq, one_zero,
      first, readTail_eq]
    refine ⟨index + (c :: others).length, ?_⟩
    simp [Cursor.advance]

end Componentry.Json
