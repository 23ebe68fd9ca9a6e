import Mathlib.Data.List.Forall2
import Componentry.Proofs.Lists
import Componentry.Proofs.Text.Ascii
import Componentry.Proofs.Text.Pieces
import Componentry.Version

/-!
# The grammar of versions

What a version is spelled like: one to three numbers, a pre-release part after a hyphen and a build
part after a plus sign, each part a list of identifiers between dots. Reading accepts these texts,
with any `v`s before them and any blanks around them, and no others, and gives the version that is
spelled.

The reader of full versions cuts a text at the first hyphen or plus sign and then at the first plus
sign. These cuts fall between the parts of the grammar because numbers have neither sign and
pre-release parts have no plus sign, whatever dots and hyphens stand inside of the parts
(`ofChars?_eq_some_iff`). Zeros for missing numbers go before the first cut and move no other, so
that a text is spelled as a version exactly if the padded text is spelled as a full one
(`spelledInFull_padded`).
-/

namespace Componentry

/-- Letters, digits and hyphens of ASCII, at least one of them. -/
def IsIdentifier (chars : List Char) : Prop :=
  chars ≠ [] ∧ ∀ c ∈ chars, c.isAlphanum = true ∨ c = '-'

/-- An identifier of a pre-release part is a decimal without leading zeros, or has a character that
is no digit. -/
inductive PreIdent.SpelledAs : PreIdent → List Char → Prop
  | numeric (value : Nat) : SpelledAs (.numeric value) (Nat.toDigits 10 value)
  | alphanumeric {chars : List Char} (identifier : IsIdentifier chars)
      (word : ∃ c ∈ chars, c.isDigit = false) :
      SpelledAs (.alphanumeric (String.ofList chars)) chars

namespace Version

variable {chars : List Char} {idents : List PreIdent} {major minor patch : Nat}

/-- An identifier of a build part is kept as it is written. -/
def BuildSpelledAs (text : String) (chars : List Char) : Prop :=
  IsIdentifier chars ∧ text = String.ofList chars

/-- The numbers of a version in decimal; those that are missing are zero. -/
inductive CoreSpelledAs : Nat → Nat → Nat → List Char → Prop
  | major (major : Nat) : CoreSpelledAs major 0 0 (Nat.toDigits 10 major)
  | minor (major minor : Nat) :
      CoreSpelledAs major minor 0 (Nat.toDigits 10 major ++ '.' :: Nat.toDigits 10 minor)
  | patch (major minor patch : Nat) :
      CoreSpelledAs major minor patch
        (Nat.toDigits 10 major ++ '.' :: (Nat.toDigits 10 minor ++ '.' :: Nat.toDigits 10 patch))

/-- A part is missing, or stands after its mark as identifiers between dots. -/
inductive PartSpelledAs {α : Type} (mark : Char) (Spelled : α → List Char → Prop) :
    List α → List Char → Prop
  | missing : PartSpelledAs mark Spelled [] []
  | marked {items : List α} {texts : List (List Char)} (nonempty : items ≠ [])
      (spelled : List.Forall₂ Spelled items texts) :
      PartSpelledAs mark Spelled items (mark :: ['.'].intercalate texts)

/-- The texts of a version, with its numbers spelled in some way. -/
inductive SpelledWith (Numbers : Nat → Nat → Nat → List Char → Prop) (version : Version) :
    List Char → Prop
  | parts {core pre build : List Char}
      (numbers : Numbers version.major version.minor version.patch core)
      (fit : ∀ number ∈ [version.major, version.minor, version.patch], number < Nat.pow 2 64)
      (preRelease : PartSpelledAs '-' PreIdent.SpelledAs version.pre pre)
      (metadata : PartSpelledAs '+' BuildSpelledAs version.build build) :
      SpelledWith Numbers version (core ++ (pre ++ build))

/-- The texts of a version. -/
def SpelledAs : Version → List Char → Prop :=
  SpelledWith CoreSpelledAs

/-- All three numbers of a version in decimal. -/
def FullCoreSpelledAs (major minor patch : Nat) (chars : List Char) : Prop :=
  chars = Nat.toDigits 10 major ++ '.' :: (Nat.toDigits 10 minor ++ '.' :: Nat.toDigits 10 patch)

/-- The full texts of a version. -/
def SpelledInFull : Version → List Char → Prop :=
  SpelledWith FullCoreSpelledAs

/-! ## Numbers and identifiers -/

theorem digitsValue_eq (digits : List Char) :
    digitsValue digits = Nat.ofDigitChars 10 digits 0 := by
  simp only [digitsValue, Nat.ofDigitChars_eq_foldl, Nat.mul_comm]

theorem digitsValue_toDigits (n : Nat) : digitsValue (Nat.toDigits 10 n) = n := by
  rw [digitsValue_eq, Nat.ofDigitChars_ten_toDigits]

theorem isDigit_of_mem_toDigits {n : Nat} {c : Char} (mem : c ∈ Nat.toDigits 10 n) :
    c.isDigit = true :=
  Nat.isDigit_of_mem_toDigits (by decide) (by decide) mem

theorem isNumeral_toDigits (n : Nat) : isNumeral (Nat.toDigits 10 n) = true := by
  have nonempty : Nat.toDigits 10 n ≠ [] := Nat.toDigits_ne_nil
  have digits : ∀ c ∈ Nat.toDigits 10 n, c.isDigit = true := fun c => isDigit_of_mem_toDigits
  have lean : (Nat.toDigits 10 n).length = 1 ∨ (Nat.toDigits 10 n).head? ≠ some '0' := by
    by_cases positive : 0 < n
    · exact .inr (Text.head?_toDigits_ne positive)
    · rw [Nat.eq_zero_of_not_pos positive, Nat.toDigits_zero]
      exact .inl rfl
  simp only [isNumeral, Bool.and_eq_true, Bool.not_eq_true', List.isEmpty_eq_false_iff,
    List.all_eq_true, Bool.or_eq_true, beq_iff_eq, bne_iff_ne]
  exact ⟨⟨nonempty, digits⟩, lean⟩

theorem isNumeral_iff :
    isNumeral chars = true ↔ chars = Nat.toDigits 10 (digitsValue chars) := by
  constructor
  · intro numeral
    simp only [isNumeral, Bool.and_eq_true, Bool.not_eq_true', List.isEmpty_eq_false_iff,
      List.all_eq_true, Bool.or_eq_true, beq_iff_eq, bne_iff_ne] at numeral
    rcases numeral with ⟨⟨nonempty, digits⟩, lean⟩
    rw [digitsValue_eq, Text.toDigits_ofDigitChars nonempty digits lean]
  · intro decimal
    rw [decimal]
    exact isNumeral_toDigits _

theorem numeral?_eq_some_iff {n : Nat} :
    numeral? chars = some n ↔ chars = Nat.toDigits 10 n ∧ n < Nat.pow 2 64 := by
  rw [numeral?, Option.ite_none_right_eq_some, Option.some.injEq, Bool.and_eq_true, isNumeral_iff,
    decide_eq_true_eq]
  constructor
  · rintro ⟨⟨decimal, fits⟩, rfl⟩
    exact ⟨decimal, fits⟩
  · rintro ⟨rfl, fits⟩
    rw [digitsValue_toDigits]
    exact ⟨⟨rfl, fits⟩, rfl⟩

theorem isIdent_iff : isIdent chars = true ↔ IsIdentifier chars := by
  simp [isIdent, isIdentChar, IsIdentifier]

theorem isIdentifier_toDigits (n : Nat) : IsIdentifier (Nat.toDigits 10 n) := by
  refine ⟨Nat.toDigits_ne_nil, ?_⟩
  intro c mem
  have digit := isDigit_of_mem_toDigits mem
  exact .inl (Bool.or_eq_true_iff.2 (.inr digit))

theorem preIdent?_eq_some_iff {ident : PreIdent} :
    preIdent? chars = some ident ↔ ident.SpelledAs chars := by
  constructor
  · intro read
    simp only [preIdent?] at read
    split at read
    · cases read
    · rename_i identifier
      have identifier : IsIdentifier chars := by simpa [isIdent_iff] using identifier
      split at read
      · split at read
        · rename_i numeral
          cases read
          have spelled := PreIdent.SpelledAs.numeric (digitsValue chars)
          rwa [← isNumeral_iff.1 numeral] at spelled
        · cases read
      · rename_i word
        cases read
        exact .alphanumeric identifier (by simpa using word)
  · intro spelled
    cases spelled with
    | numeric value =>
      have identifier := isIdent_iff.2 (isIdentifier_toDigits value)
      have digits : (Nat.toDigits 10 value).all Char.isDigit = true :=
        List.all_eq_true.2 fun c => isDigit_of_mem_toDigits
      simp [preIdent?, identifier, digits, isNumeral_toDigits, digitsValue_toDigits]
    | alphanumeric identifier word =>
      have no_number : chars.all Char.isDigit = false := by simpa using word
      simp [preIdent?, isIdent_iff.2 identifier, no_number]

theorem buildIdent?_eq_some_iff {text : String} :
    buildIdent? chars = some text ↔ BuildSpelledAs text chars := by
  rw [buildIdent?, Option.ite_none_right_eq_some, isIdent_iff, Option.some.injEq, BuildSpelledAs,
    eq_comm (a := text)]

/-! ## Parts -/

theorem not_mem_identifier {c : Char} (identifier : IsIdentifier chars)
    (other : (c.isAlphanum || c == '-') = false) : c ∉ chars := by
  intro mem
  have inside := identifier.2 c mem
  simp only [Bool.or_eq_false_iff, beq_eq_false_iff_ne] at other
  rcases inside with alphanumeric | hyphen
  · rw [other.1] at alphanumeric
    cases alphanumeric
  · exact other.2 hyphen

theorem isIdentifier_of_preIdent {ident : PreIdent} (spelled : ident.SpelledAs chars) :
    IsIdentifier chars := by
  cases spelled with
  | numeric value => exact isIdentifier_toDigits value
  | alphanumeric identifier _ => exact identifier

section Parts

variable {α : Type} {mark : Char} {Spelled : α → List Char → Prop} {items : List α}
  {texts : List (List Char)}

theorem isIdentifier_of_mem (identifiers : ∀ item text, Spelled item text → IsIdentifier text)
    (spelled : List.Forall₂ Spelled items texts) : ∀ text ∈ texts, IsIdentifier text := by
  induction spelled with
  | nil => simp
  | cons here _ ih => exact List.forall_mem_cons.2 ⟨identifiers _ _ here, ih⟩

variable {read : List Char → Option α}

theorem mapM_eq_some_iff_spelled (reads : ∀ text item, read text = some item ↔ Spelled item text) :
    texts.mapM read = some items ↔ List.Forall₂ Spelled items texts := by
  rw [mapM_eq_some_iff, ← List.forall₂_eq_eq_eq, List.forall₂_map_left_iff,
    List.forall₂_map_right_iff]
  simp only [reads]
  exact ⟨List.Forall₂.flip, List.Forall₂.flip⟩

/-- Cutting a text at its dots undoes joining pieces without dots. -/
theorem dotted_eq_iff (nonempty : texts ≠ []) (no_dots : ∀ text ∈ texts, '.' ∉ text)
    (chars : List Char) : dotted chars = texts ↔ chars = ['.'].intercalate texts := by
  have dotted_eq (text : List Char) : dotted text = text.splitOn '.' :=
    Text.pieces_eq_splitOnP _ text
  rw [dotted_eq]
  constructor
  · rintro rfl
    exact (List.intercalate_splitOn '.').symm
  · rintro rfl
    exact List.splitOn_intercalate '.' no_dots nonempty

/-- Reading the pieces between dots undoes joining them, as identifiers have no dots. -/
theorem mapM_dotted_eq_some_iff (reads : ∀ text item, read text = some item ↔ Spelled item text)
    (identifiers : ∀ item text, Spelled item text → IsIdentifier text) (chars : List Char)
    (items : List α) : (dotted chars).mapM read = some items ↔
      ∃ texts, items ≠ [] ∧ List.Forall₂ Spelled items texts ∧ chars = ['.'].intercalate texts := by
  have dotted_iff {texts : List (List Char)} (spelled : List.Forall₂ Spelled items texts)
      (nonempty : texts ≠ []) : dotted chars = texts ↔ chars = ['.'].intercalate texts := by
    apply dotted_eq_iff nonempty
    intro text mem
    exact not_mem_identifier (isIdentifier_of_mem identifiers spelled text mem) rfl
  rw [mapM_eq_some_iff_spelled reads]
  constructor
  · intro spelled
    have nonempty := Text.pieces_ne_nil (· == '.') chars
    refine ⟨dotted chars, ?_, spelled, (dotted_iff spelled nonempty).1 rfl⟩
    rintro rfl
    exact nonempty (List.forall₂_nil_left_iff.1 spelled)
  · rintro ⟨texts, nonempty, spelled, chars_eq⟩
    have texts_nonempty : texts ≠ [] := by
      rintro rfl
      exact nonempty (List.forall₂_nil_right_iff.1 spelled)
    rw [(dotted_iff spelled texts_nonempty).2 chars_eq]
    exact spelled

/-- A part starts with its mark and goes on with identifiers and dots. -/
theorem PartSpelledAs.mark_or_identifiers {chars : List Char}
    (part : PartSpelledAs mark Spelled items chars)
    (identifiers : ∀ item text, Spelled item text → IsIdentifier text) :
    (∀ c ∈ chars.head?, c = mark) ∧
      ∀ c ∈ chars, c = mark ∨ c.isAlphanum = true ∨ c = '-' ∨ c = '.' := by
  cases part with
  | missing => simp
  | marked nonempty spelled =>
    refine ⟨by simp, ?_⟩
    intro c mem
    rcases List.mem_cons.1 mem with rfl | mem
    · exact .inl rfl
    · rcases Text.mem_of_mem_intercalate mem with dot | ⟨text, text_mem, inside⟩
      · exact .inr (.inr (.inr (List.mem_singleton.1 dot)))
      · rcases (isIdentifier_of_mem identifiers spelled text text_mem).2 c inside with
          alphanumeric | hyphen
        · exact .inr (.inl alphanumeric)
        · exact .inr (.inr (.inl hyphen))

/-- A reader that takes nothing, or a mark and what follows it between dots, reads such parts. -/
theorem part_eq_some_iff {part : List Char → Option (List α)} (missing : part [] = some [])
    (marked : ∀ rest, part (mark :: rest) = (dotted rest).mapM read)
    (unmarked : ∀ c rest, c ≠ mark → part (c :: rest) = none)
    (reads : ∀ text item, read text = some item ↔ Spelled item text)
    (identifiers : ∀ item text, Spelled item text → IsIdentifier text) :
    part chars = some items ↔ PartSpelledAs mark Spelled items chars := by
  have dotted_iff := mapM_dotted_eq_some_iff reads identifiers
  constructor
  · intro found
    rcases chars with _ | ⟨c, rest⟩
    · rw [missing] at found
      cases found
      exact .missing
    · by_cases same : c = mark
      · rw [same, marked] at found
        rcases (dotted_iff _ _).1 found with ⟨texts, nonempty, spelled, rfl⟩
        rw [same]
        exact .marked nonempty spelled
      · rw [unmarked c rest same] at found
        cases found
  · intro spelled_as
    cases spelled_as with
    | missing => exact missing
    | marked nonempty spelled =>
      rw [marked]
      exact (dotted_iff _ _).2 ⟨_, nonempty, spelled, rfl⟩

end Parts

theorem prePart?_eq_some_iff :
    prePart? chars = some idents ↔ PartSpelledAs '-' PreIdent.SpelledAs idents chars := by
  apply part_eq_some_iff
  · rfl
  · exact fun _ => rfl
  · intro c rest other
    simp [prePart?, other]
  · exact fun _ _ => preIdent?_eq_some_iff
  · exact fun _ _ => isIdentifier_of_preIdent

theorem buildPart?_eq_some_iff {idents : List String} :
    buildPart? chars = some idents ↔ PartSpelledAs '+' BuildSpelledAs idents chars := by
  apply part_eq_some_iff
  · rfl
  · exact fun _ => rfl
  · intro c rest other
    simp [buildPart?, other]
  · exact fun _ _ => buildIdent?_eq_some_iff
  · exact fun _ _ spelled => spelled.1

/-! ## Numbers of a version -/

/-- The pieces of numbers between dots are their digits. -/
theorem dotted_eq_digits_iff (chars : List Char) (numbers : List Nat) (nonempty : numbers ≠ []) :
    dotted chars = numbers.map (Nat.toDigits 10) ↔
      chars = ['.'].intercalate (numbers.map (Nat.toDigits 10)) := by
  apply dotted_eq_iff (by simpa using nonempty)
  rw [List.forall_mem_map]
  intro number mem dot
  cases isDigit_of_mem_toDigits dot

theorem fullCoreSpelledAs_iff : FullCoreSpelledAs major minor patch chars ↔
    dotted chars = [Nat.toDigits 10 major, Nat.toDigits 10 minor, Nat.toDigits 10 patch] := by
  have pieces := dotted_eq_digits_iff chars [major, minor, patch] (by simp)
  simp only [List.map_cons, List.map_nil] at pieces
  rw [pieces]
  simp [FullCoreSpelledAs, List.intercalate_cons_cons]

/-- Numbers that are missing have no piece. -/
theorem coreSpelledAs_iff : CoreSpelledAs major minor patch chars ↔
    dotted chars = [Nat.toDigits 10 major] ∧ minor = 0 ∧ patch = 0 ∨
      dotted chars = [Nat.toDigits 10 major, Nat.toDigits 10 minor] ∧ patch = 0 ∨
      dotted chars = [Nat.toDigits 10 major, Nat.toDigits 10 minor, Nat.toDigits 10 patch] := by
  have one := dotted_eq_digits_iff chars [major] (by simp)
  have two := dotted_eq_digits_iff chars [major, minor] (by simp)
  simp only [List.map_cons, List.map_nil] at one two
  rw [one, two, ← fullCoreSpelledAs_iff]
  simp only [List.intercalate_cons_cons, List.intercalate_singleton, List.append_assoc,
    List.singleton_append, FullCoreSpelledAs]
  constructor
  · intro spelled
    cases spelled with
    | major => exact .inl ⟨rfl, rfl, rfl⟩
    | minor => exact .inr (.inl ⟨rfl, rfl⟩)
    | patch => exact .inr (.inr rfl)
  · rintro (⟨rfl, rfl, rfl⟩ | ⟨rfl, rfl⟩ | rfl)
    · exact .major _
    · exact .minor _ _
    · exact .patch _ _ _

theorem core?_eq_some_iff :
    core? chars = some (major, minor, patch) ↔ FullCoreSpelledAs major minor patch chars ∧
      ∀ number ∈ [major, minor, patch], number < Nat.pow 2 64 := by
  have read_iff : core? chars = some (major, minor, patch) ↔
      (dotted chars).mapM numeral? = some [major, minor, patch] := by
    simp only [core?, Option.bind_eq_bind, Option.bind_eq_some_iff]
    constructor
    · rintro ⟨numbers, read, matched⟩
      split at matched
      · cases matched
        exact read
      · cases matched
    · intro read
      exact ⟨_, read, rfl⟩
  rw [read_iff, mapM_eq_some_iff_spelled fun _ _ => numeral?_eq_some_iff, fullCoreSpelledAs_iff]
  constructor
  · generalize dotted chars = pieces
    rintro (_ | ⟨⟨rfl, major_fits⟩, _ | ⟨⟨rfl, minor_fits⟩, _ | ⟨⟨rfl, patch_fits⟩, _ | _⟩⟩⟩)
    simp [major_fits, minor_fits, patch_fits]
  · rintro ⟨pieces_eq, fit⟩
    simp only [List.forall_mem_cons] at fit
    rw [pieces_eq]
    exact .cons ⟨rfl, fit.1⟩ (.cons ⟨rfl, fit.2.1⟩ (.cons ⟨rfl, fit.2.2.1⟩ .nil))

variable {core : List Char} {version : Version}

/-- The numbers of a version are digits and dots, with a digit in front. -/
theorem CoreSpelledAs.digits_or_dots (spelled : CoreSpelledAs major minor patch core) :
    (∃ first rest, core = first :: rest ∧ first.isDigit = true) ∧
      ∀ c ∈ core, c.isDigit = true ∨ c = '.' := by
  have starts (rest : List Char) : ∃ first others,
      Nat.toDigits 10 major ++ rest = first :: others ∧ first.isDigit = true := by
    cases digits : Nat.toDigits 10 major with
    | nil => exact absurd digits Nat.toDigits_ne_nil
    | cons first others =>
      refine ⟨first, others ++ rest, rfl, isDigit_of_mem_toDigits (n := major) ?_⟩
      rw [digits]
      exact List.mem_cons_self
  have digit {n : Nat} {c : Char} (mem : c ∈ Nat.toDigits 10 n) : c.isDigit = true ∨ c = '.' :=
    .inl (isDigit_of_mem_toDigits mem)
  cases spelled with
  | major => exact ⟨by simpa using starts [], fun c => digit⟩
  | minor =>
    refine ⟨starts _, ?_⟩
    intro c mem
    rw [List.mem_append, List.mem_cons] at mem
    rcases mem with here | dot | there
    · exact digit here
    · exact .inr dot
    · exact digit there
  | patch =>
    refine ⟨starts _, ?_⟩
    intro c mem
    rw [List.mem_append, List.mem_cons, List.mem_append, List.mem_cons] at mem
    rcases mem with here | dot | between | dot | there
    · exact digit here
    · exact .inr dot
    · exact digit between
    · exact .inr dot
    · exact digit there

theorem CoreSpelledAs.unmarked (spelled : CoreSpelledAs major minor patch core) :
    ∀ c ∈ core, (!isMark c) = true := by
  intro c mem
  rcases spelled.digits_or_dots.2 c mem with digit | rfl
  · have hyphen : c ≠ '-' := by
      rintro rfl
      cases digit
    have plus : c ≠ '+' := by
      rintro rfl
      cases digit
    simp [isMark, hyphen, plus]
  · rfl

theorem FullCoreSpelledAs.unmarked (spelled : FullCoreSpelledAs major minor patch core) :
    ∀ c ∈ core, (!isMark c) = true := by
  have full : CoreSpelledAs major minor patch core := by
    rw [spelled]
    exact .patch major minor patch
  exact full.unmarked

/-! ## Versions -/

theorem span_append {p : Char → Bool} {left right : List Char} (inside : ∀ c ∈ left, p c = true)
    (stops : ∀ c ∈ right.head?, p c = false) :
    (left ++ right).takeWhile p = left ∧ (left ++ right).dropWhile p = right := by
  rw [List.takeWhile_append_of_pos inside, List.dropWhile_append_of_pos inside]
  cases right with
  | nil => simp
  | cons c rest =>
    have stop := stops c rfl
    simp [stop]

theorem preRelease_chars {pre : List Char}
    (preRelease : PartSpelledAs '-' PreIdent.SpelledAs idents pre) :
    (∀ c ∈ pre.head?, c = '-') ∧ ∀ c ∈ pre, c.isAlphanum = true ∨ c = '-' ∨ c = '.' := by
  have chars := preRelease.mark_or_identifiers fun _ _ => isIdentifier_of_preIdent
  refine ⟨chars.1, ?_⟩
  intro c mem
  rcases chars.2 c mem with hyphen | other
  · exact .inr (.inl hyphen)
  · exact other

/-- The cuts that reading makes fall between the parts of a version. -/
theorem cuts_of_parts {names : List String} {pre build : List Char}
    (unmarked : ∀ c ∈ core, (!isMark c) = true)
    (preRelease : PartSpelledAs '-' PreIdent.SpelledAs idents pre)
    (metadata : PartSpelledAs '+' BuildSpelledAs names build) :
    let chars := core ++ (pre ++ build)
    let suffix := chars.dropWhile (!isMark ·)
    chars.takeWhile (!isMark ·) = core ∧
      suffix.takeWhile (· != '+') = pre ∧ suffix.dropWhile (· != '+') = build := by
  have starts := (metadata.mark_or_identifiers fun _ _ spelled => spelled.1).1
  have suffix_marked : ∀ c ∈ (pre ++ build).head?, (!isMark c) = false := by
    intro c here
    rw [List.head?_append, Option.mem_def, Option.or_eq_some_iff] at here
    rcases here with first | ⟨_, first⟩
    · rw [(preRelease_chars preRelease).1 c first]
      rfl
    · rw [starts c first]
      rfl
  have pre_no_plus : ∀ c ∈ pre, (c != '+') = true := by
    intro c mem
    rw [bne_iff_ne]
    rintro rfl
    rcases (preRelease_chars preRelease).2 '+' mem with alphanumeric | hyphen | dot
    · cases alphanumeric
    · cases hyphen
    · cases dot
  have build_plus : ∀ c ∈ build.head?, (c != '+') = false := by
    intro c here
    rw [starts c here]
    rfl
  have outer := span_append unmarked suffix_marked
  have inner := span_append pre_no_plus build_plus
  intro chars suffix
  have suffix_eq : suffix = pre ++ build := outer.2
  rw [suffix_eq]
  exact ⟨outer.1, inner⟩

/-- A text is spelled as a version if its cuts give the parts of the version. -/
theorem spelledWith_iff {Numbers : Nat → Nat → Nat → List Char → Prop}
    (unmarked : ∀ core, Numbers version.major version.minor version.patch core →
      ∀ c ∈ core, (!isMark c) = true) (chars : List Char) :
    version.SpelledWith Numbers chars ↔
      (Numbers version.major version.minor version.patch (chars.takeWhile (!isMark ·)) ∧
        ∀ number ∈ [version.major, version.minor, version.patch], number < Nat.pow 2 64) ∧
      PartSpelledAs '-' PreIdent.SpelledAs version.pre
        ((chars.dropWhile (!isMark ·)).takeWhile (· != '+')) ∧
      PartSpelledAs '+' BuildSpelledAs version.build
        ((chars.dropWhile (!isMark ·)).dropWhile (· != '+')) := by
  constructor
  · rintro ⟨numbers, fit, preRelease, metadata⟩
    rcases cuts_of_parts (unmarked _ numbers) preRelease metadata with ⟨core_eq, pre_eq, build_eq⟩
    rw [core_eq, pre_eq, build_eq]
    exact ⟨⟨numbers, fit⟩, preRelease, metadata⟩
  · rintro ⟨⟨numbers, fit⟩, preRelease, metadata⟩
    have parts := SpelledWith.parts numbers fit preRelease metadata
    rwa [List.takeWhile_append_dropWhile, List.takeWhile_append_dropWhile] at parts

/-- The reader of full versions accepts their texts and no others. -/
theorem ofChars?_eq_some_iff :
    ofChars? chars = some version ↔ version.SpelledInFull chars := by
  rw [SpelledInFull, spelledWith_iff (fun _ => FullCoreSpelledAs.unmarked), ← core?_eq_some_iff,
    ← prePart?_eq_some_iff, ← buildPart?_eq_some_iff]
  simp only [ofChars?, Option.bind_eq_bind, Option.bind_eq_some_iff, Option.pure_def,
    Option.some.injEq]
  constructor
  · rintro ⟨⟨major, minor, patch⟩, core_read, pre, pre_read, build, build_read, rfl⟩
    exact ⟨core_read, pre_read, build_read⟩
  · rintro ⟨core_read, pre_read, build_read⟩
    exact ⟨_, core_read, _, pre_read, _, build_read, rfl⟩

theorem zero_eq_toDigits_iff {n : Nat} : ['0'] = Nat.toDigits 10 n ↔ n = 0 := by
  constructor
  · intro digits
    rw [← digitsValue_toDigits n, ← digits]
    rfl
  · rintro rfl
    rfl

/-- Zeros for the numbers that are missing. -/
theorem exists_zeros (chars : List Char) :
    ∃ zeros, padded chars =
        chars.takeWhile (!isMark ·) ++ zeros ++ chars.dropWhile (!isMark ·) ∧
      (∀ c ∈ zeros, (!isMark c) = true) ∧ ∀ major minor patch,
        FullCoreSpelledAs major minor patch (chars.takeWhile (!isMark ·) ++ zeros) ↔
          CoreSpelledAs major minor patch (chars.takeWhile (!isMark ·)) := by
  have dotted_append (left right : List Char) :
      dotted (left ++ '.' :: right) = dotted left ++ dotted right := by
    simp only [dotted, Text.pieces_eq_splitOnP]
    exact List.splitOnP_append_cons _ _ rfl
  have whole : chars.takeWhile (!isMark ·) ++ chars.dropWhile (!isMark ·) = chars :=
    List.takeWhile_append_dropWhile
  simp only [fullCoreSpelledAs_iff, coreSpelledAs_iff, padded]
  generalize chars.takeWhile (!isMark ·) = core, chars.dropWhile (!isMark ·) = suffix at whole ⊢
  split
  · rename_i count
    rcases List.length_eq_one_iff.1 count with ⟨piece, pieces_eq⟩
    refine ⟨".0.0".toList, by simp, by simp [isMark], ?_⟩
    intro major minor patch
    have pieces : dotted (core ++ ".0.0".toList) = [piece, ['0'], ['0']] := by
      rw [show ".0.0".toList = '.' :: ['0', '.', '0'] from rfl, dotted_append, pieces_eq]
      rfl
    rw [pieces, pieces_eq]
    simp [zero_eq_toDigits_iff]
  · rename_i count
    rcases List.length_eq_two.1 count with ⟨first, second, pieces_eq⟩
    refine ⟨".0".toList, by simp, by simp [isMark], ?_⟩
    intro major minor patch
    have pieces : dotted (core ++ ".0".toList) = [first, second, ['0']] := by
      rw [show ".0".toList = '.' :: ['0'] from rfl, dotted_append, pieces_eq]
      rfl
    rw [pieces, pieces_eq]
    simp [zero_eq_toDigits_iff, and_assoc]
  · rename_i not_one not_two
    refine ⟨[], ?_, by simp, ?_⟩
    · rw [List.append_nil, whole]
    · intro major minor patch
      rw [List.append_nil]
      constructor
      · exact fun full => .inr (.inr full)
      · rintro (⟨one, _⟩ | ⟨two, _⟩ | full)
        · exact absurd (by rw [one]; rfl) not_one
        · exact absurd (by rw [two]; rfl) not_two
        · exact full

/-- A text is spelled as a version exactly if the padded text is spelled as a full one. -/
theorem spelledInFull_padded :
    version.SpelledInFull (padded chars) ↔ version.SpelledAs chars := by
  rcases exists_zeros chars with ⟨zeros, padded_eq, zeros_unmarked, numbers_iff⟩
  have core_unmarked : ∀ c ∈ chars.takeWhile (!isMark ·) ++ zeros, (!isMark c) = true := by
    rw [List.forall_mem_append]
    exact ⟨fun c => List.mem_takeWhile_imp (p := (!isMark ·)), zeros_unmarked⟩
  have suffix_marked : ∀ c ∈ (chars.dropWhile (!isMark ·)).head?, (!isMark c) = false := by
    intro c here
    have := List.head?_dropWhile_not (!isMark ·) chars
    rw [here] at this
    simpa using this
  have cuts := span_append core_unmarked suffix_marked
  rw [SpelledInFull, SpelledAs, spelledWith_iff (fun _ => FullCoreSpelledAs.unmarked),
    spelledWith_iff (fun _ => CoreSpelledAs.unmarked), padded_eq, cuts.1, cuts.2, numbers_iff]

/-- What is left after trimming and without leading `v`s is read by the grammar. -/
theorem parse?_eq_some_iff {text : String} :
    parse? text = some version ↔
      version.SpelledAs ((Text.trim text).toList.dropWhile (· == 'v')) := by
  rw [parse?, ofChars?_eq_some_iff, spelledInFull_padded]

/-- The text of a version is a word that starts with a digit. -/
theorem SpelledAs.isWord {body : List Char} (spelled : version.SpelledAs body) :
    Text.IsWord body ∧ ∀ c ∈ body.head?, c.isDigit = true := by
  rcases spelled with ⟨numbers, _, preRelease, metadata⟩
  rcases numbers.digits_or_dots with ⟨⟨first, rest, rfl, digit⟩, core_chars⟩
  refine ⟨⟨by simp, ?_⟩, ?_⟩
  · intro c mem
    have alphanumeric_or_sign : c.isAlphanum = true ∨ c ∈ ['.', '-', '+'] := by
      rw [List.mem_append, List.mem_append] at mem
      rcases mem with core_mem | pre_mem | build_mem
      · rcases core_chars c core_mem with digit | rfl
        · exact .inl (Bool.or_eq_true_iff.2 (.inr digit))
        · exact .inr (by simp)
      · rcases (preRelease_chars preRelease).2 c pre_mem with alphanumeric | rfl | rfl
        · exact .inl alphanumeric
        · exact .inr (by simp)
        · exact .inr (by simp)
      · rcases (metadata.mark_or_identifiers fun _ _ spelled => spelled.1).2 c build_mem with
          rfl | alphanumeric | rfl | rfl
        · exact .inr (by simp)
        · exact .inl alphanumeric
        · exact .inr (by simp)
        · exact .inr (by simp)
    rcases alphanumeric_or_sign with alphanumeric | sign
    · exact Text.isBlank_of_isAlphanum alphanumeric
    · have signs : ['.', '-', '+'].all (!Text.isBlank ·) = true := by decide
      simpa using List.all_eq_true.1 signs c sign
  · intro c here
    cases here
    exact digit

/-- Reading a version accepts the texts of its grammar and no others: blanks, any number of `v`s,
and a text of the version, followed by blanks. -/
theorem parse?_accepts_grammar (text : String) (version : Version) :
    parse? text = some version ↔
      ∃ before vs body after, text.toList = before ++ (vs ++ body ++ after) ∧
        (∀ c ∈ before ++ after, Text.isBlank c = true) ∧ (∀ c ∈ vs, c = 'v') ∧
        version.SpelledAs body := by
  rw [parse?_eq_some_iff, Text.trim, String.toList_ofList]
  constructor
  · intro spelled
    rcases Text.exists_trimBlanks_eq text.toList with ⟨after, text_eq, after_blank⟩
    refine ⟨text.toList.takeWhile Text.isBlank,
      (Text.trimBlanks text.toList).takeWhile (· == 'v'), _, after, ?_, ?_, ?_, spelled⟩
    · rw [List.takeWhile_append_dropWhile]
      exact text_eq
    · exact List.forall_mem_append.2 ⟨fun c => List.mem_takeWhile_imp, after_blank⟩
    · intro c mem
      simpa using List.mem_takeWhile_imp mem
  · rintro ⟨before, vs, body, after, text_eq, blanks, all_v, spelled⟩
    rw [List.forall_mem_append] at blanks
    rcases spelled.isWord with ⟨⟨nonempty, unblank⟩, digit⟩
    have isWord : Text.IsWord (vs ++ body) := by
      refine ⟨by simp [nonempty], ?_⟩
      intro c mem
      rcases List.mem_append.1 mem with v | inside
      · rw [all_v c v]
        decide
      · exact unblank c inside
    have stops : ∀ c ∈ body.head?, (c == 'v') = false := by
      intro c here
      rw [beq_eq_false_iff_ne]
      rintro rfl
      cases digit 'v' here
    have after_v := span_append (p := (· == 'v')) (by simpa using all_v) stops
    rw [text_eq, Text.trimBlanks_append blanks.1 isWord.trimmed blanks.2, after_v.2]
    exact spelled

example : parse? " vv1.2-rc.1.x-y+007.a " = some {
    major := 1, minor := 2, patch := 0
    pre := [.alphanumeric "rc", .numeric 1, .alphanumeric "x-y"]
    build := ["007", "a"] } := by decide

end Version

end Componentry
