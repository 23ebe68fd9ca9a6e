import Componentry.Text.Blank

/-!
# Letters and digits of ASCII

The decimal of a number has no leading zeros, and a run of digits without leading zeros is the
decimal of its value (`toDigits_ofDigitChars`). With leading zeros, a run of digits is known from
its value and its length.
-/

namespace Componentry.Text

theorem toNat_lt_of_isAlphanum {c : Char} (alphanum : c.isAlphanum = true) : c.toNat < 128 := by
  delta Char.isAlphanum Char.isAlpha Char.isUpper Char.isLower Char.isDigit at alphanum
  simp only [Bool.or_eq_true, Bool.and_eq_true, decide_eq_true_eq, UInt32.le_iff_toNat_le,
    Char.reduceVal, UInt32.reduceToNat] at alphanum
  have code_eq : c.toNat = c.val.toNat := rfl
  omega

theorem of_isAlphanum {p : Char → Bool}
    (checked : (List.range 128).all (fun code =>
      !(Char.ofNat code).isAlphanum || p (Char.ofNat code)) = true)
    {c : Char} (alphanum : c.isAlphanum = true) : p c = true := by
  have here := List.all_eq_true.1 checked c.toNat
    (List.mem_range.2 (toNat_lt_of_isAlphanum alphanum))
  rw [Char.ofNat_toNat, alphanum] at here
  exact here

theorem isBlank_of_isAlphanum {c : Char} (alphanum : c.isAlphanum = true) : isBlank c = false := by
  have not_blank : (!isBlank c) = true :=
    of_isAlphanum (p := fun c => !isBlank c) (by decide +kernel) alphanum
  simpa using not_blank

/-! ## Decimals -/

theorem head?_toDigits_ne {n : Nat} (positive : 0 < n) :
    (Nat.toDigits 10 n).head? ≠ some '0' := by
  induction n using Nat.strongRecOn with
  | ind n ih =>
    by_cases small : n < 10
    · rw [Nat.toDigits_of_lt_base small]
      have digits : ∀ k < 10, 0 < k → [k.digitChar].head? ≠ some '0' := by decide
      exact digits n small positive
    · have higher := ih (n / 10) (by omega) (by omega)
      rw [Nat.toDigits_of_base_le (by omega) (Nat.le_of_not_lt small)]
      cases digits : Nat.toDigits 10 (n / 10) with
      | nil => exact absurd digits Nat.toDigits_ne_nil
      | cons c others =>
        rw [digits] at higher
        exact higher

theorem toNat_of_isDigit {c : Char} (digit : c.isDigit = true) :
    '0'.toNat ≤ c.toNat ∧ c.toNat < '0'.toNat + 10 := by
  have bounds := Char.isDigit_iff_toNat.1 digit
  have nine : '9'.toNat = '0'.toNat + 9 := rfl
  omega

theorem digitChar_toNat {c : Char} (digit : c.isDigit = true) :
    (c.toNat - '0'.toNat).digitChar = c := by
  have bounds := toNat_of_isDigit digit
  have zero : '0'.toNat = 48 := rfl
  apply Char.toNat_inj.1
  rw [Nat.toNat_digitChar_of_lt_ten (by omega)]
  omega

/-- Further digits after the decimal of a number. -/
theorem toDigits_append {value : Nat} {digits : List Char} (positive : 0 < value)
    (all : ∀ c ∈ digits, c.isDigit = true) :
    Nat.toDigits 10 value ++ digits = Nat.toDigits 10 (Nat.ofDigitChars 10 digits value) := by
  induction digits generalizing value with
  | nil => rw [List.append_nil, Nat.ofDigitChars_nil]
  | cons c rest ih =>
    rw [List.forall_mem_cons] at all
    have bounds := toNat_of_isDigit all.1
    have small : c.toNat - '0'.toNat < 10 := by omega
    have longer := Nat.toDigits_append_toDigits (by decide) positive small
    rw [Nat.toDigits_of_lt_base small, digitChar_toNat all.1] at longer
    rw [Nat.ofDigitChars_cons, ← ih (by omega) all.2, ← longer, List.append_assoc,
      List.singleton_append]

/-- A run of digits without leading zeros is the decimal of its value. -/
theorem toDigits_ofDigitChars {digits : List Char} (nonempty : digits ≠ [])
    (all : ∀ c ∈ digits, c.isDigit = true)
    (lean : digits.length = 1 ∨ digits.head? ≠ some '0') :
    Nat.toDigits 10 (Nat.ofDigitChars 10 digits 0) = digits := by
  cases digits with
  | nil => exact absurd rfl nonempty
  | cons c rest =>
    rw [List.forall_mem_cons] at all
    have bounds := toNat_of_isDigit all.1
    have first : Nat.toDigits 10 (c.toNat - '0'.toNat) = [c] := by
      rw [Nat.toDigits_of_lt_base (by omega), digitChar_toNat all.1]
    rw [Nat.ofDigitChars_cons, Nat.mul_zero, Nat.zero_add]
    rcases lean with single | no_zero
    · have rest_eq : rest = [] := by simpa using single
      rw [rest_eq, Nat.ofDigitChars_nil, first]
    · have positive : 0 < c.toNat - '0'.toNat := by
        have different : c.toNat ≠ '0'.toNat := by
          intro same
          exact no_zero (congrArg some (Char.toNat_inj.1 same))
        omega
      rw [← toDigits_append positive all.2, first, List.singleton_append]

theorem eq_of_ofDigitChars_eq {left right : List Char} {value other : Nat}
    (left_all : ∀ c ∈ left, c.isDigit = true) (right_all : ∀ c ∈ right, c.isDigit = true)
    (length_eq : left.length = right.length)
    (same : Nat.ofDigitChars 10 left value = Nat.ofDigitChars 10 right other) :
    value = other ∧ left = right := by
  induction left generalizing right value other with
  | nil =>
    cases right with
    | nil => exact ⟨same, rfl⟩
    | cons d right => cases length_eq
  | cons c left ih =>
    cases right with
    | nil => cases length_eq
    | cons d right =>
      rw [List.forall_mem_cons] at left_all right_all
      have c_bounds := toNat_of_isDigit left_all.1
      have d_bounds := toNat_of_isDigit right_all.1
      rw [Nat.ofDigitChars_cons, Nat.ofDigitChars_cons] at same
      rcases ih left_all.2 right_all.2 (Nat.succ.inj length_eq) same with ⟨sum_eq, rfl⟩
      have digit_eq : c = d := Char.toNat_inj.1 (by omega)
      exact ⟨by omega, by rw [digit_eq]⟩

end Componentry.Text
