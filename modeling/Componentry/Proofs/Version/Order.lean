import Mathlib.Order.Compare
import Componentry.Fragment
import Componentry.Proofs.Version.Grammar

/-!
# The order of versions

Versions are compared by their numbers, then by their pre-release parts and then by their build
parts, where each part is a list of identifiers of any length. The comparison is a linear order, and
only equal versions compare as equal. So the comparison of texts is a linear order of those that can
be read, up to spellings of one version.

A component gets its older names if its version comes before a threshold. Both sides of this
comparison can be moved along the order: an earlier version keeps the older names, and a later
threshold leaves them in place.
-/

namespace Componentry

open Std (LawfulEqCmp OrientedCmp ReflCmp TransCmp)

namespace Version

/-! ## Identifiers -/

instance : OrientedCmp comparePreIdent where
  eq_swap {left right} := by
    cases left with
    | numeric x =>
      cases right with
      | numeric y => exact Std.OrientedOrd.eq_swap
      | alphanumeric y => rfl
    | alphanumeric x =>
      cases right with
      | numeric y => rfl
      | alphanumeric y => exact Std.OrientedOrd.eq_swap

instance : TransCmp comparePreIdent where
  isLE_trans {first second third} before after := by
    cases first <;> cases second <;> cases third <;>
      simp only [comparePreIdent, Ordering.isLE_lt, Ordering.isLE_gt, Bool.false_eq_true]
        at before after ⊢
    · exact Std.TransOrd.isLE_trans before after
    · exact Std.TransOrd.isLE_trans before after

instance : LawfulEqCmp comparePreIdent where
  compare_self {ident} := by
    cases ident with
    | numeric x | alphanumeric x => exact Std.ReflOrd.compare_self
  eq_of_compare {left right} same := by
    cases left with
    | numeric x =>
      cases right with
      | numeric y => rw [Std.LawfulEqOrd.eq_of_compare same]
      | alphanumeric y => cases same
    | alphanumeric x =>
      cases right with
      | numeric y => cases same
      | alphanumeric y => rw [Std.LawfulEqOrd.eq_of_compare same]

instance : OrientedCmp compareBuildIdent where
  eq_swap {left right} := by
    unfold compareBuildIdent
    cases left.toList.all Char.isDigit <;> cases right.toList.all Char.isDigit
    · exact Std.OrientedOrd.eq_swap
    · rfl
    · rfl
    · dsimp only
      rw [Ordering.swap_then, ← Std.OrientedOrd.eq_swap, ← Std.OrientedOrd.eq_swap]

instance : TransCmp compareBuildIdent where
  isLE_trans {first second third} before after := by
    unfold compareBuildIdent at before after ⊢
    cases first_all : first.toList.all Char.isDigit <;>
      cases second_all : second.toList.all Char.isDigit <;>
      cases third_all : third.toList.all Char.isDigit <;>
      simp only [first_all, second_all, third_all, Ordering.isLE_lt, Ordering.isLE_gt,
        Bool.false_eq_true] at before after ⊢
    · exact Std.TransOrd.isLE_trans before after
    · let value (text : String) := digitsValue text.toList
      let width (text : String) := text.toList.length
      exact @TransCmp.isLE_trans _ (compareLex (compareOn value) (compareOn width)) _ _ _ _
        before after

/-- Digits with the same value and the same number of leading zeros are the same. -/
theorem eq_of_digitsValue_eq {left right : String} (left_all : left.toList.all Char.isDigit = true)
    (right_all : right.toList.all Char.isDigit = true)
    (value_eq : digitsValue left.toList = digitsValue right.toList)
    (length_eq : left.toList.length = right.toList.length) : left = right := by
  rw [digitsValue_eq, digitsValue_eq] at value_eq
  rw [List.all_eq_true] at left_all right_all
  exact String.toList_inj.1 (Text.eq_of_ofDigitChars_eq left_all right_all length_eq value_eq).2

instance : LawfulEqCmp compareBuildIdent where
  compare_self {ident} := by
    unfold compareBuildIdent
    cases ident.toList.all Char.isDigit <;> simp
  eq_of_compare {left right} same := by
    unfold compareBuildIdent at same
    cases left_all : left.toList.all Char.isDigit <;>
      cases right_all : right.toList.all Char.isDigit <;>
      simp only [left_all, right_all, reduceCtorEq] at same
    · exact Std.LawfulEqOrd.eq_of_compare same
    · rw [Ordering.then_eq_eq] at same
      exact eq_of_digitsValue_eq left_all right_all (Std.LawfulEqOrd.eq_of_compare same.1)
        (Std.LawfulEqOrd.eq_of_compare same.2)

/-! ## Lists of identifiers -/

section Lists

variable {α : Type} (order : α → α → Ordering)

theorem compareLists_eq : compareLists order = List.compareLex order := by
  funext left right
  induction left generalizing right with
  | nil => cases right <;> rfl
  | cons x left ih =>
    cases right with
    | nil => rfl
    | cons y right =>
      rw [compareLists, ih, List.compareLex_cons_cons]

instance [TransCmp order] : TransCmp (compareLists order) := by
  rw [compareLists_eq]
  infer_instance

instance [LawfulEqCmp order] : LawfulEqCmp (compareLists order) := by
  rw [compareLists_eq]
  infer_instance

end Lists

instance : OrientedCmp comparePre where
  eq_swap {left right} := by
    cases left with
    | nil => cases right <;> rfl
    | cons x left =>
      cases right with
      | nil => rfl
      | cons y right => exact @OrientedCmp.eq_swap _ (compareLists comparePreIdent) _ _ _

instance : TransCmp comparePre where
  isLE_trans {first second third} before after := by
    cases first with
    | nil =>
      cases second with
      | nil => exact after
      | cons y second => cases before
    | cons x first =>
      cases third with
      | nil => rfl
      | cons z third =>
        cases second with
        | nil => cases after
        | cons y second =>
          exact @TransCmp.isLE_trans _ (compareLists comparePreIdent) _ _ _ _ before after

instance : LawfulEqCmp comparePre where
  compare_self {idents} := by
    cases idents with
    | nil => rfl
    | cons x idents => exact @ReflCmp.compare_self _ (compareLists comparePreIdent) _ _
  eq_of_compare {left right} same := by
    cases left with
    | nil =>
      cases right with
      | nil => rfl
      | cons y right => cases same
    | cons x left =>
      cases right with
      | nil => cases same
      | cons y right =>
        exact @LawfulEqCmp.eq_of_compare _ (compareLists comparePreIdent) _ _ _ same

/-! ## Versions -/

theorem transCmp_on {α β : Type} (order : β → β → Ordering) [TransCmp order] (part : α → β) :
    TransCmp fun left right => order (part left) (part right) where
  eq_swap := OrientedCmp.eq_swap
  isLE_trans := TransCmp.isLE_trans

instance : TransCmp Version.compare :=
  have := transCmp_on comparePre Version.pre
  have := transCmp_on (compareLists compareBuildIdent) Version.build
  inferInstanceAs (TransCmp (compareLex (compareOn Version.major)
    (compareLex (compareOn Version.minor) (compareLex (compareOn Version.patch)
      (compareLex (fun left right => comparePre left.pre right.pre)
        fun left right => compareLists compareBuildIdent left.build right.build)))))

instance : LawfulEqCmp Version.compare where
  compare_self {version} := by simp [Version.compare, ReflCmp.compare_self]
  eq_of_compare {left right} same := by
    simp only [Version.compare, Ordering.then_eq_eq, LawfulEqCmp.compare_eq_iff_eq] at same
    rcases same with ⟨major_eq, minor_eq, patch_eq, pre_eq, build_eq⟩
    cases left
    cases right
    simp_all

/-! ## Texts -/

/-- The first text compares as less than the second or as equal to it. -/
def AtMost (order? : String → String → Option Ordering) (left right : String) : Prop :=
  order? left right = some .lt ∨ order? left right = some .eq

/-- A comparison of texts that is a linear order of those that can be read, up to having the same
reading. -/
structure OrdersReadings {α : Type} (read : String → Option α)
    (order? : String → String → Option Ordering) : Prop where
  none_iff : ∀ left right, order? left right = none ↔ read left = none ∨ read right = none
  refl : ∀ text, read text ≠ none → order? text text = some .eq
  antisymm : ∀ left right, AtMost order? left right → AtMost order? right left →
    read left = read right
  trans : ∀ first second third, AtMost order? first second → AtMost order? second third →
    AtMost order? first third
  total : ∀ left right, read left ≠ none → read right ≠ none →
    AtMost order? left right ∨ AtMost order? right left
  swap : ∀ left right, order? right left = (order? left right).map Ordering.swap

theorem compareTexts?_eq_some_iff {left right : String} {order : Ordering} :
    compareTexts? left right = some order ↔ ∃ version other, parse? left = some version ∧
      parse? right = some other ∧ Version.compare version other = order := by
  simp [compareTexts?, Option.bind_eq_some_iff]

theorem atMost_iff {left right : String} : AtMost compareTexts? left right ↔
    ∃ version other, parse? left = some version ∧ parse? right = some other ∧
      (Version.compare version other).isLE = true := by
  simp only [AtMost, compareTexts?_eq_some_iff, Ordering.isLE_iff_eq_lt_or_eq_eq]
  constructor
  · rintro (⟨version, other, left_read, right_read, lt⟩ |
      ⟨version, other, left_read, right_read, eq⟩)
    · exact ⟨version, other, left_read, right_read, .inl lt⟩
    · exact ⟨version, other, left_read, right_read, .inr eq⟩
  · rintro ⟨version, other, left_read, right_read, lt | eq⟩
    · exact .inl ⟨version, other, left_read, right_read, lt⟩
    · exact .inr ⟨version, other, left_read, right_read, eq⟩

/-- Texts of versions are compared as the versions that they say. -/
theorem compareTexts?_ordersReadings : OrdersReadings parse? compareTexts? where
  none_iff left right := by
    cases left_read : parse? left <;> cases right_read : parse? right <;>
      simp [compareTexts?, left_read, right_read]
  refl text readable := by
    rcases Option.ne_none_iff_exists'.1 readable with ⟨version, read⟩
    exact compareTexts?_eq_some_iff.2 ⟨version, version, read, read, ReflCmp.compare_self⟩
  antisymm left right le ge := by
    rcases atMost_iff.1 le with ⟨version, other, left_read, right_read, version_le⟩
    rcases atMost_iff.1 ge with ⟨again, twice, right_again, left_again, version_ge⟩
    cases right_read.symm.trans right_again
    cases left_read.symm.trans left_again
    have same := LawfulEqCmp.eq_of_compare (OrientedCmp.isLE_antisymm version_le version_ge)
    rw [left_read, right_read, same]
  trans first second third before after := by
    rcases atMost_iff.1 before with ⟨version, middle, first_read, second_read, le⟩
    rcases atMost_iff.1 after with ⟨again, other, second_again, third_read, le_other⟩
    cases second_read.symm.trans second_again
    exact atMost_iff.2 ⟨version, other, first_read, third_read, TransCmp.isLE_trans le le_other⟩
  total left right left_readable right_readable := by
    rcases Option.ne_none_iff_exists'.1 left_readable with ⟨version, left_read⟩
    rcases Option.ne_none_iff_exists'.1 right_readable with ⟨other, right_read⟩
    rw [atMost_iff, atMost_iff]
    by_cases le : (Version.compare version other).isLE = true
    · exact .inl ⟨version, other, left_read, right_read, le⟩
    · refine .inr ⟨other, version, right_read, left_read, ?_⟩
      exact Ordering.isLE_of_eq_lt (OrientedCmp.lt_of_not_isLE le)
  swap left right := by
    cases left_read : parse? left with
    | none => cases parse? right <;> simp [compareTexts?, left_read]
    | some version =>
      cases right_read : parse? right with
      | none => simp [compareTexts?, right_read]
      | some other =>
        have swapped := @OrientedCmp.eq_swap _ Version.compare _ other version
        simp [compareTexts?, left_read, right_read, ← swapped]

theorem lt_of_atMost_of_lt {first second third : String}
    (before : AtMost compareTexts? first second) (after : compareTexts? second third = some .lt) :
    compareTexts? first third = some .lt := by
  rcases atMost_iff.1 before with ⟨version, middle, first_read, second_read, le⟩
  rcases compareTexts?_eq_some_iff.1 after with ⟨again, other, second_again, third_read, lt⟩
  cases second_read.symm.trans second_again
  exact compareTexts?_eq_some_iff.2
    ⟨version, other, first_read, third_read, TransCmp.lt_of_isLE_of_lt le lt⟩

theorem lt_of_lt_of_atMost {first second third : String}
    (before : compareTexts? first second = some .lt) (after : AtMost compareTexts? second third) :
    compareTexts? first third = some .lt := by
  rcases compareTexts?_eq_some_iff.1 before with ⟨version, middle, first_read, second_read, lt⟩
  rcases atMost_iff.1 after with ⟨again, other, second_again, third_read, le⟩
  cases second_read.symm.trans second_again
  exact compareTexts?_eq_some_iff.2
    ⟨version, other, first_read, third_read, TransCmp.lt_of_lt_of_isLE lt le⟩

end Version

/-! ## Older names -/

namespace Config

open Version (AtMost OrdersReadings compareTexts?)

theorem needsLegacyNames_iff {config : Config} {since : Option String} :
    config.needsLegacyNames since = true ↔ ∃ threshold version,
      config.legacyNameThreshold = some threshold ∧ since = some version ∧
        compareTexts? version threshold = some .lt := by
  unfold needsLegacyNames
  split
  · rename_i threshold version threshold_eq
    simp [threshold_eq]
  · rename_i missing
    constructor
    · intro needed
      cases needed
    · rintro ⟨threshold, version, threshold_eq, since_eq, _⟩
      exact (missing threshold version threshold_eq since_eq).elim

/-- A later threshold leaves older names where they are. -/
theorem needsLegacyNames_of_raised {config : Config} {raised : String} {since : Option String}
    (later : ∀ threshold, config.legacyNameThreshold = some threshold →
      AtMost compareTexts? threshold raised) (needed : config.needsLegacyNames since = true) :
    { config with legacyNameThreshold := some raised }.needsLegacyNames since = true := by
  rcases needsLegacyNames_iff.1 needed with ⟨threshold, version, threshold_eq, since_eq, lt⟩
  exact needsLegacyNames_iff.2 ⟨raised, version, rfl, since_eq,
    Version.lt_of_lt_of_atMost lt (later threshold threshold_eq)⟩

/-- Texts of versions are ordered, an earlier version has the older names that a later one has, and
a later threshold takes no declaration from the fragment of a component. -/
theorem legacyNames_follow_version_order :
    OrdersReadings Version.parse? compareTexts? ∧
      (∀ (config : Config) (earlier later : String), AtMost compareTexts? earlier later →
        config.needsLegacyNames (some later) = true →
        config.needsLegacyNames (some earlier) = true) ∧
      ∀ (config : Config) (raised : String),
        (∀ threshold, config.legacyNameThreshold = some threshold →
          AtMost compareTexts? threshold raised) →
        ∀ component : ResolvedComponent,
          (config.needsLegacyNames component.since = true →
            { config with legacyNameThreshold := some raised }.needsLegacyNames
              component.since = true) ∧
          ∃ added, component.fragment { config with legacyNameThreshold := some raised } =
            component.fragment config ++ added := by
  refine ⟨Version.compareTexts?_ordersReadings, ?_, ?_⟩
  · intro config earlier later before needed
    rcases needsLegacyNames_iff.1 needed with ⟨threshold, _, threshold_eq, ⟨⟩, lt⟩
    exact needsLegacyNames_iff.2 ⟨threshold, earlier, threshold_eq, rfl,
      Version.lt_of_atMost_of_lt before lt⟩
  · intro config raised later component
    refine ⟨needsLegacyNames_of_raised later, ?_⟩
    simp only [ResolvedComponent.fragment]
    by_cases needed : config.needsLegacyNames component.since = true
    · rw [if_pos needed, if_pos (needsLegacyNames_of_raised later needed)]
      exact ⟨"", String.append_empty.symm⟩
    · rw [if_neg needed, String.append_empty]
      exact ⟨_, rfl⟩

end Config

end Componentry
