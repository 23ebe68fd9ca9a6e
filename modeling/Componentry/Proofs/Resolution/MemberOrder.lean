import Mathlib.Data.List.Perm.Basic
import Componentry.Proofs.Resolution.Display
import Componentry.Proofs.Resolution.Outcome

/-!
# The order of members

The members of a union can be written in any order and nested in any way. What resolution makes of
them depends on the order only where it lists something: the display types that are joined, the
enumeration values, and the texts of the documentation. `Rearranged` relates two signatures that
agree in everything else, and each step from the members to the signature of the union takes
rearranged members to rearranged results.
-/

namespace Componentry

theorem perm_eraseDups {items others : List String} (perm : items.Perm others) :
    items.eraseDups.Perm others.eraseDups := by
  apply (List.perm_ext_iff_of_nodup (nodup_eraseDups items) (nodup_eraseDups others)).2
  intro item
  rw [List.mem_eraseDups, List.mem_eraseDups, perm.mem_iff]

theorem mapM_of_perm {ε α β : Type} {step : α → Except ε β} {items others : List α}
    {results : List β} (perm : items.Perm others) (passed : items.mapM step = .ok results) :
    ∃ otherResults, others.mapM step = .ok otherResults ∧ results.Perm otherResults := by
  rw [mapM_eq_ok_iff] at passed
  rcases List.perm_comp_forall₂ perm.symm passed with ⟨otherResults, each, results_perm⟩
  exact ⟨otherResults, mapM_eq_ok_iff.2 each, results_perm.symm⟩

theorem mem_of_mapM {ε α β : Type} {step : α → Except ε β} {items : List α} {results : List β}
    (passed : items.mapM step = .ok results) {result : β} :
    result ∈ results ↔ ∃ item ∈ items, step item = .ok result := by
  rw [mapM_eq_ok_iff] at passed
  induction passed with
  | nil => simp
  | cons head_passed _ ih => simp [head_passed, ih, eq_comm]

theorem append_ending_ne_any {display : String} (closed : display ≠ "any") (nullable : Bool) :
    display ++ (if nullable then "|null" else "") ≠ "any" := by
  cases nullable with
  | false => simpa using closed
  | true =>
    intro same
    have bar : '|' ∈ (display ++ "|null").toList := by simp
    rw [if_pos rfl] at same
    simp [same] at bar

theorem display_joined (signatures : List Signature) (nullable optional : Bool) :
    ((Signature.joined signatures).withNullish nullable optional).display =
      Scope.unionDisplay nullable (signatures.map Signature.display) := by
  rcases signatures with _ | ⟨first, _ | ⟨second, rest⟩⟩
  · exact Scope.display_unionOf _ _ _
  · exact Scope.display_single _ _ _
  · exact Scope.display_unionOf _ _ _

namespace Signature

/-- Two signatures with the same flags, which list the same enumeration values and are both open or
both not. -/
structure Rearranged (one other : Signature) : Prop where
  nullable : one.nullable = other.nullable
  optionalViaUnion : one.optionalViaUnion = other.optionalViaUnion
  isStruct : one.isStruct = other.isStruct
  isArrayOfObject : one.isArrayOfObject = other.isArrayOfObject
  requiresTypedef : one.requiresTypedef = other.requiresTypedef
  designOnlyEnum : one.designOnlyEnum = other.designOnlyEnum
  enumValues : Option.Rel (fun values others => ∀ value, value ∈ values ↔ value ∈ others)
    one.enumValues other.enumValues
  opened : one.display = "any" ↔ other.display = "any"

namespace Rearranged

theorem refl (signature : Signature) : signature.Rearranged signature where
  nullable := rfl
  optionalViaUnion := rfl
  isStruct := rfl
  isArrayOfObject := rfl
  requiresTypedef := rfl
  designOnlyEnum := rfl
  enumValues := by
    cases signature.enumValues with
    | none => exact .none
    | some values => exact .some fun value => Iff.rfl
  opened := Iff.rfl

theorem unionOf {members others : List Signature} (perm : members.Perm others) :
    (unionOf members).Rearranged (unionOf others) := by
  have any_eq : members.any (·.display == "any") = others.any (·.display == "any") := perm.any_eq
  by_cases open_member : members.any (·.display == "any") = true
  · rw [Signature.unionOf, Signature.unionOf, if_pos open_member, if_pos (any_eq ▸ open_member)]
    exact ⟨rfl, rfl, rfl, rfl, rfl, rfl, .none, Iff.rfl⟩
  · have values := perm_eraseDups (perm.flatMap_right fun member => member.enumValues.getD [])
    have names := perm_eraseDups ((perm.filter (!·.enumValues.isSome)).map Signature.display)
    have closed {signatures : List Signature}
        (none_open : ¬signatures.any (·.display == "any") = true) :
        "|".intercalate (signatures.map Signature.display).eraseDups ≠ "any" :=
      Scope.intercalate_bar_ne_any (mt List.mem_eraseDups.1 (mt Scope.any_display_iff.2 none_open))
    have other_closed : ¬others.any (·.display == "any") = true := any_eq ▸ open_member
    rw [Signature.unionOf, Signature.unionOf, if_neg open_member, if_neg other_closed]
    refine ⟨rfl, rfl, rfl, rfl, perm.any_eq, ?_, ?_, iff_of_false (closed open_member)
      (closed other_closed)⟩
    · simp only [values.isEmpty_eq, names.isEmpty_eq, names.length_eq]
    · simp only [values.isEmpty_eq, names.length_eq]
      split
      · exact .some fun value => values.mem_iff
      · exact .none

theorem joined {signatures others : List Signature} (perm : signatures.Perm others) :
    (joined signatures).Rearranged (joined others) := by
  rcases signatures with _ | ⟨first, _ | ⟨second, rest⟩⟩
  · rw [List.nil_perm.1 perm]
    exact refl _
  · rw [List.singleton_perm.1 perm]
    exact refl _
  · rcases others with _ | ⟨otherFirst, _ | ⟨otherSecond, otherRest⟩⟩
    · cases perm.length_eq
    · cases perm.length_eq
    · exact unionOf perm

theorem withNullish {one other : Signature} (same : one.Rearranged other)
    (nullable optional : Bool) :
    (one.withNullish nullable optional).Rearranged (other.withNullish nullable optional) := by
  by_cases open_one : one.display = "any"
  · have open_other := same.opened.1 open_one
    rw [Signature.withNullish, Signature.withNullish, if_pos (by simpa using open_one),
      if_pos (by simpa using open_other)]
    exact same
  · have closed_other := mt same.opened.2 open_one
    rw [withNullish_eq open_one, withNullish_eq closed_other]
    refine ⟨?_, rfl, same.isStruct, same.isArrayOfObject, same.requiresTypedef,
      same.designOnlyEnum, same.enumValues, ?_⟩
    · rw [same.nullable]
    · exact iff_of_false (append_ending_ne_any open_one nullable)
        (append_ending_ne_any closed_other nullable)

end Rearranged

end Signature

namespace Scope

open TypeExpr

variable {scope : Scope} {context : Context} {seen : List String} {left right : List TypeExpr}

theorem perm_presentMembers (perm : (flatten left).Perm (flatten right)) :
    (presentMembers left).Perm (presentMembers right) :=
  perm.filter _

/-- Members in another order give a union with its alternatives in another order. -/
theorem outcome_union_of_perm {one : Signature} (perm : (flatten left).Perm (flatten right))
    (resolved : scope.outcome context seen (.union left) = .ok one) :
    ∃ other, scope.outcome context seen (.union right) = .ok other ∧ one.Rearranged other ∧
      (presentMembers left = [] → one = other) := by
  have present_perm := perm_presentMembers perm
  rw [outcome_union] at resolved ⊢
  rw [← perm.any_eq, ← perm.any_eq, ← perm.any_eq, ← present_perm.isEmpty_eq]
  split at resolved
  · cases resolved
    rename_i opened
    exact ⟨_, if_pos opened, .refl _, fun _ => rfl⟩
  · rename_i closed
    rw [if_neg closed]
    split at resolved
    · cases resolved
      rename_i absent
      exact ⟨_, if_pos absent, .refl _, fun _ => rfl⟩
    · rename_i some_present
      rw [if_neg some_present]
      rcases map_eq_ok_iff.1 resolved with ⟨signatures, each, rfl⟩
      rcases mapM_of_perm present_perm each with ⟨others, other_each, signatures_perm⟩
      refine ⟨_, map_eq_ok_iff.2 ⟨others, other_each, rfl⟩, ?_, ?_⟩
      · exact (Signature.Rearranged.joined signatures_perm).withNullish _ _
      · intro absent
        simp [absent] at some_present

/-- The display types of the present members, each once in some order, joined with an ending. -/
structure JoinsDisplays (scope : Scope) (context : Context) (seen : List String)
    (members : List TypeExpr) (displays : List String) (joined : String) : Prop where
  nodup : displays.Nodup
  mem_iff : ∀ shown, shown ∈ displays ↔ ∃ member ∈ presentMembers members, ∃ signature,
    scope.outcome context seen member = .ok signature ∧ signature.display = shown
  joined_eq : joined =
    "|".intercalate displays ++ if (flatten members).any isNull then "|null" else ""

theorem exists_joinsDisplays {members : List TypeExpr} {signature : Signature}
    (resolved : scope.outcome context seen (.union members) = .ok signature)
    (closed : signature.display ≠ "any") (some_present : presentMembers members ≠ []) :
    ∃ displays, scope.JoinsDisplays context seen members displays signature.display := by
  rw [outcome_union] at resolved
  split at resolved
  · cases resolved
    exact absurd rfl closed
  · rw [if_neg (mt List.isEmpty_iff.1 some_present)] at resolved
    rcases map_eq_ok_iff.1 resolved with ⟨signatures, each, rfl⟩
    rw [display_joined] at closed
    have no_any : "any" ∉ signatures.map Signature.display := by
      intro mem
      exact closed (if_pos mem)
    refine ⟨(signatures.map Signature.display).eraseDups, nodup_eraseDups _, ?_, ?_⟩
    · intro shown
      rw [List.mem_eraseDups, List.mem_map]
      constructor
      · rintro ⟨own, mem, own_shown⟩
        rcases (mem_of_mapM each).1 mem with ⟨member, present, own_resolved⟩
        exact ⟨member, present, own, own_resolved, own_shown⟩
      · rintro ⟨member, present, own, own_resolved, own_shown⟩
        exact ⟨own, (mem_of_mapM each).2 ⟨member, present, own_resolved⟩, own_shown⟩
    · rw [display_joined, unionDisplay, if_neg no_any]

/-- A union resolves alike however its members are ordered and nested. -/
theorem union_order_irrelevant (scope : Scope) (context : Context) (left right : List TypeExpr)
    (perm : (flatten left).Perm (flatten right)) :
    ((∃ one, (scope.resolve context (.union left)).outcome = .ok one) ↔
      ∃ other, (scope.resolve context (.union right)).outcome = .ok other) ∧
    ∀ one other, (scope.resolve context (.union left)).outcome = .ok one →
      (scope.resolve context (.union right)).outcome = .ok other →
        one.Rearranged other ∧ (presentMembers left = [] → one.display = other.display) ∧
        (presentMembers left ≠ [] → one.display ≠ "any" →
          ∃ displays otherDisplays, displays.Nodup ∧ displays.Perm otherDisplays ∧
            (∀ shown, shown ∈ displays ↔ ∃ member ∈ presentMembers left, ∃ signature,
              (scope.resolve context member).outcome = .ok signature ∧
                signature.display = shown) ∧
            let ending := if (flatten left).any isNull then "|null" else ""
            one.display = "|".intercalate displays ++ ending ∧
              other.display = "|".intercalate otherDisplays ++ ending) := by
  refine ⟨⟨?_, ?_⟩, ?_⟩
  · rintro ⟨one, resolved⟩
    rcases outcome_union_of_perm perm resolved with ⟨other, other_resolved, _⟩
    exact ⟨other, other_resolved⟩
  · rintro ⟨other, resolved⟩
    rcases outcome_union_of_perm perm.symm resolved with ⟨one, one_resolved, _⟩
    exact ⟨one, one_resolved⟩
  · intro one other resolved other_resolved
    rcases outcome_union_of_perm perm resolved with ⟨same, same_resolved, rearranged, absent⟩
    cases other_resolved.symm.trans same_resolved
    refine ⟨rearranged, fun none_present => congrArg _ (absent none_present), ?_⟩
    intro some_present closed
    have present_perm := perm_presentMembers perm
    have other_present : presentMembers right ≠ [] := by
      intro empty
      rw [empty, List.perm_nil] at present_perm
      exact some_present present_perm
    rcases exists_joinsDisplays resolved closed some_present with ⟨displays, joins⟩
    rcases exists_joinsDisplays other_resolved (mt rearranged.opened.2 closed) other_present with
      ⟨otherDisplays, other_joins⟩
    have displays_perm : displays.Perm otherDisplays := by
      apply (List.perm_ext_iff_of_nodup joins.nodup other_joins.nodup).2
      intro shown
      rw [joins.mem_iff, other_joins.mem_iff]
      simp only [present_perm.mem_iff]
    refine ⟨displays, otherDisplays, joins.nodup, displays_perm, joins.mem_iff, joins.joined_eq, ?_⟩
    rw [other_joins.joined_eq, perm.any_eq]

/-- A color by its name or by its parts. -/
def colors : Scope :=
  ofConfig (.ofList [.ofEnum "Color" [.string "red", .string "blue"]]) {}

theorem union_order_irrelevant_colors :
    let left : List TypeExpr := [.named "Color", .array .number, .null]
    let right : List TypeExpr := [.union [.null, .array .number], .named "Color"]
    (flatten left).Perm (flatten right) ∧
      ∃ one other, (colors.resolve ⟨.property, false⟩ (.union left)).outcome = .ok one ∧
        (colors.resolve ⟨.property, false⟩ (.union right)).outcome = .ok other ∧
        one.display = "string|Array<number>|null" ∧ other.display = "Array<number>|string|null" ∧
        one.enumValues = some ["red", "blue"] ∧ one.designOnlyEnum = true ∧
        one.Rearranged other := by
  intro left right
  have perm : (flatten left).Perm (flatten right) := by
    change [TypeExpr.named "Color", .array .number, .null].Perm
      [.null, .array .number, .named "Color"]
    exact (List.reverse_perm _).symm
  have color : colors.outcome ⟨.property, false⟩ [] (.named "Color") =
      .ok (.ofEnumeration (.ofEnum "Color" [.string "red", .string "blue"])) := by
    have found : colors.model.find? "Color" =
        some (.ofEnum "Color" [.string "red", .string "blue"]) := rfl
    exact outcome_declared found rfl []
  have parts : colors.outcome ⟨.property, false⟩ [] (.array .number) =
      .ok (.arrayOf (.simple "number")) := by
    rw [outcome_array, TypeExpr.number, outcome_of_ownSignature? rfl]
    rfl
  have resolved := outcome_union_of_members (rfl : (flatten left).any isOpen = false)
    (List.cons_ne_nil _ _) (.cons color (.cons parts .nil))
  have other_resolved := outcome_union_of_members (rfl : (flatten right).any isOpen = false)
    (List.cons_ne_nil _ _) (.cons parts (.cons color .nil))
  have rearranged :=
    ((union_order_irrelevant colors ⟨.property, false⟩ left right perm).2 _ _ resolved
      other_resolved).1
  exact ⟨perm, _, _, resolved, other_resolved, by decide, by decide, by decide, by decide,
    rearranged⟩

end Scope

end Componentry
