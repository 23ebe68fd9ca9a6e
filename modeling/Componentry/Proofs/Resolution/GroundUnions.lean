import Componentry.Proofs.Resolution.Display
import Componentry.Proofs.Resolution.Outcome

/-!
# Unions of ground members

Primitives, literals and `null` mean the same everywhere, so the signature of a union of them can
be written down from its flat list of members: the widened names, the texts and the string values
of the present members, each once and in the order in which they first occur. The string values
are the values of an enumeration if nothing else is present, advice to design tools if all else is
displayed alike, and dropped otherwise.
-/

namespace Componentry

namespace TypeExpr

/-- Whether a type is a primitive, a literal or `null`. -/
def isGround : TypeExpr → Bool
  | .primitive _ => true
  | .literal _ => true
  | .null => true
  | _ => false

/-- The keyword of a primitive, and for a literal that of the primitive to which it widens. -/
def widenedName : TypeExpr → String
  | .primitive name => name.keyword
  | .literal value => value.widened.keyword
  | type => type.print

/-- The value of a string literal. -/
def stringValue? : TypeExpr → Option String
  | .literal (.string value) => some value
  | _ => none

/-- The signature of a present ground type. -/
def groundSignature (type : TypeExpr) : Signature :=
  { Signature.documented type.widenedName type.print with
    enumValues := type.stringValue?.map fun value => [value] }

variable {type : TypeExpr}

theorem ownSignature?_of_isGround (ground : type.isGround = true)
    (present : type.isNullish = false) : type.ownSignature? = some type.groundSignature := by
  cases type with
  | primitive name => rfl
  | literal value => cases value <;> rfl
  | null => cases present
  | _ => cases ground

theorem widenedName_ne_any (ground : type.isGround = true) : type.widenedName ≠ "any" := by
  cases type with
  | primitive name => cases name <;> simp [widenedName, Primitive.keyword]
  | literal value => cases value <;> simp [widenedName, Literal.widened, Primitive.keyword]
  | null => simp [widenedName, print]
  | _ => cases ground

theorem not_isOpen_of_isGround (ground : type.isGround = true) : type.isOpen = false := by
  cases type with
  | primitive name | literal value | null => rfl
  | _ => cases ground

theorem any_isUndefined {types : List TypeExpr} :
    types.any isUndefined = true ↔ .primitive .undefined ∈ types := by
  rw [List.any_eq_true]
  constructor
  · rintro ⟨type, mem, undefined⟩
    cases type with
    | primitive name =>
      cases name <;> first | exact mem | cases undefined
    | _ => cases undefined
  · intro mem
    exact ⟨_, mem, rfl⟩

theorem any_not_mem_widenedName {members : List TypeExpr}
    (ground : ∀ member ∈ flatten members, member.isGround = true) :
    "any" ∉ (presentMembers members).map widenedName := by
  intro mem
  rcases List.mem_map.1 mem with ⟨member, member_mem, shown⟩
  exact widenedName_ne_any (ground member (List.mem_of_mem_filter member_mem)) shown

/-- The string values of some members, each once. -/
def stringValues (present : List TypeExpr) : List String :=
  (present.filterMap stringValue?).eraseDups

/-- The widened names of the members that are no strings, each once. -/
def otherNames (present : List TypeExpr) : List String :=
  ((present.filter (·.stringValue?.isNone)).map widenedName).eraseDups

end TypeExpr

namespace Signature

open TypeExpr

/-- Whether the string values of some members are kept. -/
def keepsValues (present : List TypeExpr) : Bool :=
  !(stringValues present).isEmpty && (otherNames present).length ≤ 1

/-- The signature of a union of present ground members. -/
def groundUnion (present : List TypeExpr) : Signature :=
  { documented ("|".intercalate (present.map widenedName).eraseDups)
      ("|".intercalate (present.map print).eraseDups) with
    enumValues := if keepsValues present then some (stringValues present) else none
    designOnlyEnum := keepsValues present && !(otherNames present).isEmpty }

theorem unionOf_ground {present : List TypeExpr} (no_any : "any" ∉ present.map widenedName) :
    unionOf (present.map groundSignature) = groundUnion present := by
  have displays : (present.map groundSignature).map display = present.map widenedName := by
    simp [groundSignature, documented]
  have docs : (present.map groundSignature).map doc = present.map print := by
    simp [groundSignature, documented, doc]
  have values : (present.map groundSignature).flatMap (·.enumValues.getD []) =
      present.filterMap stringValue? := by
    rw [List.flatMap_map, List.filterMap_eq_flatMap_toList]
    congr 1
    funext type
    simp only [groundSignature]
    cases type.stringValue? <;> rfl
  have others : ((present.map groundSignature).filter (!·.enumValues.isSome)).map display =
      (present.filter (·.stringValue?.isNone)).map widenedName := by
    rw [List.filter_map, List.map_map]
    congr 2
    funext type
    simp [groundSignature]
  have typedefs : (present.map groundSignature).findSome? typedef = none := by
    rw [List.findSome?_eq_none_iff]
    intro signature mem
    rcases List.mem_map.1 mem with ⟨type, _, rfl⟩
    rfl
  have no_typedef : (present.map groundSignature).any requiresTypedef = false := by
    rw [List.any_map]
    exact List.any_eq_false.2 fun type _ => by simp [groundSignature, documented]
  have closed : ¬(present.map groundSignature).any (·.display == "any") = true := by
    rw [Scope.any_display_iff, displays]
    exact no_any
  rw [unionOf, if_neg closed]
  simp only [displays, docs, values, others, typedefs, no_typedef]
  rfl

/-- A single member is a union of one. -/
theorem joined_ground {present : List TypeExpr} (no_any : "any" ∉ present.map widenedName) :
    joined (present.map groundSignature) = groundUnion present := by
  rcases present with _ | ⟨first, _ | ⟨second, others⟩⟩
  · exact unionOf_ground no_any
  · change first.groundSignature = groundUnion [first]
    simp only [groundUnion, groundSignature, documented, keepsValues, stringValues, otherNames]
    cases value : first.stringValue? <;> simp [value, List.eraseDups_cons]
  · exact unionOf_ground no_any

/-- String values are enforced without other names, advise beside one, and are dropped otherwise. -/
theorem enum_groundUnion (present : List TypeExpr) :
    (stringValues present ≠ [] → otherNames present = [] →
      (groundUnion present).enumValues = some (stringValues present) ∧
        (groundUnion present).designOnlyEnum = false) ∧
    (stringValues present ≠ [] → (otherNames present).length = 1 →
      (groundUnion present).enumValues = some (stringValues present) ∧
        (groundUnion present).designOnlyEnum = true) ∧
    (stringValues present = [] ∨ 1 < (otherNames present).length →
      (groundUnion present).enumValues = none ∧ (groundUnion present).designOnlyEnum = false) := by
  refine ⟨?_, ?_, ?_⟩
  · intro has_values no_others
    simp [groundUnion, keepsValues, has_values, no_others]
  · intro has_values one_other
    rcases List.length_eq_one_iff.1 one_other with ⟨other, others⟩
    simp [groundUnion, keepsValues, has_values, others]
  · intro dropped
    have loses : keepsValues present = false := by
      rcases dropped with no_values | many
      · simp [keepsValues, no_values]
      · have too_many : ¬(otherNames present).length ≤ 1 := by omega
        simp [keepsValues, too_many]
    simp [groundUnion, loses]

end Signature

namespace Scope

open TypeExpr

/-- A union of primitives and literals is joined without a look at other types. -/
theorem outcome_ground_union (scope : Scope) (context : Context) (seen : List String)
    {members : List TypeExpr} (ground : ∀ member ∈ flatten members, member.isGround = true) :
    scope.outcome context seen (.union members) =
      .ok (if (presentMembers members).isEmpty then
        if (flatten members).any isNull then
          { Signature.simple "null" with
            optionalViaUnion := context.position == .returned &&
              (flatten members).any isUndefined }
        else .simple "undefined"
      else
        (Signature.groundUnion (presentMembers members)).withNullish
          ((flatten members).any isNull)
          (context.position == .returned && (flatten members).any isUndefined)) := by
  have closed : (flatten members).any isOpen = false := by
    rw [List.any_eq_false]
    intro member mem
    simp [not_isOpen_of_isGround (ground member mem)]
  split
  · rename_i absent
    rw [outcome_union, if_neg (by simp [closed]), if_pos absent]
  · rename_i some_present
    have each : List.Forall₂ (fun member own => scope.outcome context seen member = .ok own)
        (presentMembers members) ((presentMembers members).map groundSignature) := by
      rw [List.forall₂_map_right_iff, List.forall₂_same]
      intro member mem
      rcases List.mem_filter.1 mem with ⟨flat_mem, present⟩
      apply outcome_of_ownSignature?
      exact ownSignature?_of_isGround (ground member flat_mem) (by simpa using present)
    rw [outcome_union_of_members closed (mt List.isEmpty_iff.2 some_present) each,
      Signature.joined_ground (any_not_mem_widenedName ground)]

/-- The normal form of a union of ground members, however it is nested. -/
theorem ground_union_normal_form (scope : Scope) (context : Context) (members : List TypeExpr)
    (ground : ∀ member ∈ flatten members, member.isGround = true) :
    let flat := flatten members
    let present := flat.filter (!·.isNullish)
    let ending := if flat.any isNull then "|null" else ""
    ∃ signature, (scope.resolve context (.union members)).outcome = .ok signature ∧
      (present ≠ [] →
        signature.display = "|".intercalate (present.map widenedName).eraseDups ++ ending ∧
        signature.documentation =
          some ("|".intercalate (present.map TypeExpr.print).eraseDups ++ ending) ∧
        (signature.nullable = true ↔ .null ∈ flat) ∧
        (signature.optionalViaUnion = true ↔
          .primitive .undefined ∈ flat ∧ context.position = .returned) ∧
        (stringValues present ≠ [] → otherNames present = [] →
          signature.enumValues = some (stringValues present) ∧
            signature.designOnlyEnum = false) ∧
        (stringValues present ≠ [] → (otherNames present).length = 1 →
          signature.enumValues = some (stringValues present) ∧ signature.designOnlyEnum = true) ∧
        (stringValues present = [] ∨ 1 < (otherNames present).length →
          signature.enumValues = none ∧ signature.designOnlyEnum = false)) ∧
      (present = [] → signature.display = if flat.any isNull then "null" else "undefined") := by
  intro flat present ending
  have resolved := outcome_ground_union scope context [] ground
  by_cases absent : presentMembers members = []
  · rw [if_pos (List.isEmpty_iff.2 absent)] at resolved
    refine ⟨_, resolved, fun some_present => absurd absent some_present, ?_⟩
    intro _
    split <;> rfl
  · have shown := intercalate_bar_ne_any (mt List.mem_eraseDups.1 (any_not_mem_widenedName ground))
    rw [if_neg (mt List.isEmpty_iff.1 absent), Signature.withNullish_eq shown] at resolved
    refine ⟨_, resolved, ?_, fun none_present => absurd none_present absent⟩
    intro _
    refine ⟨rfl, rfl, ?_, ?_, Signature.enum_groundUnion present⟩
    · rw [← any_isNull]
      exact iff_of_eq (congrArg (· = true) (Bool.or_false _))
    · rw [Bool.and_eq_true, any_isUndefined, beq_iff_eq]
      exact and_comm

/-- Sizes by name or by number, some of them nested and repeated. -/
def sizes : List TypeExpr :=
  [.stringLiteral "small", .union [.null, .union [.stringLiteral "large", .undefined]], .number,
    .stringLiteral "small"]

theorem ground_union_normal_form_sizes :
    (∀ member ∈ flatten sizes, member.isGround = true) ∧
      ∃ signature, ((ofConfig .empty {}).resolve ⟨.returned, false⟩ (.union sizes)).outcome =
          .ok signature ∧
        signature.display = "string|number|null" ∧
        signature.documentation = some "\"small\"|\"large\"|number|null" ∧
        signature.nullable = true ∧ signature.optionalViaUnion = true ∧
        signature.enumValues = some ["small", "large"] ∧ signature.designOnlyEnum = true := by
  have ground : ∀ member ∈ flatten sizes, member.isGround = true := by
    simp [sizes, flatten, flattenOne, isGround, stringLiteral, TypeExpr.undefined, TypeExpr.number]
  rcases ground_union_normal_form (ofConfig .empty {}) ⟨.returned, false⟩ sizes ground with
    ⟨signature, resolved, normal, _⟩
  have some_present : (flatten sizes).filter (!·.isNullish) ≠ [] := List.cons_ne_nil _ _
  rcases normal some_present with ⟨shown, documented, nullable, optional, _, advised, _⟩
  have undefined_mem : TypeExpr.primitive .undefined ∈ flatten sizes := any_isUndefined.1 rfl
  rcases advised (by decide) (by decide) with ⟨values, design_only⟩
  exact ⟨ground, signature, resolved, shown.trans (by decide), documented.trans (by decide),
    nullable.2 (any_isNull.1 rfl), optional.2 ⟨undefined_mem, rfl⟩, values.trans (by decide),
    design_only⟩

end Scope

end Componentry
