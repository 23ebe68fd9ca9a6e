import Mathlib.Logic.Relation
import Componentry.Proofs.Annotation.Nesting
import Componentry.Proofs.Resolution.Display

/-!
# Alternatives of display types

The display type of a union is joined from the display types of its members, and
a default value is accepted if it is of one of the alternatives that the joined
text is cut into. The two agree as long as the texts that displays are made of
take the count of brackets back to where it started.

A value is of the display type of a union if and only if it is of the display type
of one of its members at any depth (`accepts_flatten`), and from that the
same follows for its members as they are given.
-/

namespace Componentry

namespace Scope

variable {display : String} {scope : Scope} {context : Context} {seen : List String}
  {type : TypeExpr}

/-! ## Displays that keep the level -/

/-- Every type that resolution comes to and that is displayed by its text takes the nesting back to
where it started. -/
def KeepsLevel (scope : Scope) (call : List String × TypeExpr) : Prop :=
  ∀ inner, Relation.ReflTransGen scope.Calls inner call →
    scope.keepsText inner.2 = true → inner.2.skew = 0

theorem KeepsLevel.of_call {inner outer : List String × TypeExpr} (level : scope.KeepsLevel outer)
    (call : scope.Calls inner outer) : scope.KeepsLevel inner :=
  fun deeper reached => level deeper (reached.tail call)

theorem keepsLevel_of_calls {call : List String × TypeExpr}
    (own : scope.keepsText call.2 = true → call.2.skew = 0)
    (calls : ∀ inner, scope.Calls inner call → scope.KeepsLevel inner) :
    scope.KeepsLevel call := by
  intro deeper reached kept
  rcases reached.cases_tail with rfl | ⟨inner, inner_reached, inner_call⟩
  · exact own kept
  · exact calls inner inner_call deeper inner_reached kept

theorem KeepsLevel.nesting_print (level : scope.KeepsLevel (seen, type))
    (kept : scope.keepsText type = true) : nesting type.print.toList = 0 := by
  rw [TypeExpr.nesting_print]
  exact level (seen, type) .refl kept

theorem nesting_unionDisplay {nullable : Bool} {displays : List String}
    (level : ∀ display ∈ displays, nesting display.toList = 0) :
    nesting (unionDisplay nullable displays).toList = 0 := by
  rw [unionDisplay]
  split
  · decide
  · have joined : nesting ("|".intercalate displays.eraseDups).toList = 0 := by
      apply nesting_intercalate_bar
      intro display mem
      exact level display (List.mem_eraseDups.1 mem)
    have null : nesting "|null".toList = 0 := by decide
    cases nullable with
    | false => simpa using joined
    | true => rw [String.toList_append, nesting_append, joined, if_pos rfl, null, Int.add_zero]

theorem nesting_of_mem_displayKeywords (mem : display ∈ displayKeywords) :
    nesting display.toList = 0 := by
  revert mem display
  decide

/-- Display types take the nesting back to where it started, if the texts in them do. -/
theorem nesting_display (level : scope.KeepsLevel (seen, type))
    (shown : scope.display? context seen type = some display) : nesting display.toList = 0 := by
  induction seen, type using scope.calls_induction generalizing display with
  | step seen type ih =>
    cases displayed_of_display? shown with
    | keyword mem => exact nesting_of_mem_displayKeywords mem
    | text kept => exact level.nesting_print kept
    | passed call own_shown => exact ih _ _ call (level.of_call call) own_shown
    | @array element own type_eq own_shown =>
      subst type_eq
      have own_level := ih _ _ .element (level.of_call .element) own_shown
      simp [nestingStep, own_level]
    | @union members displays nullable type_eq own_shown =>
      subst type_eq
      apply nesting_unionDisplay
      intro own mem
      rw [mapM_eq_some_iff] at own_shown
      have own_mem : some own ∈ displays.map some := List.mem_map_of_mem mem
      rw [← own_shown, List.mem_map] at own_mem
      rcases own_mem with ⟨member, present, member_shown⟩
      exact ih _ _ (.alternative present) (level.of_call (.alternative present)) member_shown

/-! ## Members at any depth -/

/-- The type has a display type that can be joined with others. -/
def Joinable (scope : Scope) (context : Context) (seen : List String) (type : TypeExpr) : Prop :=
  ∃ display, scope.display? context seen type = some display ∧ display ≠ "any" ∧
    nesting display.toList = 0

/-- The value is of the type's display type. -/
def Accepts (scope : Scope) (context : Context) (seen : List String) (type : TypeExpr)
    (value : Json) : Prop :=
  ∃ display, scope.display? context seen type = some display ∧ value.matchesDisplay display = true

theorem display?_null : scope.display? context seen .null = some "null" := by
  simp [display?, resolveWith, TypeModel.isWrapper, Signature.simple]

theorem display?_undefined :
    scope.display? context seen (.primitive .undefined) = some "undefined" := by
  simp [display?, resolveWith, TypeModel.isWrapper, Signature.simple, Primitive.keyword]

theorem display?_of_isOpen (isOpen : type.isOpen = true) :
    scope.display? context seen type = some "any" := by
  cases type with
  | any | unknown =>
    simp [display?, resolveWith, TypeModel.isWrapper, Signature.any, Signature.simple]
  | _ => simp [TypeExpr.isOpen] at isOpen

variable {members : List TypeExpr} {member : TypeExpr}

theorem mem_flatten_iff_present :
    member ∈ TypeExpr.flatten members ↔ member ∈ TypeExpr.presentMembers members ∨
      (member ∈ TypeExpr.flatten members ∧ member.isNullish = true) := by
  rw [TypeExpr.presentMembers, List.mem_filter]
  cases member.isNullish <;> simp

theorem matchesDisplay_unionDisplay {nullable : Bool} {displays : List String}
    (nonempty : displays ≠ []) (no_any : "any" ∉ displays)
    (level : ∀ display ∈ displays, nesting display.toList = 0) (value : Json) :
    value.matchesDisplay (unionDisplay nullable displays) = true ↔
      (∃ display ∈ displays, value.matchesDisplay display = true) ∨
        nullable = true ∧ value.matchesDisplay "null" = true := by
  have dups_nonempty : displays.eraseDups ≠ [] := by
    rcases displays with _ | ⟨first, others⟩
    · exact absurd rfl nonempty
    · simp [List.eraseDups_cons]
  have dups_level : ∀ display ∈ displays.eraseDups, nesting display.toList = 0 :=
    fun display mem => level display (List.mem_eraseDups.1 mem)
  have joined := value.matchesDisplay_intercalate dups_nonempty dups_level
  have joined_iff : value.matchesDisplay ("|".intercalate displays.eraseDups) = true ↔
      ∃ display ∈ displays, value.matchesDisplay display = true := by
    rw [joined, List.any_eq_true]
    simp only [List.mem_eraseDups]
  rw [unionDisplay, if_neg no_any]
  cases nullable with
  | false => simpa using joined_iff
  | true =>
    have text_eq : "|".intercalate displays.eraseDups ++ "|null" =
        "|".intercalate displays.eraseDups ++ "|" ++ "null" := by
      rw [String.append_assoc]
      rfl
    rw [if_pos rfl, text_eq, value.matchesDisplay_append (nesting_intercalate_bar dups_level),
      Bool.or_eq_true, joined_iff]
    simp

theorem Joinable.not_isOpen (joinable : scope.Joinable context seen type) :
    type.isOpen = false := by
  rcases joinable with ⟨display, shown, not_any, _⟩
  rw [Bool.eq_false_iff]
  intro isOpen
  rw [display?_of_isOpen isOpen, Option.some.injEq] at shown
  exact not_any shown.symm

theorem accepts_of_display?
    (shown : scope.display? context seen type = some display) (value : Json) :
    scope.Accepts context seen type value ↔ value.matchesDisplay display = true := by
  simp [Accepts, shown]

theorem not_matches_undefined (value : Json) : value.matchesDisplay "undefined" = false := by
  simp [Json.matchesDisplay, displayParts, splitBars, nestingStep, Text.trimBlanks, Text.isBlank,
    Json.matchesPart]

/-- Values of a nullish type are those that `null` accepts, if the type is `null`. -/
theorem accepts_nullish (nullish : type.isNullish = true) (value : Json) :
    scope.Accepts context seen type value ↔ type = .null ∧ value.matchesDisplay "null" = true := by
  rcases TypeExpr.isNullish_iff.1 nullish with rfl | rfl
  · simp [accepts_of_display? display?_null]
  · simp [accepts_of_display? display?_undefined, not_matches_undefined]

theorem exists_displays {types : List TypeExpr}
    (joinable : ∀ type ∈ types, scope.Joinable context seen type) :
    ∃ displays, types.mapM (scope.display? context seen) = some displays ∧ "any" ∉ displays ∧
      (∀ display ∈ displays, nesting display.toList = 0) ∧
      ∀ value : Json, (∃ display ∈ displays, value.matchesDisplay display = true) ↔
        ∃ type ∈ types, scope.Accepts context seen type value := by
  induction types with
  | nil => exact ⟨[], by simp⟩
  | cons type rest ih =>
    rcases joinable type List.mem_cons_self with ⟨display, shown, not_any, level⟩
    rcases ih fun other mem => joinable other (List.mem_cons_of_mem type mem) with
      ⟨displays, others_shown, no_any, others_level, others_accept⟩
    refine ⟨display :: displays, by simp [shown, others_shown], ?_, ?_, ?_⟩
    · simp [no_any, Ne.symm not_any]
    · simpa [level] using others_level
    · intro value
      simp [others_accept, accepts_of_display? shown]

theorem exists_accepts_iff (members : List TypeExpr) (value : Json) :
    (∃ member ∈ TypeExpr.flatten members, scope.Accepts context seen member value) ↔
      (∃ member ∈ TypeExpr.presentMembers members, scope.Accepts context seen member value) ∨
        (TypeExpr.flatten members).any TypeExpr.isNull = true ∧
          value.matchesDisplay "null" = true := by
  rw [TypeExpr.any_isNull]
  constructor
  · rintro ⟨member, mem, accepts⟩
    rcases mem_flatten_iff_present.1 mem with present | ⟨_, nullish⟩
    · exact .inl ⟨member, present, accepts⟩
    · rcases (accepts_nullish nullish value).1 accepts with ⟨rfl, null⟩
      exact .inr ⟨mem, null⟩
  · rintro (⟨member, present, accepts⟩ | ⟨mem, null⟩)
    · exact ⟨member, mem_flatten_iff_present.2 (.inl present), accepts⟩
    · exact ⟨.null, mem, (accepts_of_display? display?_null value).2 null⟩

/-- A value is of the display type of a union if it is of that of one of its members at any
depth. -/
theorem accepts_flatten
    (joinable : ∀ member ∈ TypeExpr.flatten members, scope.Joinable context seen member) :
    ∃ display, scope.display? context seen (.union members) = some display ∧ ∀ value : Json,
      value.matchesDisplay display = true ↔
        ∃ member ∈ TypeExpr.flatten members, scope.Accepts context seen member value := by
  have no_open : ¬ (TypeExpr.flatten members).any TypeExpr.isOpen = true := by
    rw [List.any_eq_true]
    rintro ⟨member, mem, isOpen⟩
    simp [(joinable member mem).not_isOpen] at isOpen
  have present_joinable : ∀ member ∈ TypeExpr.presentMembers members,
      scope.Joinable context seen member :=
    fun member present => joinable member (mem_flatten_iff_present.2 (.inl present))
  rw [display?_union, if_neg no_open]
  by_cases empty : (TypeExpr.presentMembers members).isEmpty = true
  · rw [if_pos empty]
    refine ⟨_, rfl, fun value => ?_⟩
    rw [exists_accepts_iff, List.isEmpty_iff.1 empty]
    split
    · rename_i nullable
      simp [nullable]
    · rename_i not_nullable
      simp [not_nullable, not_matches_undefined]
  · rcases exists_displays present_joinable with ⟨displays, shown, no_any, level, accepts⟩
    have nonempty : displays ≠ [] := by
      rintro rfl
      rw [mapM_eq_some_iff] at shown
      simp at shown
      simp [shown] at empty
    rw [if_neg empty, shown]
    refine ⟨_, rfl, fun value => ?_⟩
    rw [exists_accepts_iff, matchesDisplay_unionDisplay nonempty no_any level, accepts]

theorem exists_display_of_present
    (shown : scope.display? context seen (.union members) = some display)
    (not_any : display ≠ "any") (present : member ∈ TypeExpr.presentMembers members) :
    ∃ own, scope.display? context seen member = some own ∧ own ≠ "any" := by
  rw [display?_union] at shown
  split at shown
  · cases shown
    exact absurd rfl not_any
  · split at shown
    · rename_i empty
      rw [List.isEmpty_iff] at empty
      simp [empty] at present
    · rcases Option.map_eq_some_iff.1 shown with ⟨displays, displays_shown, rfl⟩
      rw [mapM_eq_some_iff] at displays_shown
      have own_mem := List.mem_map_of_mem (f := scope.display? context seen) present
      rw [displays_shown, List.mem_map] at own_mem
      rcases own_mem with ⟨own, own_mem, own_shown⟩
      refine ⟨own, own_shown.symm, ?_⟩
      rintro rfl
      simp [unionDisplay, own_mem] at not_any

/-- The members of a joinable union can be joined with others one by one. -/
theorem joinable_of_mem_flattenOne (level : scope.KeepsLevel (seen, type))
    (shown : scope.display? context seen type = some display) (not_any : display ≠ "any")
    (mem : member ∈ TypeExpr.flattenOne type) :
    scope.Joinable context seen member := by
  cases type with
  | union members =>
    rw [TypeExpr.flattenOne] at mem
    rcases mem_flatten_iff_present.1 mem with present | ⟨_, nullish⟩
    · have call : scope.Calls (seen, member) (seen, .union members) := .alternative present
      rcases exists_display_of_present shown not_any present with ⟨own, own_shown, own_not_any⟩
      exact ⟨own, own_shown, own_not_any, nesting_display (level.of_call call) own_shown⟩
    · rcases TypeExpr.isNullish_iff.1 nullish with rfl | rfl
      · exact ⟨"null", display?_null, by decide, by decide⟩
      · exact ⟨"undefined", display?_undefined, by decide, by decide⟩
  | _ =>
    rw [TypeExpr.flattenOne, List.mem_singleton] at mem
    subst mem
    exact ⟨display, shown, not_any, nesting_display level shown⟩

theorem accepts_flattenOne (level : scope.KeepsLevel (seen, type))
    (shown : scope.display? context seen type = some display) (not_any : display ≠ "any")
    (value : Json) :
    (∃ member ∈ TypeExpr.flattenOne type, scope.Accepts context seen member value) ↔
      value.matchesDisplay display = true := by
  cases type with
  | union members =>
    have joinable {member : TypeExpr} (mem : member ∈ TypeExpr.flatten members) :
        scope.Joinable context seen member :=
      joinable_of_mem_flattenOne level shown not_any (by rwa [TypeExpr.flattenOne])
    rcases accepts_flatten fun _ => joinable with ⟨whole, whole_shown, accepts⟩
    rw [shown, Option.some.injEq] at whole_shown
    rw [TypeExpr.flattenOne, whole_shown, accepts]
  | _ => simp [TypeExpr.flattenOne, accepts_of_display? shown]

/-- A value is of the display type of a union if it is of that of one of the members. -/
theorem accepts_union {types : List TypeExpr}
    (displayed : ∀ type ∈ types, scope.KeepsLevel (seen, type) ∧
      ∃ display, scope.display? context seen type = some display ∧ display ≠ "any") :
    ∃ whole, scope.display? context seen (.union types) = some whole ∧ ∀ value : Json,
      value.matchesDisplay whole = true ↔
        ∃ type ∈ types, scope.Accepts context seen type value := by
  have joinable : ∀ member ∈ TypeExpr.flatten types, scope.Joinable context seen member := by
    intro member mem
    rcases TypeExpr.mem_flatten.1 mem with ⟨type, type_mem, mem_one⟩
    rcases displayed type type_mem with ⟨level, display, shown, not_any⟩
    exact joinable_of_mem_flattenOne level shown not_any mem_one
  rcases accepts_flatten joinable with ⟨whole, whole_shown, accepts⟩
  refine ⟨whole, whole_shown, fun value => ?_⟩
  have of_type {type : TypeExpr} (type_mem : type ∈ types) :
      (∃ member ∈ TypeExpr.flattenOne type, scope.Accepts context seen member value) ↔
        scope.Accepts context seen type value := by
    rcases displayed type type_mem with ⟨level, display, shown, not_any⟩
    rw [accepts_flattenOne level shown not_any, accepts_of_display? shown]
  rw [accepts]
  constructor
  · rintro ⟨member, mem, member_accepts⟩
    rcases TypeExpr.mem_flatten.1 mem with ⟨type, type_mem, mem_one⟩
    exact ⟨type, type_mem, (of_type type_mem).1 ⟨member, mem_one, member_accepts⟩⟩
  · rintro ⟨type, type_mem, type_accepts⟩
    rcases (of_type type_mem).2 type_accepts with ⟨member, mem_one, member_accepts⟩
    exact ⟨member, TypeExpr.mem_flatten.2 ⟨type, type_mem, mem_one⟩, member_accepts⟩

theorem keepsLevel_null : scope.KeepsLevel (seen, .null) := by
  apply keepsLevel_of_calls
  · exact fun _ => rfl
  · intro inner call
    cases call with
    | core wrapped => simp [TypeModel.isWrapper] at wrapped

theorem matchesDisplay_null (value : Json) :
    value.matchesDisplay "null" = true ↔ value = .null := by
  cases value <;> simp [Json.matchesDisplay, displayParts, splitBars, nestingStep, Text.trimBlanks,
    Text.isBlank, Json.matchesPart, Json.isNull]

/-- Displaying a union and reading its display type agree. If the texts that are displayed take the
count of brackets back to where it started, then a value is of the display type of `T | null` if it
is `null` or of the display type of `T`, and of the display type of a union if it is of that of one
of the members. -/
theorem union_display_agrees (scope : Scope) (context : Context) :
    (∀ (type : TypeExpr) (display : String), scope.KeepsLevel ([], type) →
      scope.display? context [] type = some display → display ≠ "any" →
        ∃ whole, scope.display? context [] (.union [type, .null]) = some whole ∧
          ∀ value : Json, value.matchesDisplay whole = true ↔
            value = .null ∨ value.matchesDisplay display = true) ∧
      ∀ types : List TypeExpr, (∀ type ∈ types, scope.KeepsLevel ([], type) ∧
        ∃ display, scope.display? context [] type = some display ∧ display ≠ "any") →
        ∃ whole, scope.display? context [] (.union types) = some whole ∧
          ∀ value : Json, value.matchesDisplay whole = true ↔
            ∃ type ∈ types, ∃ display, scope.display? context [] type = some display ∧
              value.matchesDisplay display = true := by
  refine ⟨?_, fun types displayed => accepts_union displayed⟩
  intro type display level shown not_any
  have displayed : ∀ member ∈ [type, .null], scope.KeepsLevel ([], member) ∧
      ∃ own, scope.display? context [] member = some own ∧ own ≠ "any" := by
    intro member mem
    simp only [List.mem_cons, List.not_mem_nil, or_false] at mem
    rcases mem with rfl | rfl
    · exact ⟨level, display, shown, not_any⟩
    · exact ⟨keepsLevel_null, "null", display?_null, by decide⟩
  rcases accepts_union displayed with ⟨whole, whole_shown, accepts⟩
  refine ⟨whole, whole_shown, fun value => ?_⟩
  rw [accepts]
  simp [accepts_of_display? shown, accepts_of_display? display?_null, matchesDisplay_null, or_comm]

/-- A scope in which no name is declared. -/
def undeclared : Scope where
  model := .ofList []

/-- An array of maps, with a bar inside the brackets. -/
def numberMaps : TypeExpr :=
  .array (.reference "Map" [.string, .union [.number, .null]])

theorem keepsLevel_numberMaps : undeclared.KeepsLevel ([], numberMaps) := by
  apply keepsLevel_of_calls
  · simp [keepsText, numberMaps]
  · intro inner call
    cases call with
    | core wrapped => simp [TypeModel.isWrapper, numberMaps] at wrapped
    | element =>
      apply keepsLevel_of_calls
      · exact fun _ => rfl
      · intro inner call
        cases call with
        | core wrapped =>
          simp [TypeModel.isWrapper, TypeModel.isWrapperName, Wrapper.standardNames] at wrapped
        | aliased found => cases found

theorem display?_numberMaps : undeclared.display? ⟨.property, false⟩ [] numberMaps =
    some "Array<Map<string, number | null>>" := by
  rw [numberMaps, display?_array, display?_reference_of_isWellKnown (by decide) (by decide)]
  rfl

theorem union_display_agrees_numberMaps :
    undeclared.display? ⟨.property, false⟩ [] numberMaps =
        some "Array<Map<string, number | null>>" ∧
      (∃ whole,
        undeclared.display? ⟨.property, false⟩ [] (.union [numberMaps, .null]) = some whole ∧
        ∀ value : Json, value.matchesDisplay whole = true ↔
          value = .null ∨ value.matchesDisplay "Array<Map<string, number | null>>" = true) ∧
      ∃ whole,
        undeclared.display? ⟨.property, false⟩ [] (.union [.string, numberMaps]) = some whole ∧
        ∀ value : Json, value.matchesDisplay whole = true ↔ ∃ type ∈ [.string, numberMaps],
          ∃ display, undeclared.display? ⟨.property, false⟩ [] type = some display ∧
            value.matchesDisplay display = true := by
  have agrees := union_display_agrees undeclared ⟨.property, false⟩
  have string_level : undeclared.KeepsLevel ([], .string) := by
    apply keepsLevel_of_calls
    · exact fun _ => rfl
    · intro inner call
      cases call with
      | core wrapped => simp [TypeModel.isWrapper, TypeExpr.string] at wrapped
  have string_shown : undeclared.display? ⟨.property, false⟩ [] .string = some "string" := by
    simp [display?, resolveWith, TypeModel.isWrapper, TypeExpr.string, Signature.simple,
      Primitive.keyword]
  refine ⟨display?_numberMaps, ?_, ?_⟩
  · exact agrees.1 _ _ keepsLevel_numberMaps display?_numberMaps (by decide)
  · apply agrees.2
    intro type mem
    simp only [List.mem_cons, List.not_mem_nil, or_false] at mem
    rcases mem with rfl | rfl
    · exact ⟨string_level, _, string_shown, by decide⟩
    · exact ⟨keepsLevel_numberMaps, _, display?_numberMaps, by decide⟩

/-- The arrow inside the brackets is counted as a closing bracket, and the text is not cut before
`null`. -/
theorem arrow_hides_alternative :
    let type : TypeExpr := .array (.reference "Promise" [.function [] .void])
    undeclared.display? ⟨.property, false⟩ [] type = some "Array<Promise<() => void>>" ∧
      undeclared.display? ⟨.property, false⟩ [] (.union [type, .null]) =
        some "Array<Promise<() => void>>|null" ∧
      Json.null.matchesDisplay "Array<Promise<() => void>>|null" = false := by
  have shown : undeclared.display? ⟨.property, false⟩ []
      (.array (.reference "Promise" [.function [] .void])) = some "Array<Promise<() => void>>" := by
    rw [display?_array, display?_reference_of_isWellKnown (by decide) (by decide)]
    rfl
  have uncut : displayParts "Array<Promise<() => void>>|null" =
      ["Array<Promise<() => void>>|null"] := by
    decide
  refine ⟨shown, ?_, ?_⟩
  · simp [display?_union, TypeExpr.flatten, TypeExpr.flattenOne, TypeExpr.isOpen,
      TypeExpr.presentMembers, TypeExpr.isNullish, TypeExpr.isNull, TypeExpr.isUndefined, shown,
      unionDisplay, List.eraseDups_cons]
  · simp [Json.matchesDisplay, uncut, Json.matchesPart, Json.isArray]

end Scope

end Componentry
