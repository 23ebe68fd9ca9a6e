import Mathlib.Data.List.Pairwise
import Mathlib.Data.List.Permutation
import Componentry.Proofs.Resolution.MemberOrder
import Componentry.Proofs.TypeExpr.Brackets

/-!
# Repeated alternatives

The display type of a union is joined from the display types of its members,
each of them once. A member may be joined itself, being an alias for a union,
and then its alternatives stand beside those of the others. They are not
compared with them, nor with the `null` at the end.

So the alternatives of a display type are distinct if and only if no union that
the type borrows its display type from has two members that are displayed
differently and share an alternative (`nodup_alternatives_iff`). The induction
is on the calls of resolution, and a union is the only place where anything
happens: elsewhere a type is displayed like another one, or as one alternative.
-/

namespace Componentry

theorem mem_of_mapM_eq_some {α β : Type} {step : α → Option β} {items : List α}
    {results : List β} (passed : items.mapM step = some results) {result : β} :
    result ∈ results ↔ ∃ item ∈ items, step item = some result := by
  rw [mapM_eq_some_iff] at passed
  rw [← List.mem_map, passed]
  simp

theorem shown_of_mapM_eq_some {α β : Type} {step : α → Option β} {items : List α}
    {results : List β} (passed : items.mapM step = some results) {item : α} (mem : item ∈ items) :
    ∃ result ∈ results, step item = some result := by
  rw [mapM_eq_some_iff] at passed
  have image : step item ∈ results.map some := passed ▸ List.mem_map_of_mem mem
  rcases List.mem_map.1 image with ⟨result, result_mem, shown⟩
  exact ⟨result, result_mem, shown.symm⟩

namespace Scope

variable {scope : Scope} {context : Context} {seen : List String} {type : TypeExpr}
  {display : String}

/-! ## Displays are balanced -/

/-- Every type that resolution comes to and that is displayed by its text is legible. -/
def KeepsLegible (scope : Scope) (call : List String × TypeExpr) : Prop :=
  ∀ inner, Relation.ReflTransGen scope.Calls inner call →
    scope.keepsText inner.2 = true → inner.2.Legible

variable {inner outer : List String × TypeExpr} {members : List TypeExpr} {displays : List String}

theorem KeepsLegible.of_call (legible : scope.KeepsLegible outer) (call : scope.Calls inner outer) :
    scope.KeepsLegible inner :=
  fun deeper reached => legible deeper (reached.tail call)

theorem keepsLegible_of_calls {call : List String × TypeExpr}
    (own : scope.keepsText call.2 = true → call.2.Legible)
    (calls : ∀ inner, scope.Calls inner call → scope.KeepsLegible inner) :
    scope.KeepsLegible call := by
  intro deeper reached kept
  rcases reached.cases_tail with rfl | ⟨inner, inner_reached, inner_call⟩
  · exact own kept
  · exact calls inner inner_call deeper inner_reached kept

theorem keepsLegible_primitive (keyword : Primitive) :
    scope.KeepsLegible (seen, .primitive keyword) := by
  apply keepsLegible_of_calls
  · intro kept
    cases kept
  · intro inner call
    cases call with
    | core wrapped => cases wrapped

theorem keepsLegible_union
    (each : ∀ member ∈ TypeExpr.presentMembers members, scope.KeepsLegible (seen, member)) :
    scope.KeepsLegible (seen, .union members) := by
  apply keepsLegible_of_calls
  · intro kept
    cases kept
  · intro inner call
    cases call with
    | core wrapped => cases wrapped
    | alternative present => exact each _ present

theorem whole_print_of_keepsText (legible : type.Legible) (kept : scope.keepsText type = true) :
    Whole type.print := by
  cases type with
  | struct name typeArgs members =>
    cases name with
    | none =>
      have semicolon : Closed "; " := (whole_of_plain (by decide)).closed
      apply TypeExpr.whole_object
      exact semicolon.intercalate (TypeExpr.closed_printMembers members legible)
    | some name =>
      exact TypeExpr.whole_applied legible.1 (TypeExpr.closed_printAll typeArgs legible.2)
  | reference name args =>
    exact TypeExpr.whole_applied legible.1 (TypeExpr.closed_printAll args legible.2)
  | _ => cases kept

theorem whole_of_mem_displayKeywords (mem : display ∈ displayKeywords) : Whole display := by
  apply whole_of_plain
  revert mem display
  decide

theorem whole_array (balanced : Balanced display) : Whole ("Array<" ++ display ++ ">") := by
  have name : Whole "Array" := whole_of_plain (by decide)
  have whole := name.append balanced.closed.angled
  rw [← String.append_assoc, ← String.append_assoc] at whole
  exact whole

theorem balanced_unionDisplay (nullable : Bool) (each : ∀ display ∈ displays, Balanced display) :
    Balanced (unionDisplay nullable displays) := by
  rw [unionDisplay]
  split
  · exact (whole_of_plain (by decide)).balanced
  · have joined : Balanced ("|".intercalate displays.eraseDups) := by
      by_cases empty : displays.eraseDups = []
      · rw [empty]
        exact (whole_of_plain (by decide)).balanced
      · apply (Balanced.intercalate empty _).1
        intro display mem
        exact each display (List.mem_eraseDups.1 mem)
    cases nullable with
    | false => simpa using joined
    | true =>
      have null : Balanced "null" := (whole_of_plain (by decide)).balanced
      have whole := joined.join null
      rw [String.append_assoc] at whole
      exact whole

/-- Display types are balanced if the texts in them are legible. -/
theorem balanced_display (legible : scope.KeepsLegible (seen, type))
    (shown : scope.display? context seen type = some display) : Balanced display := by
  induction seen, type using scope.calls_induction generalizing display with
  | step seen type ih =>
    cases displayed_of_display? shown with
    | keyword mem => exact (whole_of_mem_displayKeywords mem).balanced
    | text kept => exact (whole_print_of_keepsText (legible _ .refl kept) kept).balanced
    | passed call own_shown => exact ih _ _ call (legible.of_call call) own_shown
    | array type_eq own_shown =>
      subst type_eq
      exact (whole_array (ih _ _ .element (legible.of_call .element) own_shown)).balanced
    | union nullable type_eq own_shown =>
      subst type_eq
      apply balanced_unionDisplay
      intro own mem
      rcases (mem_of_mapM_eq_some own_shown).1 mem with ⟨member, present, member_shown⟩
      exact ih _ _ (.alternative present) (legible.of_call (.alternative present)) member_shown

/-! ## One union -/

/-- Members of a union that are displayed differently have no alternative in common, and no member
lists the `null` that the union adds to them. -/
structure SharesNothing (scope : Scope) (context : Context) (seen : List String)
    (members : List TypeExpr) : Prop where
  disjoint : ∀ first ∈ TypeExpr.presentMembers members,
    ∀ second ∈ TypeExpr.presentMembers members, ∀ display other,
      scope.display? context seen first = some display →
      scope.display? context seen second = some other → display ≠ other →
      (alternatives display).Disjoint (alternatives other)
  null : .null ∈ TypeExpr.flatten members → ∀ member ∈ TypeExpr.presentMembers members,
    ∀ display, scope.display? context seen member = some display → "null" ∉ alternatives display

theorem alternatives_unionDisplay (nonempty : displays ≠ []) (no_any : "any" ∉ displays)
    (each : ∀ display ∈ displays, Balanced display) (nullable : Bool) :
    alternatives (unionDisplay nullable displays) =
      displays.eraseDups.flatMap alternatives ++ if nullable then ["null"] else [] := by
  have some_left : displays.eraseDups ≠ [] := by
    cases displays with
    | nil => exact absurd rfl nonempty
    | cons first others => simp [List.eraseDups_cons]
  have each_left : ∀ display ∈ displays.eraseDups, Balanced display := by
    intro display mem
    exact each display (List.mem_eraseDups.1 mem)
  rcases Balanced.intercalate some_left each_left with ⟨balanced, joined⟩
  rw [unionDisplay, if_neg no_any]
  cases nullable with
  | false => simpa using joined
  | true =>
    have null : Whole "null" := whole_of_plain (by decide)
    have cut := balanced.cut "null"
    rw [String.append_assoc, joined, alternatives_of_whole null] at cut
    exact cut

/-- The alternatives of a union are distinct if those of each member are and members share none. -/
theorem nodup_alternatives_unionDisplay
    (shown : (TypeExpr.presentMembers members).mapM (scope.display? context seen) = some displays)
    (nonempty : displays ≠ []) (no_any : "any" ∉ displays)
    (each : ∀ display ∈ displays, Balanced display) :
    (alternatives (unionDisplay ((TypeExpr.flatten members).any TypeExpr.isNull) displays)).Nodup ↔
      (∀ display ∈ displays, (alternatives display).Nodup) ∧
        scope.SharesNothing context seen members := by
  have mem_left (display : String) : display ∈ displays.eraseDups ↔
      ∃ member ∈ TypeExpr.presentMembers members,
        scope.display? context seen member = some display := by
    rw [List.mem_eraseDups, mem_of_mapM_eq_some shown]
  rw [alternatives_unionDisplay nonempty no_any each, List.nodup_append', List.nodup_flatMap]
  constructor
  · rintro ⟨⟨own, pairwise⟩, _, apart⟩
    refine ⟨fun display mem => own display (List.mem_eraseDups.2 mem), ?_, ?_⟩
    · intro first first_mem second second_mem display other first_shown second_shown ne
      have : Std.Symm (Function.onFun List.Disjoint alternatives) :=
        ⟨fun _ _ apart _ in_second in_first => apart in_first in_second⟩
      exact pairwise.forall ((mem_left display).2 ⟨first, first_mem, first_shown⟩)
        ((mem_left other).2 ⟨second, second_mem, second_shown⟩) ne
    · intro null member mem display member_shown listed
      rw [if_pos (TypeExpr.any_isNull.2 null)] at apart
      have in_joined := List.mem_flatMap.2
        ⟨display, (mem_left display).2 ⟨member, mem, member_shown⟩, listed⟩
      exact apart in_joined List.mem_cons_self
  · rintro ⟨own, shares⟩
    refine ⟨⟨?_, ?_⟩, ?_, ?_⟩
    · intro display mem
      exact own display (List.mem_eraseDups.1 mem)
    · apply (nodup_eraseDups displays).pairwise_of_forall_ne
      intro display mem other other_mem ne
      rcases (mem_left display).1 mem with ⟨first, first_mem, first_shown⟩
      rcases (mem_left other).1 other_mem with ⟨second, second_mem, second_shown⟩
      exact shares.disjoint first first_mem second second_mem display other first_shown
        second_shown ne
    · split <;> simp
    · split
      · rename_i nullable
        intro part listed null
        rcases List.mem_flatMap.1 listed with ⟨display, mem, in_display⟩
        rcases (mem_left display).1 mem with ⟨member, member_mem, member_shown⟩
        rw [List.mem_singleton] at null
        subst null
        exact shares.null (TypeExpr.any_isNull.1 nullable) member member_mem display member_shown
          in_display
      · simp

/-! ## Unions at any depth -/

/-- The second type is displayed like the first, or as a union with the first among its
alternatives. -/
inductive Lends (scope : Scope) : List String × TypeExpr → List String × TypeExpr → Prop
  | core {seen : List String} {type : TypeExpr} (wrapped : scope.model.isWrapper type = true) :
      Lends scope (seen, scope.model.core type) (seen, type)
  | aliased {seen : List String} {name : String} {args : List TypeExpr} {declaration : Declaration}
      (found : scope.model.find? name = some declaration) (own : scope.isWellKnown name = false)
      (kind : declaration.kind = .typeAlias) (fresh : name ∉ seen) :
      Lends scope (name :: seen, declaration.body) (seen, .reference name args)
  | alternative {seen : List String} {members : List TypeExpr} {member : TypeExpr}
      (present : member ∈ TypeExpr.presentMembers members) :
      Lends scope (seen, member) (seen, .union members)
  | branch {seen : List String} {text : String} {branch : TypeExpr} :
      Lends scope (seen, branch) (seen, .conditional text (some branch))

/-- No union that a type borrows its display type from repeats an alternative. -/
def NeverRepeats (scope : Scope) (context : Context) (call : List String × TypeExpr) : Prop :=
  ∀ seen members, Relation.ReflTransGen scope.Lends (seen, .union members) call →
    scope.SharesNothing context seen members

theorem Lends.calls (lends : scope.Lends inner outer) :
    scope.Calls inner outer := by
  cases lends with
  | core wrapped => exact .core wrapped
  | aliased found own kind fresh => exact .aliased found kind fresh
  | alternative present => exact .alternative present
  | branch => exact .branch

theorem neverRepeats_iff {call : List String × TypeExpr} :
    scope.NeverRepeats context call ↔
      (∀ members, call.2 = .union members → scope.SharesNothing context call.1 members) ∧
        ∀ inner, scope.Lends inner call → scope.NeverRepeats context inner := by
  constructor
  · intro never
    refine ⟨?_, fun inner lends seen members reached => never seen members (reached.tail lends)⟩
    intro members same
    apply never
    rw [← same]
  · rintro ⟨own, each⟩ seen members reached
    rcases reached.cases_tail with same | ⟨inner, inner_reached, lends⟩
    · subst same
      exact own members rfl
    · exact each inner lends seen members inner_reached

theorem neverRepeats_union_iff (members : List TypeExpr) :
    scope.NeverRepeats context (seen, .union members) ↔
      scope.SharesNothing context seen members ∧
        ∀ member ∈ TypeExpr.presentMembers members, scope.NeverRepeats context (seen, member) := by
  rw [neverRepeats_iff]
  constructor
  · rintro ⟨own, each⟩
    exact ⟨own members rfl, fun member present => each _ (.alternative present)⟩
  · rintro ⟨shares, each⟩
    constructor
    · intro others same
      cases same
      exact shares
    · intro inner lends
      cases lends with
      | alternative present => exact each _ present
      | core wrapped => cases wrapped

theorem display?_eq_outcome : scope.display? context seen type =
    (scope.outcome context seen type).toOption.map Signature.display :=
  rfl

theorem display?_eq_of_outcome {innerSeen : List String} {inner : TypeExpr}
    {change : Signature → Signature}
    (same : scope.outcome context seen type = (scope.outcome context innerSeen inner).map change)
    (keeps : ∀ signature, (change signature).display = signature.display) :
    scope.display? context seen type = scope.display? context innerSeen inner := by
  rw [display?_eq_outcome, display?_eq_outcome, same]
  cases scope.outcome context innerSeen inner with
  | error failure => rfl
  | ok signature => exact congrArg some (keeps signature)

/-- A type that is no union is displayed like the type it borrows its display type from. -/
theorem Lends.display?_eq (lends : scope.Lends inner outer)
    (single : ∀ members, outer.2 ≠ .union members) :
    scope.display? context outer.1 outer.2 = scope.display? context inner.1 inner.2 := by
  cases lends with
  | core wrapped =>
    apply display?_eq_of_outcome (outcome_wrapper wrapped)
    intro signature
    rfl
  | aliased found own kind fresh =>
    apply display?_eq_of_outcome (outcome_alias found own kind fresh _)
    exact display_aliasSignature _ _
  | alternative present => exact absurd rfl (single _)
  | branch =>
    have unchanged {outcome : Except StructuralError Signature} : outcome = outcome.map id := by
      cases outcome <;> rfl
    exact display?_eq_of_outcome ((outcome_branch _ _).trans unchanged) fun _ => rfl

theorem whole_display_array {element : TypeExpr}
    (legible : scope.KeepsLegible (seen, .array element))
    (shown : scope.display? context seen (.array element) = some display) : Whole display := by
  rw [display?_array, Option.map_eq_some_iff] at shown
  rcases shown with ⟨own, own_shown, rfl⟩
  exact whole_array (balanced_display (legible.of_call .element) own_shown)

theorem whole_display_intersection
    (shown : scope.display? context seen (.intersection members) = some display) :
    Whole display := by
  have object : Whole "object" := whole_of_plain (by decide)
  rw [display?_eq_outcome, outcome_intersection] at shown
  split at shown
  · rename_i candidate branded
    cases candidate_shown : scope.outcome context seen candidate with
    | error failure => simp [candidate_shown, Except.map, Except.toOption] at shown
    | ok signature =>
      rw [candidate_shown] at shown
      cases shown
      dsimp only
      split
      · rename_i primitive
        apply whole_of_plain
        revert primitive
        rw [Signature.isPrimitiveDisplay, List.contains_iff_mem]
        generalize signature.display = display
        revert display
        decide
      · exact object
  · cases shown
    exact object

/-- A type that is no union and borrows its display type from no other is one alternative. -/
theorem whole_of_unlent (legible : scope.KeepsLegible (seen, type))
    (single : ∀ members, type ≠ .union members) (unlent : ∀ inner, ¬ scope.Lends inner (seen, type))
    (shown : scope.display? context seen type = some display) : Whole display := by
  have text (kept : scope.keepsText type = true) : Whole type.print :=
    whole_print_of_keepsText (legible _ .refl kept) kept
  cases displayed_of_display? shown with
  | keyword mem => exact whole_of_mem_displayKeywords mem
  | text kept => exact text kept
  | array type_eq own_shown =>
    subst type_eq
    exact whole_display_array legible shown
  | union nullable type_eq own_shown => exact absurd type_eq (single _)
  | passed call own_shown =>
    cases call with
    | core wrapped => exact absurd (.core wrapped) (unlent _)
    | element => exact whole_display_array legible shown
    | alternative present => exact absurd rfl (single _)
    | branded found => exact whole_display_intersection shown
    | branch => exact absurd .branch (unlent _)
    | @aliased _ name args _ found kind fresh =>
      -- An alias whose name is well-known all the same keeps its text.
      by_cases known : scope.isWellKnown name = true
      · have bare := Bool.eq_false_iff.1 (isWrapper_of_find? found args)
        rw [display?_reference_of_isWellKnown bare known] at shown
        cases shown
        exact text known
      · exact absurd (.aliased found (by simpa using known) kind fresh) (unlent _)

theorem nodup_alternatives_union_iff (legible : scope.KeepsLegible (seen, .union members))
    (shown : scope.display? context seen (.union members) = some display)
    (not_any : display ≠ "any") (each : ∀ member ∈ TypeExpr.presentMembers members, ∀ own,
      scope.display? context seen member = some own → own ≠ "any" →
      ((alternatives own).Nodup ↔ scope.NeverRepeats context (seen, member))) :
    (alternatives display).Nodup ↔ scope.NeverRepeats context (seen, .union members) := by
  rw [neverRepeats_union_iff]
  rw [display?_union] at shown
  split at shown
  · cases shown
    exact absurd rfl not_any
  · split at shown
    · rename_i none_present
      have no_member := List.isEmpty_iff.1 none_present
      have whole : Whole display := by
        cases shown
        split <;> exact whole_of_plain (by decide)
      rw [alternatives_of_whole whole, no_member]
      refine ⟨fun _ => ⟨⟨?_, ?_⟩, by simp⟩, fun _ => List.nodup_singleton _⟩
      · simp [no_member]
      · simp [no_member]
    · rename_i some_present
      rw [Option.map_eq_some_iff] at shown
      rcases shown with ⟨displays, each_shown, rfl⟩
      have no_any : "any" ∉ displays := by
        intro any
        exact not_any (by rw [unionDisplay, if_pos any])
      have nonempty : displays ≠ [] := by
        have present_ne := mt List.isEmpty_iff.2 some_present
        rcases List.exists_mem_of_ne_nil _ present_ne with ⟨member, present⟩
        rcases shown_of_mapM_eq_some each_shown present with ⟨own, mem, _⟩
        exact List.ne_nil_of_mem mem
      have balanced : ∀ own ∈ displays, Balanced own := by
        intro own mem
        rcases (mem_of_mapM_eq_some each_shown).1 mem with ⟨member, present, own_shown⟩
        exact balanced_display (legible.of_call (.alternative present)) own_shown
      rw [nodup_alternatives_unionDisplay each_shown nonempty no_any balanced, and_comm]
      apply and_congr_right
      intro _
      constructor
      · intro own_nodup member present
        rcases shown_of_mapM_eq_some each_shown present with ⟨own, mem, own_shown⟩
        exact (each member present own own_shown fun any => no_any (any ▸ mem)).1
          (own_nodup own mem)
      · intro never own mem
        rcases (mem_of_mapM_eq_some each_shown).1 mem with ⟨member, present, own_shown⟩
        exact (each member present own own_shown fun any => no_any (any ▸ mem)).2
          (never member present)

/-- The alternatives of a display type are distinct if and only if no union that the type
borrows it from repeats one. -/
theorem nodup_alternatives_iff (legible : scope.KeepsLegible (seen, type))
    (shown : scope.display? context seen type = some display) (not_any : display ≠ "any") :
    (alternatives display).Nodup ↔ scope.NeverRepeats context (seen, type) := by
  induction seen, type using scope.calls_induction generalizing display with
  | step seen type ih =>
    have of_lends {inner : List String × TypeExpr} {own : String}
        (lends : scope.Lends inner (seen, type))
        (own_shown : scope.display? context inner.1 inner.2 = some own)
        (own_not_any : own ≠ "any") :
        (alternatives own).Nodup ↔ scope.NeverRepeats context inner :=
      ih _ _ lends.calls (legible.of_call lends.calls) own_shown own_not_any
    by_cases single : ∀ members, type ≠ .union members
    · rw [neverRepeats_iff, and_iff_right fun members same => absurd same (single members)]
      have same {inner : List String × TypeExpr} (lends : scope.Lends inner (seen, type)) :
          (alternatives display).Nodup ↔ scope.NeverRepeats context inner :=
        of_lends lends ((lends.display?_eq single).symm.trans shown) not_any
      by_cases lent : ∃ inner, scope.Lends inner (seen, type)
      · rcases lent with ⟨inner, lends⟩
        refine ⟨fun nodup other other_lends => (same other_lends).1 nodup, ?_⟩
        intro never
        exact (same lends).2 (never inner lends)
      · have unlent := not_exists.1 lent
        rw [alternatives_of_whole (whole_of_unlent legible single unlent shown)]
        refine ⟨fun _ inner lends => absurd lends (unlent inner), fun _ => List.nodup_singleton _⟩
    · rcases not_forall.1 single with ⟨members, is_union⟩
      have type_eq := not_not.1 is_union
      subst type_eq
      apply nodup_alternatives_union_iff legible shown not_any
      intro member present own own_shown own_not_any
      exact of_lends (.alternative present) own_shown own_not_any

/-! ## Unions of a model -/

theorem display?_eq_some_iff : scope.display? context seen type = some display ↔
    ∃ signature, scope.outcome context seen type = .ok signature ∧ signature.display = display := by
  rw [display?_eq_outcome]
  cases scope.outcome context seen type <;> simp [Except.toOption]

/-- A union that can be resolved lists no alternative twice if and only if it is displayed as `any`
or no union that it borrows its display type from repeats one. -/
theorem union_alternatives_distinct_iff (scope : Scope) (context : Context)
    (members : List TypeExpr) (signature : Signature)
    (legible : scope.KeepsLegible ([], .union members))
    (resolved : (scope.resolve context (.union members)).outcome = .ok signature) :
    (alternatives signature.display).Nodup ↔
      signature.display = "any" ∨ scope.NeverRepeats context ([], .union members) := by
  have shown := display?_eq_some_iff.2 ⟨signature, resolved, rfl⟩
  by_cases any : signature.display = "any"
  · have whole : Whole "any" := whole_of_plain (by decide)
    rw [any, alternatives_of_whole whole]
    simp
  · rw [nodup_alternatives_iff legible shown any]
    simp [any]

/-- An alias for a union of two types. -/
def sizeAlias : Scope :=
  ofConfig (.ofList [.ofAlias "Size" (.union [.string, .number])]) {}

theorem find?_size : sizeAlias.model.find? "Size" =
    some (.ofAlias "Size" (.union [.string, .number])) :=
  rfl

theorem outcome_size : sizeAlias.outcome ⟨.property, false⟩ [] (.named "Size") =
    .ok (.documented "string|number" "Size") := by
  cbv

theorem keepsLegible_size : sizeAlias.KeepsLegible ([], .named "Size") := by
  apply keepsLegible_of_calls
  · intro kept
    cases kept
  · intro inner call
    cases call with
    | core wrapped => cases wrapped
    | aliased found kind fresh =>
      cases found.symm.trans find?_size
      apply keepsLegible_union
      exact List.forall_mem_cons.2 ⟨keepsLegible_primitive .string,
        List.forall_mem_cons.2 ⟨keepsLegible_primitive .number, List.forall_mem_nil _⟩⟩

theorem union_alternatives_distinct_size :
    sizeAlias.KeepsLegible ([], .union [.named "Size", .boolean, .null]) ∧
      ∃ signature,
        (sizeAlias.resolve ⟨.property, false⟩ (.union [.named "Size", .boolean, .null])).outcome =
            .ok signature ∧
          signature.display = "string|number|boolean|null" ∧
          (alternatives signature.display).Nodup ∧
          sizeAlias.NeverRepeats ⟨.property, false⟩
            ([], .union [.named "Size", .boolean, .null]) := by
  have boolean : sizeAlias.outcome ⟨.property, false⟩ [] .boolean = .ok (.simple "boolean") :=
    outcome_of_ownSignature? rfl
  have resolved := outcome_union_of_members
    (rfl : (TypeExpr.flatten [.named "Size", .boolean, .null]).any TypeExpr.isOpen = false)
    (List.cons_ne_nil _ _) (.cons outcome_size (.cons boolean .nil))
  have legible : sizeAlias.KeepsLegible ([], .union [.named "Size", .boolean, .null]) := by
    apply keepsLegible_union
    exact List.forall_mem_cons.2 ⟨keepsLegible_size,
      List.forall_mem_cons.2 ⟨keepsLegible_primitive .boolean, List.forall_mem_nil _⟩⟩
  have distinct : (alternatives "string|number|boolean|null").Nodup := by decide
  have never :=
    (union_alternatives_distinct_iff sizeAlias ⟨.property, false⟩ _ _ legible resolved).1
    distinct
  exact ⟨legible, _, resolved, rfl, distinct, never.resolve_left (by decide)⟩

/-- A string is listed by the alias and again beside it. -/
theorem size_or_string_repeats_string :
    ∃ signature,
      (sizeAlias.resolve ⟨.property, false⟩ (.union [.named "Size", .string])).outcome =
          .ok signature ∧
        signature.display = "string|number|string" ∧
        ¬ (alternatives signature.display).Nodup := by
  have string : sizeAlias.outcome ⟨.property, false⟩ [] .string = .ok (.simple "string") :=
    outcome_of_ownSignature? rfl
  have resolved := outcome_union_of_members
    (rfl : (TypeExpr.flatten [.named "Size", .string]).any TypeExpr.isOpen = false)
    (List.cons_ne_nil _ _) (.cons outcome_size (.cons string .nil))
  exact ⟨_, resolved, rfl, by decide⟩

end Scope

end Componentry
