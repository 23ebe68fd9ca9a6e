import Componentry.Proofs.Expansion.Target
import Componentry.Proofs.Resolution.Display
import Componentry.Proofs.Resolution.Rules

/-!
# Agreement of resolution and expansion

Resolution says of a type that it is an object type or an array of objects, and the search for an
expansion target finds the object type behind it. The two go through the same unions, arrays,
wrappers, aliases and branches, but they stop in different ways: resolution at an alias that it is
following already, the search after a number of levels.

`Leads` is the way to an object type without either stop. There is only one way from a type, so a
way that comes to an alias twice would be a proper part of itself. Hence resolution never stops on
such a way, and the search stops only if the way is too long for it.
-/

namespace Componentry

namespace Scope

variable {signature : Signature} {after : Bool}

/-- What the search for a target looks into next, after an array was looked through or not. -/
def searchNext? (scope : Scope) (array : Bool) (type : TypeExpr) : Option (Bool × TypeExpr) :=
  if scope.model.isWrapper type then some (false, scope.model.core type)
  else
    match type with
    | .union members =>
      match TypeExpr.presentMembers members with
      | [single] => some (array, single)
      | _ => none
    | .array element => if array then none else some (true, element)
    | .reference name _ =>
      if scope.isWellKnown name then none
      else
        match scope.model.find? name with
        | none => none
        | some declaration =>
          if declaration.kind = .typeAlias then some (array, declaration.body) else none
    | .conditional _ (some branch) => some (array, branch)
    | _ => none

/-- Whether the search for a target nests at most so many levels. -/
def searchEnds (scope : Scope) : Nat → Bool → TypeExpr → Bool
  | 0, array, type => (scope.searchNext? array type).isNone
  | levels + 1, array, type =>
    match scope.searchNext? array type with
    | none => true
    | some (inner_array, inner) => searchEnds scope levels inner_array inner

/-- The way from a type to an object type over so many levels, through an array or not. -/
inductive Leads (scope : Scope) : Nat → Bool → TypeExpr → Prop
  | object {name : Option String} {typeArgs : List TypeExpr} {members : List Member}
      (own : name.any scope.isWellKnown = false) :
      Leads scope 0 false (.struct name typeArgs members)
  | declared {name : String} {args : List TypeExpr} {declaration : Declaration}
      (found : scope.model.find? name = some declaration) (own : scope.isWellKnown name = false)
      (kind : declaration.kind = .interface ∨ declaration.kind = .classType) :
      Leads scope 0 false (.reference name args)
  | wrapped {levels : Nat} {type : TypeExpr} (wrapper : scope.model.isWrapper type = true)
      (inner : Leads scope levels false (scope.model.core type)) :
      Leads scope (levels + 1) false type
  | union {levels : Nat} {array : Bool} {members : List TypeExpr} {single : TypeExpr}
      (present : TypeExpr.presentMembers members = [single])
      (inner : Leads scope levels array single) :
      Leads scope (levels + 1) array (.union members)
  | array {levels : Nat} {element : TypeExpr} (inner : Leads scope levels false element) :
      Leads scope (levels + 1) true (.array element)
  | aliased {levels : Nat} {array : Bool} {name : String} {args : List TypeExpr}
      {declaration : Declaration} (found : scope.model.find? name = some declaration)
      (own : scope.isWellKnown name = false) (kind : declaration.kind = .typeAlias)
      (inner : Leads scope levels array declaration.body) :
      Leads scope (levels + 1) array (.reference name args)
  | conditional {levels : Nat} {array : Bool} {text : String} {branch : TypeExpr}
      (inner : Leads scope levels array branch) :
      Leads scope (levels + 1) array (.conditional text (some branch))

variable {scope : Scope} {context : Context} {seen : List String} {levels : Nat} {array : Bool}
  {type : TypeExpr}

/-! ## The search follows the way -/

theorem Finds.exists_leads {target : ExpansionTarget} (finds : scope.Finds after type target) :
    ∃ levels array, scope.Leads levels array type ∧ (after && array) = false ∧
      target.array = (after || array) := by
  induction finds with
  | @wrapped after type inner wrapper _ object ih =>
    rcases ih with ⟨levels, array, leads, _, inner_array⟩
    rw [Bool.false_or, object] at inner_array
    subst inner_array
    exact ⟨levels + 1, false, .wrapped wrapper leads, by simp, by simp⟩
  | union present _ ih =>
    rcases ih with ⟨levels, array, leads, once, array_eq⟩
    exact ⟨levels + 1, array, .union present leads, once, array_eq⟩
  | array _ ih =>
    rcases ih with ⟨levels, array, leads, once, array_eq⟩
    rw [Bool.true_and] at once
    subst once
    exact ⟨levels + 1, true, .array leads, rfl, array_eq⟩
  | struct own => exact ⟨0, false, .object own, by simp, by simp⟩
  | declared _ own found kind =>
    exact ⟨0, false, .declared found own kind, by simp, by simp⟩
  | aliased _ own found kind _ ih =>
    rcases ih with ⟨levels, array, leads, once, array_eq⟩
    exact ⟨levels + 1, array, .aliased found own kind leads, once, array_eq⟩
  | conditional _ ih =>
    rcases ih with ⟨levels, array, leads, once, array_eq⟩
    exact ⟨levels + 1, array, .conditional leads, once, array_eq⟩

/-- The search finds the end of the way if it has steps for all of its levels. -/
theorem Leads.targetWithin (leads : scope.Leads levels array type) (once : (after && array) = false)
    (steps : Nat) :
    (scope.targetWithin steps after type).map ExpansionTarget.array =
      if levels < steps then some (after || array) else none := by
  induction leads generalizing after steps with
  | object own =>
    cases steps with
    | zero => simp [Scope.targetWithin]
    | succ steps => simp [Scope.targetWithin, TypeModel.isWrapper, own]
  | declared found own kind =>
    have plain := isWrapper_of_find? found
    cases steps with
    | zero => simp [Scope.targetWithin]
    | succ steps =>
      rcases kind with kind | kind <;> simp [Scope.targetWithin, plain, own, found, kind]
  | @wrapped levels type wrapper _ ih =>
    cases steps with
    | zero => simp [Scope.targetWithin]
    | succ steps =>
      have inner := ih (Bool.false_and false) steps
      simp only [Scope.targetWithin, wrapper, if_true, Nat.add_lt_add_iff_right]
      cases found : scope.targetWithin steps false (scope.model.core type) with
      | none =>
        rw [found] at inner
        split at inner
        · cases inner
        · rename_i too_deep
          rw [if_neg too_deep]
          rfl
      | some target =>
        rw [found, Option.map_some] at inner
        split at inner
        · rename_i deep_enough
          rw [Option.some.injEq, Bool.false_or] at inner
          simp [deep_enough, inner]
        · cases inner
  | union present _ ih =>
    cases steps with
    | zero => simp [Scope.targetWithin]
    | succ steps =>
      simp only [Scope.targetWithin, TypeModel.isWrapper, present, Nat.add_lt_add_iff_right]
      exact ih once steps
  | array _ ih =>
    rw [Bool.and_true] at once
    subst once
    cases steps with
    | zero => simp [Scope.targetWithin]
    | succ steps =>
      simp only [Scope.targetWithin, TypeModel.isWrapper, Nat.add_lt_add_iff_right]
      exact ih (Bool.and_false true) steps
  | @aliased levels array name args declaration found own kind _ ih =>
    have plain := isWrapper_of_find? found args
    cases steps with
    | zero => simp [Scope.targetWithin]
    | succ steps =>
      simp only [Scope.targetWithin, plain, own, found, kind, Nat.add_lt_add_iff_right]
      rw [← ih once steps]
      cases scope.targetWithin steps after declaration.body <;> rfl
  | conditional _ ih =>
    cases steps with
    | zero => simp [Scope.targetWithin]
    | succ steps =>
      simp only [Scope.targetWithin, TypeModel.isWrapper, Nat.add_lt_add_iff_right]
      exact ih once steps

theorem Leads.unique {otherLevels : Nat} {otherArray : Bool}
    (leads : scope.Leads levels array type) (other : scope.Leads otherLevels otherArray type) :
    levels = otherLevels ∧ array = otherArray := by
  have found := leads.targetWithin (Bool.false_and array) (levels + 1)
  have other_found := other.targetWithin (Bool.false_and otherArray) (otherLevels + 1)
  rw [other.targetWithin (Bool.false_and otherArray), if_pos (Nat.lt_succ_self levels)] at found
  rw [leads.targetWithin (Bool.false_and array), if_pos (Nat.lt_succ_self otherLevels)]
    at other_found
  split at found
  · split at other_found
    · rw [Option.some.injEq, Bool.false_or, Bool.false_or] at found
      refine ⟨?_, found.symm⟩
      omega
    · cases other_found
  · cases found

/-- The levels of the way are levels of the search. -/
theorem Leads.levels_le {bound : Nat} (leads : scope.Leads levels array type)
    (once : (after && array) = false) (ends : scope.searchEnds bound after type = true) :
    levels ≤ bound := by
  induction leads generalizing after bound with
  | object own | declared found own kind => exact Nat.zero_le bound
  | wrapped wrapper _ ih =>
    cases bound with
    | zero => simp [searchEnds, searchNext?, wrapper] at ends
    | succ bound =>
      simp only [searchEnds, searchNext?, wrapper, if_true] at ends
      have inner_le := ih (Bool.false_and false) ends
      omega
  | union present _ ih =>
    cases bound with
    | zero => simp [searchEnds, searchNext?, TypeModel.isWrapper, present] at ends
    | succ bound =>
      simp only [searchEnds, searchNext?, TypeModel.isWrapper, present] at ends
      have inner_le := ih once ends
      omega
  | array _ ih =>
    rw [Bool.and_true] at once
    subst once
    cases bound with
    | zero => simp [searchEnds, searchNext?, TypeModel.isWrapper] at ends
    | succ bound =>
      simp only [searchEnds, searchNext?, TypeModel.isWrapper] at ends
      have inner_le := ih (Bool.and_false true) ends
      omega
  | aliased found own kind _ ih =>
    have plain := isWrapper_of_find? found
    cases bound with
    | zero => simp [searchEnds, searchNext?, plain, own, found, kind] at ends
    | succ bound =>
      simp only [searchEnds, searchNext?, plain, own, found, kind, if_true] at ends
      have inner_le := ih once ends
      omega
  | conditional _ ih =>
    cases bound with
    | zero => simp [searchEnds, searchNext?, TypeModel.isWrapper] at ends
    | succ bound =>
      simp only [searchEnds, searchNext?, TypeModel.isWrapper] at ends
      have inner_le := ih once ends
      omega

/-! ## Resolution follows the way -/

/-- No way from the body of an alias that is being followed is shorter than so many levels. -/
def Ahead (scope : Scope) (levels : Nat) (seen : List String) : Prop :=
  ∀ name ∈ seen, ∀ declaration, scope.model.find? name = some declaration →
    ∀ deeper array, scope.Leads deeper array declaration.body → levels ≤ deeper

theorem Ahead.of_succ (ahead : scope.Ahead (levels + 1) seen) : scope.Ahead levels seen := by
  intro name mem declaration found deeper array leads
  have longer := ahead name mem declaration found deeper array leads
  omega

/-- The way from the body of an alias does not come back to the alias. -/
theorem Ahead.cons {name : String} {declaration : Declaration}
    (ahead : scope.Ahead (levels + 1) seen) (found : scope.model.find? name = some declaration)
    (leads : scope.Leads levels array declaration.body) : scope.Ahead levels (name :: seen) := by
  intro other mem otherDeclaration other_found deeper otherArray other_leads
  rcases List.mem_cons.1 mem with rfl | mem
  · rw [found] at other_found
    cases other_found
    exact Nat.le_of_eq (leads.unique other_leads).1
  · exact ahead.of_succ other mem otherDeclaration other_found deeper otherArray other_leads

theorem isOpen_of_present {members : List TypeExpr}
    (isOpen : (TypeExpr.flatten members).any TypeExpr.isOpen = true) :
    (TypeExpr.presentMembers members).any TypeExpr.isOpen = true := by
  rcases List.any_eq_true.1 isOpen with ⟨member, mem, member_open⟩
  apply List.any_eq_true.2
  refine ⟨member, List.mem_filter.2 ⟨mem, ?_⟩, member_open⟩
  cases member <;> first | rfl | cases member_open

theorem Leads.not_isOpen (leads : scope.Leads levels array type) : type.isOpen = false := by
  cases leads with
  | @wrapped _ type wrapper _ => cases type <;> first | rfl | cases wrapper
  | _ => rfl

theorem isStruct_namedObject (printed name : String) (exported : Bool) :
    (Signature.namedObject context printed name exported).isStruct = true ∧
      (Signature.namedObject context printed name exported).isArrayOfObject = false := by
  unfold Signature.namedObject Signature.markTypedef
  split <;> exact ⟨rfl, rfl⟩

theorem isStruct_aliasSignature (declaration : Declaration) (printed : String) (body : Signature) :
    (aliasSignature context declaration printed body).isStruct = body.isStruct ∧
      (aliasSignature context declaration printed body).isArrayOfObject = body.isArrayOfObject := by
  unfold aliasSignature
  dsimp only
  split
  · unfold Signature.markTypedef
    split <;> exact ⟨rfl, rfl⟩
  · exact ⟨rfl, rfl⟩

theorem isStruct_withNullish (signature : Signature) (nullable optional : Bool) :
    (signature.withNullish nullable optional).isStruct = signature.isStruct ∧
      (signature.withNullish nullable optional).isArrayOfObject = signature.isArrayOfObject := by
  unfold Signature.withNullish
  split
  · exact ⟨rfl, rfl⟩
  · split <;> exact ⟨rfl, rfl⟩

/-- Where there is a way, resolution goes it to its end. -/
theorem Leads.exists_outcome (leads : scope.Leads levels array type)
    (ahead : scope.Ahead levels seen) (context : Context) :
    ∃ signature, scope.outcome context seen type = .ok signature ∧
      signature.isStruct = !array ∧ signature.isArrayOfObject = array := by
  induction leads generalizing seen with
  | @object name typeArgs members own =>
    refine ⟨_, outcome_struct name typeArgs members, ?_⟩
    cases name with
    | none => exact ⟨rfl, rfl⟩
    | some name =>
      have unknown : ¬ scope.isWellKnown name = true := by simpa using own
      rw [structSignature, if_neg unknown]
      exact isStruct_namedObject _ _ _
  | declared found own kind =>
    rw [outcome_declared found own, declaredOutcome]
    rcases kind with kind | kind
    · rw [kind]
      exact ⟨_, rfl, isStruct_namedObject _ _ _⟩
    · rw [kind]
      exact ⟨_, rfl, isStruct_namedObject _ _ _⟩
  | wrapped wrapper _ ih =>
    rcases ih ahead.of_succ with ⟨core, core_resolved, flags⟩
    rw [outcome_wrapper wrapper, core_resolved]
    exact ⟨_, rfl, flags⟩
  | @union levels array members single present inner ih =>
    rcases ih ahead.of_succ with ⟨signature, resolved, flags⟩
    have closed : (TypeExpr.flatten members).any TypeExpr.isOpen = false := by
      rw [Bool.eq_false_iff]
      intro isOpen
      have present_open := isOpen_of_present isOpen
      simp [present, inner.not_isOpen] at present_open
    have some_present : TypeExpr.presentMembers members ≠ [] := by simp [present]
    have each : List.Forall₂ (fun member own => scope.outcome context seen member = .ok own)
        (TypeExpr.presentMembers members) [signature] := by
      rw [present]
      exact .cons resolved .nil
    refine ⟨_, outcome_union_of_members closed some_present each, ?_⟩
    rw [(isStruct_withNullish _ _ _).1, (isStruct_withNullish _ _ _).2]
    exact flags
  | array _ ih =>
    rcases ih ahead.of_succ with ⟨element, element_resolved, isStruct, _⟩
    rw [outcome_array, element_resolved]
    exact ⟨_, rfl, rfl, isStruct⟩
  | @aliased levels array name args declaration found own kind inner ih =>
    rcases ih (ahead.cons found inner) with ⟨body, body_resolved, flags⟩
    have fresh : name ∉ seen := by
      intro mem
      have longer := ahead name mem declaration found levels array inner
      omega
    rw [outcome_alias found own kind fresh, body_resolved]
    refine ⟨_, rfl, ?_⟩
    rw [(isStruct_aliasSignature _ _ _).1, (isStruct_aliasSignature _ _ _).2]
    exact flags
  | conditional _ ih =>
    rw [outcome_branch]
    exact ih ahead.of_succ

/-! ## What resolution takes for an object type -/

theorem eq_single_of_isStruct_joined {signatures : List Signature}
    (object : (Signature.joined signatures).isStruct = true) :
    ∃ single, signatures = [single] ∧ single.isStruct = true := by
  unfold Signature.joined at object
  split at object
  · exact ⟨_, rfl, object⟩
  · unfold Signature.unionOf at object
    dsimp only at object
    split at object <;> cases object

/-- Object types are displayed as `object` or by a text in braces. -/
theorem Resolves.head_display (resolves : scope.Resolves context seen type signature)
    (object : signature.isStruct = true) :
    signature.display.toList.head? = some 'o' ∨ signature.display.toList.head? = some '{' := by
  induction resolves with
  | wrapper _ _ ih => exact ih object
  | @object _ typeArgs members _ text =>
    dsimp only [Signature.documented]
    split
    · right
      rw [text]
      cases members <;> simp [TypeExpr.print]
    · exact .inl rfl
  | named _ _ _ =>
    rw [display_namedObject]
    exact .inl rfl
  | aliased _ _ _ _ _ ih =>
    rw [(isStruct_aliasSignature _ _ _).1] at object
    rw [display_aliasSignature]
    exact ih object
  | @union seen members signatures present lengths inner ih =>
    rw [(isStruct_withNullish _ _ _).1] at object
    rcases eq_single_of_isStruct_joined object with ⟨single, rfl, single_object⟩
    rcases List.length_eq_one_iff.1 lengths with ⟨member, present_eq⟩
    have own := ih (member, single) (by rw [present_eq]; exact List.mem_cons_self) single_object
    have not_any : single.display ≠ "any" := by
      intro shown
      rw [shown] at own
      simp at own
    rw [Signature.joined, display_withNullish, if_neg not_any, String.toList_append,
      List.head?_append]
    rcases own with own | own
    · rw [own]
      exact .inl rfl
    · rw [own]
      exact .inr rfl
  | branded _ _ _ ih | branch _ ih => exact ih object
  | absentUnion _ =>
    split at object <;> cases object
  | _ => cases object

theorem not_isPrimitiveDisplay_of_isStruct
    (resolved : scope.outcome context seen type = .ok signature)
    (object : signature.isStruct = true) : signature.isPrimitiveDisplay = false := by
  have head := (resolves_of_outcome resolved).head_display object
  rw [Bool.eq_false_iff]
  intro primitive
  rw [Signature.isPrimitiveDisplay, List.contains_iff_mem] at primitive
  simp only [List.mem_cons, List.not_mem_nil, or_false] at primitive
  rcases primitive with shown | shown | shown | shown | shown <;> simp [shown] at head

theorem exists_leads_of_declared {name : String} {args : List TypeExpr} {declaration : Declaration}
    {printed : String} (found : scope.model.find? name = some declaration)
    (own : scope.isWellKnown name = false) (object : signature.isStruct = true)
    (resolved : scope.declaredOutcome context seen name declaration printed = .ok signature)
    (inner : ∀ {innerSeen : List String} {inner : TypeExpr} {own : Signature},
      scope.Calls (innerSeen, inner) (seen, .reference name args) →
        scope.outcome context innerSeen inner = .ok own → own.isStruct = true →
          ∃ levels, scope.Leads levels false inner) :
    ∃ levels, scope.Leads levels false (.reference name args) := by
  unfold declaredOutcome at resolved
  cases kind : declaration.kind with
  | enumeration =>
    rw [kind] at resolved
    cases resolved
    cases object
  | interface => exact ⟨0, .declared found own (.inl kind)⟩
  | classType => exact ⟨0, .declared found own (.inr kind)⟩
  | typeAlias =>
    rw [kind] at resolved
    dsimp only at resolved
    split at resolved
    · cases resolved
      cases object
    · rename_i fresh
      rw [map_eq_ok_iff] at resolved
      rcases resolved with ⟨body, body_resolved, rfl⟩
      rw [(isStruct_aliasSignature _ _ _).1] at object
      rcases inner (.aliased found kind fresh) body_resolved object with ⟨levels, leads⟩
      exact ⟨levels + 1, .aliased found own kind leads⟩

/-- What resolution takes for an object type has a way to one. -/
theorem exists_leads_of_outcome (resolved : scope.outcome context seen type = .ok signature)
    (object : signature.isStruct = true) : ∃ levels, scope.Leads levels false type := by
  induction seen, type using scope.calls_induction generalizing signature with
  | step seen type ih =>
    by_cases wrapped : scope.model.isWrapper type = true
    · rw [outcome_wrapper wrapped, map_eq_ok_iff] at resolved
      rcases resolved with ⟨core, core_resolved, rfl⟩
      rcases ih _ _ (.core wrapped) core_resolved object with ⟨levels, leads⟩
      exact ⟨levels + 1, .wrapped wrapped leads⟩
    · cases type with
      | array element =>
        rw [outcome_array, map_eq_ok_iff] at resolved
        rcases resolved with ⟨own, _, rfl⟩
        cases object
      | struct name typeArgs members =>
        rw [outcome_struct] at resolved
        cases resolved
        refine ⟨0, .object ?_⟩
        cases name with
        | none => rfl
        | some name =>
          cases known : scope.isWellKnown name with
          | false => exact known
          | true =>
            rw [structSignature, if_pos known] at object
            cases object
      | reference name args =>
        rw [Bool.not_eq_true] at wrapped
        rw [outcome_reference wrapped] at resolved
        cases known : scope.isWellKnown name with
        | true =>
          rw [if_pos known] at resolved
          cases resolved
          cases object
        | false =>
          rw [if_neg (by simp [known])] at resolved
          cases found : scope.model.find? name with
          | none =>
            rw [found] at resolved
            cases resolved
            cases object
          | some declaration =>
            rw [found] at resolved
            exact exists_leads_of_declared found known object resolved fun call => ih _ _ call
      | union members =>
        rw [outcome_union] at resolved
        split at resolved
        · cases resolved
          cases object
        · split at resolved
          · cases resolved
            split at object <;> cases object
          · rw [map_eq_ok_iff] at resolved
            rcases resolved with ⟨signatures, each, rfl⟩
            rw [(isStruct_withNullish _ _ _).1] at object
            rcases eq_single_of_isStruct_joined object with ⟨single, rfl, single_object⟩
            rw [mapM_eq_ok_iff] at each
            rcases List.length_eq_one_iff.1 each.length_eq with ⟨member, present⟩
            rw [present] at each
            cases each with
            | cons own_resolved _ =>
              have call : scope.Calls (seen, member) (seen, .union members) :=
                .alternative (by rw [present]; exact List.mem_cons_self)
              rcases ih _ _ call own_resolved single_object with ⟨levels, leads⟩
              exact ⟨levels + 1, .union present leads⟩
      | intersection members =>
        rw [outcome_intersection] at resolved
        split at resolved
        · rename_i candidate branded
          rw [map_eq_ok_iff] at resolved
          rcases resolved with ⟨own, own_resolved, rfl⟩
          -- An object type is never displayed as a value type, so the whole is taken.
          split at object
          · rename_i primitive
            rw [not_isPrimitiveDisplay_of_isStruct own_resolved object] at primitive
            cases primitive
          · cases object
        · cases resolved
          cases object
      | conditional text choice =>
        cases choice with
        | some branch =>
          rw [outcome_branch] at resolved
          rcases ih _ _ .branch resolved object with ⟨levels, leads⟩
          exact ⟨levels + 1, .conditional leads⟩
        | none =>
          rw [outcome_unresolved] at resolved
          split at resolved
          · cases resolved
          · cases resolved
            cases object
      | mapped wrapper args =>
        cases args with
        | nil =>
          rw [outcome_of_ownSignature? rfl] at resolved
          cases resolved
          cases object
        | cons first extra => exact absurd rfl wrapped
      | _ =>
        rw [outcome_of_ownSignature? rfl] at resolved
        cases resolved
        cases object

/-- What has a target resolves to an object type or an array of objects, as the target says. -/
theorem outcome_of_target? {target : ExpansionTarget} (found : scope.target? type = some target)
    (context : Context) :
    ∃ signature, (scope.resolve context type).outcome = .ok signature ∧
      signature.isStruct = !target.array ∧ signature.isArrayOfObject = target.array := by
  rcases (finds_of_targetWithin found).exists_leads with ⟨levels, array, leads, _, array_eq⟩
  rw [Bool.false_or] at array_eq
  have ahead : scope.Ahead levels [] := by
    intro name mem
    cases mem
  rw [array_eq, outcome_resolve]
  exact leads.exists_outcome ahead context

/-- What has a target resolves to an object type or an array of objects, as the target says, and
what resolves to an object type has a target unless the search for it nests more than 32 levels. -/
theorem resolve_agrees_with_target (scope : Scope) (context : Context) (type : TypeExpr) :
    (∀ target, scope.target? type = some target →
      ∃ signature, (scope.resolve context type).outcome = .ok signature ∧
        signature.isStruct = !target.array ∧ signature.isArrayOfObject = target.array) ∧
    ∀ signature, (scope.resolve context type).outcome = .ok signature →
      signature.isStruct = true → scope.searchEnds 32 false type = true →
        ∃ target, scope.target? type = some target ∧ target.array = false := by
  refine ⟨?_, ?_⟩
  · intro target found
    exact outcome_of_target? found context
  · intro signature resolved object ends
    rcases exists_leads_of_outcome resolved object with ⟨levels, leads⟩
    have levels_le := leads.levels_le (Bool.false_and false) ends
    have within : levels < targetSteps := by
      rw [targetSteps]
      omega
    have found := leads.targetWithin (Bool.false_and false) targetSteps
    rw [if_pos within, Option.map_eq_some_iff] at found
    exact found

/-- A list of players, each of whom may be missing and is known in part only. -/
def squads : Scope :=
  ofConfig (.ofList [.ofInterface "Player" [⟨"name", .string, false, false⟩],
    .ofAlias "Bench" (.union [.mapped "Partial" [.named "Player"], .null]),
    .ofAlias "Squad" (.array (.named "Bench"))]) {}

theorem resolve_agrees_with_target_squads :
    (∃ target signature, squads.target? (.named "Squad") = some target ∧ target.array = true ∧
      (squads.resolve ⟨.property, false⟩ (.named "Squad")).outcome = .ok signature ∧
      signature.isStruct = false ∧ signature.isArrayOfObject = true) ∧
    ∃ signature target,
      (squads.resolve ⟨.property, false⟩ (.named "Bench")).outcome = .ok signature ∧
      signature.isStruct = true ∧ squads.searchEnds 32 false (.named "Bench") = true ∧
      squads.target? (.named "Bench") = some target ∧ target.array = false := by
  have agrees := fun type => resolve_agrees_with_target squads ⟨.property, false⟩ type
  refine ⟨?_, ?_⟩
  · rcases (agrees (.named "Squad")).1 _ rfl with ⟨signature, resolved, object, array⟩
    exact ⟨_, signature, rfl, rfl, resolved, object, array⟩
  · rcases (agrees (.named "Bench")).1 _ rfl with ⟨signature, resolved, object, _⟩
    rcases (agrees (.named "Bench")).2 signature resolved object rfl with ⟨target, found, array⟩
    exact ⟨signature, target, resolved, object, rfl, found, array⟩

end Scope

end Componentry
