import Mathlib.Data.List.Forall2
import Componentry.Proofs.Resolution.Termination

/-!
# Outcomes of resolution

What resolution comes to, without the notices that it raises on the way: for each kind of type an
equation that says how its outcome is made from the outcomes of the types that resolution goes on
with. An error of one of them is the error of the whole.

Unions are the only types with more than one such type. Their members are resolved from left to
right, so the error is that of the first member with one (`mapM_eq_error_iff`).
-/

namespace Componentry

section Except

variable {ε α β : Type} {attempted : Except ε α}

theorem map_eq_ok_iff {change : α → β} {value : β} :
    attempted.map change = .ok value ↔ ∃ inner, attempted = .ok inner ∧ change inner = value := by
  cases attempted <;> simp [Except.map]

theorem map_eq_error_iff {change : α → β} {failure : ε} :
    attempted.map change = .error failure ↔ attempted = .error failure := by
  cases attempted <;> simp [Except.map]

theorem bind_eq_ok_iff {next : α → Except ε β} {value : β} :
    attempted >>= next = .ok value ↔
      ∃ inner, attempted = .ok inner ∧ next inner = .ok value := by
  cases attempted <;> simp [bind, Except.bind]

theorem bind_eq_error_iff {next : α → Except ε β} {failure : ε} :
    attempted >>= next = .error failure ↔
      attempted = .error failure ∨
        ∃ inner, attempted = .ok inner ∧ next inner = .error failure := by
  cases attempted <;> simp [bind, Except.bind]

variable {step : α → Except ε β}

variable {items : List α}

theorem mapM_eq_ok_iff {results : List β} :
    items.mapM step = .ok results ↔
      List.Forall₂ (fun item result => step item = .ok result) items results := by
  induction items generalizing results with
  | nil => cases results <;> simp [pure, Except.pure]
  | cons item rest ih =>
    rw [List.mapM_cons, bind_eq_ok_iff, List.forall₂_cons_left_iff]
    apply exists_congr
    intro first
    rw [bind_eq_ok_iff, ← exists_and_left]
    apply exists_congr
    intro others
    rw [ih]
    simp [pure, Except.pure, eq_comm]

theorem exists_ok_of_mapM {results : List β} (passed : items.mapM step = .ok results) {item : α}
    (mem : item ∈ items) :
    ∃ result, step item = .ok result := by
  rw [mapM_eq_ok_iff] at passed
  induction passed with
  | nil => cases mem
  | cons head_passed _ ih =>
    rcases List.mem_cons.1 mem with rfl | mem
    · exact ⟨_, head_passed⟩
    · exact ih mem

/-- Steps fail as the first of them that fails. -/
theorem mapM_eq_error_iff {failure : ε} :
    items.mapM step = .error failure ↔ ∃ before item after, items = before ++ item :: after ∧
      step item = .error failure ∧ ∀ other ∈ before, ∃ result, step other = .ok result := by
  induction items with
  | nil => simp [pure, Except.pure]
  | cons head rest ih =>
    rw [List.mapM_cons, bind_eq_error_iff]
    constructor
    · rintro (head_failed | ⟨first, head_passed, rest_failed⟩)
      · exact ⟨[], head, rest, rfl, head_failed, by simp⟩
      · rcases bind_eq_error_iff.1 rest_failed with rest_failed | ⟨others, _, impossible⟩
        · rcases ih.1 rest_failed with ⟨before, item, after, split, item_failed, passed⟩
          refine ⟨head :: before, item, after, by rw [split]; rfl, item_failed, ?_⟩
          intro other mem
          rcases List.mem_cons.1 mem with rfl | mem
          · exact ⟨first, head_passed⟩
          · exact passed other mem
        · cases impossible
    · rintro ⟨before, item, after, split, item_failed, passed⟩
      cases before with
      | nil =>
        cases split
        exact .inl item_failed
      | cons earlier before =>
        cases split
        rcases passed head List.mem_cons_self with ⟨first, head_passed⟩
        refine .inr ⟨first, head_passed, bind_eq_error_iff.2 (.inl (ih.2 ?_))⟩
        refine ⟨before, item, after, rfl, item_failed, ?_⟩
        intro other mem
        exact passed other (List.mem_cons_of_mem _ mem)

end Except

theorem Signature.withNullish_eq {signature : Signature} (not_any : signature.display ≠ "any")
    (nullable optional : Bool) :
    signature.withNullish nullable optional =
      { signature with
        nullable := nullable || signature.nullable
        display := signature.display ++ if nullable then "|null" else ""
        documentation := signature.documentation.map (· ++ if nullable then "|null" else "")
        optionalViaUnion := optional } := by
  rw [withNullish, if_neg (by simpa using not_any)]
  cases nullable <;> simp

/-- The signature of the present members of a union: that of the only one, or their union. -/
def Signature.joined : List Signature → Signature
  | [single] => single
  | signatures => unionOf signatures

/-- The signatures of the types that resolution neither looks up nor looks into. -/
def TypeExpr.ownSignature? : TypeExpr → Option Signature
  | .primitive name => some (.simple name.keyword)
  | .literal value => some (.ofLiteral value)
  | .mapped wrapper [] => some (.documented "object" (TypeExpr.mapped wrapper []).print)
  | .generic name _ => some (.documented "any" name)
  | .function params returns =>
    some (.documented "Function" (TypeExpr.function params returns).print)
  | .any => some .any
  | .unknown => some .any
  | .null => some (.simple "null")
  | _ => none

namespace Scope

variable {scope : Scope} {context : Context} {seen : List String}

/-- The signature of a type, or the error that keeps it from having one. -/
def outcome (scope : Scope) (context : Context) (seen : List String) (type : TypeExpr) :
    Except StructuralError Signature :=
  (scope.resolveWith context seen type).outcome

theorem outcome_resolve (type : TypeExpr) :
    (scope.resolve context type).outcome = scope.outcome context [] type :=
  rfl

theorem outcome_of_ownSignature? {type : TypeExpr} {signature : Signature}
    (own : type.ownSignature? = some signature) :
    scope.outcome context seen type = .ok signature := by
  cases type with
  | mapped wrapper args =>
    cases args with
    | nil =>
      cases own
      rw [outcome, resolveWith, dif_neg (by simp [TypeModel.isWrapper])]
      dsimp only
      rw [degrade]
      split <;> rfl
    | cons inner extra => cases own
  | primitive name | literal value | generic name constraint | function params returns | any
  | unknown | null =>
    cases own
    rw [outcome, resolveWith, dif_neg (by simp [TypeModel.isWrapper])]
    rfl
  | _ => cases own

theorem outcome_wrapper {type : TypeExpr} (wrapped : scope.model.isWrapper type = true) :
    scope.outcome context seen type =
      (scope.outcome context seen (scope.model.core type)).map fun core =>
        { core with
          documentation := some type.print
          wrappers := (scope.model.wrappers type).map Wrapper.layer } := by
  rw [outcome, resolveWith, dif_pos wrapped, Attempt.outcome_bind, outcome]
  cases (scope.resolveWith context seen (scope.model.core type)).outcome <;> rfl

theorem outcome_array (element : TypeExpr) :
    scope.outcome context seen (.array element) =
      (scope.outcome context seen element).map Signature.arrayOf := by
  rw [outcome, resolveWith, dif_neg (by simp [TypeModel.isWrapper]), Attempt.outcome_bind, outcome]
  cases (scope.resolveWith context seen element).outcome <;> rfl

/-- Whether an object literal is displayed by its text. -/
def isReadable (scope : Scope) (members : List Member) : Bool :=
  !members.isEmpty && members.all (scope.isSimple ·.type)

/-- The signature of an object type. -/
def structSignature (scope : Scope) (context : Context) (name : Option String)
    (members : List Member) (printed : String) : Signature :=
  match name with
  | none =>
    { Signature.documented (if scope.isReadable members then printed else "object") printed with
      isStruct := true }
  | some name =>
    if scope.isWellKnown name then .simple printed
    else .namedObject context printed name ((scope.model.find? name).any Declaration.exported)

theorem outcome_struct (name : Option String) (typeArgs : List TypeExpr) (members : List Member) :
    scope.outcome context seen (.struct name typeArgs members) =
      .ok (scope.structSignature context name members
        (TypeExpr.struct name typeArgs members).print) := by
  rw [outcome, resolveWith, dif_neg (by simp [TypeModel.isWrapper])]
  cases name with
  | none => rfl
  | some name =>
    unfold resolveStruct structSignature
    dsimp only
    split
    · rfl
    · split
      · rename_i declaration found
        rw [Attempt.outcome_bind, found, noteUse]
        split <;> rfl
      · rename_i absent
        rw [absent]
        rfl

/-- The signature of a reference to a declaration that is not kept as it is. -/
def declaredOutcome (scope : Scope) (context : Context) (seen : List String) (name : String)
    (declaration : Declaration) (printed : String) : Except StructuralError Signature :=
  match declaration.kind with
  | .enumeration => .ok (.ofEnumeration declaration)
  | .interface => .ok (.namedObject context printed declaration.name declaration.exported)
  | .classType => .ok (.namedObject context printed declaration.name declaration.exported)
  | .typeAlias =>
    if name ∈ seen then .ok { Signature.documented "any" printed with circular := true }
    else (scope.outcome context (name :: seen) declaration.body).map
      (aliasSignature context declaration printed)

variable {name : String} {declaration : Declaration}

theorem outcome_reference {args : List TypeExpr}
    (plain : scope.model.isWrapper (.reference name args) = false) :
    scope.outcome context seen (.reference name args) =
      if scope.isWellKnown name then .ok (.simple (TypeExpr.reference name args).print)
      else
        match scope.model.find? name with
        | none => .ok (.documented "object" (TypeExpr.reference name args).print)
        | some declaration =>
          scope.declaredOutcome context seen name declaration
            (TypeExpr.reference name args).print := by
  rw [outcome, resolveWith, dif_neg (by simp [plain])]
  dsimp only
  generalize found : scope.model.find? name = declared
  cases declared with
  | none =>
    dsimp only
    split
    · rfl
    · rw [degrade]
      split <;> rfl
  | some declaration =>
    have noted : (noteUse declaration).outcome = .ok () := by
      rw [noteUse]
      split <;> rfl
    dsimp only
    rw [Attempt.outcome_bind, noted]
    change Attempt.outcome _ = _
    by_cases known : scope.isWellKnown name = true
    · rw [if_pos known, if_pos known]
      rfl
    · rw [if_neg known, if_neg known, declaredOutcome]
      cases declaration.kind with
      | typeAlias =>
        dsimp only
        split
        · rfl
        · rw [Attempt.outcome_bind, outcome]
          cases (scope.resolveWith context (name :: seen) declaration.body).outcome <;> rfl
      | _ => rfl

theorem isWrapper_of_find? (found : scope.model.find? name = some declaration)
    (args : List TypeExpr) :
    scope.model.isWrapper (.reference name args) = false := by
  cases args <;> simp [TypeModel.isWrapper, TypeModel.isWrapperName, found]

theorem outcome_declared (found : scope.model.find? name = some declaration)
    (unknown : scope.isWellKnown name = false) (args : List TypeExpr) :
    scope.outcome context seen (.reference name args) =
      scope.declaredOutcome context seen name declaration (TypeExpr.reference name args).print := by
  rw [outcome_reference (isWrapper_of_find? found args), if_neg (by simp [unknown]), found]

theorem outcome_alias (found : scope.model.find? name = some declaration)
    (unknown : scope.isWellKnown name = false) (kind : declaration.kind = .typeAlias)
    (fresh : name ∉ seen) (args : List TypeExpr) :
    scope.outcome context seen (.reference name args) =
      (scope.outcome context (name :: seen) declaration.body).map
        (aliasSignature context declaration (TypeExpr.reference name args).print) := by
  rw [outcome_declared found unknown, declaredOutcome, kind]
  exact if_neg fresh

theorem outcome_resolveAll (types : List TypeExpr) :
    (scope.resolveAll context seen types).outcome = types.mapM (scope.outcome context seen) := by
  induction types with
  | nil =>
    rw [resolveAll, List.mapM_nil]
    rfl
  | cons type rest ih =>
    rw [resolveAll, List.mapM_cons, Attempt.outcome_bind, ← outcome]
    congr 1
    funext first
    rw [Attempt.outcome_bind, ih]
    rfl

theorem outcome_union (members : List TypeExpr) :
    scope.outcome context seen (.union members) =
      if (TypeExpr.flatten members).any TypeExpr.isOpen then .ok .any
      else if (TypeExpr.presentMembers members).isEmpty then
        .ok (if (TypeExpr.flatten members).any TypeExpr.isNull then
          { Signature.simple "null" with
            optionalViaUnion := context.position == .returned &&
              (TypeExpr.flatten members).any TypeExpr.isUndefined }
        else .simple "undefined")
      else
        ((TypeExpr.presentMembers members).mapM (scope.outcome context seen)).map fun signatures =>
          (Signature.joined signatures).withNullish ((TypeExpr.flatten members).any TypeExpr.isNull)
            (context.position == .returned &&
              (TypeExpr.flatten members).any TypeExpr.isUndefined) := by
  rw [outcome, resolveWith, dif_neg (by simp [TypeModel.isWrapper])]
  dsimp only
  split
  · rfl
  · split
    · rfl
    · rw [Attempt.outcome_bind, outcome_resolveAll]
      cases (TypeExpr.presentMembers members).mapM (scope.outcome context seen) with
      | error failure => rfl
      | ok signatures => rcases signatures with _ | ⟨first, _ | ⟨second, others⟩⟩ <;> rfl

theorem outcome_union_of_members {members : List TypeExpr} {signatures : List Signature}
    (closed : (TypeExpr.flatten members).any TypeExpr.isOpen = false)
    (some_present : TypeExpr.presentMembers members ≠ [])
    (each : List.Forall₂ (fun member signature => scope.outcome context seen member = .ok signature)
      (TypeExpr.presentMembers members) signatures) :
    scope.outcome context seen (.union members) =
      .ok ((Signature.joined signatures).withNullish
        ((TypeExpr.flatten members).any TypeExpr.isNull)
        (context.position == .returned &&
          (TypeExpr.flatten members).any TypeExpr.isUndefined)) := by
  rw [outcome_union, if_neg (by simp [closed]), if_neg (mt List.isEmpty_iff.1 some_present)]
  exact map_eq_ok_iff.2 ⟨signatures, mapM_eq_ok_iff.2 each, rfl⟩

theorem outcome_intersection (members : List TypeExpr) :
    let whole := Signature.documented "object"
      (" & ".intercalate (members.map fun member => member.typeName?.getD member.print))
    scope.outcome context seen (.intersection members) =
      match TypeExpr.brandedType? members with
      | some candidate =>
        (scope.outcome context seen candidate).map fun signature =>
          if signature.isPrimitiveDisplay then signature else whole
      | none => .ok whole := by
  rw [outcome, resolveWith, dif_neg (by simp [TypeModel.isWrapper])]
  dsimp only
  generalize branded : TypeExpr.brandedType? members = candidate
  cases candidate with
  | none => rfl
  | some candidate =>
    dsimp only
    rw [Attempt.outcome_bind, outcome]
    cases (scope.resolveWith context seen candidate).outcome <;> rfl

theorem outcome_branch (text : String) (branch : TypeExpr) :
    scope.outcome context seen (.conditional text (some branch)) =
      scope.outcome context seen branch := by
  rw [outcome, resolveWith, dif_neg (by simp [TypeModel.isWrapper])]
  rfl

theorem outcome_unresolved (text : String) :
    scope.outcome context seen (.conditional text none) =
      if context.position.requiresConcrete then
        .error (.unresolvedConditional text context.position.label)
      else .ok (.documented "any" text) := by
  rw [outcome, resolveWith, dif_neg (by simp [TypeModel.isWrapper])]
  dsimp only
  split <;> rfl

end Scope

end Componentry
