import Componentry.Expansion.Target
import Componentry.Proofs.Attempt

/-!
# Termination of resolution

Resolution is written here once more with its recursion left open: `resolveStep`
resolves a type when it is told how to resolve the types that it comes to. The
relation `Calls` lists the calls that a step can make, and a step depends on
nothing else (`resolveStep_congr`). Closing the recursion with a budget of
nested calls gives `resolveWithin`, which gives up when the budget is spent.

Aliases may form any cycle, and the body of an alias may be larger than the
reference to it. Each call either goes to a smaller type under the same
followed aliases, or follows an alias that was not followed yet
(`Calls.smaller_or_fewer`). The number of aliases not yet followed and the size
of the type therefore go down in lexicographic order, and a budget that is
computed from the model and the type is never spent.
-/

namespace Componentry

theorem mapM_congr_mem {α β : Type} {m : Type → Type} [Monad m] [LawfulMonad m]
    {step other : α → m β} {items : List α} (agree : ∀ item ∈ items, step item = other item) :
    items.mapM step = items.mapM other := by
  induction items with
  | nil => simp
  | cons item rest ih =>
    have rest_eq := ih fun later later_mem => agree later (List.mem_cons_of_mem item later_mem)
    rw [List.mapM_cons, List.mapM_cons, agree item List.mem_cons_self, rest_eq]

theorem lift_mapM {α β : Type} {m : Type → Type} [Monad m] [LawfulMonad m] [MonadLiftT Attempt m]
    [LawfulMonadLiftT Attempt m] (step : α → Attempt β) (items : List α) :
    (liftM (items.mapM step) : m (List β)) = items.mapM fun item => liftM (step item) := by
  induction items with
  | nil => simp
  | cons item rest ih => simp [ih]

namespace TypeModel

/-- The aliases that the model declares. -/
def aliases (model : TypeModel) : List Declaration :=
  model.declarations.filter (·.kind == .typeAlias)

/-- The names of the aliases. -/
def aliasNames (model : TypeModel) : List String :=
  model.aliases.map Declaration.name

/-- The size of the bodies of all aliases together. -/
def aliasSize (model : TypeModel) : Nat :=
  TypeExpr.sizeAll (model.aliases.map Declaration.body)

variable {model : TypeModel} {declaration : Declaration}

theorem mem_aliases_of_find? {name : String} (found : model.find? name = some declaration)
    (kind : declaration.kind = .typeAlias) :
    declaration ∈ model.aliases := by
  apply List.mem_filter.2
  refine ⟨Scope.mem_declarations_of_find? found, ?_⟩
  simp [kind]

theorem mem_aliasNames_of_find? {name : String} (found : model.find? name = some declaration)
    (kind : declaration.kind = .typeAlias) :
    name ∈ model.aliasNames := by
  have mem := List.mem_map_of_mem (f := Declaration.name) (mem_aliases_of_find? found kind)
  rw [name_of_find? found] at mem
  exact mem

theorem size_body_le_aliasSize (mem : declaration ∈ model.aliases) :
    declaration.body.size ≤ model.aliasSize := by
  apply TypeExpr.size_le_sizeAll
  exact List.mem_map_of_mem mem

end TypeModel

namespace Scope

/-- One step of resolution, in which the types that it comes to are resolved by `recur`. -/
def resolveStep (scope : Scope) (context : Context)
    (recur : List String → TypeExpr → Budgeted Signature) (seen : List String) (type : TypeExpr) :
    Budgeted Signature :=
  if scope.model.isWrapper type then do
    let core ← recur seen (scope.model.core type)
    return { core with
      documentation := some type.print
      wrappers := (scope.model.wrappers type).map Wrapper.layer }
  else
    match type with
    | .primitive name => return .simple name.keyword
    | .literal value => return .ofLiteral value
    | .array element => do
      let element ← recur seen element
      return .arrayOf element
    | .struct name typeArgs members =>
      scope.resolveStruct context name members (TypeExpr.struct name typeArgs members).print
    | .reference name args =>
      let printed := (TypeExpr.reference name args).print
      match scope.model.find? name with
      | none =>
        if scope.isWellKnown name then return .simple printed
        else degrade context ("type `" ++ printed ++ "` is not declared in the type model") printed
      | some declaration => do
        noteUse declaration
        if scope.isWellKnown name then return .simple printed
        else
          match declaration.kind with
          | .enumeration => return .ofEnumeration declaration
          | .interface => return .namedObject context printed declaration.name declaration.exported
          | .classType => return .namedObject context printed declaration.name declaration.exported
          | .typeAlias =>
            if name ∈ seen then
              return { Signature.documented "any" printed with circular := true }
            else
              let body ← recur (name :: seen) declaration.body
              return aliasSignature context declaration printed body
    | .union members =>
      let flat := TypeExpr.flatten members
      let nullable := flat.any TypeExpr.isNull
      let optional := context.position == .returned && flat.any TypeExpr.isUndefined
      if flat.any TypeExpr.isOpen then return .any
      else if (TypeExpr.presentMembers members).isEmpty then
        return if nullable then { Signature.simple "null" with optionalViaUnion := optional }
          else .simple "undefined"
      else do
        match ← (TypeExpr.presentMembers members).mapM (recur seen) with
        | [single] => return single.withNullish nullable optional
        | signatures => return (Signature.unionOf signatures).withNullish nullable optional
    | .intersection members =>
      let whole := Signature.documented "object"
        (" & ".intercalate (members.map fun member => member.typeName?.getD member.print))
      match TypeExpr.brandedType? members with
      | some candidate => do
        let signature ← recur seen candidate
        return if signature.isPrimitiveDisplay then signature else whole
      | none => return whole
    | .mapped wrapper args =>
      degrade context ("mapped type `" ++ wrapper ++ "` has no type argument")
        (TypeExpr.mapped wrapper args).print
    | .generic name _ => return .documented "any" name
    | .function params returns =>
      return .documented "Function" (TypeExpr.function params returns).print
    | .conditional _ (some branch) => recur seen branch
    | .conditional text none =>
      if context.position.requiresConcrete then
        (Attempt.fail (.unresolvedConditional text context.position.label) : Attempt Signature)
      else return .documented "any" text
    | .any => return .any
    | .unknown => return .any
    | .null => return .simple "null"

/-- Resolution with a budget of nested calls; it gives nothing when the budget is spent. -/
def resolveWithin (scope : Scope) (context : Context) :
    Nat → List String → TypeExpr → Budgeted Signature
  | 0 => fun _ _ => failure
  | budget + 1 => scope.resolveStep context (resolveWithin scope context budget)

theorem resolveAll_eq_mapM (scope : Scope) (context : Context) (seen : List String)
    (types : List TypeExpr) :
    scope.resolveAll context seen types = types.mapM (scope.resolveWith context seen) := by
  induction types with
  | nil => simp [resolveAll]
  | cons type rest ih => simp [resolveAll, ih]

/-- Resolution is a solution of its step. -/
theorem lift_resolveWith (scope : Scope) (context : Context) (seen : List String)
    (type : TypeExpr) :
    (liftM (scope.resolveWith context seen type) : Budgeted Signature) =
      scope.resolveStep context (fun seen type => liftM (scope.resolveWith context seen type))
        seen type := by
  rw [resolveWith]
  unfold resolveStep
  split
  · simp
  · cases type with
    | array element => simp
    | reference name args =>
      dsimp only
      split
      · rename_i undeclared
        rw [undeclared]
        dsimp only
        split
        · simp
        · rfl
      · rename_i declaration found
        rw [found, liftM_bind]
        dsimp only
        congr 1
        funext _
        by_cases known : scope.isWellKnown name = true
        · simp [known]
        · cases kind : declaration.kind with
          | typeAlias =>
            by_cases followed : name ∈ seen
            · simp [known, followed]
            · simp [known, followed]
          | _ => simp [known]
    | union members =>
      simp only [resolveAll_eq_mapM, ← lift_mapM]
      split
      · simp
      · split
        · simp
        · rw [liftM_bind]
          congr 1
          funext signatures
          split
          · simp
          · simp
    | intersection members =>
      dsimp only
      split
      · rename_i candidate branded
        rw [branded]
        simp
      · rename_i unbranded
        rw [unbranded]
        simp
    | conditional text resolved =>
      cases resolved with
      | some branch => rfl
      | none =>
        dsimp only
        split
        · rfl
        · simp
    | _ => simp

/-- The calls that a step of resolution may make: the first call is made for the second. -/
inductive Calls (scope : Scope) : List String × TypeExpr → List String × TypeExpr → Prop
  | core {seen : List String} {type : TypeExpr} (wrapped : scope.model.isWrapper type = true) :
      Calls scope (seen, scope.model.core type) (seen, type)
  | element {seen : List String} {element : TypeExpr} :
      Calls scope (seen, element) (seen, .array element)
  | aliased {seen : List String} {name : String} {args : List TypeExpr} {declaration : Declaration}
      (found : scope.model.find? name = some declaration) (kind : declaration.kind = .typeAlias)
      (fresh : name ∉ seen) :
      Calls scope (name :: seen, declaration.body) (seen, .reference name args)
  | alternative {seen : List String} {members : List TypeExpr} {member : TypeExpr}
      (present : member ∈ TypeExpr.presentMembers members) :
      Calls scope (seen, member) (seen, .union members)
  | branded {seen : List String} {members : List TypeExpr} {candidate : TypeExpr}
      (branded : TypeExpr.brandedType? members = some candidate) :
      Calls scope (seen, candidate) (seen, .intersection members)
  | branch {seen : List String} {text : String} {branch : TypeExpr} :
      Calls scope (seen, branch) (seen, .conditional text (some branch))

/-- A step depends on the calls that it makes and on nothing else of the recursion. -/
theorem resolveStep_congr {scope : Scope} {context : Context}
    {recur other : List String → TypeExpr → Budgeted Signature} {seen : List String}
    {type : TypeExpr}
    (agree : ∀ innerSeen inner, scope.Calls (innerSeen, inner) (seen, type) →
      recur innerSeen inner = other innerSeen inner) :
    scope.resolveStep context recur seen type = scope.resolveStep context other seen type := by
  unfold resolveStep
  split
  · rename_i wrapped
    rw [agree _ _ (.core wrapped)]
  · cases type with
    | array element =>
      dsimp only
      rw [agree _ _ .element]
    | reference name args =>
      dsimp only
      split
      · rfl
      · rename_i declaration found
        cases kind : declaration.kind with
        | typeAlias =>
          by_cases followed : name ∈ seen
          · simp only [followed, if_true]
          · rw [agree _ _ (.aliased found kind followed)]
        | _ => rfl
    | union members =>
      have alternatives : (TypeExpr.presentMembers members).mapM (recur seen) =
          (TypeExpr.presentMembers members).mapM (other seen) := by
        apply mapM_congr_mem
        intro member present
        exact agree _ _ (.alternative present)
      dsimp only
      rw [alternatives]
    | intersection members =>
      dsimp only
      split
      · rename_i candidate branded
        rw [agree _ _ (.branded branded)]
      · rfl
    | conditional text resolved =>
      cases resolved with
      | none => rfl
      | some branch => exact agree _ _ .branch
    | _ => rfl

/-- The aliases not yet followed and the size of the type, which go down with each call. -/
def callMeasure (scope : Scope) (call : List String × TypeExpr) : Nat × Nat :=
  (unseen scope.model.aliasNames call.1, call.2.size)

/-- How many nested calls a call can lead to: each alias is followed at most once, and between two
of them the type only gets smaller. -/
def callBudget (scope : Scope) (call : List String × TypeExpr) : Nat :=
  unseen scope.model.aliasNames call.1 * scope.model.aliasSize + call.2.size

namespace Calls

variable {scope : Scope} {inner outer : List String × TypeExpr}

/-- A call goes to a smaller type, or follows one more alias. -/
theorem smaller_or_fewer (call : scope.Calls inner outer) :
    (inner.1 = outer.1 ∧ inner.2.size < outer.2.size) ∨
      (unseen scope.model.aliasNames inner.1 < unseen scope.model.aliasNames outer.1 ∧
        inner.2.size ≤ scope.model.aliasSize) := by
  cases call with
  | core wrapped => exact .inl ⟨rfl, TypeModel.size_core_lt wrapped⟩
  | element =>
    refine .inl ⟨rfl, ?_⟩
    simp only [TypeExpr.size]
    omega
  | aliased found kind fresh =>
    right
    constructor
    · exact unseen_lt_of_subset (TypeModel.mem_aliasNames_of_find? found kind)
        (List.subset_cons_self _ _) List.mem_cons_self fresh
    · exact TypeModel.size_body_le_aliasSize (TypeModel.mem_aliases_of_find? found kind)
  | @alternative seen members member present =>
    refine .inl ⟨rfl, ?_⟩
    have member_le := TypeExpr.size_le_sizeAll present
    have present_le := TypeExpr.sizeAll_presentMembers_le members
    simp only [TypeExpr.size]
    omega
  | branded branded =>
    refine .inl ⟨rfl, ?_⟩
    have candidate_le := TypeExpr.size_brandedType?_le branded
    simp only [TypeExpr.size]
    omega
  | branch =>
    refine .inl ⟨rfl, ?_⟩
    simp only [TypeExpr.size]
    omega

theorem callMeasure_lt (call : scope.Calls inner outer) :
    Prod.Lex (· < ·) (· < ·) (scope.callMeasure inner) (scope.callMeasure outer) := by
  rcases call.smaller_or_fewer with ⟨same, smaller⟩ | ⟨fewer, _⟩
  · simp only [callMeasure, same]
    exact Prod.Lex.right _ smaller
  · exact Prod.Lex.left _ _ fewer

theorem callBudget_lt (call : scope.Calls inner outer) :
    scope.callBudget inner < scope.callBudget outer := by
  rcases call.smaller_or_fewer with ⟨same, smaller⟩ | ⟨fewer, bounded⟩
  · simp only [callBudget, same]
    omega
  · have outer_pos := outer.2.size_pos
    have spent := Nat.mul_le_mul_right scope.model.aliasSize (Nat.succ_le_of_lt fewer)
    rw [Nat.succ_mul] at spent
    simp only [callBudget]
    omega

end Calls

/-- What holds of a call if it holds of the calls that are made for it holds of all calls. Aliases
may form cycles, so this is an induction on the calls that can still be nested. -/
theorem calls_induction (scope : Scope) {Holds : List String → TypeExpr → Prop}
    (step : ∀ seen type, (∀ innerSeen inner, scope.Calls (innerSeen, inner) (seen, type) →
      Holds innerSeen inner) → Holds seen type) (seen : List String) (type : TypeExpr) :
    Holds seen type := by
  induction budget : scope.callBudget (seen, type) using Nat.strongRecOn
    generalizing seen type with
  | ind budget ih =>
    subst budget
    apply step
    intro innerSeen inner call
    exact ih _ call.callBudget_lt innerSeen inner rfl

/-- A budget that is large enough is not spent. -/
theorem resolveWithin_eq_lift {scope : Scope} {context : Context} {budget : Nat}
    {seen : List String} {type : TypeExpr} (enough : scope.callBudget (seen, type) ≤ budget) :
    scope.resolveWithin context budget seen type = liftM (scope.resolveWith context seen type) := by
  induction budget generalizing seen type with
  | zero =>
    have type_pos := type.size_pos
    simp only [callBudget] at enough
    omega
  | succ budget ih =>
    rw [lift_resolveWith]
    apply resolveStep_congr
    intro innerSeen inner call
    apply ih
    have less := call.callBudget_lt
    omega

/-- Resolution terminates. Each call goes down in the lexicographic order of the aliases not yet
followed and the size of the type, and resolution with a budget that is large enough for the model
and the type never spends it: it gives the result of resolution. -/
theorem resolve_within_budget (scope : Scope) (context : Context) (type : TypeExpr) :
    (∀ inner outer, scope.Calls inner outer →
      Prod.Lex (· < ·) (· < ·) (scope.callMeasure inner) (scope.callMeasure outer)) ∧
      ∀ spare, (scope.resolveWithin context
        (scope.model.aliasNames.length * scope.model.aliasSize + type.size + spare) [] type).run =
          some <$> scope.resolve context type := by
  refine ⟨fun inner outer call => call.callMeasure_lt, ?_⟩
  intro spare
  have all_unseen : unseen scope.model.aliasNames [] = scope.model.aliasNames.length := by
    simp [unseen]
  rw [resolveWithin_eq_lift]
  · simp [resolve]
  · simp only [callBudget, all_unseen]
    omega

/-- Two aliases that lead to each other through an array, a union and a wrapper. -/
def mutualAliases : Scope where
  model := .ofList [
    .ofAlias "Tree" (.union [.null, .array (.named "Forest")]),
    .ofAlias "Forest" (.wrapped "Readonly" (.union [.named "Tree", .named "Forest"]))]

theorem resolve_within_budget_mutualAliases :
    mutualAliases.Calls (["Tree"], .union [.null, .array (.named "Forest")])
        ([], .named "Tree") ∧
      Prod.Lex (· < ·) (· < ·)
        (mutualAliases.callMeasure (["Tree"], .union [.null, .array (.named "Forest")]))
        (mutualAliases.callMeasure ([], .named "Tree")) ∧
      (mutualAliases.resolveWithin ⟨.property, false⟩ 17 [] (.named "Tree")).run =
        some <$> mutualAliases.resolve ⟨.property, false⟩ (.named "Tree") := by
  have found : mutualAliases.model.find? "Tree" =
      some (.ofAlias "Tree" (.union [.null, .array (.named "Forest")])) := rfl
  have call : mutualAliases.Calls (["Tree"], .union [.null, .array (.named "Forest")])
      ([], .named "Tree") := .aliased found rfl (by simp)
  have terminates := resolve_within_budget mutualAliases ⟨.property, false⟩ (.named "Tree")
  have budget : mutualAliases.model.aliasNames.length * mutualAliases.model.aliasSize +
      (TypeExpr.named "Tree").size = 17 := by decide
  rw [budget] at terminates
  exact ⟨call, terminates.1 _ _ call, terminates.2 0⟩

end Scope

end Componentry
