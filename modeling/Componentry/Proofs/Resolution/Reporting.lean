import Mathlib.Data.List.Permutation
import Componentry.Proofs.Resolution.Termination
import Componentry.TypeReport

/-!
# Resolvers that report as they go

Resolution gathers notices, and what becomes of them is decided afterwards. A
resolver decides at once: each time that it comes to a deprecated declaration
or to a type that it takes for `object`, it looks at its configuration and at
what it has reported for the component, and changes its report in the middle of
the recursion. The report outlives the call, also one that fails.

`Reporting` is the monad of such computations. An attempt can be carried out in
it (`perform`), and since this respects the order of steps and the first error,
the resolver that reports as it goes is resolution carried out
(`resolveWith_eq_lift`). Nothing that a resolver has done before can
therefore be seen in the result of a call.
-/

namespace Componentry

/-- A computation that reads a configuration and keeps a report, also if it fails. -/
abbrev Reporting := ReaderT Config (ExceptT StructuralError (StateM TypeReport))

namespace Reporting

variable {α β : Type}

def note (notice : Notice) : Reporting Unit := do
  let config ← read
  modify fun report => report.add config notice

/-- Carries out an attempt: its notices are reported in order, also if it fails. -/
def perform (attempt : Attempt α) : Reporting α :=
  fun config report => (attempt.outcome, report.addAll config attempt.notices)

theorem perform_pure (value : α) : perform (pure value) = pure value :=
  rfl

theorem perform_bind (attempt : Attempt α) (next : α → Attempt β) :
    perform (attempt >>= next) = perform attempt >>= fun value => perform (next value) := by
  rcases attempt with ⟨outcome, notices⟩
  funext config report
  cases outcome with
  | error failure => rfl
  | ok value =>
    have notices_eq : ((⟨.ok value, notices⟩ : Attempt α) >>= next).notices =
        notices ++ (next value).notices := rfl
    have addAll_eq : report.addAll config (notices ++ (next value).notices) =
        (report.addAll config notices).addAll config (next value).notices :=
      List.foldl_append
    rw [perform, notices_eq, addAll_eq]
    rfl

instance : MonadLift Attempt Reporting := ⟨perform⟩

instance : LawfulMonadLift Attempt Reporting where
  monadLift_pure := perform_pure
  monadLift_bind := perform_bind

/-! ## The resolver -/

def noteUse (declaration : Declaration) : Reporting Unit :=
  match declaration.deprecated with
  | some text => note (.deprecated declaration.name text)
  | none => pure ()

def degrade (context : Context) (reason printed : String) : Reporting Signature := do
  if !context.inExtension then note (.degraded reason)
  return .documented "object" printed

def resolveStruct (scope : Scope) (context : Context) (name : Option String)
    (members : List Member) (printed : String) : Reporting Signature :=
  match name with
  | none =>
    let readable := !members.isEmpty && members.all (scope.isSimple ·.type)
    return { Signature.documented (if readable then printed else "object") printed with
      isStruct := true }
  | some name =>
    if scope.isWellKnown name then return .simple printed
    else
      match scope.model.find? name with
      | some declaration => do
        noteUse declaration
        return .namedObject context printed name declaration.exported
      | none => return .namedObject context printed name false

set_option linter.unusedVariables false in
/-- Resolves a type and reports what it comes to on the way. -/
def resolveWith (scope : Scope) (context : Context) (seen : List String) (type : TypeExpr) :
    Reporting Signature :=
  if wrapped : scope.model.isWrapper type = true then do
    let core ← resolveWith scope context seen (scope.model.core type)
    return { core with
      documentation := some type.print
      wrappers := (scope.model.wrappers type).map Wrapper.layer }
  else
    match type with
    | .primitive name => return .simple name.keyword
    | .literal value => return .ofLiteral value
    | .array element => do
      let element ← resolveWith scope context seen element
      return .arrayOf element
    | .struct name typeArgs members =>
      resolveStruct scope context name members (TypeExpr.struct name typeArgs members).print
    | .reference name args =>
      let printed := (TypeExpr.reference name args).print
      match found : scope.model.find? name with
      | none =>
        if scope.isWellKnown name then return .simple printed
        else degrade context ("type `" ++ printed ++ "` is not declared in the type model") printed
      | some declaration => do
        noteUse declaration
        if scope.isWellKnown name then return .simple printed
        else
          match kind : declaration.kind with
          | .enumeration => return .ofEnumeration declaration
          | .interface => return .namedObject context printed declaration.name declaration.exported
          | .classType => return .namedObject context printed declaration.name declaration.exported
          | .typeAlias =>
            if followed : name ∈ seen then
              return { Signature.documented "any" printed with circular := true }
            else
              let body ← resolveWith scope context (name :: seen) declaration.body
              return Scope.aliasSignature context declaration printed body
    | .union members =>
      let flat := TypeExpr.flatten members
      let nullable := flat.any TypeExpr.isNull
      let optional := context.position == .returned && flat.any TypeExpr.isUndefined
      if flat.any TypeExpr.isOpen then return .any
      else if (TypeExpr.presentMembers members).isEmpty then
        return if nullable then { Signature.simple "null" with optionalViaUnion := optional }
          else .simple "undefined"
      else do
        match ← (TypeExpr.presentMembers members).attach.mapM fun member =>
            resolveWith scope context seen member.1 with
        | [single] => return single.withNullish nullable optional
        | signatures => return (Signature.unionOf signatures).withNullish nullable optional
    | .intersection members =>
      let whole := Signature.documented "object"
        (" & ".intercalate (members.map fun member => member.typeName?.getD member.print))
      match branded : TypeExpr.brandedType? members with
      | some candidate => do
        let signature ← resolveWith scope context seen candidate
        return if signature.isPrimitiveDisplay then signature else whole
      | none => return whole
    | .mapped wrapper args =>
      degrade context ("mapped type `" ++ wrapper ++ "` has no type argument")
        (TypeExpr.mapped wrapper args).print
    | .generic name _ => return .documented "any" name
    | .function params returns =>
      return .documented "Function" (TypeExpr.function params returns).print
    | .conditional _ (some branch) => resolveWith scope context seen branch
    | .conditional text none =>
      if context.position.requiresConcrete then
        throw (.unresolvedConditional text context.position.label)
      else return .documented "any" text
    | .any => return .any
    | .unknown => return .any
    | .null => return .simple "null"
termination_by scope.callMeasure (seen, type)
decreasing_by
  · exact (Scope.Calls.core wrapped).callMeasure_lt
  · exact Scope.Calls.element.callMeasure_lt
  · exact (Scope.Calls.aliased found kind followed).callMeasure_lt
  · exact (Scope.Calls.alternative member.2).callMeasure_lt
  · exact (Scope.Calls.branded branded).callMeasure_lt
  · exact Scope.Calls.branch.callMeasure_lt

/-! ## The resolver carries out resolution -/

theorem noteUse_eq_lift (declaration : Declaration) :
    noteUse declaration = liftM (Scope.noteUse declaration) := by
  unfold noteUse Scope.noteUse
  cases declaration.deprecated with
  | none => rfl
  | some text => rfl

theorem degrade_eq_lift (context : Context) (reason printed : String) :
    degrade context reason printed = liftM (Scope.degrade context reason printed) := by
  unfold degrade Scope.degrade
  cases context.inExtension with
  | false => rfl
  | true => rfl

theorem resolveStruct_eq_lift (scope : Scope) (context : Context) (name : Option String)
    (members : List Member) (printed : String) :
    resolveStruct scope context name members printed =
      liftM (scope.resolveStruct context name members printed) := by
  unfold resolveStruct Scope.resolveStruct
  cases name with
  | none => rfl
  | some name =>
    dsimp only
    split
    · rfl
    · cases scope.model.find? name with
      | none => rfl
      | some declaration => simp [noteUse_eq_lift]

theorem mapM_attach (items : List α) (step : α → Reporting β) :
    (items.attach.mapM fun item => step item.1) = items.mapM step := by
  rw [List.mapM_subtype (g := step) fun _ _ => rfl, List.unattach_attach]

/-- A step of the resolver carries out a step of resolution if the calls that it makes do. -/
theorem resolveWith_eq_lift_of_calls {scope : Scope} {context : Context} {seen : List String}
    {type : TypeExpr}
    (carried : ∀ innerSeen inner, scope.Calls (innerSeen, inner) (seen, type) →
      resolveWith scope context innerSeen inner =
        liftM (scope.resolveWith context innerSeen inner)) :
    resolveWith scope context seen type = liftM (scope.resolveWith context seen type) := by
  rw [resolveWith, Scope.resolveWith]
  split
  · rename_i wrapped
    simp [carried _ _ (.core wrapped)]
  · cases type with
    | array element => simp [carried _ _ .element]
    | struct name typeArgs members => exact resolveStruct_eq_lift scope context name members _
    | reference name args =>
      dsimp only
      generalize found : scope.model.find? name = declared
      cases declared with
      | none =>
        dsimp only
        split
        · simp
        · exact degrade_eq_lift context _ _
      | some declaration =>
        dsimp only
        rw [liftM_bind, noteUse_eq_lift]
        congr 1
        funext _
        split
        · simp
        · generalize kind : declaration.kind = declared
          cases declared with
          | typeAlias =>
            by_cases followed : name ∈ seen
            · simp [followed]
            · simp [followed, carried _ _ (.aliased found kind followed)]
          | _ => simp
    | union members =>
      have alternatives : (TypeExpr.presentMembers members).attach.mapM
            (fun member => resolveWith scope context seen member.1) =
          liftM (scope.resolveAll context seen (TypeExpr.presentMembers members)) := by
        rw [mapM_attach, Scope.resolveAll_eq_mapM, lift_mapM]
        apply mapM_congr_mem
        intro member present
        exact carried _ _ (.alternative present)
      dsimp only
      rw [alternatives]
      split
      · simp
      · split
        · simp
        · rw [liftM_bind]
          congr 1
          funext signatures
          split
          · simp
          · simp
    | intersection members =>
      dsimp only
      generalize branded : TypeExpr.brandedType? members = candidate
      cases candidate with
      | none => simp
      | some candidate => simp [carried _ _ (.branded branded)]
    | mapped wrapper args => exact degrade_eq_lift context _ _
    | conditional text resolved =>
      cases resolved with
      | some branch => exact carried _ _ .branch
      | none =>
        dsimp only
        split
        · rfl
        · simp
    | _ => simp

/-- The resolver that reports as it goes is resolution carried out. -/
theorem resolveWith_eq_lift (scope : Scope) (context : Context) (seen : List String)
    (type : TypeExpr) :
    resolveWith scope context seen type = liftM (scope.resolveWith context seen type) := by
  induction seen, type using scope.calls_induction with
  | step seen type ih => exact resolveWith_eq_lift_of_calls ih

end Reporting

/-! ## Calls of a resolver -/

/-- A resolver keeps its report from one call to the next. -/
structure Resolver where
  model : TypeModel
  config : Config
  report : TypeReport := {}

namespace Resolver

/-- What a resolver can be asked to do. -/
inductive Call where
  | resolve (context : Context) (type : TypeExpr)
  | setComponent (name : String)
  | takeDiagnostics

/-- What names mean to a resolver. -/
def scope (resolver : Resolver) : Scope :=
  .ofConfig resolver.model resolver.config

/-- Resolves a type and reports on the way. The report is kept also if the call fails. -/
def resolve (resolver : Resolver) (context : Context) (type : TypeExpr) :
    Except StructuralError Signature × Resolver :=
  let (outcome, report) :=
    Reporting.resolveWith resolver.scope context [] type resolver.config resolver.report
  (outcome, { resolver with report })

/-- The resolver after a call. -/
def after (resolver : Resolver) : Call → Resolver
  | .resolve context type => (resolver.resolve context type).2
  | .setComponent name => { resolver with report := resolver.report.forComponent name }
  | .takeDiagnostics => { resolver with report := resolver.report.cleared }

/-- The resolver after calls in a row. -/
def afterAll (resolver : Resolver) (calls : List Call) : Resolver :=
  calls.foldl after resolver

/-- What a call gives and what it adds to the report are both read off the same attempt. -/
theorem resolve_eq (resolver : Resolver) (context : Context) (type : TypeExpr) :
    let attempt := resolver.scope.resolve context type
    resolver.resolve context type =
      (attempt.outcome,
        { resolver with report := resolver.report.addAll resolver.config attempt.notices }) := by
  intro attempt
  rw [resolve, Reporting.resolveWith_eq_lift]
  rfl

theorem model_config_after (resolver : Resolver) (call : Call) :
    (resolver.after call).model = resolver.model ∧
      (resolver.after call).config = resolver.config := by
  cases call with
  | resolve context type =>
    rw [after, resolve_eq]
    exact ⟨rfl, rfl⟩
  | setComponent name | takeDiagnostics => exact ⟨rfl, rfl⟩

theorem model_config_afterAll (resolver : Resolver) (calls : List Call) :
    (resolver.afterAll calls).model = resolver.model ∧
      (resolver.afterAll calls).config = resolver.config := by
  induction calls generalizing resolver with
  | nil => exact ⟨rfl, rfl⟩
  | cons call rest ih =>
    rcases ih (resolver.after call) with ⟨model_eq, config_eq⟩
    rcases resolver.model_config_after call with ⟨model_after, config_after⟩
    exact ⟨model_eq.trans model_after, config_eq.trans config_after⟩

/-- Two resolvers over a model that know the same names give the same result, whatever calls they
have served before and whatever else they are configured for. What they report is decided by each of
them from the same notices. -/
theorem resolve_unaffected_by_history (model : TypeModel) (config other : Config)
    (same_names : config.wellKnownTypes = other.wellKnownTypes) (calls otherCalls : List Call)
    (context : Context) (type : TypeExpr) :
    let first := Resolver.afterAll { model, config } calls
    let second := Resolver.afterAll { model, config := other } otherCalls
    let attempt := (Scope.ofConfig model config).resolve context type
    (first.resolve context type).1 = (second.resolve context type).1 ∧
      first.resolve context type =
        (attempt.outcome,
          { first with report := first.report.addAll config attempt.notices }) ∧
      second.resolve context type =
        (attempt.outcome,
          { second with report := second.report.addAll other attempt.notices }) := by
  intro first second attempt
  rcases model_config_afterAll { model, config } calls with ⟨first_model, first_config⟩
  rcases model_config_afterAll { model, config := other } otherCalls with
    ⟨second_model, second_config⟩
  have first_scope : first.scope = .ofConfig model config := by
    rw [scope, first_model, first_config]
  have second_scope : second.scope = .ofConfig model config := by
    rw [scope, second_model, second_config, Scope.ofConfig, Scope.ofConfig, same_names]
  have first_eq : first.resolve context type = (attempt.outcome,
      { first with report := first.report.addAll config attempt.notices }) := by
    rw [resolve_eq, first_scope, first_config]
  have second_eq : second.resolve context type = (attempt.outcome,
      { second with report := second.report.addAll other attempt.notices }) := by
    rw [resolve_eq, second_scope, second_config]
  refine ⟨?_, first_eq, second_eq⟩
  rw [first_eq, second_eq]

/-- A deprecated name for a type that is not declared. -/
def retiredTypes : TypeModel :=
  .ofList [{ Declaration.ofAlias "Legacy" (.named "Gone") with deprecated := some "use `Fresh`" }]

/-- A resolver that has met the name before, and one that does not report what it cannot describe:
the results are the same, and each of them reports what the other one does not. -/
theorem resolve_unaffected_by_history_retiredTypes :
    let first := Resolver.afterAll { model := retiredTypes, config := {} }
      [.setComponent "Panel", .resolve ⟨.property, false⟩ (.named "Legacy"), .takeDiagnostics]
    let second := Resolver.afterAll
      { model := retiredTypes, config := Config.disable {} .unsupportedType } []
    let again := first.resolve ⟨.property, false⟩ (.named "Legacy")
    let anew := second.resolve ⟨.property, false⟩ (.named "Legacy")
    again.1 = anew.1 ∧
      again.2.report.diagnostics.map Diagnostic.category = [some .unsupportedType] ∧
      anew.2.report.diagnostics.map Diagnostic.category = [some .deprecatedType] := by
  intro first second again anew
  rcases resolve_unaffected_by_history retiredTypes {} (Config.disable {} .unsupportedType) rfl
    [.setComponent "Panel", .resolve ⟨.property, false⟩ (.named "Legacy"), .takeDiagnostics] []
    ⟨.property, false⟩ (.named "Legacy") with ⟨agree, again_eq, anew_eq⟩
  have notices_eq : ((Scope.ofConfig retiredTypes {}).resolve ⟨.property, false⟩
      (.named "Legacy")).notices = [.deprecated "Legacy" "use `Fresh`",
        .degraded "type `Gone` is not declared in the type model"] := by cbv
  have first_report : first.report = (TypeReport.addAll {} (TypeReport.forComponent {} "Panel")
      ((Scope.ofConfig retiredTypes {}).resolve ⟨.property, false⟩
        (.named "Legacy")).notices).cleared := by
    change (Resolver.resolve _ _ _).2.report.cleared = _
    rw [resolve_eq]
    rfl
  refine ⟨agree, ?_, ?_⟩
  · change (first.resolve _ _).2.report.diagnostics.map _ = _
    rw [again_eq, first_report, notices_eq]
    decide
  · change (second.resolve _ _).2.report.diagnostics.map _ = _
    rw [anew_eq, notices_eq]
    decide

end Resolver

end Componentry
