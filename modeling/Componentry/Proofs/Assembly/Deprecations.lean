import Componentry.Proofs.Assembly
import Componentry.Proofs.Assembly.Surface
import Componentry.Proofs.Resolution.Deprecations

/-!
# Deprecated declarations that are reported

A deprecated declaration is reported for a component exactly if resolution of one of the types that
assembly resolves comes to its name. Being mentioned somewhere in a type is not enough: the types of
a function, for instance, are printed and never resolved.
-/

namespace Componentry

namespace TypeReport

/-- The warning about a deprecated declaration. -/
def deprecation (report : TypeReport) (name note : String) : Diagnostic :=
  { severity := .warning, message := (Notice.deprecated name note).message,
    component := report.component, category := some .deprecatedType }

/-- The warnings that a report gains about deprecated declarations are those about the given
notices, unless the name was reported before. -/
def Gains (before after : TypeReport) (notices : List Notice) : Prop :=
  ∃ added, after.diagnostics = before.diagnostics ++ added ∧
    ∀ diagnostic, (diagnostic ∈ added ∧ diagnostic.category = some .deprecatedType) ↔
      ∃ name note, .deprecated name note ∈ notices ∧ name ∉ before.reported.toList ∧
        diagnostic = before.deprecation name note

/-- The first use of each deprecated declaration that was not reported before. -/
def newUses (config : Config) (reported : NameSet) : List Notice → List (String × String)
  | [] => []
  | .deprecated name note :: rest =>
    if config.isEnabled .deprecatedType && !reported.contains name then
      (name, note) :: newUses config (reported.insert name) rest
    else newUses config reported rest
  | _ :: rest => newUses config reported rest

variable {config : Config} (report : TypeReport)

variable {notices : List Notice}

theorem not_reported_of_mem_newUses {reported : NameSet} {name : String}
    (mem : name ∈ (newUses config reported notices).map Prod.fst) : name ∉ reported.toList := by
  induction notices generalizing reported with
  | nil => cases mem
  | cons notice rest ih =>
    cases notice with
    | deprecated other note =>
      rw [newUses] at mem
      split at mem
      · rename_i fresh
        rcases List.mem_cons.1 mem with rfl | later
        · simpa [NameSet.contains] using (Bool.and_eq_true_iff.1 fresh).2
        · intro known
          exact ih later (mem_insertName.2 (.inr known))
      · exact ih mem
    | _ => exact ih mem

theorem nodup_newUses (config : Config) (reported : NameSet) (notices : List Notice) :
    ((newUses config reported notices).map Prod.fst).Nodup := by
  induction notices generalizing reported with
  | nil => exact .nil
  | cons notice rest ih =>
    cases notice with
    | deprecated name note =>
      rw [newUses]
      split
      · refine List.nodup_cons.2 ⟨?_, ih _⟩
        intro again
        exact not_reported_of_mem_newUses again (mem_insertName.2 (.inl rfl))
      · exact ih reported
    | _ => exact ih reported

/-- As notices about one name carry the same note, nothing that they say is lost. -/
theorem mem_newUses {reported : NameSet}
    (agree : ∀ name first second, .deprecated name first ∈ notices →
      .deprecated name second ∈ notices → first = second) (name note : String) :
    (name, note) ∈ newUses config reported notices ↔
      config.isEnabled .deprecatedType = true ∧ name ∉ reported.toList ∧
        .deprecated name note ∈ notices := by
  induction notices generalizing reported with
  | nil => simp [newUses]
  | cons notice rest ih =>
    have rest_agree : ∀ name first second, .deprecated name first ∈ rest →
        .deprecated name second ∈ rest → first = second := by
      intro name first second first_mem second_mem
      exact agree name first second (.tail _ first_mem) (.tail _ second_mem)
    have rest_iff (reported : NameSet) := @ih reported rest_agree
    cases notice with
    | deprecated other otherNote =>
      have own_note (same : name = other) (later : .deprecated name note ∈ rest) :
          note = otherNote := by
        subst same
        exact agree name note otherNote (.tail _ later) (.head rest)
      rw [newUses]
      split
      · rename_i fresh
        have unknown : config.isEnabled .deprecatedType = true ∧ other ∉ reported.toList := by
          simpa [NameSet.contains] using fresh
        have inserted : name ∈ (reported.insert other).toList ↔
            name = other ∨ name ∈ reported.toList := mem_insertName
        rw [List.mem_cons, rest_iff, inserted, List.mem_cons]
        by_cases same : name = other
        · have first_or_later : note = otherNote ∨ .deprecated name note ∈ rest ↔
              note = otherNote := or_iff_left_of_imp (own_note same)
          subst same
          simp [unknown, first_or_later]
        · simp [same]
      · rename_i known
        have reported_before (on : config.isEnabled .deprecatedType = true)
            (unknown : name ∉ reported.toList) : name ≠ other := by
          rintro rfl
          exact known (by simp [on, NameSet.contains, unknown])
        rw [rest_iff]
        refine and_congr_right fun on => and_congr_right fun unknown => ?_
        simp [reported_before on unknown]
    | _ => simp [newUses, rest_iff]

/-- Warnings about deprecated declarations. -/
def deprecationsOf (diagnostics : Diagnostics) : Diagnostics :=
  diagnostics.filter (·.category == some .deprecatedType)

theorem deprecations_addAll (config : Config) (notices : List Notice) :
    deprecationsOf (report.addAll config notices).diagnostics =
      deprecationsOf report.diagnostics ++
        (newUses config report.reported notices).map fun use =>
          report.deprecation use.1 use.2 := by
  induction notices generalizing report with
  | nil => simp [addAll, newUses]
  | cons notice rest ih =>
    have step : report.addAll config (notice :: rest) =
      (report.add config notice).addAll config rest := rfl
    rw [step, ih]
    cases notice with
    | deprecated name note =>
      rw [newUses, add]
      split
      · simp [warn, deprecationsOf, deprecation]
      · rfl
    | degraded reason =>
      rw [newUses, add]
      split
      · simp [warn, deprecationsOf, deprecation]
      · rfl
      · simp
    | _ => rfl

theorem prefix_addAll (config : Config) (notices : List Notice) :
    ∃ added, (report.addAll config notices).diagnostics = report.diagnostics ++ added := by
  induction notices generalizing report with
  | nil => exact ⟨[], by simp [addAll]⟩
  | cons notice rest ih =>
    rcases ih (report.add config notice) with ⟨others, others_eq⟩
    have own : ∃ own, (report.add config notice).diagnostics = report.diagnostics ++ own := by
      unfold add
      split <;> try split
      all_goals first | exact ⟨_, rfl⟩ | exact ⟨[], by simp⟩
    rcases own with ⟨own, own_eq⟩
    exact ⟨own ++ others, by rw [← List.append_assoc, ← own_eq, ← others_eq]; rfl⟩

theorem gains_addAll (on : config.isEnabled .deprecatedType = true)
    (agree : ∀ name first second, .deprecated name first ∈ notices →
      .deprecated name second ∈ notices → first = second) :
    report.Gains (report.addAll config notices) notices := by
  rcases report.prefix_addAll config notices with ⟨added, added_eq⟩
  have new := report.deprecations_addAll config notices
  rw [added_eq, deprecationsOf, deprecationsOf, List.filter_append] at new
  have added_new := List.append_cancel_left new
  refine ⟨added, added_eq, ?_⟩
  intro diagnostic
  have kept : diagnostic ∈ added ∧ diagnostic.category = some .deprecatedType ↔
      diagnostic ∈ added.filter (·.category == some .deprecatedType) := by
    rw [List.mem_filter, beq_iff_eq]
  rw [kept, added_new, List.mem_map, Prod.exists]
  simp only [mem_newUses agree, on, true_and, eq_comm, and_assoc, and_left_comm]

end TypeReport

namespace Scope

variable {scope : Scope}

/-- The notices about the deprecated declarations that a type uses. -/
def Warned (scope : Scope) (type : TypeExpr) (notice : Notice) : Prop :=
  ∃ declaration, scope.Uses type declaration ∧ declaration.Warns notice

variable {type : TypeExpr}

/-- A type that is not looked into uses nothing. -/
theorem not_uses_of_leaf (nothing_inside : scope.inside type = [])
    (unfollowed : scope.followed? type = none) (unused : scope.used? type = none)
    (declaration : Declaration) : ¬scope.Uses type declaration := by
  rintro ⟨last, way, used⟩
  rcases Relation.ReflTransGen.cases_head way with rfl | ⟨next, step, _⟩
  · cases unused.symm.trans used
  · cases step with
    | inside mem =>
      rw [nothing_inside] at mem
      cases mem
    | body follows => cases unfollowed.symm.trans follows

/-- Notices about deprecated declarations are traced to the types that use them. -/
theorem traces_warned (scope : Scope) : scope.Traces Attempt.Notes fun _ => scope.Warned where
  toComposes := Attempt.Notes.composes
  resolve := resolve_notes
  raise untyped := .raise_other fun notice mem => by simp [untyped notice mem]
  generic := by
    rintro _ name constraint notice ⟨declaration, uses, _⟩
    exact not_uses_of_leaf rfl rfl rfl declaration uses
  any := by
    rintro _ notice ⟨declaration, uses, _⟩
    exact not_uses_of_leaf rfl rfl rfl declaration uses

/-- What assembly notes is what the types that it examines warn about. -/
theorem notes_assemble (config : Config) (component : Component) :
    (scope.assemble config component).Notes fun notice =>
      ∃ position type, scope.Examines component position type ∧ scope.Warned type notice := by
  have require (error : Option StructuralError) :
      (Attempt.require error).Notes fun _ => False := by
    cases error with
    | none => exact .ok ()
    | some error => exact .fail error _
  apply scope.traces_warned.after (require _)
  intro _ _
  apply scope.traces_warned.after (require _)
  intro _ _
  exact scope.traces_warned.assembleSurface component

theorem Warned.declared {name note : String} (warned : scope.Warned type (.deprecated name note)) :
    ∃ declaration, scope.model.find? name = some declaration ∧
      declaration.deprecated = some note := by
  rcases warned with ⟨declaration, ⟨last, _, used⟩, _, deprecated, same⟩
  cases same
  exact ⟨declaration, find?_of_used? used, deprecated⟩

/-- The note is that of the declaration with the name. -/
theorem Warned.note_eq {other : TypeExpr} {name first second : String}
    (warned : scope.Warned type (.deprecated name first))
    (again : scope.Warned other (.deprecated name second)) : first = second := by
  rcases warned.declared with ⟨declaration, found, deprecated⟩
  rcases again.declared with ⟨_, other_found, other_deprecated⟩
  cases found.symm.trans other_found
  cases deprecated.symm.trans other_deprecated
  rfl

end Scope

namespace Assembler

open TypeReport (deprecationsOf newUses nodup_newUses mem_newUses)

/-- A component that is accepted is warned about the deprecated declarations that resolution of its
types comes to, and about no others. -/
theorem deprecations_of_used_types (assembler : Assembler) (model : TypeModel) (config : Config)
    (component : Component) (resolved : ResolvedComponent)
    (on : config.isEnabled .deprecatedType = true)
    (accepted : (assembler.assemble model config component).1 = .ok resolved) :
    let scope := Scope.ofConfig model config
    ∃ added, (assembler.assemble model config component).2.types.diagnostics =
        assembler.types.diagnostics ++ added ∧
      ∀ diagnostic, (diagnostic ∈ added ∧ diagnostic.category = some .deprecatedType) ↔
        ∃ position type declaration note, scope.Examines component position type ∧
          scope.Uses type declaration ∧ declaration.deprecated = some note ∧
          diagnostic =
            { severity := .warning
              message := (Notice.deprecated declaration.name note).message
              component := some component.name
              category := some .deprecatedType } := by
  intro scope
  have succeeded : ∃ value, (scope.assemble config component).outcome = .ok value := by
    simp only [Assembler.assemble] at accepted
    cases outcome : (scope.assemble config component).outcome with
    | ok value => exact ⟨value, rfl⟩
    | error failure =>
      rw [show Scope.ofConfig model config = scope from rfl, outcome] at accepted
      cases accepted
  rcases succeeded with ⟨value, succeeded⟩
  have noted (name note : String) :
      .deprecated name note ∈ (scope.assemble config component).notices ↔ _ :=
    (Scope.notes_assemble config component).mem_iff succeeded rfl
  have agree : ∀ name first second,
      .deprecated name first ∈ (scope.assemble config component).notices →
      .deprecated name second ∈ (scope.assemble config component).notices → first = second := by
    intro name first second first_mem second_mem
    rcases (noted name first).1 first_mem with ⟨_, _, _, warned⟩
    rcases (noted name second).1 second_mem with ⟨_, _, _, again⟩
    exact warned.note_eq again
  rcases (assembler.types.forComponent component.name).gains_addAll on agree with
    ⟨added, added_eq, added_iff⟩
  refine ⟨added, added_eq, ?_⟩
  intro diagnostic
  rw [added_iff]
  constructor
  · rintro ⟨name, note, mem, _, rfl⟩
    rcases (noted name note).1 mem with
      ⟨position, type, examines, declaration, uses, _, deprecated, same⟩
    cases same
    exact ⟨position, type, declaration, note, examines, uses, deprecated, rfl⟩
  · rintro ⟨position, type, declaration, note, examines, uses, deprecated, rfl⟩
    refine ⟨declaration.name, note, (noted _ _).2 ?_, List.not_mem_nil, rfl⟩
    exact ⟨position, type, examines, declaration, uses, note, deprecated, rfl⟩

/-- The warnings are those about the deprecated declarations that assembly of the component came to
before it ended, one for each. -/
def WarnedOnce (model : TypeModel) (config : Config) (component : Component)
    (warnings : Diagnostics) : Prop :=
  ∃ uses : List (String × String),
    (warnings = uses.map fun use =>
      { severity := .warning
        message := (Notice.deprecated use.1 use.2).message
        component := some component.name
        category := some .deprecatedType }) ∧
    (uses.map Prod.fst).Nodup ∧
    (∀ name note, (name, note) ∈ uses ↔ config.isEnabled .deprecatedType = true ∧
      .deprecated name note ∈ ((Scope.ofConfig model config).assemble config component).notices) ∧
    ∀ name note, (name, note) ∈ uses →
      ∃ declaration, model.find? name = some declaration ∧ declaration.deprecated = some note

/-- What a component adds to the warnings names each deprecated declaration once. -/
theorem warnedOnce_assemble (assembler : Assembler) (model : TypeModel) (config : Config)
    (component : Component) :
    ∃ warnings, WarnedOnce model config component warnings ∧
      deprecationsOf (assembler.assemble model config component).2.diagnostics =
        deprecationsOf assembler.diagnostics ++ warnings := by
  let notices := ((Scope.ofConfig model config).assemble config component).notices
  have warned (name note : String) (mem : .deprecated name note ∈ notices) :
      ∃ type, (Scope.ofConfig model config).Warned type (.deprecated name note) := by
    rcases (Scope.notes_assemble config component).only _ mem rfl with ⟨_, type, _, warned⟩
    exact ⟨type, warned⟩
  have agree : ∀ name first second, .deprecated name first ∈ notices →
      .deprecated name second ∈ notices → first = second := by
    intro name first second first_mem second_mem
    rcases warned name first first_mem with ⟨_, first_warned⟩
    rcases warned name second second_mem with ⟨_, second_warned⟩
    exact first_warned.note_eq second_warned
  have mem_iff (name note : String) : (name, note) ∈ newUses config .empty notices ↔
      config.isEnabled .deprecatedType = true ∧ .deprecated name note ∈ notices := by
    simp [mem_newUses agree, NameSet.empty]
  refine ⟨_, ⟨newUses config .empty notices, rfl, nodup_newUses config .empty notices, mem_iff, ?_⟩,
    ?_⟩
  · intro name note mem
    rcases warned name note ((mem_iff name note).1 mem).2 with ⟨_, warned⟩
    exact warned.declared
  · have own : deprecationsOf (componentWarnings config component notices) = [] := by
      apply List.filter_eq_nil_iff.2
      intro warning mem
      rcases List.mem_map.1 mem with ⟨_, _, rfl⟩
      exact Bool.false_ne_true
    have reported :=
      (assembler.types.forComponent component.name).deprecations_addAll config notices
    simp only [deprecationsOf, Assembler.diagnostics, Assembler.assemble, List.filter_append]
      at own reported ⊢
    rw [own, reported, List.append_nil, List.append_assoc]
    rfl

/-- Assembles components one after the other, going on after those that are rejected. -/
def assembleAll (assembler : Assembler) (model : TypeModel) (config : Config)
    (components : List Component) : Assembler :=
  components.foldl (fun assembler component => (assembler.assemble model config component).2)
    assembler

/-- Whether components are accepted or not, each of them is warned once about a deprecated
declaration, whatever was reported for those before it. -/
theorem deprecations_once_per_component (assembler : Assembler) (model : TypeModel)
    (config : Config) (components : List Component) :
    ∃ reports, List.Forall₂ (WarnedOnce model config) components reports ∧
      deprecationsOf (assembler.assembleAll model config components).diagnostics =
        deprecationsOf assembler.diagnostics ++ reports.flatten := by
  induction components generalizing assembler with
  | nil => exact ⟨[], .nil, by simp [assembleAll]⟩
  | cons component rest ih =>
    rcases assembler.warnedOnce_assemble model config component with ⟨own, once, own_eq⟩
    rcases ih (assembler.assemble model config component).2 with ⟨others, each, others_eq⟩
    refine ⟨own :: others, .cons once each, ?_⟩
    rw [List.flatten_cons, ← List.append_assoc, ← own_eq, ← others_eq]
    rfl

/-- Declarations of which two are deprecated; the rows of a table may be tables. -/
def retired : TypeModel :=
  .ofList [{ Declaration.ofInterface "Old" [] with deprecated := some "use New" },
    { Declaration.ofEnum "Shade" [] with deprecated := some "" },
    .ofAlias "Table" (.array (.union [.named "Table", .named "Old", .null])),
    { Declaration.ofInterface "Box" [⟨"label", .string, false, false⟩] with
      typeParams := [⟨"T", none, none⟩] }]

def drawer : Component where
  name := "Drawer"
  tagName := "my-drawer"
  properties := .ofList [("box", { type := .reference "Box" [.array (.named "Shade")] })]
  slots := .ofList [("rows", { type := some (.union [.named "Table", .null]) })]

theorem deprecations_of_used_types_drawer :
    let report := (({} : Assembler).assemble retired {} drawer).2.types.diagnostics
    let warning (message : String) : Diagnostic :=
      { severity := .warning, message, component := some "Drawer",
        category := some .deprecatedType }
    Config.isEnabled {} .deprecatedType = true ∧
      (∃ resolved, (({} : Assembler).assemble retired {} drawer).1 = .ok resolved) ∧
      warning "type `Old` is deprecated: use New" ∈ report ∧
      warning "type `Shade` is deprecated" ∈ report := by
  intro report warning
  have accepted : ∃ resolved, (({} : Assembler).assemble retired {} drawer).1 = .ok resolved :=
    exists_accepted {} (by cbv)
  refine ⟨rfl, accepted, ?_⟩
  rcases accepted with ⟨resolved, accepted⟩
  rcases deprecations_of_used_types {} retired {} drawer resolved rfl accepted with
    ⟨added, added_eq, added_iff⟩
  let scope := Scope.ofConfig retired {}
  have old : scope.Uses (.union [.named "Table", .null])
      { Declaration.ofInterface "Old" [] with deprecated := some "use New" } := by
    refine ⟨.named "Old", ?_, rfl⟩
    apply Relation.ReflTransGen.head (.inside (.head []))
    apply Relation.ReflTransGen.head (.body rfl)
    apply Relation.ReflTransGen.head (.inside (.head []))
    exact .single (.inside (.tail _ (.head [])))
  have shade : scope.Uses (.array (.named "Shade"))
      { Declaration.ofEnum "Shade" [] with deprecated := some "" } :=
    ⟨.named "Shade", .single (.inside (.head [])), rfl⟩
  have slot : scope.Examines drawer .slotData (.union [.named "Table", .null]) :=
    .demanded (.slot (.head []) rfl)
  have bound : scope.Examines drawer .parameter (.array (.named "Shade")) :=
    .binding (.head []) (.argument rfl rfl (rfl : _[0]? = _) rfl)
  rw [show report = added from added_eq]
  exact ⟨((added_iff _).2 ⟨_, _, _, _, slot, old, rfl, rfl⟩).1,
    ((added_iff _).2 ⟨_, _, _, _, bound, shade, rfl, rfl⟩).1⟩

/-- A deprecated declaration in the parameter of a function is mentioned and not reported. -/
theorem function_parameter_not_reported :
    let model : TypeModel :=
      .ofList [{ name := "Old", kind := .interface, deprecated := some "use New" }]
    let panel : Component := {
      name := "Panel"
      tagName := "my-panel"
      properties := .ofList [("pick",
        { type := .function [⟨"item", .named "Old", false⟩] .void })] }
    let assembled := ({} : Assembler).assemble model {} panel
    Config.isEnabled {} .deprecatedType = true ∧
      (model.find? "Old").bind Declaration.deprecated = some "use New" ∧
      assembled.1.isOk = true ∧ assembled.2.diagnostics = [] := by
  intro model panel assembled
  exact ⟨rfl, rfl, by cbv, by cbv⟩

end Assembler

end Componentry
