import Mathlib.Data.List.Permutation
import Componentry.Proofs.Resolution.Display
import Componentry.Proofs.Resolution.Rules

/-!
# Consistency of signatures

The fields of a signature are not independent of each other. `Consistent` says how they fit
together: a type displayed as `any` is nothing else besides, objects have no enumeration values,
what is only advised is there, the display type shows arrays of objects and `null`, and a type
definition has the name of something that can be defined.

Signatures are made from other signatures by a few operations that copy some fields and set others.
Each operation keeps signatures consistent, and by the rules of resolution all signatures are made
by them.
-/

namespace Componentry

/-- A name that documentation can define: it is declared and exported, and neither belongs to a
library nor is kept as it is. -/
def Scope.CanDefine (scope : Scope) (name : String) : Prop :=
  ∃ declaration, scope.model.find? name = some declaration ∧ declaration.exported = true ∧
    declaration.library = false ∧ scope.isWellKnown name = false

namespace Signature

/-- The fields of a signature go together. -/
structure Consistent (scope : Scope) (context : Context) (signature : Signature) : Prop where
  documented : signature.documentation ≠ none
  advised : signature.designOnlyEnum = true →
    ∃ values, signature.enumValues = some values ∧ values ≠ []
  opened : signature.display = "any" →
    signature.nullable = false ∧ signature.enumValues = none ∧ signature.isStruct = false ∧
      signature.isArrayOfObject = false ∧ signature.typedef = none
  object : signature.isStruct = true →
    signature.isArrayOfObject = false ∧ signature.enumValues = none
  array : signature.isArrayOfObject = true → ∃ rest, signature.display = "Array<" ++ rest
  null : signature.nullable = true → ∃ front, signature.display = front ++ "|null"
  defined : ∀ name, signature.typedef = some name →
    signature.requiresTypedef = true ∧ scope.CanDefine name
  inlined : context.inExtension = true →
    signature.requiresTypedef = false ∧ signature.typedef = none
  optional : signature.optionalViaUnion = true → context.position = .returned

variable {scope : Scope} {context : Context}

theorem consistent_documented (display documentation : String) :
    (Signature.documented display documentation).Consistent scope context := by
  constructor <;> simp [Signature.documented]

theorem consistent_simple (display : String) :
    (Signature.simple display).Consistent scope context :=
  consistent_documented display display

theorem consistent_ofLiteral (value : Literal) :
    (Signature.ofLiteral value).Consistent scope context := by
  have not_any : value.widened.keyword ≠ "any" := by
    cases value <;> simp [Literal.widened, Primitive.keyword]
  constructor <;> simp [Signature.ofLiteral, Signature.documented, not_any]

theorem consistent_ofEnumeration (declaration : Declaration) :
    (Signature.ofEnumeration declaration).Consistent scope context := by
  have not_any : (Signature.ofEnumeration declaration).display ≠ "any" := by
    simp only [Signature.ofEnumeration, Signature.documented]
    split <;> simp
  constructor <;> simp [Signature.ofEnumeration, Signature.documented] at not_any ⊢
  exact not_any

theorem consistent_object {display documentation : String} (not_any : display ≠ "any")
    (typeName : Option String) :
    { Signature.documented display documentation with isStruct := true, typeName }.Consistent
      scope context := by
  constructor <;> simp [Signature.documented, not_any]

namespace Consistent

variable {signature : Signature}

/-- The fields that say how a type is named and documented are free. -/
theorem described (consistent : signature.Consistent scope context) (documentation : String)
    (typeName : Option String) (circular : Bool) (wrappers : List WrapperLayer) :
    { signature with
      documentation := some documentation, typeName, circular, wrappers }.Consistent
        scope context := by
  rcases consistent with ⟨_, advised, opened, object, array, null, defined, inlined, optional⟩
  exact ⟨by simp, advised, opened, object, array, null, defined, inlined, optional⟩

theorem arrayOf (consistent : signature.Consistent scope context) :
    signature.arrayOf.Consistent scope context where
  documented := by simp [Signature.arrayOf]
  advised := consistent.advised
  opened shown := by
    have chars := congrArg String.toList shown
    simp [Signature.arrayOf] at chars
  object := by simp [Signature.arrayOf]
  array _ := ⟨signature.display ++ ">", by simp [Signature.arrayOf, String.append_assoc]⟩
  null := by simp [Signature.arrayOf]
  defined := consistent.defined
  inlined := consistent.inlined
  optional := by simp [Signature.arrayOf]

/-- An object type can be defined under a name that is exported only if it can be defined. -/
theorem markTypedef (consistent : signature.Consistent scope context)
    (object : signature.isStruct = true) {name : String} {exported : Bool}
    (definable : exported = true → scope.CanDefine name) :
    (signature.markTypedef context name exported).Consistent scope context := by
  unfold Signature.markTypedef
  split
  · exact consistent
  · rename_i standalone
    have not_any : signature.display ≠ "any" := by
      intro shown
      simp [(consistent.opened shown).2.2.1] at object
    constructor
    · exact consistent.documented
    · exact consistent.advised
    · intro shown
      exact absurd shown not_any
    · exact consistent.object
    · exact consistent.array
    · exact consistent.null
    · intro other defined
      refine ⟨rfl, ?_⟩
      dsimp only at defined
      split at defined
      · rename_i is_exported
        cases defined
        exact definable is_exported
      · exact (consistent.defined other defined).2
    · intro inlined
      exact absurd inlined standalone
    · exact consistent.optional

theorem withOptional (consistent : signature.Consistent scope context) {optional : Bool}
    (returned : optional = true → context.position = .returned) :
    { signature with optionalViaUnion := optional }.Consistent scope context := by
  rcases consistent with ⟨documented, advised, opened, object, array, null, defined, inlined, _⟩
  exact ⟨documented, advised, opened, object, array, null, defined, inlined, returned⟩

theorem withNullish (consistent : signature.Consistent scope context) (nullable : Bool)
    {optional : Bool} (returned : optional = true → context.position = .returned) :
    (signature.withNullish nullable optional).Consistent scope context := by
  unfold Signature.withNullish
  split
  · exact consistent
  · rename_i not_any
    rw [beq_iff_eq] at not_any
    split
    · constructor
      · simpa using consistent.documented
      · exact consistent.advised
      · intro shown
        have last := congrArg (·.toList.getLast?) shown
        simp at last
      · exact consistent.object
      · intro array
        rcases consistent.array array with ⟨rest, display_eq⟩
        exact ⟨rest ++ "|null", by simp [display_eq, String.append_assoc]⟩
      · exact fun _ => ⟨signature.display, rfl⟩
      · exact consistent.defined
      · exact consistent.inlined
      · exact returned
    · exact consistent.withOptional returned

end Consistent

theorem consistent_unionOf {members : List Signature}
    (consistent : ∀ member ∈ members, member.Consistent scope context) :
    (Signature.unionOf members).Consistent scope context := by
  unfold Signature.unionOf
  dsimp only
  split
  · exact consistent_documented _ _
  · rename_i no_any
    have not_any := Scope.intercalate_bar_ne_any
      (mt List.mem_eraseDups.1 (mt Scope.any_display_iff.2 no_any))
    constructor
    · simp [Signature.documented]
    · intro advises
      simp only [Bool.and_eq_true] at advises
      rw [if_pos (by simpa using advises.1)]
      exact ⟨_, rfl, by simpa using advises.1.1⟩
    · intro shown
      exact absurd shown not_any
    · simp [Signature.documented]
    · simp [Signature.documented]
    · simp [Signature.documented]
    · intro name defined
      rcases List.exists_of_findSome?_eq_some defined with ⟨member, mem, member_defined⟩
      have own := (consistent member mem).defined name member_defined
      exact ⟨List.any_eq_true.2 ⟨member, mem, own.1⟩, own.2⟩
    · intro inlined
      constructor
      · rw [List.any_eq_false]
        intro member mem
        simp [((consistent member mem).inlined inlined).1]
      · rw [List.findSome?_eq_none_iff]
        intro member mem
        exact ((consistent member mem).inlined inlined).2
    · simp [Signature.documented]

theorem consistent_joined {signatures : List Signature}
    (consistent : ∀ signature ∈ signatures, signature.Consistent scope context) :
    (Signature.joined signatures).Consistent scope context := by
  unfold Signature.joined
  split
  · exact consistent _ List.mem_cons_self
  · exact consistent_unionOf consistent

end Signature

namespace Scope

variable {scope : Scope} {context : Context} {seen : List String}

theorem canDefine_of_found {name : String} {declaration : Declaration}
    (found : scope.model.find? name = some declaration)
    (unknown : scope.isWellKnown name = false) (exported : declaration.exported = true) :
    scope.CanDefine name := by
  refine ⟨declaration, found, exported, ?_, unknown⟩
  simp only [isWellKnown, found, Bool.or_eq_false_iff] at unknown
  exact unknown.2

theorem consistent_aliasSignature {declaration : Declaration} {body : Signature}
    (consistent : body.Consistent scope context) (printed : String)
    (definable : declaration.exported = true → scope.CanDefine declaration.name) :
    (aliasSignature context declaration printed body).Consistent scope context := by
  unfold aliasSignature
  dsimp only
  split
  · rename_i plain
    rw [Bool.and_eq_true] at plain
    apply Signature.Consistent.markTypedef (consistent.described printed _ _ _) plain.1 definable
  · exact consistent.described printed _ _ _

theorem print_object_ne_any (typeArgs : List TypeExpr) (members : List Member) :
    (TypeExpr.struct none typeArgs members).print ≠ "any" := by
  intro shown
  have chars := congrArg String.toList shown
  cases members <;> simp [TypeExpr.print] at chars

theorem returned_of_optional {missing : Bool}
    (optional : (context.position == .returned && missing) = true) :
    context.position = .returned := by
  rw [Bool.and_eq_true, beq_iff_eq] at optional
  exact optional.1

/-- Every rule of resolution keeps the fields of a signature together. -/
theorem Resolves.consistent {type : TypeExpr} {signature : Signature}
    (resolves : scope.Resolves context seen type signature) :
    signature.Consistent scope context := by
  induction resolves with
  | wrapper wrapped inner ih => exact ih.described _ _ _ _
  | primitive => exact Signature.consistent_simple _
  | literal => exact Signature.consistent_ofLiteral _
  | array inner ih => exact ih.arrayOf
  | object text =>
    apply Signature.consistent_object
    split
    · rw [text]
      exact print_object_ne_any _ _
    · simp
  | kept named known => exact Signature.consistent_simple _
  | named named unknown declared =>
    apply Signature.Consistent.markTypedef (Signature.consistent_object (by simp) _) rfl
    intro exported
    rw [declared, Option.any_eq_true] at exported
    rcases exported with ⟨declaration, found, exported⟩
    exact canDefine_of_found found unknown exported
  | undeclared absent unknown => exact Signature.consistent_documented _ _
  | enumeration found unknown kind => exact Signature.consistent_ofEnumeration _
  | circular found unknown kind followed =>
    exact (Signature.consistent_documented _ _).described _ _ _ _
  | aliased found unknown kind fresh inner ih =>
    apply consistent_aliasSignature ih
    intro exported
    rw [TypeModel.name_of_find? found]
    exact canDefine_of_found found unknown exported
  | openUnion isOpen => exact Signature.consistent_simple _
  | absentUnion absent =>
    split
    · apply (Signature.consistent_simple "null").withOptional
      exact returned_of_optional
    · exact Signature.consistent_simple _
  | @union seen members signatures present lengths inner ih =>
    apply Signature.Consistent.withNullish
    · apply Signature.consistent_joined
      intro signature mem
      rw [← List.map_snd_zip (Nat.le_of_eq lengths.symm), List.mem_map] at mem
      rcases mem with ⟨pair, pair_mem, rfl⟩
      exact ih pair pair_mem
    · exact returned_of_optional
  | branded branded primitive inner ih => exact ih
  | intersection names | bareWrapper | generic | function =>
    exact Signature.consistent_documented _ _
  | branch inner ih => exact ih
  | unresolved lenient => exact Signature.consistent_documented _ _
  | opened isOpen | null => exact Signature.consistent_simple _

/-- Whatever the model, the configuration and the context, the signature of a type that can be
resolved is consistent. -/
theorem resolve_consistent (model : TypeModel) (config : Config) (context : Context)
    (type : TypeExpr) (signature : Signature)
    (resolved : ((ofConfig model config).resolve context type).outcome = .ok signature) :
    signature.Consistent (ofConfig model config) context :=
  (resolves_of_outcome resolved).consistent

/-- An exported interface and an exported alias for arrays of it that may be missing. -/
def rosters : Scope :=
  ofConfig (.ofList [.ofInterface "Player" [⟨"name", .string, false, false⟩],
    .ofAlias "Roster" (.union [.array (.named "Player"), .null, .undefined])]) {}

theorem outcome_roster :
    (rosters.resolve ⟨.returned, false⟩ (.named "Roster")).outcome = .ok
      { Signature.documented "Array<object>|null" "Roster" with
        isArrayOfObject := true, requiresTypedef := true, typedef := some "Player"
        typeName := some "Player", nullable := true, optionalViaUnion := true } := by
  cbv

theorem resolve_consistent_roster :
    ∃ signature : Signature,
      (rosters.resolve ⟨.returned, false⟩ (.named "Roster")).outcome = .ok signature ∧
      signature.display = "Array<object>|null" ∧ signature.nullable = true ∧
      signature.isArrayOfObject = true ∧ signature.optionalViaUnion = true ∧
      signature.typedef = some "Player" ∧ signature.Consistent rosters ⟨.returned, false⟩ :=
  ⟨_, outcome_roster, rfl, rfl, rfl, rfl, rfl, resolve_consistent _ _ _ _ _ outcome_roster⟩

end Scope

end Componentry
