import Componentry.Proofs.Expansion.Layers
import Componentry.Proofs.Lists
import Componentry.Proofs.TypeExpr.Reader

/-!
# Unwinding chains of wrappers

Unwinding takes a type apart into wrappers and a core. Nothing is lost by that:
the type is the chain of these wrappers around the core (`exists_chain`), and so
its text can be put together again from their texts. The rules for members are
gathered on a second walk along the chain, and the type parameters on a walk
through the arguments of the core, where `Mentions` says what there is to find.
-/

namespace Componentry

/-! ## Type parameters -/

namespace TypeExpr

variable {name : String} {type part : TypeExpr}

/-- The types that a type is put together from. -/
def parts : TypeExpr → List TypeExpr
  | .array element => [element]
  | .union members => members
  | .intersection members => members
  | .reference _ args => args
  | .mapped _ args => args
  | .struct _ typeArgs members => typeArgs ++ members.map Member.type
  | .function params returns => params.map Parameter.type ++ [returns]
  | .primitive _ | .literal _ | .generic _ _ | .conditional _ _ | .any | .unknown | .null => []

/-- A type parameter occurs in a type. The bounds of parameters and the branches of conditional
types are no parts. -/
inductive Mentions (name : String) : TypeExpr → Prop
  | parameter (bound : Option TypeExpr) : Mentions name (.generic name bound)
  | part {type part : TypeExpr} (mem : part ∈ type.parts) (inner : Mentions name part) :
      Mentions name type

theorem size_lt_of_mem_parts (mem : part ∈ type.parts) : part.size < type.size := by
  have all_lt : sizeAll type.parts < type.size := by
    cases type with
    | generic name bound | conditional text resolved => exact size_pos _
    | _ =>
      simp only [parts, size, sizeAll, sizeAll_append, sizeMembers_eq_sizeAll,
        sizeParams_eq_sizeAll]
      omega
  have part_le := size_le_sizeAll mem
  omega

theorem parameterNamesAll_eq (types : List TypeExpr) :
    parameterNamesAll types = types.flatMap parameterNames := by
  induction types with
  | nil => rfl
  | cons type rest ih => simp [parameterNamesAll, ih]

theorem parameterNamesMembers_eq (members : List Member) :
    parameterNamesMembers members = (members.map Member.type).flatMap parameterNames := by
  induction members with
  | nil => rfl
  | cons member rest ih =>
    rcases member with ⟨_, type, _, _⟩
    simp [parameterNamesMembers, ih]

theorem parameterNamesParams_eq (params : List Parameter) :
    parameterNamesParams params = (params.map Parameter.type).flatMap parameterNames := by
  induction params with
  | nil => rfl
  | cons param rest ih =>
    rcases param with ⟨_, type, _⟩
    simp [parameterNamesParams, ih]

/-- A parameter names itself, and any other type what its parts name. -/
theorem parameterNames_eq (type : TypeExpr) :
    (∃ own bound, type = .generic own bound ∧ type.parameterNames = [own]) ∨
      type.parameterNames = type.parts.flatMap parameterNames := by
  cases type with
  | generic own bound => exact .inl ⟨own, bound, rfl, rfl⟩
  | _ =>
    right
    simp [parameterNames, parts, parameterNamesAll_eq, parameterNamesMembers_eq,
      parameterNamesParams_eq]

theorem mem_parameterNames : name ∈ type.parameterNames ↔ type.Mentions name := by
  constructor
  · intro mem
    induction size_eq : type.size using Nat.strongRecOn generalizing type with
    | ind size ih =>
      rcases parameterNames_eq type with ⟨own, bound, rfl, names_eq⟩ | names_eq
      · rw [names_eq, List.mem_singleton] at mem
        subst mem
        exact .parameter bound
      · rw [names_eq, List.mem_flatMap] at mem
        rcases mem with ⟨part, part_mem, mem⟩
        apply Mentions.part part_mem
        exact ih part.size (size_eq ▸ size_lt_of_mem_parts part_mem) mem rfl
  · intro mentions
    induction mentions with
    | parameter bound => exact List.mem_cons_self
    | @part type part part_mem inner ih =>
      rcases parameterNames_eq type with ⟨own, bound, rfl, _⟩ | names_eq
      · cases part_mem
      · rw [names_eq, List.mem_flatMap]
        exact ⟨part, part_mem, ih⟩

theorem mem_argumentParameters :
    name ∈ type.argumentParameters ↔ ∃ argument ∈ type.arguments, argument.Mentions name := by
  simp only [argumentParameters, List.mem_eraseDups, parameterNamesAll_eq, List.mem_flatMap,
    mem_parameterNames]

end TypeExpr

/-! ## Layers of a chain -/

/-- The text of a type with a layer around it. -/
def WrapperLayer.around (layer : WrapperLayer) (text : String) : String :=
  layer.name ++ "<" ++ ", ".intercalate (text :: layer.params) ++ ">"

namespace Layer

theorem print_around (layer : Layer) (inner : TypeExpr) :
    (layer.around inner).print = layer.layer.around inner.print := by
  rw [around]
  split <;> simp [TypeExpr.print, TypeExpr.printAll_eq_map, TypeExpr.applied, Wrapper.layer,
    Wrapper.params, WrapperLayer.around]

theorem print_chain (layers : List Layer) (core : TypeExpr) :
    (chain layers core).print =
      ((layers.map Layer.toWrapper).map Wrapper.layer).foldr WrapperLayer.around core.print := by
  induction layers with
  | nil => rfl
  | cons layer rest ih =>
    rw [chain, List.foldr_cons, print_around]
    exact congrArg _ ih

end Layer

namespace Wrapper

/-- The wrappers that have a rule for members. -/
def memberNames : List String :=
  ["Partial", "Required", "Readonly", "Pick", "Omit"]

/-- The rule that each of them has. `Pick` and `Omit` read their keys off the first of their own
arguments. -/
inductive HasRule : Wrapper → MemberRule → Prop
  | makesOptional (args : List TypeExpr) : HasRule ⟨"Partial", args⟩ (.setOptional true)
  | makesRequired (args : List TypeExpr) : HasRule ⟨"Required", args⟩ (.setOptional false)
  | makesReadonly (args : List TypeExpr) : HasRule ⟨"Readonly", args⟩ .setReadonly
  | keeps (args : List TypeExpr) :
      HasRule ⟨"Pick", args⟩ (.pick ((args.head?.map TypeExpr.literalKeys).getD []))
  | drops (args : List TypeExpr) :
      HasRule ⟨"Omit", args⟩ (.omit ((args.head?.map TypeExpr.literalKeys).getD []))

theorem hasRule_of_rule? {wrapper : Wrapper} {rule : MemberRule}
    (found : wrapper.rule? = some rule) :
    wrapper.name ∈ memberNames ∧ HasRule wrapper rule := by
  rcases wrapper with ⟨name, args⟩
  unfold rule? at found
  dsimp only at found
  split at found <;> cases found <;> exact ⟨by simp [memberNames], by constructor⟩

theorem not_mem_memberNames_of_rule? {wrapper : Wrapper} (unruled : wrapper.rule? = none) :
    wrapper.name ∉ memberNames := by
  unfold rule? at unruled
  split at unruled <;> simp_all [memberNames]

theorem forall₂_hasRule (wrappers : List Wrapper) :
    List.Forall₂ HasRule (wrappers.filter fun wrapper => wrapper.name ∈ memberNames)
      (wrappers.filterMap rule?) := by
  induction wrappers with
  | nil => exact .nil
  | cons wrapper rest ih =>
    cases found : wrapper.rule? with
    | none =>
      rw [List.filterMap_cons_none found, List.filter_cons_of_neg]
      · exact ih
      · simpa using not_mem_memberNames_of_rule? found
    | some rule =>
      rcases hasRule_of_rule? found with ⟨mem, hasRule⟩
      rw [List.filterMap_cons_some found, List.filter_cons_of_pos (by simpa using mem)]
      exact .cons hasRule ih

end Wrapper

namespace TypeModel

/-- Unwinding a type keeps its chain, its text and the rules of its wrappers. -/
theorem unwinding_loses_nothing (model : TypeModel) (type : TypeExpr) :
    model.isWrapper (model.core type) = false ∧
      (∃ layers : List Layer, (∀ layer ∈ layers, layer.Recognized model) ∧
        type = Layer.chain layers (model.core type) ∧
        model.wrappers type = layers.map Layer.toWrapper) ∧
      ((model.wrappers type).map Wrapper.layer).foldr WrapperLayer.around (model.core type).print =
        type.print ∧
      (model.core type).argumentParameters.Nodup ∧
      (∀ name, name ∈ (model.core type).argumentParameters ↔
        ∃ argument ∈ (model.core type).arguments, argument.Mentions name) ∧
      List.Forall₂ Wrapper.HasRule
        ((model.wrappers type).filter fun wrapper => wrapper.name ∈ Wrapper.memberNames)
        (model.memberRules type).reverse := by
  have chain := exists_chain model type
  refine ⟨isWrapper_core model type, chain, ?_, nodup_eraseDups _, ?_, ?_⟩
  · rcases chain with ⟨layers, _, type_eq, wrappers_eq⟩
    rw [wrappers_eq, ← Layer.print_chain, ← type_eq]
  · intro name
    exact TypeExpr.mem_argumentParameters
  · rw [memberRules, List.reverse_reverse, rulesInward_eq]
    exact Wrapper.forall₂_hasRule _

end TypeModel

end Componentry
