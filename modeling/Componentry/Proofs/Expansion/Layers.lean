import Componentry.Proofs.Expansion.Shape
import Componentry.Proofs.Expansion.Target
import Componentry.Proofs.Resolution.Consistency

/-!
# What a chain of wrappers does to members

A chain of wrappers around an object type keeps some of its members and changes
their flags. What comes out of it is said here without the order in which the
wrappers are applied: a member is kept if every `Pick` names it and no `Omit`
does, the outermost `Partial` or `Required` decides whether it may be missing,
and one `Readonly` anywhere makes it read-only (`Wrapper.layered`).

The chain is taken apart twice, once for its core and once for its rules.
`Layer.chain` builds a chain from its layers, and both walks give back what it
was built from.
-/

namespace Componentry

/-! ## Chains as they are written -/

/-- One layer of a chain as it is written. -/
structure Layer extends Wrapper where
  /-- Whether the layer is a reference, and not a mapped type. -/
  reference : Bool := false

namespace Layer

/-- A type inside of a layer. -/
def around (layer : Layer) (inner : TypeExpr) : TypeExpr :=
  if layer.reference then .reference layer.name (inner :: layer.args)
  else .mapped layer.name (inner :: layer.args)

/-- The type with layers around it, the outermost first. -/
def chain (layers : List Layer) (core : TypeExpr) : TypeExpr :=
  layers.foldr around core

/-- Mapped types are wrappers whatever their name; a reference is one if it bears the name of a
standard wrapper and the model does not declare that name. -/
def Recognized (model : TypeModel) (layer : Layer) : Prop :=
  layer.reference = true → layer.name ∈ Wrapper.standardNames ∧ model.find? layer.name = none

variable {model : TypeModel} {layer : Layer} {layers : List Layer} {core : TypeExpr}

theorem Recognized.isWrapperName (recognized : layer.Recognized model)
    (reference : layer.reference = true) : model.isWrapperName layer.name = true := by
  rcases recognized reference with ⟨standard, undeclared⟩
  simp [TypeModel.isWrapperName, standard, undeclared]

theorem isWrapper_around (recognized : layer.Recognized model) (inner : TypeExpr) :
    model.isWrapper (layer.around inner) = true := by
  rw [around]
  split
  · rename_i reference
    exact recognized.isWrapperName reference
  · rfl

theorem wrappers_around (recognized : layer.Recognized model) (inner : TypeExpr) :
    model.wrappers (layer.around inner) = layer.toWrapper :: model.wrappers inner := by
  rw [around]
  split
  · rename_i reference
    rw [TypeModel.wrappers, if_pos (recognized.isWrapperName reference)]
  · rw [TypeModel.wrappers]

theorem core_around (recognized : layer.Recognized model) (inner : TypeExpr) :
    model.core (layer.around inner) = model.core inner := by
  rw [around]
  split
  · rename_i reference
    rw [TypeModel.core, if_pos (recognized.isWrapperName reference)]
  · rw [TypeModel.core]

end Layer

namespace TypeModel

variable {model : TypeModel} {type : TypeExpr}

/-- Every type is a chain around its core, of the layers that unwinding lists. -/
theorem exists_chain (model : TypeModel) (type : TypeExpr) :
    ∃ layers : List Layer, (∀ layer ∈ layers, layer.Recognized model) ∧
      type = Layer.chain layers (model.core type) ∧
      model.wrappers type = layers.map Layer.toWrapper := by
  fun_induction wrappers model type with
  | case1 name inner extra ih =>
    rcases ih with ⟨layers, recognized, type_eq, wrappers_eq⟩
    refine ⟨⟨⟨name, extra⟩, false⟩ :: layers, ?_, ?_, ?_⟩
    · exact List.forall_mem_cons.2 ⟨fun marked => absurd marked Bool.false_ne_true, recognized⟩
    · rw [core]
      exact congrArg (TypeExpr.mapped name <| · :: extra) type_eq
    · rw [wrappers_eq, List.map_cons]
  | case2 name inner extra wrapper ih =>
    rcases ih with ⟨layers, recognized, type_eq, wrappers_eq⟩
    refine ⟨⟨⟨name, extra⟩, true⟩ :: layers, ?_, ?_, ?_⟩
    · apply List.forall_mem_cons.2 ⟨fun _ => ?_, recognized⟩
      simpa [isWrapperName] using wrapper
    · rw [core, if_pos wrapper]
      exact congrArg (TypeExpr.reference name <| · :: extra) type_eq
    · rw [wrappers_eq, List.map_cons]
  | case3 name inner extra plain =>
    exact ⟨[], List.forall_mem_nil _, by rw [core, if_neg plain]; rfl, rfl⟩
  | case4 type not_mapped not_reference =>
    refine ⟨[], List.forall_mem_nil _, ?_, rfl⟩
    rw [core]
    · rfl
    · exact not_mapped
    · exact not_reference

theorem wrappers_of_not_isWrapper (bare : model.isWrapper type = false) :
    model.wrappers type = [] := by
  rcases exists_chain model type with ⟨layers, recognized, type_eq, wrappers_eq⟩
  cases layers with
  | nil => exact wrappers_eq
  | cons layer rest =>
    have wrapped : model.isWrapper (Layer.chain (layer :: rest) (model.core type)) = true :=
      Layer.isWrapper_around (recognized layer List.mem_cons_self) _
    rw [← type_eq, bare] at wrapped
    cases wrapped

theorem core_of_not_isWrapper (bare : model.isWrapper type = false) : model.core type = type := by
  rcases exists_chain model type with ⟨layers, _, type_eq, wrappers_eq⟩
  rw [wrappers_of_not_isWrapper bare, eq_comm, List.map_eq_nil_iff] at wrappers_eq
  subst wrappers_eq
  exact type_eq.symm

end TypeModel

namespace Layer

variable {model : TypeModel} {layers : List Layer} {core : TypeExpr}

/-- The wrappers of a chain are its layers. -/
theorem wrappers_chain (recognized : ∀ layer ∈ layers, layer.Recognized model)
    (bare : model.isWrapper core = false) :
    model.wrappers (chain layers core) = layers.map Layer.toWrapper := by
  induction layers with
  | nil => exact TypeModel.wrappers_of_not_isWrapper bare
  | cons layer rest ih =>
    rw [chain, List.foldr_cons, wrappers_around (recognized layer List.mem_cons_self),
      List.map_cons, ← ih fun other mem => recognized other (List.mem_cons_of_mem layer mem)]
    rfl

theorem core_chain (recognized : ∀ layer ∈ layers, layer.Recognized model)
    (bare : model.isWrapper core = false) : model.core (chain layers core) = core := by
  induction layers with
  | nil => exact TypeModel.core_of_not_isWrapper bare
  | cons layer rest ih =>
    rw [chain, List.foldr_cons, core_around (recognized layer List.mem_cons_self)]
    exact ih fun other mem => recognized other (List.mem_cons_of_mem layer mem)

end Layer

/-! ## Keys -/

/-- A type of string literals names a key. -/
inductive TypeExpr.NamesKey (key : String) : TypeExpr → Prop
  | literal : NamesKey key (.literal (.string key))
  | union {members : List TypeExpr} {member : TypeExpr} (mem : member ∈ members)
      (inner : NamesKey key member) : NamesKey key (.union members)

namespace TypeExpr

variable {key : String}

mutual

theorem mem_literalKeys (type : TypeExpr) : key ∈ type.literalKeys ↔ type.NamesKey key := by
  match type with
  | .literal (.string value) =>
    rw [literalKeys, List.mem_singleton]
    constructor
    · rintro rfl
      exact .literal
    · intro names
      cases names
      rfl
  | .union members =>
    rw [literalKeys, mem_literalKeysAll members]
    constructor
    · rintro ⟨member, mem, names⟩
      exact .union mem names
    · intro names
      cases names with
      | union mem inner => exact ⟨_, mem, inner⟩
  | .literal (.boolean _) | .literal (.number _) | .primitive _ | .array _ | .struct _ _ _
  | .reference _ _ | .intersection _ | .mapped _ _ | .generic _ _ | .function _ _
  | .conditional _ _ | .any | .unknown | .null =>
    rw [literalKeys]
    · constructor
      · exact fun mem => absurd mem List.not_mem_nil
      · intro names
        cases names
    all_goals exact nofun

theorem mem_literalKeysAll (types : List TypeExpr) :
    key ∈ literalKeysAll types ↔ ∃ type ∈ types, type.NamesKey key := by
  match types with
  | [] => simp [literalKeysAll]
  | type :: rest =>
    rw [literalKeysAll, List.mem_append, mem_literalKeys type, mem_literalKeysAll rest]
    simp

end

end TypeExpr

/-! ## What a wrapper asks of members -/

namespace Wrapper

/-- The keys of a `Pick` or an `Omit`, which stand after the wrapped type, name a member. -/
def Selects (wrapper : Wrapper) (key : String) : Prop :=
  ∃ keys, wrapper.args.head? = some keys ∧ keys.NamesKey key

/-- A member of this name is kept by a wrapper. -/
def Admits (wrapper : Wrapper) (key : String) : Prop :=
  (wrapper.name = "Pick" → wrapper.Selects key) ∧ (wrapper.name = "Omit" → ¬wrapper.Selects key)

/-- Whether a wrapper says if members may be missing. -/
def setsOptional (wrapper : Wrapper) : Bool :=
  wrapper.name == "Partial" || wrapper.name == "Required"

/-- A member with the flags that a chain of wrappers gives it, the outermost first. -/
def layered (wrappers : List Wrapper) (member : Member) : Member :=
  { member with
    optional := ((wrappers.find? setsOptional).map (·.name == "Partial")).getD member.optional
    readonly := member.readonly || wrappers.any (·.name == "Readonly") }

theorem mem_keys_iff (wrapper : Wrapper) (key : String) :
    key ∈ (wrapper.args.head?.map TypeExpr.literalKeys).getD [] ↔ wrapper.Selects key := by
  cases head : wrapper.args.head? with
  | none => simp [Selects, head]
  | some keys => simp [Selects, head, TypeExpr.mem_literalKeys]

instance (wrapper : Wrapper) (key : String) : Decidable (wrapper.Selects key) :=
  decidable_of_iff _ (wrapper.mem_keys_iff key)

instance (wrapper : Wrapper) (key : String) : Decidable (wrapper.Admits key) :=
  inferInstanceAs (Decidable (_ ∧ _))

/-- One wrapper leaves a member out or changes its flags. -/
theorem applyAll_rule?_eq_some_iff (wrapper : Wrapper) (member changed : Member) :
    MemberRule.applyAll wrapper.rule?.toList member = some changed ↔
      wrapper.Admits member.name ∧ layered [wrapper] member = changed := by
  have keys := wrapper.mem_keys_iff member.name
  rcases member with ⟨key, type, optional, readonly⟩
  unfold rule?
  split
  · rename_i named
    simp [MemberRule.applyAll, MemberRule.apply, Admits, layered, setsOptional, named]
  · rename_i named
    simp [MemberRule.applyAll, MemberRule.apply, Admits, layered, setsOptional, named]
  · rename_i named
    simp [MemberRule.applyAll, MemberRule.apply, Admits, layered, setsOptional, named]
  · rename_i named
    simp [MemberRule.applyAll, MemberRule.apply, Admits, layered, setsOptional, named, keys]
  · rename_i named
    simp [MemberRule.applyAll, MemberRule.apply, Admits, layered, setsOptional, named, keys]
  · rename_i not_partial not_required not_readonly not_pick not_omit
    rw [imp_false] at not_partial not_required not_readonly not_pick not_omit
    have settable : (wrapper.name == "Readonly") = false := by simpa using not_readonly
    simp [MemberRule.applyAll, Admits, layered, setsOptional, not_partial, not_required, settable,
      not_pick, not_omit]

theorem layered_cons (wrapper : Wrapper) (rest : List Wrapper) (member : Member) :
    layered (wrapper :: rest) member = layered [wrapper] (layered rest member) := by
  cases sets : wrapper.setsOptional with
  | false | true => simp [layered, sets, Bool.or_comm, Bool.or_left_comm]

end Wrapper

theorem MemberRule.applyAll_append (first second : List MemberRule) (member : Member) :
    applyAll (first ++ second) member = (applyAll first member).bind (applyAll second) := by
  rw [applyAll, List.foldlM_append]
  rfl

namespace Wrapper

/-- The rules of a chain act from the inside out, and yet the outermost `Partial` or `Required`
decides: it acts last. -/
theorem applyAll_eq_some_iff (wrappers : List Wrapper) (member changed : Member) :
    MemberRule.applyAll (wrappers.reverse.filterMap rule?) member = some changed ↔
      (∀ wrapper ∈ wrappers, wrapper.Admits member.name) ∧ layered wrappers member = changed := by
  induction wrappers generalizing changed with
  | nil =>
    rcases member with ⟨key, type, optional, readonly⟩
    simp [MemberRule.applyAll, layered]
  | cons wrapper rest ih =>
    have outermost : [wrapper].filterMap rule? = wrapper.rule?.toList := by
      cases rule : wrapper.rule? <;> simp [rule]
    rw [List.reverse_cons, List.filterMap_append, MemberRule.applyAll_append, outermost,
      Option.bind_eq_some_iff, layered_cons]
    constructor
    · rintro ⟨middle, inner, outer⟩
      rcases (ih middle).1 inner with ⟨admitted, rfl⟩
      rcases (wrapper.applyAll_rule?_eq_some_iff _ _).1 outer with ⟨here, rfl⟩
      exact ⟨List.forall_mem_cons.2 ⟨here, admitted⟩, rfl⟩
    · rintro ⟨admitted, rfl⟩
      rcases List.forall_mem_cons.1 admitted with ⟨here, below⟩
      exact ⟨layered rest member, (ih _).2 ⟨below, rfl⟩,
        (wrapper.applyAll_rule?_eq_some_iff _ _).2 ⟨here, rfl⟩⟩

theorem adjustMembers_eq (wrappers : List Wrapper) (members : List Member) :
    adjustMembers (wrappers.reverse.filterMap rule?) members =
      (members.filter fun member => ∀ wrapper ∈ wrappers, wrapper.Admits member.name).map
        (layered wrappers) := by
  induction members with
  | nil => rfl
  | cons member rest ih =>
    rw [adjustMembers] at ih ⊢
    by_cases admitted : ∀ wrapper ∈ wrappers, wrapper.Admits member.name
    · have kept := (applyAll_eq_some_iff wrappers member _).2 ⟨admitted, rfl⟩
      rw [List.filterMap_cons_some kept, List.filter_cons_of_pos (by simpa using admitted),
        List.map_cons, ih]
    · have left_out :
          MemberRule.applyAll (wrappers.reverse.filterMap rule?) member = none := by
        rw [Option.eq_none_iff_forall_ne_some]
        intro changed applied
        exact admitted ((applyAll_eq_some_iff wrappers member changed).1 applied).1
      rw [List.filterMap_cons_none left_out,
        List.filter_cons_of_neg (by simpa using admitted), ih]

end Wrapper

/-! ## Chains around object types -/

/-- An object type with its members: one that is written out, or a declared interface or class. -/
inductive Scope.Bears (scope : Scope) : TypeExpr → List Member → Prop
  | struct {name : Option String} {typeArgs : List TypeExpr} {members : List Member}
      (own : name.any scope.isWellKnown = false) :
      Bears scope (.struct name typeArgs members) members
  | declared {name : String} {args : List TypeExpr} {declaration : Declaration}
      {bodyName : Option String} {bodyArgs : List TypeExpr} {members : List Member}
      (own : scope.isWellKnown name = false) (found : scope.model.find? name = some declaration)
      (kind : declaration.kind = .interface ∨ declaration.kind = .classType)
      (body : declaration.body = .struct bodyName bodyArgs members) :
      Bears scope (.reference name args) members

namespace Scope

variable {scope : Scope} {core : TypeExpr} {members : List Member} {layers : List Layer}

theorem Bears.not_isWrapper (bears : scope.Bears core members) :
    scope.model.isWrapper core = false := by
  cases bears with
  | struct own => rfl
  | declared own found kind body => exact isWrapper_of_find? found _

theorem Bears.members_eq (bears : scope.Bears core members) :
    scope.model.members core = some members := by
  cases bears with
  | struct own => rfl
  | declared own found kind body =>
    simp [TypeModel.members, TypeModel.memberSteps, TypeModel.membersWithin, found, body]

/-- The search ends at an object type. -/
theorem Bears.exists_target (bears : scope.Bears core members) :
    ∃ name, ∀ steps array,
      scope.targetWithin (steps + 1) array core = some ⟨core, name, array⟩ := by
  have bare := bears.not_isWrapper
  cases bears with
  | @struct name typeArgs members own =>
    exact ⟨name, fun steps array => by simp [targetWithin, bare, own]⟩
  | @declared name args declaration bodyName bodyArgs members own found kind body =>
    refine ⟨some declaration.name, fun steps array => ?_⟩
    rcases kind with kind | kind
    · simp [targetWithin, bare, own, found, kind]
    · simp [targetWithin, bare, own, found, kind]

theorem target?_chain (bears : scope.Bears core members)
    (recognized : ∀ layer ∈ layers, layer.Recognized scope.model) :
    ∃ name, scope.target? (Layer.chain layers core) =
      some ⟨Layer.chain layers core, name, false⟩ := by
  rcases bears.exists_target with ⟨name, found⟩
  refine ⟨name, ?_⟩
  cases layers with
  | nil => exact found 32 false
  | cons layer rest =>
    have wrapped : scope.model.isWrapper (Layer.chain (layer :: rest) core) = true :=
      Layer.isWrapper_around (recognized layer List.mem_cons_self) _
    rw [target?, targetSteps, targetWithin_of_isWrapper wrapped,
      Layer.core_chain recognized bears.not_isWrapper, found 31 false]
    rfl

theorem targetMembers_chain (bears : scope.Bears core members)
    (recognized : ∀ layer ∈ layers, layer.Recognized scope.model) (name : Option String)
    (array : Bool) : scope.targetMembers ⟨Layer.chain layers core, name, array⟩ = some members := by
  rw [targetMembers, Layer.core_chain recognized bears.not_isWrapper, bears.members_eq]

theorem membersOf_chain (bears : scope.Bears core members)
    (recognized : ∀ layer ∈ layers, layer.Recognized scope.model) :
    scope.membersOf (Layer.chain layers core) =
      (members.filter fun member =>
        ∀ wrapper ∈ layers.map Layer.toWrapper, wrapper.Admits member.name).map
          (Wrapper.layered (layers.map Layer.toWrapper)) := by
  rcases target?_chain bears recognized with ⟨name, found⟩
  have listed := targetMembers_chain bears recognized name false
  rw [membersOf_eq found listed, adjustedMembers, TypeModel.memberRules_eq,
    Layer.wrappers_chain recognized bears.not_isWrapper, Wrapper.adjustMembers_eq]

/-! ## Flags of members -/

/-- A property has the flags that its member is declared with. -/
theorem flags_of_expandMember {path : PropertyPath} {member : Member} {node : ResolvedProperty}
    (ok : (scope.expandMember path member).outcome = .ok (some node)) :
    node.optional = member.optional ∧ node.readOnly = member.readonly := by
  rcases becomes_of_expandMember ok with ⟨signature, resolved, becomes⟩
  -- Only values that are returned can be missing by their type alone.
  have stated : signature.optionalViaUnion = false := by
    cases optional : signature.optionalViaUnion with
    | false => rfl
    | true => cases (resolves_of_outcome resolved).consistent.optional optional
  have flags : (ResolvedProperty.ofMember member signature).optional = member.optional := by
    simp [ResolvedProperty.ofMember, stated]
  cases becomes with
  | untargeted _ _ | circular _ _ _ | unlisted _ _ _ _ => exact ⟨flags, rfl⟩
  | entered _ _ _ _ _ =>
    unfold ResolvedProperty.withMembers
    split <;> exact ⟨flags, rfl⟩

/-- The name of a member with its flags. -/
def flagged (member : Member) : String × Bool × Bool :=
  (member.name, member.optional, member.readonly)

/-- The name of a property with its flags. -/
def flaggedEntry (entry : String × ResolvedProperty) : String × Bool × Bool :=
  (entry.1, entry.2.optional, entry.2.readOnly)

theorem flags_of_expandMembers {path : PropertyPath} {members : List Member}
    {done block : PropertyList} (distinct : (members.map Member.name).Nodup)
    (apart : ∀ member ∈ members, member.name ∉ done.map Prod.fst)
    (ok : (scope.expandMembers path members done).outcome = .ok block) :
    block.map flaggedEntry =
      done.map flaggedEntry ++ (members.filter (!scope.isMethod ·)).map flagged := by
  induction members generalizing done with
  | nil => simp [eq_of_expandMembers_nil ok]
  | cons member rest ih =>
    rw [List.map_cons, List.nodup_cons] at distinct
    rw [List.forall_mem_cons] at apart
    rcases step_of_expandMembers_cons ok with ⟨method, ok⟩ | ⟨property, kept, member_ok, ok⟩
    · simpa [method] using ih distinct.2 apart.2 ok
    · have still_apart : ∀ other ∈ rest,
          other.name ∉ (upsert member.name property done).map Prod.fst := by
        intro other mem
        rw [upsert_of_not_mem _ _ _ apart.1, List.map_append, List.mem_append, not_or]
        refine ⟨apart.2 other mem, ?_⟩
        intro put
        have same : other.name = member.name := by simpa using put
        exact distinct.1 (same ▸ List.mem_map_of_mem mem)
      rcases flags_of_expandMember member_ok with ⟨optional, readOnly⟩
      rw [ih distinct.2 still_apart ok, upsert_of_not_mem _ _ _ apart.1]
      simp [kept, flagged, flaggedEntry, optional, readOnly]

/-- The members of a core that are shown through wrappers, with the flags that they have there. -/
def shownThrough (scope : Scope) (wrappers : List Wrapper) (members : List Member) : List Member :=
  (members.filter fun member =>
    !scope.isMethod member && decide (∀ wrapper ∈ wrappers, wrapper.Admits member.name)).map
      (Wrapper.layered wrappers)

theorem flags_of_chain {path : PropertyPath} {block : PropertyList}
    (bears : scope.Bears core members) (recognized : ∀ layer ∈ layers, layer.Recognized scope.model)
    (distinct : (members.map Member.name).Nodup)
    (ok : (scope.expandMembers path (scope.membersOf (Layer.chain layers core)) []).outcome =
      .ok block) :
    block.map flaggedEntry =
      (scope.shownThrough (layers.map Layer.toWrapper) members).map flagged := by
  have members_eq := membersOf_chain bears recognized
  have still_distinct : ((scope.membersOf (Layer.chain layers core)).map Member.name).Nodup := by
    rw [members_eq, List.map_map]
    exact distinct.sublist (List.filter_sublist.map Member.name)
  rw [flags_of_expandMembers still_distinct (by simp) ok, members_eq, shownThrough,
    List.filter_map, List.filter_filter]
  rfl

theorem nonEmpty?_getD (properties : PropertyList) :
    (nonEmpty? properties).getD [] = properties := by
  cases properties with
  | nil => rfl
  | cons entry rest => rfl

/-- A chain of wrappers shows the members of its core that every `Pick` names and no `Omit` does,
in their order. The outermost `Partial` or `Required` decides whether they may be missing, and one
`Readonly` makes them read-only. This holds of the type of a property and of the type of a member
at any place below it. -/
theorem chain_shows_members (scope : Scope) {layers : List Layer} {core : TypeExpr}
    {members : List Member} (bears : scope.Bears core members)
    (recognized : ∀ layer ∈ layers, layer.Recognized scope.model)
    (distinct : (members.map Member.name).Nodup) :
    (∀ name expansion, (scope.expand name (Layer.chain layers core)).outcome = .ok expansion →
      expansion.itemProperties = none ∧
        (expansion.properties.getD []).map flaggedEntry =
          (scope.shownThrough (layers.map Layer.toWrapper) members).map flagged) ∧
      ∀ path member node, member.type = Layer.chain layers core →
        (scope.expandMember path member).outcome = .ok (some node) → node.circular = false →
          node.itemProperties = none ∧
            (node.properties.getD []).map flaggedEntry =
              (scope.shownThrough (layers.map Layer.toWrapper) members).map flagged := by
  rcases target?_chain bears recognized with ⟨targetName, found⟩
  have listed := targetMembers_chain bears recognized targetName false
  constructor
  · intro name expansion ok
    rw [expand, found] at ok
    simp only [listed, Attempt.outcome_bind_eq_ok] at ok
    rcases ok with ⟨block, expanded, ok⟩
    rw [← membersOf_eq found listed] at expanded
    simp only [Bool.false_eq_true, if_false, Attempt.outcome_pure] at ok
    cases ok
    refine ⟨rfl, ?_⟩
    rw [nonEmpty?_getD]
    exact flags_of_chain bears recognized distinct expanded
  · intro path member node typed ok apart
    rw [← typed] at found listed
    rcases becomes_of_expandMember ok with ⟨signature, _, becomes⟩
    cases becomes with
    | untargeted _ untargeted => simp [untargeted] at found
    | circular _ _ _ => cases apart
    | unlisted _ other_found _ unlisted =>
      rw [found] at other_found
      cases other_found
      simp [listed] at unlisted
    | entered _ other_found _ _ expanded =>
      rw [found] at other_found
      cases other_found
      rw [typed] at expanded
      refine ⟨rfl, ?_⟩
      rw [Bool.false_and, ResolvedProperty.withMembers, if_neg Bool.false_ne_true, nonEmpty?_getD]
      exact flags_of_chain bears recognized distinct expanded

/-- The members of a form field, one of them a method. -/
def fieldMembers : List Member :=
  [⟨"label", .string, false, false⟩, ⟨"focus", .function [] .any, false, false⟩,
    ⟨"width", .number, true, false⟩, ⟨"secret", .string, true, false⟩]

def fields : Scope where
  model := .ofList [.ofInterface "Field" fieldMembers]

/-- `Readonly<Required<Brand<Pick<Partial<Field>, "label" | "width" | "focus">>>>`, where `Brand`
is a mapped type and `Required` a reference. -/
def fieldLayers : List Layer :=
  [⟨⟨"Readonly", []⟩, false⟩, ⟨⟨"Required", []⟩, true⟩, ⟨⟨"Brand", []⟩, false⟩,
    ⟨⟨"Pick", [.union [.literal (.string "label"), .literal (.string "width"),
      .literal (.string "focus")]]⟩, false⟩, ⟨⟨"Partial", []⟩, false⟩]

theorem recognized_fieldLayers : ∀ layer ∈ fieldLayers, layer.Recognized fields.model := by
  intro layer mem reference
  simp only [fieldLayers, List.mem_cons, List.not_mem_nil, or_false] at mem
  rcases mem with rfl | rfl | rfl | rfl | rfl
  · cases reference
  · exact ⟨by decide, by decide⟩
  · cases reference
  · cases reference
  · cases reference

def fieldTree : Expansion where
  properties := some [
    ("label", { signature := .simple "string", declared := "string", readOnly := true }),
    ("width", { signature := .simple "number", declared := "number", readOnly := true })]

theorem chain_shows_members_field :
    fields.Bears (.named "Field") fieldMembers ∧ (fieldMembers.map Member.name).Nodup ∧
      (fields.expand "input" (Layer.chain fieldLayers (.named "Field"))).outcome =
        .ok fieldTree ∧
      [("label", false, true), ("width", false, true)] =
        (fields.shownThrough (fieldLayers.map Layer.toWrapper) fieldMembers).map flagged := by
  have bears : fields.Bears (.named "Field") fieldMembers :=
    .declared (by decide) rfl (.inl rfl) rfl
  have distinct : (fieldMembers.map Member.name).Nodup := by decide
  have ok : (fields.expand "input" (Layer.chain fieldLayers (.named "Field"))).outcome =
      .ok fieldTree := by cbv
  have law := chain_shows_members fields bears recognized_fieldLayers distinct
  exact ⟨bears, distinct, ok, (law.1 "input" fieldTree ok).2⟩

/-- A reference with an unknown name is no layer: nothing is shown through it. -/
theorem unknown_reference_shows_nothing :
    (fields.expand "input" (Layer.chain [⟨⟨"Brand", []⟩, true⟩] (.named "Field"))).outcome =
        .ok {} ∧
      (fields.shownThrough [⟨"Brand", []⟩] fieldMembers).map flagged =
        [("label", false, false), ("width", true, false), ("secret", true, false)] := by
  constructor
  · rfl
  · cbv

end Scope

end Componentry
