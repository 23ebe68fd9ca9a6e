import Componentry.WrapperChain

/-!
# What wrappers do to members

`Partial` and `Required` change whether a member may be missing, `Readonly` whether it can be set,
`Pick` and `Omit` select members by name. The wrappers of a chain act from the inside out.
-/

namespace Componentry

namespace TypeExpr

mutual

/-- The keys that a type of string literals names. -/
def literalKeys : TypeExpr → List String
  | .literal (.string key) => [key]
  | .union members => literalKeysAll members
  | _ => []

def literalKeysAll : List TypeExpr → List String
  | [] => []
  | type :: rest => type.literalKeys ++ literalKeysAll rest

end

end TypeExpr

/-- The change of a member by a wrapper. -/
inductive MemberRule where
  | setOptional (optional : Bool)
  | setReadonly
  | pick (keys : List String)
  | omit (keys : List String)
deriving DecidableEq, Repr

namespace Wrapper

/-- The rule of a wrapper; other wrappers leave members as they are. -/
def rule? (wrapper : Wrapper) : Option MemberRule :=
  let keys := (wrapper.args.head?.map TypeExpr.literalKeys).getD []
  match wrapper.name with
  | "Partial" => some (.setOptional true)
  | "Required" => some (.setOptional false)
  | "Readonly" => some .setReadonly
  | "Pick" => some (.pick keys)
  | "Omit" => some (.omit keys)
  | _ => none

end Wrapper

namespace MemberRule

/-- Changes a member, or leaves it out. -/
def apply (rule : MemberRule) (member : Member) : Option Member :=
  match rule with
  | .setOptional optional => some { member with optional }
  | .setReadonly => some { member with readonly := true }
  | .pick keys => if keys.contains member.name then some member else none
  | .omit keys => if keys.contains member.name then none else some member

/-- Applies rules one after the other. -/
def applyAll (rules : List MemberRule) (member : Member) : Option Member :=
  rules.foldlM (fun member rule => rule.apply member) member

theorem type_apply {rule : MemberRule} {member changed : Member}
    (applied : rule.apply member = some changed) : changed.type = member.type := by
  unfold apply at applied
  split at applied
  · cases applied
    rfl
  · cases applied
    rfl
  · split at applied
    · cases applied
      rfl
    · cases applied
  · split at applied
    · cases applied
    · cases applied
      rfl

theorem type_applyAll {rules : List MemberRule} {member changed : Member}
    (applied : applyAll rules member = some changed) : changed.type = member.type := by
  induction rules generalizing member with
  | nil =>
    simp only [applyAll, List.foldlM_nil, Option.pure_def, Option.some.injEq] at applied
    rw [applied]
  | cons rule rest ih =>
    simp only [applyAll, List.foldlM_cons, Option.bind_eq_bind, Option.bind_eq_some_iff] at applied
    obtain ⟨middle, first, later⟩ := applied
    rw [ih later, type_apply first]

end MemberRule

namespace TypeModel

/-- The rules that are met on the way from a type to its core. -/
def rulesInward (model : TypeModel) : TypeExpr → List MemberRule
  | .mapped name (inner :: extra) =>
    (Wrapper.rule? ⟨name, extra⟩).toList ++ model.rulesInward inner
  | .reference name (inner :: extra) =>
    if model.isWrapperName name then
      (Wrapper.rule? ⟨name, extra⟩).toList ++ model.rulesInward inner
    else []
  | _ => []
termination_by structural type => type

/-- The rules of the wrappers around a type, the innermost first. -/
def memberRules (model : TypeModel) (type : TypeExpr) : List MemberRule :=
  (model.rulesInward type).reverse

/-- The rules are those of the wrappers: both walks take the same steps and stop alike. -/
theorem rulesInward_eq (model : TypeModel) (type : TypeExpr) :
    model.rulesInward type = (model.wrappers type).filterMap Wrapper.rule? := by
  have step (wrapper : Wrapper) (rest : List Wrapper) :
      (wrapper :: rest).filterMap Wrapper.rule? =
        wrapper.rule?.toList ++ rest.filterMap Wrapper.rule? := by
    cases rule : wrapper.rule? <;> simp [rule]
  fun_induction rulesInward model type with
  | case1 name inner extra ih => rw [wrappers, step, ih]
  | case2 name inner extra wrapper ih => rw [wrappers, if_pos wrapper, step, ih]
  | case3 name inner extra plain => rw [wrappers, if_neg plain, List.filterMap_nil]
  | case4 type not_mapped not_reference =>
    rw [wrappers, List.filterMap_nil]
    · exact not_mapped
    · exact not_reference

theorem memberRules_eq (model : TypeModel) (type : TypeExpr) :
    model.memberRules type = (model.wrappers type).reverse.filterMap Wrapper.rule? := by
  rw [memberRules, rulesInward_eq, List.filterMap_reverse]

end TypeModel

/-- The members that are left and how the rules change them. -/
def adjustMembers (rules : List MemberRule) (members : List Member) : List Member :=
  members.filterMap (MemberRule.applyAll rules)

theorem sizeMembers_adjustMembers_le (rules : List MemberRule) (members : List Member) :
    TypeExpr.sizeMembers (adjustMembers rules members) ≤ TypeExpr.sizeMembers members := by
  induction members with
  | nil => simp [adjustMembers, TypeExpr.sizeMembers]
  | cons member rest ih =>
    rw [adjustMembers, List.filterMap_cons]
    obtain ⟨name, type, optional, readonly⟩ := member
    split
    · have : TypeExpr.sizeMembers (adjustMembers rules rest) ≤ _ := ih
      simp only [adjustMembers] at this
      simp only [TypeExpr.sizeMembers]
      omega
    · rename_i changed applied
      have same := MemberRule.type_applyAll applied
      obtain ⟨_, changed_type, _, _⟩ := changed
      simp only at same
      subst same
      simp only [adjustMembers] at ih
      simp only [TypeExpr.sizeMembers]
      omega

end Componentry
