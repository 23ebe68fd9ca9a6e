import Componentry.Proofs.Attempt.Composition
import Componentry.Proofs.Expansion.Agreement
import Componentry.Proofs.Expansion.Termination
import Componentry.Proofs.Resolution.Consistency

/-!
# Members that an expansion visits

An expansion resolves the types of the members that it visits. Those are the members of the type's
target that are not written as functions, and likewise the members of every target that is entered
from there. A member that turns out to be a function is not entered, but then its type has no
target either (`display_ne_function`).

Expansion does nothing else that can fail or be noted, so whatever composes and is known of
resolution is known of expansions: it comes from the types of the visited members.
-/

namespace Componentry

namespace Scope

variable {scope : Scope}

/-- The members whose types an expansion resolves. -/
inductive Visits (scope : Scope) : PropertyPath × List Member → Member → Prop
  | own {path : PropertyPath} {members : List Member} {member : Member} (mem : member ∈ members)
      (plain : member.type.isFunction = false) : Visits scope (path, members) member
  | entered {outer inner : PropertyPath × List Member} {member : Member}
      (entry : scope.Enters inner outer) (visit : Visits scope inner member) :
      Visits scope outer member

variable {path : PropertyPath} {members : List Member}

theorem enters_iff {inner : PropertyPath × List Member} :
    scope.Enters inner (path, members) ↔
      ∃ member ∈ members, member.type.isFunction = false ∧ scope.Enters inner (path, [member]) := by
  constructor
  · intro entry
    cases entry with
    | @target _ _ _ member target mem found fresh listed =>
      refine ⟨member, mem, ?_, .target List.mem_cons_self found fresh listed⟩
      cases type : member.type with
      | function params returns =>
        rw [type] at found
        cases found
      | _ => rfl
  · rintro ⟨member, mem, _, entry⟩
    cases entry with
    | target single found fresh listed =>
      cases List.mem_singleton.1 single
      exact .target mem found fresh listed

theorem Enters.of_member {member : Member} {inner : PropertyPath × List Member}
    (entry : scope.Enters inner (path, [member])) :
    ∃ target members, scope.target? member.type = some target ∧
      ¬target.name.any path.hasSeen = true ∧ scope.targetMembers target = some members ∧
      inner = ((path.child member.name).enter target.name target.array,
        scope.adjustedMembers target members) := by
  cases entry with
  | target mem found fresh listed =>
    cases List.mem_singleton.1 mem
    exact ⟨_, _, found, fresh, listed, rfl⟩

theorem visits_iff {visited : Member} :
    scope.Visits (path, members) visited ↔
      ∃ member ∈ members, member.type.isFunction = false ∧
        (visited = member ∨
          ∃ inner, scope.Enters inner (path, [member]) ∧ scope.Visits inner visited) := by
  constructor
  · intro visit
    cases visit with
    | own mem plain => exact ⟨visited, mem, plain, .inl rfl⟩
    | entered entry visit =>
      rcases enters_iff.1 entry with ⟨member, mem, plain, entry⟩
      exact ⟨member, mem, plain, .inr ⟨_, entry, visit⟩⟩
  · rintro ⟨member, mem, plain, rfl | ⟨inner, entry, visit⟩⟩
    · exact .own mem plain
    · exact .entered (enters_iff.2 ⟨member, mem, plain, entry⟩) visit

/-- What has a target is no function. -/
theorem display_ne_function {context : Context} {type : TypeExpr} {target : ExpansionTarget}
    {signature : Signature} (found : scope.target? type = some target)
    (resolved : (scope.resolve context type).outcome = .ok signature) :
    signature.display ≠ "Function" := by
  rcases outcome_of_target? found context with ⟨other, other_resolved, object, array⟩
  cases resolved.symm.trans other_resolved
  have resolves := resolves_of_outcome resolved
  intro function
  cases kind : target.array with
  | false =>
    rw [kind] at object
    have head := resolves.head_display object
    simp [function] at head
  | true =>
    rw [kind] at array
    rcases resolves.consistent.array array with ⟨rest, shown⟩
    rw [function] at shown
    have chars := congrArg String.toList shown
    simp at chars

/-- The expansion of a type starts with the members of its target. -/
inductive Expands (scope : Scope) (name : String) (type : TypeExpr) :
    PropertyPath × List Member → Prop
  | target {target : ExpansionTarget} {members : List Member}
      (found : scope.target? type = some target)
      (listed : scope.targetMembers target = some members) :
      Expands scope name type ((PropertyPath.root name).enter target.name target.array,
        scope.adjustedMembers target members)

/-- What attempts have is traced to the types whose resolution has it. -/
structure Traces (scope : Scope) {ι : Type} (Has : {α : Type} → Attempt α → (ι → Prop) → Prop)
    (Part : Position → TypeExpr → ι → Prop) : Prop extends Attempt.Composes Has where
  resolve (context : Context) (type : TypeExpr) :
    Has (scope.resolve context type) (Part context.position type)
  raise {notices : List Notice} (untyped : ∀ notice ∈ notices, notice.category? = none) :
    Has (Attempt.raise notices) fun _ => False
  generic (position : Position) (name : String) (constraint : Option TypeExpr) (thing : ι) :
    ¬Part position (.generic name constraint) thing
  any (position : Position) (thing : ι) : ¬Part position .any thing

/-- What comes from the types of the members that an expansion visits. -/
def AtMember {ι : Type} (scope : Scope) (Part : TypeExpr → ι → Prop)
    (entry : PropertyPath × List Member) (thing : ι) : Prop :=
  ∃ member, scope.Visits entry member ∧ Part member.type thing

namespace Traces

variable {ι : Type} {Has : {α : Type} → Attempt α → (ι → Prop) → Prop}
  {Part : Position → TypeExpr → ι → Prop}

theorem expandMember (traces : scope.Traces Has Part) {member : Member}
    (within : ∀ inner, scope.Enters inner (path, [member]) →
      Has (scope.expandMembers inner.1 inner.2 []) (scope.AtMember (Part .property) inner)) :
    Has (scope.expandMember path member) fun thing =>
      Part .property member.type thing ∨
        ∃ inner, scope.Enters inner (path, [member]) ∧
          scope.AtMember (Part .property) inner thing := by
  have stays {shown : Option ResolvedProperty}
      (none_entered : ∀ inner, ¬scope.Enters inner (path, [member])) :
      Has (pure shown : Attempt (Option ResolvedProperty)) fun thing =>
        ∃ inner, scope.Enters inner (path, [member]) ∧
          scope.AtMember (Part .property) inner thing :=
    traces.ok_of_not fun thing => by simp [none_entered]
  rw [Scope.expandMember]
  apply traces.bind (traces.resolve _ member.type)
  intro signature resolved
  split
  · rename_i function
    apply stays
    intro inner entry
    rcases entry.of_member with ⟨target, members, found, _⟩
    exact display_ne_function found resolved (by simpa using function)
  · dsimp only
    split
    · rename_i untargeted
      apply stays
      intro inner entry
      rcases entry.of_member with ⟨target, members, found, _⟩
      cases untargeted.symm.trans found
    · rename_i target found
      split
      · rename_i seen
        apply stays
        intro inner entry
        rcases entry.of_member with ⟨other, members, other_found, fresh, _⟩
        cases found.symm.trans other_found
        exact fresh seen
      · rename_i fresh
        split
        · rename_i unlisted
          apply stays
          intro inner entry
          rcases entry.of_member with ⟨other, members, other_found, _, listed, _⟩
          cases found.symm.trans other_found
          cases unlisted.symm.trans listed
        · rename_i members listed
          have entered : scope.Enters _ (path, [member]) :=
            .target (List.mem_singleton_self member) found fresh listed
          apply traces.congr (traces.before (within _ entered) fun properties _ => traces.ok _)
          intro thing
          constructor
          · intro part
            exact ⟨_, entered, part⟩
          · rintro ⟨inner, entry, part⟩
            rcases entry.of_member with ⟨other, others, other_found, _, other_listed, rfl⟩
            cases found.symm.trans other_found
            cases listed.symm.trans other_listed
            exact part

theorem expandMembers_each (traces : scope.Traces Has Part) {Each : Member → ι → Prop}
    (each : ∀ member ∈ members, member.type.isFunction = false →
      Has (scope.expandMember path member) (Each member)) (done : PropertyList) :
    Has (scope.expandMembers path members done) fun thing =>
      ∃ member ∈ members, member.type.isFunction = false ∧ Each member thing := by
  induction members generalizing done with
  | nil =>
    rw [expandMembers]
    exact traces.ok_of_not fun thing => by simp
  | cons member rest ih =>
    have others := ih fun other mem => each other (List.mem_cons_of_mem member mem)
    rw [expandMembers]
    split
    · rename_i function
      exact traces.congr (others done) fun thing => by simp [function]
    · rename_i plain
      rw [Bool.not_eq_true] at plain
      apply traces.congr
      · apply traces.bind (each member List.mem_cons_self plain)
        rintro (_ | property) _
        · exact others done
        · exact others _
      · intro thing
        simp [plain]

/-- An expansion has what the types of the visited members have. -/
theorem expandMembers (traces : scope.Traces Has Part) (path : PropertyPath)
    (members : List Member) (done : PropertyList) :
    Has (scope.expandMembers path members done)
      (scope.AtMember (Part .property) (path, members)) := by
  induction path, members using scope.entries_induction generalizing done with
  | step path members ih =>
    have each : ∀ member ∈ members, member.type.isFunction = false →
        Has (scope.expandMember path member) fun thing =>
          Part .property member.type thing ∨
            ∃ inner, scope.Enters inner (path, [member]) ∧
              scope.AtMember (Part .property) inner thing := by
      intro member mem plain
      apply traces.expandMember
      intro inner entry
      have nested := enters_iff.2 ⟨member, mem, plain, entry⟩
      exact ih _ _ nested []
    apply traces.congr (traces.expandMembers_each each done)
    intro thing
    constructor
    · rintro ⟨member, mem, plain, part | ⟨inner, entry, visited, visit, part⟩⟩
      · exact ⟨member, .own mem plain, part⟩
      · exact ⟨visited, visits_iff.2 ⟨member, mem, plain, .inr ⟨inner, entry, visit⟩⟩, part⟩
    · rintro ⟨visited, visit, part⟩
      rcases visits_iff.1 visit with ⟨member, mem, plain, rfl | ⟨inner, entry, visit⟩⟩
      · exact ⟨visited, mem, plain, .inl part⟩
      · exact ⟨member, mem, plain, .inr ⟨inner, entry, visited, visit, part⟩⟩

theorem expand (traces : scope.Traces Has Part) (name : String) (type : TypeExpr) :
    Has (scope.expand name type) fun thing =>
      ∃ entry, scope.Expands name type entry ∧ scope.AtMember (Part .property) entry thing := by
  unfold Scope.expand
  split
  · rename_i untargeted
    apply traces.ok_of_not
    rintro thing ⟨_, ⟨found, _⟩, _⟩
    cases untargeted.symm.trans found
  · rename_i target found
    split
    · rename_i unlisted
      apply traces.ok_of_not
      rintro thing ⟨_, ⟨other_found, listed⟩, _⟩
      cases found.symm.trans other_found
      cases unlisted.symm.trans listed
    · rename_i members listed
      apply traces.congr (traces.before (traces.expandMembers _ _ []) fun _ _ => traces.ok _)
      intro thing
      constructor
      · intro part
        exact ⟨_, .target found listed, part⟩
      · rintro ⟨_, ⟨other_found, other_listed⟩, part⟩
        cases found.symm.trans other_found
        cases listed.symm.trans other_listed
        exact part

end Traces

end Scope

end Componentry
