import Componentry.Proofs.Expansion.Termination

/-!
# Blocks of an expansion

An expansion puts the resolved members of a type into a block. `Shows` lists
what a member can become, and a block has exactly one entry for each name that
a member shows: that of the last member of the name that is not a method. The
entries of a block with blocks of their own come from expansions that were
entered from it, so what holds of every expanded list of members holds of the
whole tree.
-/

namespace Componentry

namespace ResolvedProperty

/-- The blocks of members that a property got. -/
def blocks (property : ResolvedProperty) : List PropertyList :=
  property.properties.toList ++ property.itemProperties.toList

theorem blocks_ofMember (member : Member) (signature : Signature) :
    (ofMember member signature).blocks = [] :=
  rfl

theorem blocks_asCircular_ofMember (member : Member) (signature : Signature) (array : Bool) :
    ((ofMember member signature).asCircular array).blocks = [] :=
  rfl

theorem blocks_withMembers_ofMember (member : Member) (signature : Signature) (apart : Bool)
    (inner : Option PropertyList) :
    ((ofMember member signature).withMembers apart inner).blocks = inner.toList := by
  cases apart with
  | false | true => simp [blocks, withMembers, ofMember]

theorem circular_withMembers (property : ResolvedProperty) (apart : Bool)
    (inner : Option PropertyList) :
    (property.withMembers apart inner).circular = property.circular := by
  cases apart with
  | false => rfl
  | true => rfl

end ResolvedProperty

/-- The blocks of an expansion. -/
def Expansion.blocks (expansion : Expansion) : List PropertyList :=
  expansion.properties.toList ++ expansion.itemProperties.toList

/-- The blocks of the properties and the event details of a component. -/
def ResolvedComponent.blocks (component : ResolvedComponent) : List PropertyList :=
  component.properties.values.flatMap ResolvedProperty.blocks ++
    component.events.values.flatMap fun event => event.expansion.blocks

variable {block : PropertyList} {type : TypeExpr}

theorem mem_nonEmpty?_toList {properties : PropertyList}
    (mem : block ∈ (nonEmpty? properties).toList) : block = properties := by
  unfold nonEmpty? at mem
  split at mem
  · simp at mem
  · simpa using mem

theorem nonEmpty?_of_ne_nil {properties : PropertyList} (ne : properties ≠ []) :
    nonEmpty? properties = some properties := by
  cases properties with
  | nil => exact absurd rfl ne
  | cons head rest => rfl

namespace Scope

variable {scope : Scope} {path : PropertyPath} {members : List Member} {member : Member}
  {key : String} {block : PropertyList} {node : ResolvedProperty}

/-- The members that the expansion of a type goes through. -/
def membersOf (scope : Scope) (type : TypeExpr) : List Member :=
  match scope.target? type with
  | none => []
  | some target => ((scope.targetMembers target).map (scope.adjustedMembers target)).getD []

theorem membersOf_eq {target : ExpansionTarget} (found : scope.target? type = some target)
    (listed : scope.targetMembers target = some members) :
    scope.membersOf type = scope.adjustedMembers target members := by
  simp [membersOf, found, listed]

/-- Whether a member is a method, by its type or by what its type stands for. -/
def isMethod (scope : Scope) (member : Member) : Bool :=
  member.type.isFunction ||
    match (scope.resolve { position := .property, inExtension := true } member.type).outcome with
    | .ok signature => signature.display == "Function"
    | .error _ => false

/-- The member that a property stands for: the last one of the name that is not a method. -/
def shownMember? (scope : Scope) (key : String) : List Member → Option Member
  | [] => none
  | member :: rest =>
    (shownMember? scope key rest).or
      (if member.name = key && !scope.isMethod member then some member else none)

/-- What a member can become when it is expanded. -/
inductive Shows (scope : Scope) (path : PropertyPath) (member : Member) : ResolvedProperty → Prop
  | untargeted (signature : Signature) (untargeted : scope.target? member.type = none) :
      Shows scope path member (.ofMember member signature)
  | circular (signature : Signature) {target : ExpansionTarget}
      (found : scope.target? member.type = some target)
      (seen : target.name.any path.hasSeen = true) :
      Shows scope path member ((ResolvedProperty.ofMember member signature).asCircular target.array)
  | unlisted (signature : Signature) {target : ExpansionTarget}
      (found : scope.target? member.type = some target)
      (fresh : ¬target.name.any path.hasSeen = true)
      (unlisted : scope.targetMembers target = none) :
      Shows scope path member (.ofMember member signature)
  | entered (signature : Signature) {target : ExpansionTarget} {members : List Member}
      {apart : Bool} {inner : PropertyList} (found : scope.target? member.type = some target)
      (fresh : ¬target.name.any path.hasSeen = true)
      (listed : scope.targetMembers target = some members)
      (expanded : (scope.expandMembers ((path.child member.name).enter target.name target.array)
        (scope.membersOf member.type) []).outcome = .ok inner) :
      Shows scope path member
        ((ResolvedProperty.ofMember member signature).withMembers apart (nonEmpty? inner))

/-- All that the expansion of a member with a signature can come to. -/
inductive Becomes (scope : Scope) (path : PropertyPath) (member : Member) (signature : Signature) :
    Option ResolvedProperty → Prop
  | method (function : signature.display = "Function") : Becomes scope path member signature none
  | untargeted (object : signature.display ≠ "Function")
      (untargeted : scope.target? member.type = none) :
      Becomes scope path member signature (some (.ofMember member signature))
  | circular (object : signature.display ≠ "Function") {target : ExpansionTarget}
      (found : scope.target? member.type = some target)
      (seen : target.name.any path.hasSeen = true) :
      Becomes scope path member signature
        (some ((ResolvedProperty.ofMember member signature).asCircular target.array))
  | unlisted (object : signature.display ≠ "Function") {target : ExpansionTarget}
      (found : scope.target? member.type = some target)
      (fresh : ¬target.name.any path.hasSeen = true)
      (unlisted : scope.targetMembers target = none) :
      Becomes scope path member signature (some (.ofMember member signature))
  | entered (object : signature.display ≠ "Function") {target : ExpansionTarget}
      {members : List Member} {inner : PropertyList}
      (found : scope.target? member.type = some target)
      (fresh : ¬target.name.any path.hasSeen = true)
      (listed : scope.targetMembers target = some members)
      (expanded : (scope.expandMembers ((path.child member.name).enter target.name target.array)
        (scope.membersOf member.type) []).outcome = .ok inner) :
      Becomes scope path member signature
        (some ((ResolvedProperty.ofMember member signature).withMembers
          (target.array && path.isOutsideArrays) (nonEmpty? inner)))

/-- What a member is expanded to follows one of the rules. -/
theorem becomes_of_expandMember {shown : Option ResolvedProperty}
    (ok : (scope.expandMember path member).outcome = .ok shown) :
    ∃ signature,
      (scope.resolve { position := .property, inExtension := true } member.type).outcome =
        .ok signature ∧ scope.Becomes path member signature shown := by
  rw [expandMember, Attempt.outcome_bind_eq_ok] at ok
  rcases ok with ⟨signature, resolved, ok⟩
  refine ⟨signature, resolved, ?_⟩
  split at ok
  · rename_i function
    cases ok
    exact .method (by simpa using function)
  · rename_i plain
    have object : signature.display ≠ "Function" := by simpa using plain
    dsimp only at ok
    split at ok
    · rename_i untargeted
      cases ok
      exact .untargeted object untargeted
    · rename_i target found
      split at ok
      · rename_i seen
        cases ok
        exact .circular object found seen
      · rename_i fresh
        split at ok
        · rename_i unlisted
          cases ok
          exact .unlisted object found fresh unlisted
        · rename_i members listed
          rw [Attempt.outcome_bind_eq_ok] at ok
          rcases ok with ⟨inner, expanded, ok⟩
          cases ok
          rw [← membersOf_eq found listed] at expanded
          exact .entered object found fresh listed expanded

theorem shows_of_expandMember (ok : (scope.expandMember path member).outcome = .ok (some node)) :
    scope.Shows path member node := by
  rcases becomes_of_expandMember ok with ⟨signature, _, becomes⟩
  cases becomes with
  | untargeted _ untargeted => exact .untargeted signature untargeted
  | circular _ found seen => exact .circular signature found seen
  | unlisted _ found fresh unlisted => exact .unlisted signature found fresh unlisted
  | entered _ found fresh listed expanded => exact .entered signature found fresh listed expanded

theorem isMethod_iff_of_expandMember {shown : Option ResolvedProperty}
    (plain : ¬member.type.isFunction = true)
    (ok : (scope.expandMember path member).outcome = .ok shown) :
    scope.isMethod member = true ↔ shown = none := by
  have not_function : member.type.isFunction = false := by simpa using plain
  rcases becomes_of_expandMember ok with ⟨signature, resolved, becomes⟩
  simp only [isMethod, not_function, Bool.false_or, resolved]
  cases becomes with
  | method function => simp [function]
  | untargeted object _ | circular object _ _ | unlisted object _ _ _ | entered object _ _ _ _ =>
    simp [object]

theorem shownMember?_spec (shown : scope.shownMember? key members = some member) :
    member ∈ members ∧ member.name = key ∧ scope.isMethod member = false := by
  induction members with
  | nil => simp [shownMember?] at shown
  | cons head rest ih =>
    rw [shownMember?, Option.or_eq_some_iff] at shown
    rcases shown with later | ⟨_, here⟩
    · rcases ih later with ⟨mem, named, property⟩
      exact ⟨List.mem_cons_of_mem head mem, named, property⟩
    · split at here
      · rename_i kept
        cases here
        simpa using kept
      · simp at here

theorem mem_of_shownMember? (shown : scope.shownMember? key members = some member) :
    member ∈ members :=
  (shownMember?_spec shown).1

theorem shownMember?_cons_of_isMethod (method : scope.isMethod member = true) (rest : List Member) :
    scope.shownMember? key (member :: rest) = scope.shownMember? key rest := by
  simp [shownMember?, method]

variable {done : PropertyList}

theorem eq_of_expandMembers_nil (ok : (scope.expandMembers path [] done).outcome = .ok block) :
    block = done := by
  rw [expandMembers] at ok
  exact (Except.ok.inj ok).symm

/-- A method is left out, and every other member puts its property. -/
theorem step_of_expandMembers_cons {rest : List Member}
    (ok : (scope.expandMembers path (member :: rest) done).outcome = .ok block) :
    (scope.isMethod member = true ∧ (scope.expandMembers path rest done).outcome = .ok block) ∨
      ∃ property, scope.isMethod member = false ∧
        (scope.expandMember path member).outcome = .ok (some property) ∧
        (scope.expandMembers path rest (upsert member.name property done)).outcome = .ok block := by
  rw [expandMembers] at ok
  split at ok
  · rename_i function
    exact .inl ⟨by simp [isMethod, function], ok⟩
  · rename_i plain
    rw [Attempt.outcome_bind_eq_ok] at ok
    rcases ok with ⟨shown, member_ok, ok⟩
    have method_iff := isMethod_iff_of_expandMember plain member_ok
    cases shown with
    | none => exact .inl ⟨method_iff.2 rfl, ok⟩
    | some property => exact .inr ⟨property, by simpa using method_iff, member_ok, ok⟩

/-- The entry of a name in an expanded list is that of its shown member, and names without a shown
member keep the entries that were there before. -/
theorem lookup_of_expandMembers (ok : (scope.expandMembers path members done).outcome = .ok block)
    (key : String) :
    (∃ member node, scope.shownMember? key members = some member ∧
      (scope.expandMember path member).outcome = .ok (some node) ∧ lookup key block = some node) ∨
      (scope.shownMember? key members = none ∧ lookup key block = lookup key done) := by
  induction members generalizing done with
  | nil => exact .inr ⟨rfl, by rw [eq_of_expandMembers_nil ok]⟩
  | cons member rest ih =>
    rcases step_of_expandMembers_cons ok with ⟨method, ok⟩ | ⟨property, kept, member_ok, ok⟩
    · rw [shownMember?_cons_of_isMethod method]
      exact ih ok
    · rcases ih ok with ⟨later, node, later_shown, later_ok, found⟩ | ⟨unshown, found⟩
      · left
        exact ⟨later, node, by simp [shownMember?, later_shown], later_ok, found⟩
      · rw [lookup_upsert] at found
        by_cases same : key = member.name
        · left
          rw [if_pos same] at found
          refine ⟨member, property, ?_, member_ok, found⟩
          subst same
          simp [shownMember?, unshown, kept]
        · right
          rw [if_neg same] at found
          refine ⟨?_, found⟩
          have different : member.name ≠ key := fun equal => same equal.symm
          simp [shownMember?, unshown, different]

theorem nodup_keys_of_expandMembers (nodup : (done.map Prod.fst).Nodup)
    (ok : (scope.expandMembers path members done).outcome = .ok block) :
    (block.map Prod.fst).Nodup := by
  induction members generalizing done with
  | nil => exact eq_of_expandMembers_nil ok ▸ nodup
  | cons member rest ih =>
    rcases step_of_expandMembers_cons ok with ⟨_, ok⟩ | ⟨property, _, _, ok⟩
    · exact ih nodup ok
    · exact ih (upsert_keys_nodup _ _ _ nodup) ok

theorem expanded_of_mem (ok : (scope.expandMembers path members []).outcome = .ok block)
    (mem : (key, node) ∈ block) :
    ∃ member, scope.shownMember? key members = some member ∧
      (scope.expandMember path member).outcome = .ok (some node) := by
  have found := lookup_eq_some_of_mem (nodup_keys_of_expandMembers (by simp) ok) mem
  rcases lookup_of_expandMembers ok key with ⟨member, shown, shown_eq, member_ok, shown_found⟩ |
    ⟨_, absent⟩
  · cases found.symm.trans shown_found
    exact ⟨member, shown_eq, member_ok⟩
  · rw [found] at absent
    simp [lookup] at absent

theorem shown_of_mem (ok : (scope.expandMembers path members []).outcome = .ok block)
    (mem : (key, node) ∈ block) :
    ∃ member, scope.shownMember? key members = some member ∧ scope.Shows path member node := by
  rcases expanded_of_mem ok mem with ⟨member, shown, member_ok⟩
  exact ⟨member, shown, shows_of_expandMember member_ok⟩

theorem mem_of_shown (ok : (scope.expandMembers path members []).outcome = .ok block)
    (shown : scope.shownMember? key members = some member) :
    ∃ node, (key, node) ∈ block ∧ scope.Shows path member node := by
  rcases lookup_of_expandMembers ok key with ⟨other, node, other_shown, member_ok, found⟩ |
    ⟨unshown, _⟩
  · cases shown.symm.trans other_shown
    exact ⟨node, mem_of_lookup_eq_some found, shows_of_expandMember member_ok⟩
  · rw [shown] at unshown
    simp at unshown

/-- A member has a block only if its type is entered, and the block is the expansion of the members
of that type. -/
theorem Shows.of_mem_blocks (shows : scope.Shows path member node)
    (block_mem : block ∈ node.blocks) :
    ∃ target members, scope.target? member.type = some target ∧
      ¬target.name.any path.hasSeen = true ∧ scope.targetMembers target = some members ∧
      (scope.expandMembers ((path.child member.name).enter target.name target.array)
        (scope.membersOf member.type) []).outcome = .ok block := by
  cases shows with
  | untargeted signature untargeted => simp [ResolvedProperty.blocks_ofMember] at block_mem
  | circular signature found seen => simp [ResolvedProperty.blocks_asCircular_ofMember] at block_mem
  | unlisted signature found fresh unlisted =>
    simp [ResolvedProperty.blocks_ofMember] at block_mem
  | entered signature found fresh listed expanded =>
    rw [ResolvedProperty.blocks_withMembers_ofMember] at block_mem
    rw [mem_nonEmpty?_toList block_mem]
    exact ⟨_, _, found, fresh, listed, expanded⟩

theorem blocks_of_expand {name : String} {expansion : Expansion}
    (ok : (scope.expand name type).outcome = .ok expansion) :
    (scope.membersOf type = [] ∧ expansion.blocks = []) ∨
      ∃ target block, scope.target? type = some target ∧
        (scope.expandMembers ((PropertyPath.root name).enter target.name target.array)
          (scope.membersOf type) []).outcome = .ok block ∧
        expansion.blocks = (nonEmpty? block).toList := by
  unfold expand at ok
  split at ok
  · rename_i untargeted
    cases ok
    exact .inl ⟨by simp [membersOf, untargeted], rfl⟩
  · rename_i target found
    split at ok
    · rename_i unlisted
      cases ok
      exact .inl ⟨by simp [membersOf, found, unlisted], rfl⟩
    · rename_i members listed
      rw [Attempt.outcome_bind_eq_ok] at ok
      rcases ok with ⟨block, expanded, ok⟩
      rw [← membersOf_eq found listed] at expanded
      simp only [Attempt.outcome_pure, Except.ok.injEq] at ok
      refine .inr ⟨target, block, found, expanded, ?_⟩
      subst ok
      cases target.array with
      | false | true => simp [Expansion.blocks]

end Scope

/-- No block of a tree repeats a name. -/
inductive KeyedBlock : PropertyList → Prop
  | intro {block : PropertyList} (nodup : (block.map Prod.fst).Nodup)
      (inner : ∀ entry ∈ block, ∀ inner ∈ entry.2.blocks, KeyedBlock inner) : KeyedBlock block

namespace Scope

variable {scope : Scope}

/-- What holds of an expanded block once it holds of the blocks inside holds of all of them. -/
theorem expandMembers_induction {Holds : PropertyList → Prop}
    (step : ∀ (path : PropertyPath) (members : List Member) (block : PropertyList),
      (scope.expandMembers path members []).outcome = .ok block →
      (∀ entry ∈ block, ∀ inner ∈ entry.2.blocks, Holds inner) → Holds block) {path : PropertyPath}
    {members : List Member} (ok : (scope.expandMembers path members []).outcome = .ok block) :
    Holds block := by
  induction path, members using scope.entries_induction generalizing block with
  | step path members ih =>
    apply step path members block ok
    rintro ⟨key, node⟩ mem inner inner_mem
    rcases shown_of_mem ok mem with ⟨member, shown, shows⟩
    rcases shows.of_mem_blocks inner_mem with
      ⟨target, innerMembers, found, fresh, listed, expanded⟩
    have entry := Enters.target (mem_of_shownMember? shown) found fresh listed
    rw [← membersOf_eq found listed] at entry
    exact ih _ _ entry expanded

/-- The block of an expansion is that of the members it goes through. -/
theorem holds_of_mem_blocks {Holds : PropertyList → Prop}
    (expanded : ∀ (path : PropertyPath) (members : List Member) (block : PropertyList),
      (scope.expandMembers path members []).outcome = .ok block → Holds block) {name : String}
    {expansion : Expansion} (ok : (scope.expand name type).outcome = .ok expansion) :
    ∀ block ∈ expansion.blocks, Holds block := by
  intro block block_mem
  rcases blocks_of_expand ok with ⟨_, empty⟩ | ⟨target, inner, _, inner_ok, blocks_eq⟩
  · simp [empty] at block_mem
  · rw [blocks_eq] at block_mem
    rw [mem_nonEmpty?_toList block_mem]
    exact expanded _ _ inner inner_ok

theorem keyedBlock_of_expandMembers {path : PropertyPath} {members : List Member}
    (ok : (scope.expandMembers path members []).outcome = .ok block) :
    KeyedBlock block :=
  expandMembers_induction
    (fun _ _ _ expanded inner => .intro (nodup_keys_of_expandMembers (by simp) expanded) inner) ok

end Scope

end Componentry
