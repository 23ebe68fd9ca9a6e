import Mathlib.Data.List.Permutation
import Componentry.Proofs.Expansion.Blocks

/-!
# Cycles in expansions

The tree of an expansion is compared with the types that it was made from. A
way of names leads through the blocks of the tree to a node (`NodeAt`) and,
independently of the tree, through the members of the types to a member
(`trail?`). The types above a node are exactly the types that were expanded on
the way to it, the type of the property included.

The law of cycles says that the names of the expanded types on a way are
distinct, and that a member is a circular placeholder exactly when its own type
would repeat one of them (`Placed`). The proof follows the way: the names that
a path has seen are the names of the types above (`Tracks`), and each step down
either is cut by the placeholder or enters a name that is new.
-/

namespace Componentry

/-- The names of a way lead from the blocks down to a node. -/
inductive NodeAt : List PropertyList → List String → ResolvedProperty → Prop
  | here {blocks : List PropertyList} {block : PropertyList} {key : String}
      {node : ResolvedProperty} (block_mem : block ∈ blocks) (mem : (key, node) ∈ block) :
      NodeAt blocks [key] node
  | under {blocks : List PropertyList} {block : PropertyList} {key : String}
      {parent node : ResolvedProperty} {way : List String} (block_mem : block ∈ blocks)
      (mem : (key, parent) ∈ block) (inner : NodeAt parent.blocks way node) :
      NodeAt blocks (key :: way) node

theorem NodeAt.exists_block {blocks : List PropertyList} {way : List String}
    {node : ResolvedProperty} (at_way : NodeAt blocks way node) :
    ∃ block ∈ blocks, block ≠ [] := by
  cases at_way with
  | here block_mem mem | under block_mem mem _ => exact ⟨_, block_mem, List.ne_nil_of_mem mem⟩

theorem PropertyPath.hasSeen_enter (path : PropertyPath) (typeName : Option String) (array : Bool)
    (name : String) :
    (path.enter typeName array).hasSeen name = true ↔
      path.hasSeen name = true ∨ typeName = some name := by
  simp only [PropertyPath.hasSeen, NameSet.contains, List.contains_iff_mem,
    PropertyPath.seen_enter]
  cases typeName with
  | none => simp [PropertyPath.entering]
  | some entered =>
    simp only [PropertyPath.entering, PropertyPath.visiting, NameSet.insert, mem_insertName,
      Option.some.injEq]
    constructor
    · rintro (rfl | seen)
      · exact .inr rfl
      · exact .inl seen
    · rintro (seen | rfl)
      · exact .inr seen
      · exact .inl rfl

namespace Scope

variable {scope : Scope} {path : PropertyPath} {node : ResolvedProperty} {way : List String}

/-- The name of the object type behind a type. -/
def targetName? (scope : Scope) (type : TypeExpr) : Option String :=
  (scope.target? type).bind ExpansionTarget.name

/-- The names of the object types behind types that are expanded. -/
def enteredNames (scope : Scope) (types : List TypeExpr) : List String :=
  types.filterMap scope.targetName?

/-- The members on a way of names, the outermost first. -/
def trail? (scope : Scope) : List Member → List String → Option (List Member)
  | _, [] => some []
  | members, key :: way =>
    match scope.shownMember? key members with
    | none => none
    | some member => (trail? scope (scope.membersOf member.type) way).map (member :: ·)

/-- The law of cycles for the node of a member, below the expanded types that lead to it. -/
structure Placed (scope : Scope) (above : List TypeExpr) (member : Member)
    (node : ResolvedProperty) : Prop where
  distinct : (scope.enteredNames above).Nodup
  distinct_of_block : node.blocks ≠ [] → (scope.enteredNames (above ++ [member.type])).Nodup
  circular_iff : node.circular = true ↔
    ∃ name, scope.targetName? member.type = some name ∧ name ∈ scope.enteredNames above
  placeholder : node.circular = true →
    node.properties = none ∧ node.itemProperties = none ∧
      ∃ target, scope.target? member.type = some target ∧
        node.signature.display = if target.array then "Array<object>" else "object"

/-- The path has seen the names of the types above. -/
def Tracks (scope : Scope) (path : PropertyPath) (above : List TypeExpr) : Prop :=
  ∀ name, path.hasSeen name = true ↔ name ∈ scope.enteredNames above

theorem tracks_root (scope : Scope) (name : String) : scope.Tracks (.root name) [] := by
  intro typeName
  simp [PropertyPath.root, PropertyPath.hasSeen, NameSet.contains, NameSet.empty, enteredNames]

variable {above : List TypeExpr} {type : TypeExpr}

theorem Tracks.child (tracks : scope.Tracks path above) (key : String) :
    scope.Tracks (path.child key) above :=
  tracks

theorem any_hasSeen_iff {target : ExpansionTarget}
    (tracks : scope.Tracks path above) (found : scope.target? type = some target) :
    target.name.any path.hasSeen = true ↔
      ∃ name, scope.targetName? type = some name ∧ name ∈ scope.enteredNames above := by
  have name_eq : scope.targetName? type = target.name := by simp [targetName?, found]
  rw [name_eq]
  cases target.name with
  | none => simp
  | some name => simp [tracks name]

theorem enteredNames_append_singleton (scope : Scope) (above : List TypeExpr) (type : TypeExpr) :
    scope.enteredNames (above ++ [type]) =
      scope.enteredNames above ++ (scope.targetName? type).toList := by
  unfold enteredNames
  cases named : scope.targetName? type with
  | none | some name => simp [named]

theorem nodup_append_of_fresh (distinct : (scope.enteredNames above).Nodup)
    (fresh : ¬∃ name, scope.targetName? type = some name ∧ name ∈ scope.enteredNames above) :
    (scope.enteredNames (above ++ [type])).Nodup := by
  rw [enteredNames_append_singleton]
  cases named : scope.targetName? type with
  | none => simpa using distinct
  | some name =>
    rw [List.nodup_append]
    refine ⟨distinct, by simp, ?_⟩
    intro other other_mem entered entered_mem equal
    simp only [Option.toList_some, List.mem_singleton] at entered_mem
    subst entered_mem equal
    exact fresh ⟨other, named, other_mem⟩

theorem Tracks.enter {target : ExpansionTarget}
    (tracks : scope.Tracks path above) (found : scope.target? type = some target) :
    scope.Tracks (path.enter target.name target.array) (above ++ [type]) := by
  intro name
  have name_eq : scope.targetName? type = target.name := by simp [targetName?, found]
  rw [PropertyPath.hasSeen_enter, tracks name, enteredNames_append_singleton, name_eq]
  cases target.name with
  | none => simp
  | some entered => simp [eq_comm]

/-- What a member shows obeys the law of cycles. -/
theorem Shows.placed {member : Member}
    (shows : scope.Shows path member node) (tracks : scope.Tracks path above)
    (distinct : (scope.enteredNames above).Nodup) :
    scope.Placed above member node := by
  cases shows with
  | untargeted signature untargeted =>
    have unnamed : scope.targetName? member.type = none := by simp [targetName?, untargeted]
    refine ⟨distinct, ?_, ?_, ?_⟩
    · simp [ResolvedProperty.blocks_ofMember]
    · simp [ResolvedProperty.ofMember, unnamed]
    · simp [ResolvedProperty.ofMember]
  | circular signature found seen =>
    refine ⟨distinct, ?_, ?_, ?_⟩
    · simp [ResolvedProperty.blocks_asCircular_ofMember]
    · have repeated := (any_hasSeen_iff tracks found).1 seen
      simpa [ResolvedProperty.asCircular] using repeated
    · intro _
      exact ⟨rfl, rfl, _, found, rfl⟩
  | unlisted signature found fresh unlisted =>
    have unrepeated := fun repeated => fresh ((any_hasSeen_iff tracks found).2 repeated)
    refine ⟨distinct, ?_, ?_, ?_⟩
    · simp [ResolvedProperty.blocks_ofMember]
    · constructor
      · simp [ResolvedProperty.ofMember]
      · intro repeated
        exact absurd repeated unrepeated
    · simp [ResolvedProperty.ofMember]
  | entered signature found fresh listed expanded =>
    have unrepeated := fun repeated => fresh ((any_hasSeen_iff tracks found).2 repeated)
    refine ⟨distinct, fun _ => nodup_append_of_fresh distinct unrepeated, ?_, ?_⟩
    · rw [ResolvedProperty.circular_withMembers]
      constructor
      · simp [ResolvedProperty.ofMember]
      · intro repeated
        exact absurd repeated unrepeated
    · rw [ResolvedProperty.circular_withMembers]
      simp [ResolvedProperty.ofMember]

/-- A member whose type has members and does not repeat a name above has their expansion as its only
block, if there is anything in it. -/
theorem Shows.blocks_of_fresh {member inner : Member} {key : String}
    (shows : scope.Shows path member node) (tracks : scope.Tracks path above)
    (distinct : (scope.enteredNames (above ++ [member.type])).Nodup)
    (shown : scope.shownMember? key (scope.membersOf member.type) = some inner) :
    ∃ target block, scope.target? member.type = some target ∧
      (scope.expandMembers ((path.child member.name).enter target.name target.array)
        (scope.membersOf member.type) []).outcome = .ok block ∧ node.blocks = [block] := by
  have members_ne : scope.membersOf member.type ≠ [] := by
    intro empty
    simp [empty, shownMember?] at shown
  cases shows with
  | untargeted signature untargeted => simp [membersOf, untargeted] at members_ne
  | unlisted signature found fresh unlisted => simp [membersOf, found, unlisted] at members_ne
  | circular signature found seen =>
    rcases (any_hasSeen_iff tracks found).1 seen with ⟨name, named, name_mem⟩
    rw [enteredNames_append_singleton, named, List.nodup_append] at distinct
    exact absurd rfl (distinct.2.2 name name_mem name (by simp))
  | @entered signature target members apart block found fresh listed expanded =>
    rcases mem_of_shown expanded shown with ⟨innerNode, mem, _⟩
    refine ⟨target, block, found, expanded, ?_⟩
    rw [ResolvedProperty.blocks_withMembers_ofMember,
      nonEmpty?_of_ne_nil (List.ne_nil_of_mem mem)]
    rfl

/-- Every node below expanded types stands for the member that its way leads to, and obeys the law
of cycles there. -/
theorem placed_of_nodeAt {blocks : List PropertyList} (at_way : NodeAt blocks way node)
    {members : List Member}
    (expanded : ∀ block ∈ blocks, (scope.expandMembers path members []).outcome = .ok block)
    (tracks : scope.Tracks path above) (distinct : (scope.enteredNames above).Nodup) :
    ∃ trail member, scope.trail? members way = some (trail ++ [member]) ∧
      scope.Placed (above ++ trail.map Member.type) member node := by
  induction at_way generalizing path members above with
  | here block_mem mem =>
    rcases shown_of_mem (expanded _ block_mem) mem with ⟨member, shown, shows⟩
    refine ⟨[], member, ?_, ?_⟩
    · simp [trail?, shown]
    · simpa using shows.placed tracks distinct
  | @under blocks block key parent node way block_mem mem inner ih =>
    rcases shown_of_mem (expanded _ block_mem) mem with ⟨outer, shown, shows⟩
    -- There is a node below the parent, so the parent has a block and its type was entered.
    rcases inner.exists_block with ⟨innerBlock, innerBlock_mem, _⟩
    rcases shows.of_mem_blocks innerBlock_mem with ⟨target, _, found, fresh, _, _⟩
    have unrepeated := fun repeated => fresh ((any_hasSeen_iff tracks found).2 repeated)
    have inner_expanded : ∀ block ∈ parent.blocks,
        (scope.expandMembers ((path.child outer.name).enter target.name target.array)
          (scope.membersOf outer.type) []).outcome = .ok block := by
      intro block inner_mem
      rcases shows.of_mem_blocks inner_mem with ⟨other, _, other_found, _, _, block_ok⟩
      cases found.symm.trans other_found
      exact block_ok
    rcases ih inner_expanded ((tracks.child outer.name).enter found)
      (nodup_append_of_fresh distinct unrepeated) with ⟨trail, member, trail_eq, placed⟩
    refine ⟨outer :: trail, member, ?_, ?_⟩
    · simp [trail?, shown, trail_eq]
    · simpa using placed

/-- A way of members whose types do not repeat a name is a way in the tree. -/
theorem exists_nodeAt_of_trail {members : List Member}
    {block : PropertyList} {key : String} {trail : List Member}
    (expanded : (scope.expandMembers path members []).outcome = .ok block)
    (tracks : scope.Tracks path above) (trail_eq : scope.trail? members (key :: way) = some trail)
    (distinct : (scope.enteredNames (above ++ trail.dropLast.map Member.type)).Nodup) :
    ∃ node, NodeAt [block] (key :: way) node := by
  induction way generalizing path members above block key trail with
  | nil =>
    rw [trail?] at trail_eq
    split at trail_eq
    · simp at trail_eq
    · rename_i member shown
      rcases mem_of_shown expanded shown with ⟨node, mem, _⟩
      exact ⟨node, .here List.mem_cons_self mem⟩
  | cons next way ih =>
    rw [trail?] at trail_eq
    split at trail_eq
    · simp at trail_eq
    · rename_i member shown
      rcases mem_of_shown expanded shown with ⟨parent, mem, shows⟩
      rcases Option.map_eq_some_iff.1 trail_eq with ⟨later, later_eq, rfl⟩
      have later_ne : later ≠ [] := by
        rintro rfl
        rw [trail?] at later_eq
        split at later_eq
        · simp at later_eq
        · simp at later_eq
      rw [List.dropLast_cons_of_ne_nil later_ne, List.map_cons, List.append_cons] at distinct
      have member_distinct : (scope.enteredNames (above ++ [member.type])).Nodup := by
        rw [enteredNames, List.filterMap_append] at distinct
        exact (List.nodup_append.1 distinct).1
      have next_shown : ∃ inner,
          scope.shownMember? next (scope.membersOf member.type) = some inner := by
        rw [trail?] at later_eq
        split at later_eq
        · simp at later_eq
        · rename_i inner inner_shown
          exact ⟨inner, inner_shown⟩
      rcases next_shown with ⟨inner, inner_shown⟩
      rcases shows.blocks_of_fresh tracks member_distinct inner_shown with
        ⟨target, innerBlock, found, inner_expanded, blocks_eq⟩
      rcases ih inner_expanded ((tracks.child member.name).enter found) later_eq distinct with
        ⟨node, inner_at⟩
      rw [← blocks_eq] at inner_at
      exact ⟨node, .under List.mem_cons_self mem inner_at⟩

theorem distinct_root (scope : Scope) (type : TypeExpr) : (scope.enteredNames [type]).Nodup := by
  unfold enteredNames
  cases named : scope.targetName? type with
  | none | some name => simp [named]

/-- Each node of an expansion stands for a member on the way to it. -/
theorem placed_of_expand {name : String} {expansion : Expansion}
    (ok : (scope.expand name type).outcome = .ok expansion)
    (at_way : NodeAt expansion.blocks way node) :
    ∃ trail member, scope.trail? (scope.membersOf type) way = some (trail ++ [member]) ∧
      scope.Placed (type :: trail.map Member.type) member node := by
  rcases blocks_of_expand ok with ⟨_, empty⟩ | ⟨target, block, found, expanded, blocks_eq⟩
  · rcases at_way.exists_block with ⟨block, block_mem, _⟩
    simp [empty] at block_mem
  · have all_expanded : ∀ other ∈ expansion.blocks,
        (scope.expandMembers ((PropertyPath.root name).enter target.name target.array)
          (scope.membersOf type) []).outcome = .ok other := by
      intro other other_mem
      rw [blocks_eq] at other_mem
      rw [mem_nonEmpty?_toList other_mem]
      exact expanded
    exact placed_of_nodeAt at_way all_expanded ((scope.tracks_root name).enter found)
      (scope.distinct_root type)

/-- The ways of the tree are the ways of members on which no expanded type repeats a name. -/
theorem exists_nodeAt_iff {name : String} {expansion : Expansion}
    (ok : (scope.expand name type).outcome = .ok expansion) (way : List String) :
    (∃ node, NodeAt expansion.blocks way node) ↔
      way ≠ [] ∧ ∃ trail, scope.trail? (scope.membersOf type) way = some trail ∧
        (scope.enteredNames (type :: trail.dropLast.map Member.type)).Nodup := by
  constructor
  · rintro ⟨node, at_way⟩
    rcases placed_of_expand ok at_way with ⟨trail, member, trail_eq, placed⟩
    refine ⟨?_, trail ++ [member], trail_eq, ?_⟩
    · rintro rfl
      cases at_way
    · simpa using placed.distinct
  · rintro ⟨way_ne, trail, trail_eq, distinct⟩
    cases way with
    | nil => exact absurd rfl way_ne
    | cons key way =>
      rcases blocks_of_expand ok with ⟨empty, _⟩ | ⟨target, block, found, expanded, blocks_eq⟩
      · simp [empty, trail?, shownMember?] at trail_eq
      · rcases exists_nodeAt_of_trail expanded ((scope.tracks_root name).enter found) trail_eq
          distinct with ⟨node, at_way⟩
        have block_ne : block ≠ [] := by simpa using at_way.exists_block
        rw [blocks_eq, nonEmpty?_of_ne_nil block_ne]
        exact ⟨node, at_way⟩

/-- Expansion terminates, and its tree obeys the law of cycles. The tree has a node on exactly those
ways of members on which no expanded type repeats a name, and each node is placed: the names of the
expanded types above it are distinct, it is circular exactly when the type of its member bears one
of them, and then it has no block and is displayed as a plain object or array of objects. -/
theorem expand_obeys_cycle_law (scope : Scope) (name : String) (type : TypeExpr) :
    (∀ spare, (scope.expandWithin (scope.expansionBudget type + spare) name type).run =
      some <$> scope.expand name type) ∧
      ∀ expansion, (scope.expand name type).outcome = .ok expansion →
        (∀ way, (∃ node, NodeAt expansion.blocks way node) ↔
          way ≠ [] ∧ ∃ trail, scope.trail? (scope.membersOf type) way = some trail ∧
            (scope.enteredNames (type :: trail.dropLast.map Member.type)).Nodup) ∧
        ∀ way node, NodeAt expansion.blocks way node →
          ∃ trail member, scope.trail? (scope.membersOf type) way = some (trail ++ [member]) ∧
            scope.Placed (type :: trail.map Member.type) member node := by
  refine ⟨scope.run_expandWithin name type, ?_⟩
  intro expansion ok
  refine ⟨exists_nodeAt_iff ok, ?_⟩
  intro way node at_way
  exact placed_of_expand ok at_way

/-- Two interfaces that lead to each other, one of them through an array. -/
def staffing : Scope where
  model := .ofList [
    .ofInterface "Person" [⟨"employer", .union [.named "Company", .null], false, false⟩],
    .ofInterface "Company" [⟨"staff", .array (.named "Person"), false, false⟩]]

/-- The placeholder of the staff of a person's employer. -/
def staffNode : ResolvedProperty where
  signature := { (Signature.documented "Array<object>" "Array<Person>") with
    isArrayOfObject := true, typeName := some "Person", circular := true }
  declared := "Person[]"
  circular := true

def staffingTree : Expansion where
  properties := some [("employer",
    { signature := { (Signature.documented "object|null" "Company|null") with
        isStruct := true, nullable := true, typeName := some "Company" }
      declared := "Company | null"
      properties := some [("staff", staffNode)] })]

theorem expand_obeys_cycle_law_staffing :
    (staffing.expand "owner" (.named "Person")).outcome = .ok staffingTree ∧
      NodeAt staffingTree.blocks ["employer", "staff"] staffNode ∧
      ∃ trail member,
        staffing.trail? (staffing.membersOf (.named "Person")) ["employer", "staff"] =
          some (trail ++ [member]) ∧
        staffing.Placed (.named "Person" :: trail.map Member.type) member staffNode := by
  have ok : (staffing.expand "owner" (.named "Person")).outcome = .ok staffingTree := by cbv
  have at_staff : NodeAt staffingTree.blocks ["employer", "staff"] staffNode :=
    .under List.mem_cons_self List.mem_cons_self (.here List.mem_cons_self List.mem_cons_self)
  have law := (expand_obeys_cycle_law staffing "owner" (.named "Person")).2 staffingTree ok
  exact ⟨ok, at_staff, law.2 _ _ at_staff⟩

end Scope

end Componentry
