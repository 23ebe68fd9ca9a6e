import Componentry.Proofs.Expansion.Blocks

/-!
# Shape of expansions

Where the members of a type are put depends on the way that leads to it: the
members of array elements get a block of their own outside arrays, and stand
inline inside them. `Shaped` says what this comes to for a tree as a whole. It
carries along whether the tree is inside a block of element members, and below
such a block no other one is allowed.

The induction is on the entries that an expansion makes. What a path knows of
arrays is compared with what the tree shows of them: a path is outside arrays
exactly when no block of element members has been opened on the way to it.
-/

namespace Componentry

/-- The members that a property got. -/
def ResolvedProperty.expansion (property : ResolvedProperty) : Expansion :=
  ⟨property.properties, property.itemProperties⟩

namespace Expansion

/-- The block of element members, or that of inline members. -/
def block? (expansion : Expansion) (elements : Bool) : Option PropertyList :=
  if elements then expansion.itemProperties else expansion.properties

/-- An expansion with one block. -/
def placed (elements : Bool) (members : Option PropertyList) : Expansion :=
  if elements then { itemProperties := members } else { properties := members }

theorem block?_empty (elements : Bool) : block? {} elements = none := by
  cases elements with
  | false => rfl
  | true => rfl

theorem block?_placed {elements other : Bool} {members : Option PropertyList}
    {block : PropertyList} (found : (placed elements members).block? other = some block) :
    other = elements ∧ members = some block := by
  cases elements <;> cases other <;> simp_all [placed, block?]

theorem placed_exclusive (elements : Bool) (members : Option PropertyList) :
    (placed elements members).properties = none ∨
      (placed elements members).itemProperties = none := by
  cases elements with
  | false => exact .inr rfl
  | true => exact .inl rfl

end Expansion

namespace ResolvedProperty

theorem expansion_withMembers_ofMember (member : Member) (signature : Signature) (apart : Bool)
    (inner : Option PropertyList) :
    ((ofMember member signature).withMembers apart inner).expansion = .placed apart inner := by
  cases apart with
  | false => rfl
  | true => rfl

theorem signature_withMembers (property : ResolvedProperty) (apart : Bool)
    (inner : Option PropertyList) :
    (property.withMembers apart inner).signature = property.signature := by
  cases apart with
  | false => rfl
  | true => rfl

end ResolvedProperty

theorem eq_of_nonEmpty? {properties block : PropertyList}
    (found : nonEmpty? properties = some block) : block = properties ∧ block ≠ [] := by
  cases properties with
  | nil => simp [nonEmpty?] at found
  | cons head rest =>
    simp only [nonEmpty?, List.isEmpty_cons, Bool.false_eq_true, if_false] at found
    cases found
    simp

theorem PropertyPath.isOutsideArrays_enter (path : PropertyPath) (typeName : Option String)
    (array : Bool) :
    (path.enter typeName array).isOutsideArrays = (!array && path.isOutsideArrays) := by
  cases array <;> cases typeName <;>
    simp [enter, entering, visiting, enteringArray, isOutsideArrays]

theorem PropertyPath.isOutsideArrays_child (path : PropertyPath) (key : String) :
    (path.child key).isOutsideArrays = path.isOutsideArrays :=
  rfl

namespace Scope

variable {scope : Scope} {path : PropertyPath} {members : List Member} {block : PropertyList}
  {member : Member} {node : ResolvedProperty}

/-- The names of the members that are no methods, in the order of their first occurrence. -/
def keptNames (scope : Scope) (members : List Member) : List String :=
  ((members.filter (!scope.isMethod ·)).map Member.name).eraseDups

/-- The entry of a block stands for a member that is no method, and is expanded if it can be. -/
structure Entry (scope : Scope) (members : List Member) (key : String) (node : ResolvedProperty)
    (member : Member) : Prop where
  shown : scope.shownMember? key members = some member
  type_not_function : member.type.isFunction = false
  not_method : scope.isMethod member = false
  display_ne : node.signature.display ≠ "Function"
  expanded : node.circular = false → scope.keptNames (scope.membersOf member.type) ≠ [] →
    node.blocks ≠ []

/-- A block has an entry for each name of a member that is no method, and no other entries. -/
structure Lists (scope : Scope) (members : List Member) (block : PropertyList) : Prop where
  nonempty : block ≠ []
  nodup : (block.map Prod.fst).Nodup
  keys : block.map Prod.fst = scope.keptNames members
  entries : ∀ key node, (key, node) ∈ block → ∃ member, scope.Entry members key node member

/-- The expansion of a type has the shape that metadata relies on, inside a block of element members
or outside of all of them. -/
inductive Shaped (scope : Scope) : Bool → TypeExpr → Expansion → Prop
  | intro {inElements : Bool} {type : TypeExpr} {expansion : Expansion}
      (one_block : expansion.properties = none ∨ expansion.itemProperties = none)
      (elements_once : inElements = true → expansion.itemProperties = none)
      (inline : expansion.properties ≠ none → ∃ target, scope.target? type = some target ∧
        (target.array = true → inElements = true))
      (lists : ∀ elements block, expansion.block? elements = some block →
        scope.Lists (scope.membersOf type) block)
      (inner : ∀ elements block, expansion.block? elements = some block →
        ∀ key node member, (key, node) ∈ block →
          scope.shownMember? key (scope.membersOf type) = some member →
          Shaped scope (inElements || elements) member.type node.expansion) :
      Shaped scope inElements type expansion

theorem shaped_empty (scope : Scope) (inElements : Bool) (type : TypeExpr) :
    scope.Shaped inElements type {} := by
  refine .intro (.inl rfl) (fun _ => rfl) (fun absent => absurd rfl absent) ?_ ?_
  · intro elements block found
    simp [Expansion.block?_empty] at found
  · intro elements block found
    simp [Expansion.block?_empty] at found

theorem keys_of_expandMembers {done : PropertyList} {names : List String}
    (ok : (scope.expandMembers path members done).outcome = .ok block)
    (keys : done.map Prod.fst = names.eraseDups) :
    block.map Prod.fst =
      (names ++ (members.filter (!scope.isMethod ·)).map Member.name).eraseDups := by
  induction members generalizing done names with
  | nil =>
    rw [eq_of_expandMembers_nil ok]
    simpa using keys
  | cons member rest ih =>
    rcases step_of_expandMembers_cons ok with ⟨method, ok⟩ | ⟨property, kept, _, ok⟩
    · simpa [method] using ih ok keys
    · have appended := ih ok (upsert_keys_eraseDups keys member.name property)
      simpa [kept] using appended

theorem keys_eq_keptNames (ok : (scope.expandMembers path members []).outcome = .ok block) :
    block.map Prod.fst = scope.keptNames members := by
  have none_before : ([] : PropertyList).map Prod.fst = ([] : List String).eraseDups := rfl
  exact keys_of_expandMembers ok none_before

theorem nonEmpty?_ne_none (ok : (scope.expandMembers path members []).outcome = .ok block)
    (kept : scope.keptNames members ≠ []) : (nonEmpty? block).toList ≠ [] := by
  have block_ne : block ≠ [] := by
    rintro rfl
    exact kept (keys_eq_keptNames ok).symm
  simp [nonEmpty?_of_ne_nil block_ne]

theorem Becomes.display_ne {signature : Signature}
    (becomes : scope.Becomes path member signature (some node)) :
    node.signature.display ≠ "Function" := by
  cases becomes with
  | untargeted object _ => exact object
  | @circular object target _ _ =>
    cases array : target.array with
    | false | true => simp [ResolvedProperty.asCircular]
  | unlisted object _ _ _ => exact object
  | entered object _ _ _ _ =>
    rw [ResolvedProperty.signature_withMembers]
    exact object

theorem Becomes.blocks_ne_nil {signature : Signature}
    (becomes : scope.Becomes path member signature (some node)) (plain : node.circular = false)
    (kept : scope.keptNames (scope.membersOf member.type) ≠ []) : node.blocks ≠ [] := by
  cases becomes with
  | untargeted _ untargeted => simp [membersOf, untargeted, keptNames] at kept
  | circular _ _ _ => simp [ResolvedProperty.asCircular] at plain
  | unlisted _ found _ unlisted => simp [membersOf, found, unlisted, keptNames] at kept
  | entered _ _ _ _ expanded =>
    rw [ResolvedProperty.blocks_withMembers_ofMember]
    exact nonEmpty?_ne_none expanded kept

theorem lists_of_expandMembers (ok : (scope.expandMembers path members []).outcome = .ok block)
    (nonempty : block ≠ []) : scope.Lists members block := by
  refine ⟨nonempty, nodup_keys_of_expandMembers (by simp) ok, keys_eq_keptNames ok, ?_⟩
  intro key node mem
  rcases expanded_of_mem ok mem with ⟨member, shown, member_ok⟩
  rcases shownMember?_spec shown with ⟨_, _, kept⟩
  rcases becomes_of_expandMember member_ok with ⟨signature, _, becomes⟩
  have type_not_function : member.type.isFunction = false := by
    rw [isMethod, Bool.or_eq_false_iff] at kept
    exact kept.1
  exact ⟨member, shown, type_not_function, kept, becomes.display_ne, becomes.blocks_ne_nil⟩

/-- What the members of a target come to when they are put where the target belongs. -/
theorem shaped_placed {type : TypeExpr} {target : ExpansionTarget} {inner : PropertyList}
    (inElements : Bool) (found : scope.target? type = some target)
    (expanded : (scope.expandMembers path (scope.membersOf type) []).outcome = .ok inner)
    (each : ∀ key node member, (key, node) ∈ inner →
      scope.shownMember? key (scope.membersOf type) = some member →
      scope.Shaped (inElements || target.array) member.type node.expansion) :
    scope.Shaped inElements type
      (.placed (target.array && !inElements) (nonEmpty? inner)) := by
  refine .intro (Expansion.placed_exclusive _ _) ?_ ?_ ?_ ?_
  · rintro rfl
    simp [Expansion.placed]
  · intro present
    refine ⟨target, found, ?_⟩
    intro array
    cases inElements with
    | true => rfl
    | false => simp [array, Expansion.placed] at present
  · intro elements block block_found
    rcases Expansion.block?_placed block_found with ⟨_, members_eq⟩
    rcases eq_of_nonEmpty? members_eq with ⟨rfl, nonempty⟩
    exact lists_of_expandMembers expanded nonempty
  · intro elements block block_found key node member mem shown
    rcases Expansion.block?_placed block_found with ⟨elements_eq, members_eq⟩
    rcases eq_of_nonEmpty? members_eq with ⟨rfl, _⟩
    have inside : (inElements || elements) = (inElements || target.array) := by
      rw [elements_eq]
      cases inElements <;> cases target.array <;> rfl
    rw [inside]
    exact each key node member mem shown

/-- By induction on the entries from the members down: the path to a member is outside arrays
exactly when the member is outside blocks of element members. -/
theorem shaped_of_expandMembers (ok : (scope.expandMembers path members []).outcome = .ok block)
    {key : String} (mem : (key, node) ∈ block)
    (shown : scope.shownMember? key members = some member) :
    scope.Shaped (!path.isOutsideArrays) member.type node.expansion := by
  induction path, members using scope.entries_induction generalizing block key node member with
  | step path members ih =>
    rcases expanded_of_mem ok mem with ⟨other, other_shown, member_ok⟩
    cases shown.symm.trans other_shown
    rcases becomes_of_expandMember member_ok with ⟨signature, _, becomes⟩
    cases becomes with
    | untargeted _ _ | circular _ _ _ | unlisted _ _ _ _ => exact shaped_empty _ _ _
    | @entered object target innerMembers inner found fresh listed expanded =>
      have entry := Enters.target (mem_of_shownMember? shown) found fresh listed
      rw [← membersOf_eq found listed] at entry
      have shaped := shaped_placed (!path.isOutsideArrays) found expanded ?_
      · rw [Bool.not_not] at shaped
        rw [ResolvedProperty.expansion_withMembers_ofMember]
        exact shaped
      · intro innerKey innerNode innerMember inner_mem inner_shown
        have inner_shaped := ih _ _ entry expanded inner_mem inner_shown
        rw [PropertyPath.isOutsideArrays_enter, PropertyPath.isOutsideArrays_child,
          Bool.not_and, Bool.not_not, Bool.or_comm] at inner_shaped
        exact inner_shaped

/-- Every accepted expansion is well shaped. -/
theorem shaped_of_expand {name : String} {type : TypeExpr} {expansion : Expansion}
    (ok : (scope.expand name type).outcome = .ok expansion) :
    scope.Shaped false type expansion := by
  unfold expand at ok
  split at ok
  · cases ok
    exact shaped_empty _ _ _
  · rename_i target found
    split at ok
    · cases ok
      exact shaped_empty _ _ _
    · rename_i members listed
      rw [Attempt.outcome_bind_eq_ok] at ok
      rcases ok with ⟨block, expanded, ok⟩
      cases ok
      rw [← membersOf_eq found listed] at expanded
      have shaped := shaped_placed false found expanded ?_
      · simpa [Expansion.placed] using shaped
      · intro key node member mem shown
        have inner_shaped := shaped_of_expandMembers expanded mem shown
        rw [PropertyPath.isOutsideArrays_enter, Bool.not_and, Bool.not_not,
          Bool.or_comm] at inner_shaped
        exact inner_shaped

theorem blocks_ne_nil_of_expand {name : String} {type : TypeExpr} {expansion : Expansion}
    (ok : (scope.expand name type).outcome = .ok expansion)
    (kept : scope.keptNames (scope.membersOf type) ≠ []) : expansion.blocks ≠ [] := by
  rcases blocks_of_expand ok with ⟨empty, _⟩ | ⟨target, block, _, expanded, blocks_eq⟩
  · simp [empty, keptNames] at kept
  · rw [blocks_eq]
    exact nonEmpty?_ne_none expanded kept

end Scope

end Componentry
