/-!
# Sets of names

A set of names is kept in ascending order without repetition, so equal sets are equal lists.
-/

namespace Componentry

/-- Inserts a name into a list in ascending order. -/
def insertName (name : String) : List String → List String
  | [] => [name]
  | head :: rest =>
    if name < head then name :: head :: rest
    else if name = head then head :: rest
    else head :: insertName name rest

theorem mem_insertName {name other : String} {names : List String} :
    other ∈ insertName name names ↔ other = name ∨ other ∈ names := by
  induction names with
  | nil => simp [insertName]
  | cons head rest ih =>
    rw [insertName]
    split
    · simp
    · split
      · rename_i same
        subst same
        simp
      · simp only [List.mem_cons, ih]
        exact or_left_comm

theorem lt_of_not_lt_of_ne {left right : String} (not_lt : ¬left < right) (ne : left ≠ right) :
    right < left :=
  Decidable.byContradiction fun not_gt =>
    ne (String.le_antisymm (String.not_lt.1 not_gt) (String.not_lt.1 not_lt))

theorem insertName_pairwise {name : String} {names : List String}
    (ascending : names.Pairwise (· < ·)) : (insertName name names).Pairwise (· < ·) := by
  induction names with
  | nil => simp [insertName]
  | cons head rest ih =>
    obtain ⟨head_lt, rest_ascending⟩ := List.pairwise_cons.1 ascending
    rw [insertName]
    split
    · rename_i name_lt
      refine List.pairwise_cons.2 ⟨fun other mem => ?_, ascending⟩
      rcases List.mem_cons.1 mem with rfl | mem
      · exact name_lt
      · exact String.lt_trans name_lt (head_lt other mem)
    · split
      · exact ascending
      · rename_i not_lt ne
        refine List.pairwise_cons.2 ⟨fun other mem => ?_, ih rest_ascending⟩
        rcases mem_insertName.1 mem with rfl | mem
        · exact lt_of_not_lt_of_ne not_lt ne
        · exact head_lt other mem

/-- A name after all others is put at the end. -/
theorem insertName_of_last {name : String} {names : List String}
    (last : ∀ other ∈ names, other < name) :
    insertName name names = names ++ [name] := by
  induction names with
  | nil => rfl
  | cons head rest ih =>
    have head_lt := last head List.mem_cons_self
    have ne : name ≠ head := fun same => String.lt_irrefl head (same ▸ head_lt)
    rw [insertName, if_neg (String.lt_asymm head_lt), if_neg ne,
      ih fun other mem => last other (List.mem_cons_of_mem head mem), List.cons_append]

/-- A finite set of names. -/
structure NameSet where
  toList : List String
  ascending : toList.Pairwise (· < ·)

namespace NameSet

/-- The set without names. -/
def empty : NameSet :=
  ⟨[], by simp⟩

instance : Inhabited NameSet := ⟨empty⟩

/-- The set with one more name. -/
def insert (set : NameSet) (name : String) : NameSet :=
  ⟨insertName name set.toList, insertName_pairwise set.ascending⟩

/-- Whether a name is in a set. -/
def contains (set : NameSet) (name : String) : Bool :=
  set.toList.contains name

/-- The set of the names in a list. -/
def ofList (names : List String) : NameSet :=
  names.foldl insert empty

/-- A set is made of its names. -/
theorem ofList_toList (set : NameSet) : ofList set.toList = set := by
  have fold (done : NameSet) (rest : List String)
      (ascending : (done.toList ++ rest).Pairwise (· < ·)) :
      (rest.foldl insert done).toList = done.toList ++ rest := by
    induction rest generalizing done with
    | nil => simp
    | cons name rest ih =>
      have inserted : (done.insert name).toList = done.toList ++ [name] :=
        insertName_of_last fun other mem =>
          (List.pairwise_append.1 ascending).2.2 other mem name List.mem_cons_self
      rw [List.foldl_cons, ih (done.insert name) (by simpa [inserted] using ascending), inserted,
        List.append_assoc]
      rfl
  have same : (ofList set.toList).toList = set.toList := fold empty set.toList set.ascending
  cases made : ofList set.toList with
  | mk names ascending =>
    rw [made] at same
    cases set
    cases same
    rfl

instance : DecidableEq NameSet := fun left right =>
  decidable_of_iff (left.toList = right.toList) (by
    cases left
    cases right
    simp)

end NameSet

end Componentry
