/-!
# Maps in insertion order

Entries keep the order in which their keys were first inserted; a later value of a key takes the
place of the earlier one. `upsert` acts on a plain list of entries, `OrderedMap` carries the proof
that no key occurs twice.
-/

namespace Componentry

variable {α : Type u} {key : String} {value : α} {entries : List (String × α)}

/-- Puts a value at its key's place, or at the end if the key is new. -/
def upsert (key : String) (value : α) : List (String × α) → List (String × α)
  | [] => [(key, value)]
  | entry :: rest =>
    if entry.1 = key then (key, value) :: rest else entry :: upsert key value rest

/-- The value of the first entry with the key. -/
def lookup (key : String) (entries : List (String × α)) : Option α :=
  (entries.find? (·.1 == key)).map Prod.snd

theorem upsert_keys (key : String) (value : α) (entries : List (String × α)) :
    (upsert key value entries).map Prod.fst =
      if key ∈ entries.map Prod.fst then entries.map Prod.fst
      else entries.map Prod.fst ++ [key] := by
  induction entries with
  | nil => simp [upsert]
  | cons entry rest ih =>
    by_cases same : entry.1 = key
    · simp [upsert, same]
    · have different : key ≠ entry.1 := fun h => same h.symm
      by_cases present : key ∈ rest.map Prod.fst
      · simp only [upsert, if_neg same, List.map_cons, ih, List.mem_cons, present, or_true, if_true]
      · simp only [upsert, if_neg same, List.map_cons, ih, List.mem_cons, present, different,
          or_self, if_false, List.cons_append]

theorem upsert_keys_nodup (key : String) (value : α) (entries : List (String × α))
    (nodup : (entries.map Prod.fst).Nodup) : ((upsert key value entries).map Prod.fst).Nodup := by
  rw [upsert_keys]
  split
  · exact nodup
  · rename_i absent
    rw [List.nodup_append]
    exact ⟨nodup, by simp, by
      intro a a_mem b b_mem
      rw [List.mem_singleton] at b_mem
      subst b_mem
      intro equal
      exact absent (equal ▸ a_mem)⟩

/-- Keys that are put one after the other stand in the order of their first occurrence. -/
theorem upsert_keys_eraseDups {names : List String}
    (keys : entries.map Prod.fst = names.eraseDups) (key : String) (value : α) :
    (upsert key value entries).map Prod.fst = (names ++ [key]).eraseDups := by
  rw [upsert_keys, keys, List.eraseDups_append]
  by_cases present : key ∈ names
  · simp [present, List.removeAll]
  · simp [present, List.removeAll, List.eraseDups_cons]

theorem upsert_of_not_mem (key : String) (value : α) (entries : List (String × α))
    (absent : key ∉ entries.map Prod.fst) :
    upsert key value entries = entries ++ [(key, value)] := by
  induction entries with
  | nil => rfl
  | cons entry rest ih =>
    simp only [List.map_cons, List.mem_cons, not_or] at absent
    rw [upsert, if_neg (fun h => absent.1 h.symm), ih absent.2, List.cons_append]

theorem mem_upsert {entry : String × α} (mem : entry ∈ upsert key value entries) :
    entry = (key, value) ∨ entry ∈ entries := by
  induction entries with
  | nil => simpa [upsert] using mem
  | cons head rest ih =>
    by_cases same : head.1 = key
    · rw [upsert, if_pos same] at mem
      rcases List.mem_cons.1 mem with rfl | mem
      · exact .inl rfl
      · exact .inr (List.mem_cons_of_mem _ mem)
    · rw [upsert, if_neg same] at mem
      rcases List.mem_cons.1 mem with rfl | mem
      · exact .inr List.mem_cons_self
      · exact (ih mem).imp id (List.mem_cons_of_mem _)

theorem lookup_cons (key : String) (entry : String × α) (rest : List (String × α)) :
    lookup key (entry :: rest) = if entry.1 = key then some entry.2 else lookup key rest := by
  by_cases same : entry.1 = key <;> simp [lookup, same]

theorem mem_of_lookup_eq_some (found : lookup key entries = some value) :
    (key, value) ∈ entries := by
  induction entries with
  | nil => simp [lookup] at found
  | cons entry rest ih =>
    rw [lookup_cons] at found
    split at found
    · rename_i same
      simp only [Option.some.injEq] at found
      subst same found
      exact List.mem_cons_self
    · exact List.mem_cons_of_mem entry (ih found)

theorem lookup_eq_some_of_mem (nodup : (entries.map Prod.fst).Nodup)
    (mem : (key, value) ∈ entries) : lookup key entries = some value := by
  induction entries with
  | nil => simp at mem
  | cons entry rest ih =>
    simp only [List.map_cons, List.nodup_cons] at nodup
    rw [lookup_cons]
    rcases List.mem_cons.1 mem with rfl | mem
    · simp
    · have key_mem : key ∈ rest.map Prod.fst := List.mem_map_of_mem mem
      have different : entry.1 ≠ key := by
        intro same
        exact nodup.1 (same ▸ key_mem)
      rw [if_neg different]
      exact ih nodup.2 mem

/-- The value put at a key is found there, and other keys keep theirs. -/
theorem lookup_upsert (key other : String) (value : α) (entries : List (String × α)) :
    lookup other (upsert key value entries) =
      if other = key then some value else lookup other entries := by
  induction entries with
  | nil =>
    rw [upsert, lookup_cons]
    by_cases same : key = other
    · simp [same]
    · rw [if_neg same, if_neg (Ne.symm same)]
  | cons entry rest ih =>
    rw [upsert]
    split
    · rename_i found
      rw [lookup_cons, lookup_cons, found]
      by_cases same : key = other
      · simp [same]
      · rw [if_neg same, if_neg same, if_neg (Ne.symm same)]
    · rename_i found
      rw [lookup_cons, lookup_cons, ih]
      by_cases here : entry.1 = other
      · rw [if_pos here, if_pos here, if_neg fun equal => found (here.trans equal)]
      · simp [here]

/-- A map from names to values that remembers the order of first insertion. -/
structure OrderedMap (α : Type u) where
  entries : List (String × α)
  nodup : (entries.map Prod.fst).Nodup

namespace OrderedMap

/-- The map without entries. -/
def empty : OrderedMap α :=
  ⟨[], by simp⟩

instance : Inhabited (OrderedMap α) := ⟨empty⟩

/-- The map with a value at a key. -/
def insert (map : OrderedMap α) (key : String) (value : α) : OrderedMap α :=
  ⟨upsert key value map.entries, upsert_keys_nodup key value map.entries map.nodup⟩

/-- The value at a key. -/
def get? (map : OrderedMap α) (key : String) : Option α :=
  lookup key map.entries

def contains (map : OrderedMap α) (key : String) : Bool :=
  (map.get? key).isSome

/-- The keys in the order of their first insertion. -/
def keys (map : OrderedMap α) : List String :=
  map.entries.map Prod.fst

/-- The values in the order of their keys. -/
def values (map : OrderedMap α) : List α :=
  map.entries.map Prod.snd

theorem get?_insert (map : OrderedMap α) (key other : String) (value : α) :
    (map.insert key value).get? other = if other = key then some value else map.get? other :=
  lookup_upsert key other value map.entries

/-- Inserts the entries one after the other. -/
def ofList (entries : List (String × α)) : OrderedMap α :=
  entries.foldl (fun map entry => map.insert entry.1 entry.2) empty

/-- Entries without a repeated key are kept as they are. -/
theorem entries_ofList (nodup : (entries.map Prod.fst).Nodup) :
    (ofList entries).entries = entries := by
  have fold (done : OrderedMap α) (rest : List (String × α))
      (fresh : ((done.entries ++ rest).map Prod.fst).Nodup) :
      (rest.foldl (fun map entry => map.insert entry.1 entry.2) done).entries =
        done.entries ++ rest := by
    induction rest generalizing done with
    | nil => simp
    | cons entry rest ih =>
      have absent : entry.1 ∉ done.entries.map Prod.fst := by
        intro mem
        rw [List.map_append, List.nodup_append] at fresh
        exact fresh.2.2 entry.1 mem entry.1 (by simp) rfl
      have inserted : (done.insert entry.1 entry.2).entries = done.entries ++ [entry] :=
        upsert_of_not_mem entry.1 entry.2 done.entries absent
      have still_fresh :
          (((done.insert entry.1 entry.2).entries ++ rest).map Prod.fst).Nodup := by
        rw [inserted]
        simpa using fresh
      rw [List.foldl_cons, ih _ still_fresh, inserted]
      simp
  exact fold .empty entries nodup

/-- A map is made of its entries. -/
theorem ofList_entries (map : OrderedMap α) : ofList map.entries = map := by
  have same := entries_ofList map.nodup
  cases made : ofList map.entries with
  | mk entries nodup =>
    rw [made] at same
    cases map
    cases same
    rfl

end OrderedMap

end Componentry
