import Componentry.Proofs.Json.Reading

/-!
# Levels of nested documents

Reading counts the brackets that are open and refuses a text with too many of them. A text that is
read with some levels is read in the same way with one level more, and what is read has no more
levels than that (`extends_readValue`): the limit refuses texts, but it changes nothing in those
that it lets pass. So the text of a document is read back exactly if the document is not nested more
deeply than the limit allows, and otherwise it is refused (`parse_compact_eq_ok_iff`).
-/

namespace Componentry.Json

variable {value : Json} {length levels : Nat} {after : Cursor}

/-! ## Readings that agree -/

/-- Whatever was found the first time is found the second time too, and it has the property. -/
def Extends {α : Type} (Holds : α → Prop) (found further : Except Failure (α × Cursor)) : Prop :=
  ∀ value after, found = .ok (value, after) → further = .ok (value, after) ∧ Holds value

namespace Extends

variable {α β : Type} {Holds : α → Prop} {Then : β → Prop}
  {found further : Except Failure (α × Cursor)}

theorem error (failure : Failure) : Extends Holds (.error failure) further := by
  intro value after same
  cases same

theorem ok {value : α} (holds : Holds value) (after : Cursor) :
    Extends Holds (.ok (value, after)) (.ok (value, after)) := by
  intro value after same
  cases same
  exact ⟨rfl, holds⟩

theorem bind {next nextFurther : α × Cursor → Except Failure (β × Cursor)}
    (extended : Extends Holds found further)
    (continued : ∀ value after, Holds value →
      Extends Then (next (value, after)) (nextFurther (value, after))) :
    Extends Then (found >>= next) (further >>= nextFurther) := by
  cases found with
  | error failure => exact error failure
  | ok pair =>
    rcases extended pair.1 pair.2 rfl with ⟨rfl, holds⟩
    exact continued pair.1 pair.2 holds

theorem map (extended : Extends Holds found further) (make : α → β)
    (makes : ∀ value, Holds value → Then (make value)) :
    Extends Then (found.map fun found => (make found.1, found.2))
      (further.map fun found => (make found.1, found.2)) := by
  cases found with
  | error failure => exact error failure
  | ok pair =>
    rcases extended pair.1 pair.2 rfl with ⟨rfl, holds⟩
    exact ok (makes _ holds) _

theorem refl (found : Except Failure (α × Cursor)) : Extends (fun _ => True) found found :=
  fun _ _ same => ⟨same, trivial⟩

end Extends

/-! ## Reading with more levels -/

/-- A value that is nested no deeper than this. -/
def FitsIn (levels : Nat) (value : Json) : Prop :=
  value.depth ≤ levels

theorem extends_readItems {item further : Cursor → Except Failure (Json × Cursor)}
    (extended : ∀ cursor, Extends (FitsIn levels) (item cursor) (further cursor)) (bound : Nat)
    {done : List Json} (shallow : ∀ value ∈ done, FitsIn levels value) (cursor : Cursor) :
    Extends (∀ value ∈ ·, FitsIn levels value) (readItems item bound done cursor)
      (readItems further bound done cursor) := by
  induction bound generalizing done cursor with
  | zero => exact .error _
  | succ bound ih =>
    have continued (value : Json) (after : Cursor) (within : FitsIn levels value) :=
      ih (List.forall_mem_cons.2 ⟨within, shallow⟩) after
    rw [readItems, readItems]
    dsimp only
    split
    · exact .error _
    · exact .ok (by simpa using shallow) _
    · split
      · exact (extended _).bind continued
      · split
        · split
          · exact .error _
          · exact .error _
          · exact (extended _).bind continued
        · exact .error _

section

variable {item further : Shape → Cursor → Except Failure (Json × Cursor)}

theorem extends_readKnown
    (extended : ∀ shape cursor, Extends (FitsIn levels) (item shape cursor) (further shape cursor))
    (length : Nat) (key : String) (shape : Option Shape) (cursor : Cursor) :
    Extends (∀ field ∈ ·, FitsIn levels field.2) (readKnown length item key shape cursor)
      (readKnown length further key shape cursor) := by
  cases shape with
  | none =>
    rw [readKnown, readKnown]
    cases skipValue length cursor with
    | error failure => exact .error failure
    | ok after => exact .ok (by simp) after
  | some shape =>
    apply (extended shape cursor).map fun value => some (key, value)
    intro value within
    simpa using within

theorem extends_readField
    (extended : ∀ shape cursor, Extends (FitsIn levels) (item shape cursor) (further shape cursor))
    (length : Nat) (shape : Shape) (cursor : Cursor) :
    Extends (∀ field ∈ ·, FitsIn levels field.2) (readField length shape item cursor)
      (readField length shape further cursor) := by
  apply (Extends.refl (readStringFrom [] (cursor.rest.drop 1) (cursor.index + 1))).bind
  intro key after _
  dsimp only
  split
  · exact .error _
  · exact extends_readKnown extended _ _ _ _
  · exact .error _

theorem extends_readFields
    (extended : ∀ shape cursor, Extends (FitsIn levels) (item shape cursor) (further shape cursor))
    (length : Nat) (shape : Shape) (bound : Nat) (first : Bool) {done : List (String × Json)}
    (shallow : ∀ field ∈ done, FitsIn levels field.2) (cursor : Cursor) :
    Extends (∀ field ∈ ·, FitsIn levels field.2)
      (readFields length shape item bound first done cursor)
      (readFields length shape further bound first done cursor) := by
  have field_extended := extends_readField extended length shape
  induction bound generalizing first done cursor with
  | zero => exact .error _
  | succ bound ih =>
    have continued (field : Option (String × Json)) (after : Cursor)
        (within : ∀ known ∈ field, FitsIn levels known.2) :
        Extends (∀ field ∈ ·, FitsIn levels field.2)
          (readFields length shape item bound false (field.toList ++ done) after)
          (readFields length shape further bound false (field.toList ++ done) after) := by
      apply ih
      exact List.forall_mem_append.2 ⟨by simpa using within, shallow⟩
    rw [readFields, readFields]
    dsimp only
    split
    · exact .error _
    · exact .ok (by simpa using shallow) _
    · split
      · split
        · exact (field_extended _).bind continued
        · exact .error _
      · split
        · split
          · exact .error _
          · exact (field_extended _).bind continued
          · exact .error _
          · exact .error _
        · exact .error _

/-- A value is nested one level deeper than the values that are read inside of it. -/
theorem extends_readWith {nested : Option (Shape → Cursor → Except Failure (Json × Cursor))}
    (extended : ∀ item, nested = some item → ∃ less, levels = less + 1 ∧
      ∀ shape cursor, Extends (FitsIn less) (item shape cursor) (further shape cursor))
    (length : Nat) (shape : Shape) (cursor : Cursor) :
    Extends (FitsIn levels) (readWith length nested shape cursor)
      (readWith length (some further) shape cursor) := by
  have flat {α : Type} (make : α → Json) (level : ∀ value, (make value).depth = 0)
      (found : Except Failure (α × Cursor)) :
      Extends (FitsIn levels) (found.map fun found => (make found.1, found.2))
        (found.map fun found => (make found.1, found.2)) := by
    apply (Extends.refl found).map make
    intro value _
    rw [FitsIn, level]
    exact Nat.zero_le levels
  unfold readWith
  dsimp only
  split
  · exact .error _
  · exact flat (fun _ => .null) (fun _ => rfl) _
  · exact flat (fun _ => .bool true) (fun _ => rfl) _
  · exact flat (fun _ => .bool false) (fun _ => rfl) _
  · exact flat .string (fun _ => rfl) _
  · exact flat .number (fun _ => rfl) _
  · cases nested with
    | none => exact .error _
    | some item =>
      rcases extended item rfl with ⟨less, rfl, within⟩
      apply (extends_readItems (within _) _ (by simp) _).map Json.array
      intro items shallow
      exact Nat.succ_le_succ (depthItems_le_iff.2 shallow)
  · cases nested with
    | none => exact .error _
    | some item =>
      rcases extended item rfl with ⟨less, rfl, within⟩
      apply (extends_readFields within _ _ _ _ (by simp) _).map Json.object
      intro fields shallow
      exact Nat.succ_le_succ (depthFields_le_iff.2 shallow)
  · split
    · exact flat .number (fun _ => rfl) _
    · exact .error _

end

/-- What is read with some levels is read with one more, and it is nested no deeper than that. -/
theorem extends_readValue (length levels : Nat) (shape : Shape) (cursor : Cursor) :
    Extends (FitsIn levels) (readValue length levels shape cursor)
      (readValue length (levels + 1) shape cursor) := by
  induction levels generalizing shape cursor with
  | zero =>
    apply extends_readWith
    simp
  | succ levels ih =>
    apply extends_readWith
    intro item same
    cases same
    exact ⟨levels, rfl, ih⟩

theorem readValue_add {shape : Shape} {cursor : Cursor} (extra : Nat)
    (read : readValue length levels shape cursor = .ok (value, after)) :
    readValue length (levels + extra) shape cursor = .ok (value, after) := by
  induction extra with
  | zero => exact read
  | succ extra ih => exact (extends_readValue length (levels + extra) shape cursor _ _ ih).1

/-! ## Texts of documents -/

/-- Whatever is read from a text is nested within the limit. -/
theorem depth_le_of_parse {text : String} (parsed : parse text = .ok value) :
    value.depth ≤ maxLevels := by
  rcases of_parse parsed with ⟨after, read, _⟩
  exact (extends_readValue _ _ _ _ _ _ read).2

/-- The text of a document is read as this document, as long as it is within the limit, and
otherwise not at all. -/
theorem parse_compact_eq_ok_iff (legible : value.Legible) (found : Json) :
    parse value.compact = .ok found ↔ found = value ∧ value.depth ≤ maxLevels := by
  constructor
  · intro parsed
    have within := depth_le_of_parse parsed
    rcases of_parse parsed with ⟨after, read, _⟩
    -- With enough levels for the document, the same text is read as the document.
    have further := readValue_add value.depth read
    have expected := (reads_textOf legible (Nat.le_add_left value.depth maxLevels)
      (Nat.le_refl _)).reads [] 0 ends_nil
    rcases expected with ⟨stop, expected⟩
    rw [List.append_nil, textOf, further] at expected
    cases expected
    exact ⟨rfl, within⟩
  · rintro ⟨rfl, within⟩
    apply parse_of_readValue
    have read := (reads_textOf legible within (Nat.le_refl _)).reads [] 0 ends_nil
    rwa [List.append_nil] at read

end Componentry.Json
