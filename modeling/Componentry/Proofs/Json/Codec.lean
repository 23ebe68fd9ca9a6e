import Componentry.Json.Decode

/-!
# Parts of documents are read back

What a record, a list, a map or a value that may be missing is read as, if it was
written from values that are read back themselves.
-/

namespace Componentry.Json

/-! ## Fields of records -/

theorem occurrences_of_not_mem {key : String} {fields : List (String × Json)}
    (absent : key ∉ fields.map Prod.fst) : occurrences key fields = [] := by
  induction fields with
  | nil => rfl
  | cons field rest ih =>
    rw [List.map_cons, List.mem_cons, not_or] at absent
    rcases field with ⟨name, value⟩
    rw [occurrences, if_neg (Ne.symm absent.1), ih absent.2]
    rfl

section

variable {α : Type} {key name : String} {value : Json} {rest : List (String × Json)}

theorem field?_cons_self (decode : Json → Option α) (absent : key ∉ rest.map Prod.fst) :
    field? key ((key, value) :: rest) decode = decode value := by
  simp [field?, required, occurrences, occurrences_of_not_mem absent]

theorem field?_cons_ne (decode : Json → Option α) (other : name ≠ key) :
    field? key ((name, value) :: rest) decode = field? key rest decode := by
  rw [field?, field?, required, required, occurrences, if_neg other]
  rcases occurrences key rest with _ | ⟨first, _ | ⟨second, more⟩⟩
  · rfl
  · rfl
  · rfl

theorem fieldOr?_cons_self (fallback : α) (decode : Json → Option α)
    (absent : key ∉ rest.map Prod.fst) :
    fieldOr? key ((key, value) :: rest) fallback decode = decode value := by
  simp [fieldOr?, optional, occurrences, occurrences_of_not_mem absent]

theorem fieldOr?_cons_ne (fallback : α) (decode : Json → Option α) (other : name ≠ key) :
    fieldOr? key ((name, value) :: rest) fallback decode = fieldOr? key rest fallback decode := by
  rw [fieldOr?, fieldOr?, optional, optional, occurrences, if_neg other]
  rcases occurrences key rest with _ | ⟨first, _ | ⟨second, more⟩⟩
  · rfl
  · rfl
  · rfl

end

/-! ## Lists, maps and missing values -/

variable {α : Type} {encode : α → Json} {decode : Json → Option α}

theorem mapM_map_eq_some {β γ : Type} {write : β → γ} {read : γ → Option β}
    (inverts : ∀ item, read (write item) = some item) (items : List β) :
    (items.map write).mapM read = some items := by
  induction items with
  | nil => rfl
  | cons item rest ih => simp [List.mapM_cons, inverts, ih]

theorem listOf?_array_map (inverts : ∀ value, decode (encode value) = some value)
    (items : List α) : listOf? decode (.array (items.map encode)) = some items := by
  rw [listOf?, asArray?, Option.bind_eq_bind, Option.bind_some]
  exact mapM_map_eq_some inverts items

theorem listOf?_strings (texts : List String) :
    listOf? asString? (strings texts) = some texts := by
  apply listOf?_array_map
  intro text
  rfl

theorem mapOf?_object_map (inverts : ∀ value, decode (encode value) = some value)
    {write : String × α → String × Json}
    (keeps : ∀ key item, write (key, item) = (key, encode item))
    (map : OrderedMap α) : mapOf? decode (.object (map.entries.map write)) = some map := by
  rw [mapOf?, asObject?, Option.bind_eq_bind, Option.bind_some, mapM_map_eq_some,
    Option.bind_eq_bind, Option.bind_some, OrderedMap.ofList_entries]
  · rfl
  · rintro ⟨key, item⟩
    rw [keeps]
    dsimp only
    rw [inverts, Option.map_some]

theorem nullable?_getD (inverts : ∀ value, decode (encode value) = some value)
    (present : ∀ value, encode value ≠ .null) (value : Option α) :
    nullable? decode ((value.map encode).getD .null) = some value := by
  cases value with
  | none => rfl
  | some value =>
    rw [Option.map_some, Option.getD_some, nullable?]
    · rw [inverts]
      rfl
    · exact present value

theorem nullable?_ofOption (text : Option String) :
    nullable? asString? (ofOption text) = some text := by
  cases text with
  | none => rfl
  | some text => rfl

end Componentry.Json
