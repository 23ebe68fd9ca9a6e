import Componentry.Proofs.Metadata.Containment

/-!
# Values with tags added

Documentation tags that are passed on become fields of the same objects that the
fields of the projection stand in. One value is another one with tags added
(`Json.Tagged`) if at every place a field of the second is a field of the first,
with the same value or with one that has tags added, and any other field is the
text of a tag of its name.

Objects are built by putting fields one after the other. `FieldsTagged` is the
relation between the fields put so far, with the tags that were put among them.
-/

namespace Componentry

namespace Json

/-- A step into a value: to a field of an object, or to an item of an array. -/
inductive Step where
  | key (name : String)
  | item (index : Nat)
deriving DecidableEq, Repr

def step? : Step → Json → Option Json
  | .key name, value => value.get? name
  | .item index, .array items => items[index]?
  | .item _, _ => none

/-- The value that steps lead to. -/
def at? : List Step → Json → Option Json
  | [], value => some value
  | step :: way, value => (value.step? step).bind (at? way)

/-- Whether the value is neither an array nor an object. -/
def isScalar : Json → Bool
  | .array _ => false
  | .object _ => false
  | _ => true

/-- The second value is the first one with tags added, those of each object at its place. -/
inductive Tagged : (List Step → OrderedMap String) → Json → Json → Prop
  | same {tags : List Step → OrderedMap String} (untagged : ∀ way, tags way = .empty)
      (value : Json) : Tagged tags value value
  | array {tags : List Step → OrderedMap String} {items others : List Json}
      (length : items.length = others.length)
      (each : ∀ (index : Nat) (item other : Json), items[index]? = some item →
        others[index]? = some other → Tagged (fun way => tags (.item index :: way)) item other) :
      Tagged tags (.array items) (.array others)
  | object {tags : List Step → OrderedMap String} {bare full : List (String × Json)}
      (kept : ∀ key value, lookup key bare = some value → (lookup key full).isSome = true)
      (written : ∀ key value shown, lookup key bare = some value → lookup key full = some shown →
        Tagged (fun way => tags (.key key :: way)) value shown)
      (unwritten : ∀ key, lookup key bare = none →
        lookup key full = ((tags []).get? key).map .string) :
      Tagged tags (.object bare) (.object full)

variable {tags : List Step → OrderedMap String} {bare full : Json}

theorem Tagged.step? (tagged : Tagged tags bare full) {step : Step} {value : Json}
    (found : bare.step? step = some value) :
    ∃ shown, full.step? step = some shown ∧ Tagged (fun way => tags (step :: way)) value shown := by
  cases tagged with
  | same untagged => exact ⟨value, found, .same (fun way => untagged (step :: way)) value⟩
  | @array _ items others length each =>
    cases step with
    | key name => cases found
    | item index =>
      have item_found : items[index]? = some value := found
      have inside : index < others.length := by
        rw [← length]
        exact (List.getElem?_eq_some_iff.1 item_found).1
      exact ⟨others[index], List.getElem?_eq_getElem inside,
        each index value _ item_found (List.getElem?_eq_getElem inside)⟩
  | @object _ bare full kept written unwritten =>
    cases step with
    | item index => cases found
    | key name =>
      rcases Option.isSome_iff_exists.1 (kept name value found) with ⟨shown, shown_found⟩
      exact ⟨shown, shown_found, written name value shown found shown_found⟩

/-- By induction on the way. -/
theorem Tagged.at? (tagged : Tagged tags bare full) {way : List Step} {value : Json}
    (found : bare.at? way = some value) :
    ∃ shown, full.at? way = some shown ∧ Tagged (fun rest => tags (way ++ rest)) value shown := by
  induction way generalizing tags bare full with
  | nil =>
    cases found
    exact ⟨full, rfl, tagged⟩
  | cons step way ih =>
    rw [Json.at?, Option.bind_eq_some_iff] at found
    rcases found with ⟨inner, inner_found, rest_found⟩
    rcases tagged.step? inner_found with ⟨inner_shown, inner_shown_found, inner_tagged⟩
    rcases ih inner_tagged rest_found with ⟨shown, shown_found, shown_tagged⟩
    refine ⟨shown, ?_, shown_tagged⟩
    rw [Json.at?, inner_shown_found, Option.bind_some, shown_found]

/-- What is added to a value itself, without what is added below it: an object gets the tags that
are called otherwise than its fields. -/
structure LevelTagged (tags : OrderedMap String) (bare full : Json) : Prop where
  scalar : bare.isScalar = true → full = bare
  items : ∀ items, bare = .array items → ∃ others, full = .array others ∧
    others.length = items.length
  fields : ∀ fields, bare = .object fields → ∃ others, full = .object others ∧
    ∀ key, ((lookup key fields).isSome = true → (lookup key others).isSome = true) ∧
      (lookup key fields = none → lookup key others = (tags.get? key).map .string)

theorem Tagged.level (tagged : Tagged tags bare full) : LevelTagged (tags []) bare full := by
  cases tagged with
  | same untagged =>
    rw [untagged []]
    exact ⟨fun _ => rfl, fun items bare_eq => ⟨items, bare_eq, rfl⟩,
      fun fields bare_eq => ⟨fields, bare_eq, fun key => ⟨id, id⟩⟩⟩
  | @array _ _ others length each =>
    refine ⟨nofun, ?_, nofun⟩
    rintro items bare_eq
    cases bare_eq
    exact ⟨others, rfl, length.symm⟩
  | @object _ _ others kept written unwritten =>
    refine ⟨nofun, nofun, ?_⟩
    rintro fields bare_eq
    cases bare_eq
    refine ⟨others, rfl, fun key => ⟨?_, unwritten key⟩⟩
    intro present
    rcases Option.isSome_iff_exists.1 present with ⟨value, found⟩
    exact kept key value found

end Json

open Json (Step Tagged)

/-! ## Fields -/

/-- The second fields are the first ones with tags added: `own` are put among the fields, `inner`
inside the values. -/
structure FieldsTagged (own : OrderedMap String) (inner : String → List Step → OrderedMap String)
    (bare full : Fields) : Prop where
  written : ∀ key value, lookup key bare = some value →
    ∃ shown, lookup key full = some shown ∧ Tagged (inner key) value shown
  unwritten : ∀ key, lookup key bare = none → lookup key full = (own.get? key).map .string

theorem Annotations.lookup_addTo_eq (docs : Annotations) (out : Fields) (key : String) :
    lookup key (docs.addTo out) =
      (lookup key (out.putAll docs.fields)).or ((docs.tags.get? key).map .string) := by
  have tagged (tags : List (String × String)) (fields : Fields) :
      lookup key (tags.foldl (fun (out : Fields) tag => out.putNew tag.1 (.string tag.2)) fields) =
        (lookup key fields).or ((lookup key tags).map .string) := by
    induction tags generalizing fields with
    | nil => simp [lookup]
    | cons entry rest ih =>
      rw [List.foldl_cons, ih, lookup_cons, Fields.putNew]
      split
      · rename_i present
        by_cases same : entry.1 = key
        · subst same
          rcases Option.isSome_iff_exists.1 present with ⟨value, found⟩
          rw [found, Option.some_or, Option.some_or]
        · rw [if_neg same]
      · rw [lookup_append, lookup_cons]
        by_cases same : entry.1 = key
        · rw [if_pos same, if_pos same, Option.or_assoc]
          rfl
        · rw [if_neg same, if_neg same, Option.or_assoc]
          rfl
  exact tagged docs.tags.entries _

/-- The documentation without the tags that are passed on. -/
def Annotations.withoutTags (docs : Annotations) : Annotations :=
  { docs with tags := .empty }

namespace FieldsTagged

variable {own : OrderedMap String} {inner : String → List Step → OrderedMap String}
  {bare full additions others : Fields}

theorem upsert {key : String} {value shown : Json} (tagged : FieldsTagged own inner bare full)
    (value_tagged : Tagged (inner key) value shown) :
    FieldsTagged own inner (upsert key value bare) (Componentry.upsert key shown full) := by
  constructor
  · intro other found_value found
    rw [lookup_upsert] at found ⊢
    split at found
    · rename_i same
      cases found
      rw [if_pos same]
      subst same
      exact ⟨shown, rfl, value_tagged⟩
    · rename_i different
      rw [if_neg different]
      exact tagged.written other found_value found
  · intro other absent
    rw [lookup_upsert] at absent ⊢
    split at absent
    · cases absent
    · rename_i different
      rw [if_neg different]
      exact tagged.unwritten other absent

theorem putAll (tagged : FieldsTagged own inner bare full)
    (each : List.Forall₂ (fun field other => field.1 = other.1 ∧
      Tagged (inner field.1) field.2 other.2) additions others) :
    FieldsTagged own inner (bare.putAll additions) (full.putAll others) := by
  induction each generalizing bare full with
  | nil => exact tagged
  | @cons field other additions others here _ ih =>
    rcases field with ⟨key, value⟩
    rcases other with ⟨otherKey, shown⟩
    rcases here with ⟨same, value_tagged⟩
    cases same
    exact ih (tagged.upsert value_tagged)

theorem putAll_same {keys : List String} (tagged : FieldsTagged own inner bare full)
    (additions_in : Fields.KeysIn keys additions)
    (untagged : ∀ key ∈ keys, ∀ way, inner key way = .empty) :
    FieldsTagged own inner (bare.putAll additions) (full.putAll additions) := by
  apply tagged.putAll
  rw [List.forall₂_same]
  intro field mem
  exact ⟨rfl, .same (untagged field.1 (additions_in field.1 (List.mem_map_of_mem mem))) field.2⟩

theorem same {keys : List String} (fields_in : Fields.KeysIn keys bare)
    (untagged : ∀ key ∈ keys, ∀ way, inner key way = .empty) :
    FieldsTagged .empty inner bare bare := by
  constructor
  · intro key value found
    exact ⟨value, found, .same (untagged key (fields_in.mem_of_lookup found)) value⟩
  · intro key absent
    exact absent

theorem of_forall₂
    (each : List.Forall₂ (fun field other => field.1 = other.1 ∧
      Tagged (inner field.1) field.2 other.2) bare full) :
    FieldsTagged .empty inner bare full := by
  induction each with
  | nil => exact .same (@Fields.keysIn_nil []) nofun
  | @cons field other bare full here _ ih =>
    rcases field with ⟨key, value⟩
    rcases other with ⟨otherKey, shown⟩
    rcases here with ⟨same, value_tagged⟩
    cases same
    constructor
    · intro found_key found_value found
      rw [lookup_cons] at found ⊢
      split at found
      · rename_i found_here
        cases found
        cases found_here
        rw [if_pos rfl]
        exact ⟨shown, rfl, value_tagged⟩
      · rename_i found_later
        rw [if_neg found_later]
        exact ih.written found_key found_value found
    · intro found_key absent
      rw [lookup_cons] at absent ⊢
      split at absent
      · cases absent
      · rename_i later
        rw [if_neg later]
        exact ih.unwritten found_key absent

/-- Documentation puts its tags among the fields. -/
theorem addTo (tagged : FieldsTagged .empty inner bare full) (docs : Annotations)
    (untagged : ∀ key ∈ Annotations.keys, ∀ way, inner key way = .empty) :
    FieldsTagged docs.tags inner (docs.withoutTags.addTo bare) (docs.addTo full) := by
  have documented := tagged.putAll_same docs.keysIn_fields untagged
  have bare_eq (key : String) :
      lookup key (docs.withoutTags.addTo bare) = lookup key (bare.putAll docs.fields) := by
    rw [Annotations.lookup_addTo_eq]
    exact Option.or_none
  constructor
  · intro key value found
    rw [bare_eq] at found
    rcases documented.written key value found with ⟨shown, shown_found, value_tagged⟩
    refine ⟨shown, ?_, value_tagged⟩
    rw [docs.lookup_addTo_eq, shown_found, Option.some_or]
  · intro key absent
    rw [bare_eq] at absent
    have untold : lookup key (full.putAll docs.fields) = none := documented.unwritten key absent
    rw [docs.lookup_addTo_eq, untold, Option.none_or]

theorem object {tags : List Step → OrderedMap String}
    (tagged : FieldsTagged (tags []) (fun key way => tags (.key key :: way)) bare full) :
    Tagged tags (.object bare) (.object full) := by
  refine .object ?_ ?_ tagged.unwritten
  · intro key value found
    rcases tagged.written key value found with ⟨shown, shown_found, _⟩
    rw [shown_found]
    rfl
  · intro key value shown found shown_found
    rcases tagged.written key value found with ⟨other, other_found, value_tagged⟩
    rw [shown_found] at other_found
    cases other_found
    exact value_tagged

end FieldsTagged

end Componentry
