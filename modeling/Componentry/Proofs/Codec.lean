import Componentry.Component
import Componentry.Config
import Componentry.Proofs.Json.Levels
import Componentry.Proofs.TypeExpr.Codec

/-!
# Documents

Types, declarations, documentation tags, components and configurations are read
back from the documents that they are written as (`Codec.Faithful`). Reading is more
tolerant than writing is: fields may be missing or unknown, and keys, names and
entries of sets may be repeated. What such a document says is written in one form,
which is then kept.

The texts of these documents are read back as far as the limit on nested brackets
allows. Types can be nested more deeply than that, and since fields that are missing
are written, even a text that is within the limit may have a normal form that is not
(`deep_types_are_refused`).
-/

namespace Componentry

section

attribute [local simp] Json.asObject? Json.asString? Json.asBool? Json.fieldOpt? Json.flag?
  Json.field?_cons_self Json.field?_cons_ne Json.fieldOr?_cons_self Json.fieldOr?_cons_ne
  Json.nullable?_ofOption TypeExpr.ofJson?_toJson

theorem TypeExpr.toJson_ne_null (type : TypeExpr) : type.toJson ≠ .null := by
  rcases type.exists_fields with ⟨fields, document_eq⟩
  simp [document_eq]

@[simp]
theorem TypeExpr.nullable?_toJson (type : Option TypeExpr) :
    Json.nullable? TypeExpr.ofJson? ((type.map TypeExpr.toJson).getD .null) = some type :=
  Json.nullable?_getD TypeExpr.ofJson?_toJson TypeExpr.toJson_ne_null type

/-! ## Declarations -/

theorem TypeParam.ofJson?_toJson (param : TypeParam) : ofJson? param.toJson = some param := by
  simp [ofJson?, toJson]

theorem DeclarationKind.ofJson?_name (kind : DeclarationKind) :
    ofJson? (.string kind.name) = some kind := by
  cases kind <;> rfl

/-- A step that has read its part. Long sequences of steps are kept in the form of `>>=`, since
`simp` goes into both sides of each `Option.bind`. -/
theorem some_bind {α β : Type} (value : α) (next : α → Option β) :
    (some value >>= next) = next value :=
  rfl

theorem Declaration.ofJson?_toJson (declaration : Declaration) :
    ofJson? declaration.toJson = some declaration := by
  simp [-Option.bind_eq_bind, some_bind, ofJson?, toJson, DeclarationKind.ofJson?_name,
    Json.listOf?_array_map TypeParam.ofJson?_toJson, Json.listOf?_array_map Literal.ofJson?_toJson]

namespace TypeModel

theorem byName_ofList (declarations : List Declaration) :
    (ofList declarations).byName =
      .ofList (declarations.map fun declaration => (declaration.name, declaration)) := by
  have fold (model : TypeModel) :
      (declarations.foldl insert model).byName =
        (declarations.map fun declaration => (declaration.name, declaration)).foldl
          (fun map entry => map.insert entry.1 entry.2) model.byName := by
    induction declarations generalizing model with
    | nil => rfl
    | cons declaration rest ih => exact ih (model.insert declaration)
  exact fold empty

/-- A model is made of its declarations, because they are kept by their names. -/
theorem ofList_declarations (model : TypeModel) : ofList model.declarations = model := by
  have entries_eq : model.declarations.map (fun declaration => (declaration.name, declaration)) =
      model.byName.entries := by
    rw [declarations, OrderedMap.values, List.map_map]
    refine (List.map_congr_left ?_).trans (List.map_id _)
    intro entry mem
    exact Prod.ext (model.keyed entry mem).symm rfl
  have same := byName_ofList model.declarations
  rw [entries_eq, OrderedMap.ofList_entries] at same
  cases made : ofList model.declarations with
  | mk byName keyed =>
    rw [made] at same
    cases model
    cases same
    rfl

theorem ofJson?_toJson (model : TypeModel) : ofJson? model.toJson = some model := by
  simp [ofJson?, toJson, Json.listOf?_array_map Declaration.ofJson?_toJson, ofList_declarations]

end TypeModel

/-! ## Components -/

theorem Location.ofJson?_toJson (location : Location) :
    ofJson? location.toJson = some location := by
  simp [ofJson?, toJson, Json.asWord?]

theorem DocTags.ofJson?_toJson (docs : DocTags) : ofJson? docs.toJson = some docs := by
  have text_read (text : String) : Json.asString? (.string text) = some text := rfl
  simp [ofJson?, toJson, Json.mapOf?_object_map text_read]

theorem DynamicSlotKind.nullable?_key (kind : Option DynamicSlotKind) :
    Json.nullable? ofJson? (.ofOption (kind.map key)) = some kind := by
  cases kind with
  | none => rfl
  | some kind => cases kind <;> rfl

theorem Property.ofJson?_toJson (property : Property) :
    ofJson? property.toJson = some property := by
  simp [ofJson?, toJson, DynamicSlotKind.nullable?_key, DocTags.ofJson?_toJson]

theorem Event.ofJson?_toJson (event : Event) : ofJson? event.toJson = some event := by
  simp [ofJson?, toJson, DocTags.ofJson?_toJson]

theorem Slot.ofJson?_toJson (slot : Slot) : ofJson? slot.toJson = some slot := by
  simp [ofJson?, toJson, DocTags.ofJson?_toJson]

theorem MethodParam.ofJson?_toJson (param : MethodParam) : ofJson? param.toJson = some param := by
  simp [ofJson?, toJson, DocTags.ofJson?_toJson]

theorem Method.ofJson?_toJson (method : Method) : ofJson? method.toJson = some method := by
  simp [ofJson?, toJson, DocTags.ofJson?_toJson, Json.listOf?_array_map MethodParam.ofJson?_toJson]

theorem Component.ofJson?_toJson (component : Component) :
    ofJson? component.toJson = some component := by
  simp [-Option.bind_eq_bind, some_bind, ofJson?, toJson, mapToJson, Location.ofJson?_toJson,
    DocTags.ofJson?_toJson, Json.listOf?_array_map TypeParam.ofJson?_toJson,
    Json.mapOf?_object_map Property.ofJson?_toJson, Json.mapOf?_object_map Event.ofJson?_toJson,
    Json.mapOf?_object_map Slot.ofJson?_toJson, Json.mapOf?_object_map Method.ofJson?_toJson]

/-! ## Configurations -/

theorem OutputShape.ofCode?_code (shape : OutputShape) : ofCode? shape.code = some shape := by
  cases shape <;> rfl

namespace Config

theorem mem_disabledChecks_iff (config : Config) (category : CheckCategory) :
    category ∈ config.disabledChecks ↔ config.isDisabled category = true := by
  simp [disabledChecks, CheckCategory.mem_all]

theorem ofJson?_toJson (config : Config) : ofJson? config.toJson = some config := by
  have shape_read : (Json.string config.outputShape.code).asChoice?.bind OutputShape.ofCode? =
      some config.outputShape := OutputShape.ofCode?_code config.outputShape
  have checks_read : Json.listOf? (fun value => value.asChoice?.bind CheckCategory.ofCode?)
      (.strings (config.disabledChecks.map CheckCategory.code)) = some config.disabledChecks := by
    rw [Json.strings, List.map_map]
    apply Json.listOf?_array_map
    intro category
    exact CheckCategory.ofCode?_code category
  simp [ofJson?, toJson, Json.listOf?_strings, NameSet.ofList_toList, shape_read, checks_read,
    mem_disabledChecks_iff]

end Config

end

/-! ## Faithful codecs -/

/-- How values are written as documents and read from them. -/
structure Codec (α : Type) where
  write : α → Json
  read? : Json → Option α

namespace Codec

/-- How types are written and read. -/
def types : Codec TypeExpr := ⟨TypeExpr.toJson, TypeExpr.ofJson?⟩

/-- How components are written and read. -/
def components : Codec Component := ⟨Component.toJson, Component.ofJson?⟩

/-- How models are written and read. -/
def models : Codec TypeModel := ⟨TypeModel.toJson, TypeModel.ofJson?⟩

/-- How documentation tags are written and read. -/
def docs : Codec DocTags := ⟨DocTags.toJson, DocTags.ofJson?⟩

/-- How configurations are written and read. -/
def configs : Codec Config := ⟨Config.toJson, Config.ofJson?⟩

variable {α : Type} (codec : Codec α)

/-- Reads a document and writes what it says. -/
def normalize? (document : Json) : Option Json :=
  (codec.read? document).map codec.write

/-- Reads the text of a document. -/
def readText? (text : String) : Option α :=
  match Json.parse text with
  | .ok document => codec.read? document
  | .error _ => none

/-- Reads a text and writes what it says. -/
def normalizeText? (text : String) : Option String :=
  (codec.readText? text).map fun value => (codec.write value).compact

/-- Nothing is lost in a document, and a document that has been normalized stays as it is. The text
of a document is as good as the document if its fractions are read back and it is not nested too
deeply; if it is, the text is refused. -/
structure Faithful : Prop where
  read_write : ∀ value, codec.read? (codec.write value) = some value
  normalize_normal : ∀ document normal, codec.normalize? document = some normal →
    codec.normalize? normal = some normal
  read_text : ∀ value, (codec.write value).Legible →
    codec.readText? (codec.write value).compact =
      if (codec.write value).depth ≤ Json.maxLevels then some value else none
  normalize_text : ∀ text normal, codec.normalizeText? text = some normal →
    ∃ value, codec.readText? text = some value ∧ normal = (codec.write value).compact ∧
      ((codec.write value).Legible → codec.normalizeText? normal =
        if (codec.write value).depth ≤ Json.maxLevels then some normal else none)

variable {codec}

theorem readText?_compact {document : Json} (legible : document.Legible) :
    codec.readText? document.compact =
      if document.depth ≤ Json.maxLevels then codec.read? document else none := by
  have parse_iff := Json.parse_compact_eq_ok_iff legible
  rw [readText?]
  split
  · rename_i found parsed
    rcases (parse_iff found).1 parsed with ⟨rfl, within⟩
    rw [if_pos within]
  · rename_i failure refused
    rw [if_neg]
    intro within
    rw [(parse_iff document).2 ⟨rfl, within⟩] at refused
    cases refused

/-- A codec that reads back what it writes is faithful. -/
theorem faithful_of_read_write (inverts : ∀ value, codec.read? (codec.write value) = some value) :
    codec.Faithful := by
  have read_text (value : α) (legible : (codec.write value).Legible) :
      codec.readText? (codec.write value).compact =
        if (codec.write value).depth ≤ Json.maxLevels then some value else none := by
    rw [readText?_compact legible, inverts]
  refine ⟨inverts, ?_, read_text, ?_⟩
  · intro document normal normalized
    rcases Option.map_eq_some_iff.1 normalized with ⟨value, _, rfl⟩
    rw [normalize?, inverts, Option.map_some]
  · intro text normal normalized
    rcases Option.map_eq_some_iff.1 normalized with ⟨value, read, rfl⟩
    refine ⟨value, read, rfl, ?_⟩
    intro legible
    rw [normalizeText?, read_text value legible]
    split <;> rfl

/-- A legible document with few levels. -/
def Small (levels : Nat) (document : Json) : Prop :=
  document.Legible ∧ document.depth ≤ levels

theorem small_string (levels : Nat) (text : String) : Small levels (.string text) :=
  ⟨.string text, Nat.zero_le levels⟩

theorem small_ofOption (levels : Nat) (text : Option String) : Small levels (.ofOption text) := by
  cases text with
  | none => exact ⟨.null, Nat.zero_le levels⟩
  | some text => exact small_string levels text

theorem small_strings (levels : Nat) (texts : List String) :
    Small (levels + 1) (.strings texts) := by
  have inside : ∀ item ∈ texts.map Json.string, Small levels item := by
    simp [small_string]
  exact ⟨.array fun item mem => (inside item mem).1,
    Nat.succ_le_succ (Json.depthItems_le_iff.2 fun item mem => (inside item mem).2)⟩

theorem small_object {levels : Nat} {fields : List (String × Json)}
    (inside : ∀ field ∈ fields, Small levels field.2) : Small (levels + 1) (.object fields) :=
  ⟨.object fun field mem => (inside field mem).1,
    Nat.succ_le_succ (Json.depthFields_le_iff.2 fun field mem => (inside field mem).2)⟩

theorem small_docs (tags : DocTags) : Small Json.maxLevels (docs.write tags) := by
  apply small_object
  simp only [List.forall_mem_cons]
  refine ⟨small_ofOption _ _, small_ofOption _ _, small_ofOption _ _, small_ofOption _ _,
    small_ofOption _ _, small_object ?_, by simp⟩
  rw [List.forall_mem_map]
  exact fun entry _ => small_string _ _

theorem small_configs (config : Config) : Small Json.maxLevels (configs.write config) := by
  apply small_object
  simp only [List.forall_mem_cons]
  exact ⟨small_strings _ _, small_ofOption _ _, small_string _ _, small_strings _ _,
    small_strings _ _, by simp⟩

theorem Faithful.read_small_text (faithful : codec.Faithful) {value : α}
    (small : Small Json.maxLevels (codec.write value)) :
    codec.readText? (codec.write value).compact = some value := by
  rw [faithful.read_text value small.1, if_pos small.2]

/-- Types, components, models, documentation tags and configurations are written faithfully, and the
latter two are always read back from their texts. -/
theorem documents_faithful :
    types.Faithful ∧ components.Faithful ∧ models.Faithful ∧ docs.Faithful ∧ configs.Faithful ∧
      (∀ tags, docs.readText? (docs.write tags).compact = some tags) ∧
      ∀ config, configs.readText? (configs.write config).compact = some config := by
  have docs_faithful : docs.Faithful := faithful_of_read_write DocTags.ofJson?_toJson
  have configs_faithful : configs.Faithful := faithful_of_read_write Config.ofJson?_toJson
  refine ⟨?_, ?_, ?_, docs_faithful, configs_faithful, ?_, ?_⟩
  · exact faithful_of_read_write TypeExpr.ofJson?_toJson
  · exact faithful_of_read_write Component.ofJson?_toJson
  · exact faithful_of_read_write TypeModel.ofJson?_toJson
  · exact fun tags => docs_faithful.read_small_text (small_docs tags)
  · exact fun config => configs_faithful.read_small_text (small_configs config)

/-! ## Nested types -/

/-- The document of a type with lists of lists around it. -/
def listsAround : Nat → Json → Json
  | 0, inner => inner
  | count + 1, inner => TypeExpr.tagged .array [("element", listsAround count inner)]

/-- A type with lists of lists around it. -/
def arraysAround : Nat → TypeExpr → TypeExpr
  | 0, inner => inner
  | count + 1, inner => .array (arraysAround count inner)

theorem write_arraysAround (count : Nat) (inner : TypeExpr) :
    types.write (arraysAround count inner) = listsAround count inner.toJson := by
  induction count with
  | zero => rfl
  | succ count ih =>
    exact congrArg (fun element => TypeExpr.tagged .array [("element", element)]) ih

theorem depth_listsAround (count : Nat) (inner : Json) :
    (listsAround count inner).depth = inner.depth + count := by
  induction count with
  | zero => rfl
  | succ count ih =>
    simp only [listsAround, TypeExpr.tagged, Json.depth, Json.depthFields, ih]
    omega

theorem legible_listsAround (count : Nat) {inner : Json} (legible : inner.Legible) :
    (listsAround count inner).Legible := by
  induction count with
  | zero => exact legible
  | succ count ih =>
    apply Json.Legible.object
    simp only [List.forall_mem_cons]
    exact ⟨.string _, ih, by simp⟩

theorem decode_listsAround (count : Nat) {inner : Json} {type : TypeExpr}
    (read : ∀ nested, TypeExpr.decode nested inner = some type) (nested : Bool) :
    TypeExpr.decode nested (listsAround count inner) = some (arraysAround count type) := by
  induction count generalizing nested with
  | zero => exact read nested
  | succ count ih => rw [listsAround, TypeExpr.decode_array, ih, Option.map_some, arraysAround]

/-- A reference without the field for its arguments. -/
def bareReference : Json :=
  TypeExpr.tagged .reference [("name", .string "Node")]

/-- A type with too many lists around it is not read back from its text, and a text with as many
levels as can be read has a normal form that cannot be read. -/
theorem deep_types_are_refused :
    types.readText? (types.write (arraysAround 127 .any)).compact = none ∧
      ∃ text normal, types.normalizeText? text = some normal ∧
        types.normalizeText? normal = none := by
  have any_legible : (TypeExpr.toJson .any).Legible := .object (by simp [Json.Legible.string])
  have bare_legible : bareReference.Legible := .object (by simp [Json.Legible.string])
  have full_legible : (TypeExpr.toJson (.reference "Node" [])).Legible := by
    apply Json.Legible.object
    simp only [List.forall_mem_cons]
    exact ⟨.string _, .string _, .array (by simp [TypeExpr.toJsonAll]), by simp⟩
  have bare_read : types.read? (listsAround 126 bareReference) =
      some (arraysAround 126 (.reference "Node" [])) :=
    decode_listsAround 126 (fun nested => TypeExpr.decode_reference nested "Node") false
  refine ⟨?_, (listsAround 126 bareReference).compact,
    (types.write (arraysAround 126 (.reference "Node" []))).compact, ?_, ?_⟩
  · rw [write_arraysAround, readText?_compact (legible_listsAround 127 any_legible),
      depth_listsAround]
    rfl
  · rw [normalizeText?, readText?_compact (legible_listsAround 126 bare_legible),
      depth_listsAround, if_pos (by decide), bare_read]
    rfl
  · rw [write_arraysAround, normalizeText?,
      readText?_compact (legible_listsAround 126 full_legible), depth_listsAround]
    rfl

theorem Faithful.exists_normal (faithful : codec.Faithful) {document : Json} {text : String}
    (normalized : (codec.normalize? document).map Json.compact = some text) :
    ∃ normal, codec.normalize? document = some normal ∧ normal.compact = text ∧
      codec.normalize? normal = some normal := by
  rcases Option.map_eq_some_iff.1 normalized with ⟨normal, made, text_eq⟩
  exact ⟨normal, made, text_eq, faithful.normalize_normal document normal made⟩

/-- A model with a key that no model has, with missing fields and with two declarations
of one name. -/
def redeclared : Json :=
  .object [("version", .number (.integer 2)),
    ("declarations", .array [
      .object [("name", .string "Size"), ("kind", .string "alias")],
      .object [("kind", .string "enum"), ("enumValues", .array [.number (.integer 4)]),
        ("name", .string "Size")]])]

/-- Tags of which one is given twice. -/
def retagged : Json :=
  .object [("tags", .object [("see", .string "a"), ("todo", .string "b"), ("see", .string "c")])]

/-- A configuration whose sets are unsorted and repeat their entries. -/
def unsorted : Json :=
  .object [("well-known-types", .strings ["Ref", "Node", "Ref"]),
    ("disabled-checks", .strings ["deprecated-type", "writeback", "deprecated-type"])]

def fourAndHalf : Double :=
  ⟨false, ⟨1025, by decide⟩, ⟨562949953421312, by decide⟩⟩

/-- Irregular documents have normal forms, and a fraction is read back from its text, with as many
lists around it as can be read. -/
theorem documents_faithful_irregular :
    (∃ normal, models.normalize? redeclared = some normal ∧ normal.compact =
        "\x7b\"declarations\":[\x7b\"name\":\"Size\",\"kind\":\"enum\",\"typeParams\":[]," ++
        "\"body\":\x7b\"kind\":\"any\"\x7d,\"enumValues\":[4.0],\"exported\":false," ++
        "\"library\":false,\"deprecated\":null,\"source\":null\x7d]\x7d" ∧
      models.normalize? normal = some normal) ∧
    (∃ normal, docs.normalize? retagged = some normal ∧ normal.compact =
        "\x7b\"description\":null,\"deprecated\":null,\"since\":null,\"default\":null," ++
        "\"displayName\":null,\"tags\":\x7b\"see\":\"c\",\"todo\":\"b\"\x7d\x7d" ∧
      docs.normalize? normal = some normal) ∧
    (∃ normal, configs.normalize? unsorted = some normal ∧ normal.compact =
        "\x7b\"excluded-modules\":[],\"legacy-name-threshold\":null," ++
        "\"output-shape\":\"single-component\"," ++
        "\"disabled-checks\":[\"writeback\",\"deprecated-type\"]," ++
        "\"well-known-types\":[\"Node\",\"Ref\"]\x7d" ∧
      configs.normalize? normal = some normal) ∧
    types.readText? (types.write (arraysAround 126 (.literal (.number fourAndHalf)))).compact =
      some (arraysAround 126 (.literal (.number fourAndHalf))) := by
  refine ⟨?_, ?_, ?_, ?_⟩
  · exact documents_faithful.2.2.1.exists_normal (by decide +kernel)
  · exact documents_faithful.2.2.2.1.exists_normal (by decide +kernel)
  · exact documents_faithful.2.2.2.2.1.exists_normal (by decide +kernel)
  · have legible : (types.write (arraysAround 126 (.literal (.number fourAndHalf)))).Legible := by
      rw [write_arraysAround]
      apply legible_listsAround
      apply Json.Legible.object
      simp only [List.forall_mem_cons]
      exact ⟨.string _, .float (by decide +kernel), by simp⟩
    rw [documents_faithful.1.read_text _ legible, write_arraysAround, depth_listsAround]
    rfl

end Codec

end Componentry
