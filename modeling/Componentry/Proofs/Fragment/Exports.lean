import Componentry.Proofs.Fragment.Layout
import Componentry.Proofs.Session.Modules
import Componentry.Proofs.Statement.Exports
import Componentry.Proofs.Statement.Merge
import Componentry.Proofs.Text.Ascii
import Componentry.Proofs.Text.Pieces

/-!
# What declaration fragments export

A fragment is a text of lines, and the scan for exported declarations looks at the
start of each line. If no name, printed type or note breaks its line, only the
lines that are meant to export something do. Descriptions may have any number of
lines, since each line of a comment starts with a star or with the opening of the
comment.
-/

namespace Componentry

open Pattern (isNameChar)
open Statement (Declares Silent)
open Text (IsLine toNat_lt_of_isAlphanum)

/-! ## Names -/

theorem isNameChar_of_isAlphanum {c : Char} (alphanum : c.isAlphanum = true) :
    isNameChar c = true := by
  rw [isNameChar, Text.isWord, if_pos (toNat_lt_of_isAlphanum alphanum), Text.isAsciiWord, alphanum]
  rfl

theorem isAlphanum_toUpper {c : Char} (alphanum : c.isAlphanum = true) :
    c.toUpper.isAlphanum = true :=
  Text.of_isAlphanum (p := fun c => c.toUpper.isAlphanum) (by decide +kernel) alphanum

/-- A text that may be a name or a part of one. -/
def Named (text : String) : Prop :=
  ∀ c ∈ text.toList, isNameChar c = true

theorem Named.append {left right : String} (left_named : Named left) (right_named : Named right) :
    Named (left ++ right) := by
  intro c mem
  rw [String.toList_append, List.mem_append] at mem
  rcases mem with here | there
  · exact left_named c here
  · exact right_named c there

variable {text name : String}

theorem Named.no_feed (named : Named text) : '\n' ∉ text.toList := by
  intro mem
  have := named _ mem
  revert this
  decide

theorem named_of_all (all : text.toList.all isNameChar = true) : Named text :=
  List.all_eq_true.1 all

theorem named_pascalCase {tag : String}
    (letters : ∀ c ∈ tag.toList, c.isAlphanum = true ∨ c = '-' ∨ c = '_') :
    Named (pascalCase tag) := by
  intro c mem
  rw [pascalCase, String.toList_ofList, List.mem_flatMap] at mem
  rcases mem with ⟨piece, piece_mem, c_mem⟩
  have inside : ∀ d ∈ piece, d.isAlphanum = true := by
    intro d d_mem
    have kept := Text.not_isSeparator_of_mem_pieces piece_mem d d_mem
    rcases letters d (Text.mem_of_mem_pieces piece_mem d d_mem) with alphanum | separator
    · exact alphanum
    · rcases separator with rfl | rfl <;> cases kept
  apply isNameChar_of_isAlphanum
  rcases piece with _ | ⟨first, rest⟩
  · cases c_mem
  rw [List.forall_mem_cons] at inside
  rw [capitalize, Text.upperCase, if_pos (toNat_lt_of_isAlphanum inside.1), List.mem_append,
    List.mem_singleton] at c_mem
  rcases c_mem with rfl | later
  · exact isAlphanum_toUpper inside.1
  · exact inside.2 c later

/-! ## Components on lines -/

/-- The note of a deprecation does not break its line. -/
def Annotations.OneLineNote (docs : Annotations) : Prop :=
  ∀ note ∈ docs.deprecated, '\n' ∉ note.toList

/-- The tag and the class name are plain, and nothing that is printed breaks its line. -/
structure ResolvedComponent.OneLine (component : ResolvedComponent) : Prop where
  tag : ∀ c ∈ component.tagName.toList, c.isAlphanum = true ∨ c = '-' ∨ c = '_'
  name : ∀ c ∈ component.name.toList, c.isAlphanum = true ∨ c = '_' ∨ c = '$'
  note : component.docs.OneLineNote
  declaration : '\n' ∉ component.generics.declaration.toList
  params : ∀ param ∈ component.generics.names, '\n' ∉ param.toList
  property : ∀ entry ∈ component.settableProperties,
    '\n' ∉ entry.1.toList ∧ '\n' ∉ entry.2.declared.toList ∧ entry.2.docs.OneLineNote
  event : ∀ entry ∈ component.events.entries, '\n' ∉ entry.1.toList ∧
    (∀ declared ∈ entry.2.declared, '\n' ∉ declared.toList) ∧ entry.2.docs.OneLineNote

theorem Generics.no_feed_bracketed {texts : List String}
    (each : ∀ text ∈ texts, '\n' ∉ text.toList) : '\n' ∉ (bracketed texts).toList := by
  rw [bracketed]
  split
  · simp
  · intro mem
    rw [String.toList_append, String.toList_append, List.mem_append, List.mem_append,
      String.toList_intercalate] at mem
    rcases mem with (opening | inner) | closing
    · revert opening
      decide
    · rcases Text.mem_of_mem_intercalate inner with between | ⟨text, text_mem, feed⟩
      · revert between
        decide
      · rcases List.mem_map.1 text_mem with ⟨original, original_mem, rfl⟩
        exact each original original_mem feed
    · revert closing
      decide

/-- The parameter list is not read as a part of the name before it. -/
theorem Generics.isNameChar_head? (generics : Generics) :
    ∀ c ∈ generics.declaration.toList.head?, isNameChar c = false := by
  intro c here
  rcases generics.form with empty | ⟨inner, bracketed⟩
  · rw [empty] at here
    cases here
  · rw [bracketed] at here
    obtain rfl : '<' = c := by
      simpa using here
    decide

/-! ## Comments -/

section Comments

variable {docs : Annotations} {indent : String}

theorem no_feed_of_mem_docLines (one_line : docs.OneLineNote) {line : String}
    (mem : line ∈ docLines docs) : '\n' ∉ line.toList := by
  rw [docLines, List.mem_append] at mem
  rcases mem with described | deprecated
  · cases description : docs.description with
    | none => simp [description] at described
    | some text =>
      simp only [description, Option.map_some, Option.getD_some] at described
      exact Text.lineFeed_not_mem_lines described
  · cases noted : docs.deprecated with
    | none => simp [noted] at deprecated
    | some note =>
      simp only [noted, List.mem_singleton] at deprecated
      have note_no_feed := one_line note noted
      subst deprecated
      split <;> simp [note_no_feed]

theorem declares_docComment (flush : ∀ c ∈ indent.toList, c = ' ' ∨ c = '\t')
    (one_line : docs.OneLineNote) : Declares (docComment docs indent) [] := by
  have indent_no_feed : '\n' ∉ indent.toList := by
    intro mem
    rcases flush _ mem with same | same <;> revert same <;> decide
  have opened {tail : String} (isLine : IsLine tail) {c : Char}
      (starts : (Pattern.flushed tail.toList).head? = some c) (other : c ≠ 'e') :
      Declares (indent ++ tail) [] := by
    apply Statement.declares_of_silent (isLine.append indent_no_feed)
    apply Statement.silent_of_head _ other
    rw [String.toList_append, Pattern.flushed_append flush, starts]
  have line_no_feed {line : String} (mem : line ∈ docLines docs) : '\n' ∉ line.toList :=
    no_feed_of_mem_docLines one_line mem
  rw [docComment]
  split
  · exact Statement.declares_empty
  · rename_i line lines_eq
    rw [String.append_assoc, String.append_assoc]
    apply opened (c := '/') _ (by simp [Pattern.flushed]) (by decide)
    have isLine : IsLine " */\n" := ⟨" */".toList, rfl, by decide⟩
    exact (isLine.append (line_no_feed (by simp [lines_eq]))).append (by decide)
  · rw [String.append_assoc]
    have opening : Declares (indent ++ "/**\n") [] :=
      opened ⟨"/**".toList, rfl, by decide⟩ rfl (by decide)
    have closing : Declares (indent ++ " */\n") [] :=
      opened ⟨" */".toList, rfl, by decide⟩ rfl (by decide)
    refine (opening.append (Statement.Declares.join_nothing ?_)).append closing
    intro line mem
    rw [String.append_assoc, String.append_assoc]
    apply opened (c := '*') _ (by simp [Pattern.flushed]) (by decide)
    have isLine : IsLine "\n" := ⟨[], rfl, by decide⟩
    exact (isLine.append (line_no_feed mem)).append (by decide)

end Comments

/-! ## Lines of code -/

section Lines

theorem declares_line (isLine : IsLine text) {c : Char}
    (starts : (Pattern.flushed text.toList).head? = some c) (other : c ≠ 'e') : Declares text [] :=
  Statement.declares_of_silent isLine (Statement.silent_of_head starts other)

/-- A line that can be checked as it is written. -/
theorem declares_literal (checked : text.toList.getLast? = some '\n' ∧
    '\n' ∉ text.toList.dropLast ∧ (Pattern.flushed text.toList).head? ≠ none ∧
      (Pattern.flushed text.toList).head? ≠ some 'e') : Declares text [] := by
  rcases checked with ⟨last, inside, some_head, other⟩
  rcases Option.ne_none_iff_exists'.1 some_head with ⟨c, starts⟩
  apply declares_line _ starts
  · rintro rfl
    exact other starts
  · exact ⟨text.toList.dropLast, (List.dropLast_append_getLast? '\n' last).symm, inside⟩

theorem declares_eventLine (name_no_feed : '\n' ∉ name.toList) {declared : Option String}
    (declared_no_feed : ∀ text ∈ declared, '\n' ∉ text.toList) :
    Declares (eventLine name declared) [] := by
  have detail_no_feed : '\n' ∉ (declared.getD "void").toList := by
    cases declared with
    | none => decide
    | some text => exact declared_no_feed text rfl
  have isLine : IsLine ">;\n" := ⟨">;".toList, rfl, by decide⟩
  apply declares_line (c := '"') _ (by simp [eventLine, Pattern.flushed]) (by decide)
  exact isLine.append (by simp [name_no_feed, detail_no_feed])

theorem named_of_isIdentifier (identifier : isIdentifier name.toList = true) :
    name.toList ≠ [] ∧ Named name := by
  rw [Named]
  cases chars_eq : name.toList with
  | nil =>
    rw [chars_eq] at identifier
    cases identifier
  | cons first rest =>
    simp only [chars_eq, isIdentifier, Bool.and_eq_true, List.all_eq_true] at identifier
    have of_start {c : Char} (starts : (c == '_' || c == '$' || c.isAlpha) = true) :
        isNameChar c = true := by
      simp only [Bool.or_eq_true, beq_iff_eq] at starts
      rcases starts with (rfl | rfl) | alpha
      · decide
      · decide
      · exact isNameChar_of_isAlphanum (by simp [Char.isAlphanum, alpha])
    refine ⟨by simp, List.forall_mem_cons.2 ⟨of_start identifier.1, ?_⟩⟩
    intro c mem
    rcases Bool.or_eq_true_iff.1 (identifier.2 c mem) with starts | digit
    · exact of_start starts
    · exact isNameChar_of_isAlphanum (by simp [Char.isAlphanum, digit])

theorem isWord_key (identifier : isIdentifier name.toList = true) :
    Text.IsWord (name.toList ++ "?:".toList) := by
  rcases named_of_isIdentifier identifier with ⟨nonempty, named⟩
  refine ⟨List.append_ne_nil_of_left_ne_nil nonempty _, ?_⟩
  intro c mem
  rcases List.mem_append.1 mem with here | mark
  · exact Pattern.isBlank_of_isNameChar (named c here)
  · have marks : ("?:".toList.all fun d => !Text.isBlank d) = true := by decide
    simpa using List.all_eq_true.1 marks c mark

/-- The key of a property is no keyword that a blank follows. -/
theorem silent_propertyLine (name declared : String) : Silent (propertyLine name declared) := by
  by_cases identifier : isIdentifier name.toList = true
  · intro rest
    apply Pattern.first?_exportedDeclaration_eq_none
    intro blank after is_blank same
    have isWord := isWord_key identifier
    have line_eq : (propertyLine name declared).toList ++ rest =
        "  ".toList ++ ((name.toList ++ "?:".toList) ++ ' ' :: (declared.toList ++
          (";\n".toList ++ rest))) := by
      simp [propertyLine, propertyKey, identifier]
    rw [line_eq, Pattern.flushed_append (by simp), Pattern.flushed_word isWord] at same
    have words_eq := congrArg Text.words same
    have keyword_isWord : Text.IsWord "export".toList := by
      have no_blank : ("export".toList.all fun d => !Text.isBlank d) = true := by decide
      refine ⟨by decide, ?_⟩
      intro c mem
      simpa using List.all_eq_true.1 no_blank c mem
    rw [Text.words_append isWord rfl, Text.words_append keyword_isWord is_blank] at words_eq
    have mark : '?' ∈ "export".toList := by
      rw [← (List.cons.inj words_eq).1]
      simp
    revert mark
    decide
  · apply Statement.silent_of_head (c := '"') _ (by decide)
    simp [propertyLine, propertyKey, identifier, Pattern.flushed]

theorem declares_propertyLine {declared : String} (name_no_feed : '\n' ∉ name.toList)
    (declared_no_feed : '\n' ∉ declared.toList) : Declares (propertyLine name declared) [] := by
  have key_no_feed : '\n' ∉ (propertyKey name).toList := by
    rw [propertyKey]
    split
    · exact name_no_feed
    · simp [name_no_feed]
  have isLine : IsLine ";\n" := ⟨[';'], rfl, by decide⟩
  apply Statement.declares_of_silent _ (silent_propertyLine name declared)
  exact isLine.append (by simp [key_no_feed, declared_no_feed])

end Lines

/-! ## Fragments -/

namespace ResolvedComponent

/-- The names that a fragment is to export: three after the tag, and for older components four after
the class, unless a name is among the first three or the class itself. -/
def exportNames (component : ResolvedComponent) (config : Config) : List String :=
  let pascal := pascalCase component.tagName
  let modern := ["HTML" ++ pascal ++ "Element", pascal ++ "Properties", pascal ++ "EventMap"]
  let legacy := ["Element", "Properties", "EventMap", "IntrinsicProps"].map (component.name ++ ·)
  modern ++ if config.needsLegacyNames component.since then
    legacy.filter fun name => !modern.contains name && name != component.name
  else []

section Plain

variable {component : ResolvedComponent}

theorem OneLine.named_name (plain : component.OneLine) : Named component.name := by
  intro c mem
  rcases plain.name c mem with alphanum | rfl | rfl
  · exact isNameChar_of_isAlphanum alphanum
  · decide
  · decide

theorem OneLine.named_fragmentNames (plain : component.OneLine) :
    Named component.fragmentNames.element ∧ Named component.fragmentNames.properties ∧
      Named component.fragmentNames.eventMap := by
  have pascal := named_pascalCase plain.tag
  refine ⟨?_, ?_, ?_⟩
  · exact ((named_of_all (by decide)).append pascal).append (named_of_all (by decide))
  · exact pascal.append (named_of_all (by decide))
  · exact pascal.append (named_of_all (by decide))

/-- After the name come the type parameters or a space. -/
theorem OneLine.declares_exportLine (plain : component.OneLine) {kind rest : String}
    (known : kind = "interface" ∨ kind = "type") (nonempty : name.toList ≠ []) (named : Named name)
    (isLine : IsLine rest) (spaced : rest.toList.head? = some ' ') :
    Declares (component.exportLine kind name rest) [name] := by
  apply Statement.declares_exported known nonempty named (isLine.append plain.declaration)
  intro c here
  rw [String.toList_append, List.head?_append, spaced] at here
  cases declaration : component.generics.declaration.toList.head? with
  | none =>
    rw [declaration] at here
    obtain rfl : ' ' = c := Option.some.inj here
    decide
  | some d =>
    rw [declaration] at here
    obtain rfl : d = c := Option.some.inj here
    exact component.generics.isNameChar_head? d declaration

theorem OneLine.declares_elementInterface (plain : component.OneLine) :
    Declares component.elementInterface [component.fragmentNames.element] := by
  have forwarded := Generics.no_feed_bracketed plain.params
  have last : IsLine ", HTMLElement \x7b\x7d\n" := ⟨", HTMLElement \x7b\x7d".toList, rfl, by decide⟩
  rw [elementInterface_eq]
  apply (declares_docComment (by simp) plain.note).append
  apply plain.declares_exportLine (.inl rfl) _ plain.named_fragmentNames.1
  · apply last.append
    simp [plain.named_name.no_feed, Generics.forwardedArguments, forwarded]
  · simp
  · simp [fragmentNames, FragmentNames.ofTag]

theorem OneLine.declares_propertiesType (plain : component.OneLine) :
    Declares component.propertiesType [component.fragmentNames.properties] := by
  have opening : Declares component.propertiesOpening [component.fragmentNames.properties] := by
    apply plain.declares_exportLine (.inr rfl) _ plain.named_fragmentNames.2.1
    · exact ⟨" = \x7b".toList, rfl, by decide⟩
    · rfl
    · simp [fragmentNames, FragmentNames.ofTag]
  have closing : Declares "\x7d;\n" [] := declares_literal (by decide)
  rw [propertiesType_eq]
  apply opening.append ((Statement.Declares.join_nothing _).append closing)
  intro entry mem
  rcases plain.property entry mem with ⟨name, declared, note⟩
  exact (declares_docComment (by simp) note).append (declares_propertyLine name declared)

theorem OneLine.declares_eventMap (plain : component.OneLine) :
    Declares component.eventMap [component.fragmentNames.eventMap] := by
  have opening : Declares component.eventMapOpening [component.fragmentNames.eventMap] := by
    apply plain.declares_exportLine (.inl rfl) _ plain.named_fragmentNames.2.2
    · exact ⟨" \x7b".toList, rfl, by decide⟩
    · rfl
    · simp [fragmentNames, FragmentNames.ofTag]
  have closing : Declares "\x7d\n" [] := declares_literal (by decide)
  rw [eventMap_eq]
  apply opening.append ((Statement.Declares.join_nothing _).append closing)
  intro entry mem
  rcases plain.event entry mem with ⟨name, declared, note⟩
  exact (declares_docComment (by simp) note).append (declares_eventLine name declared)

theorem OneLine.tag_no_feed (plain : component.OneLine) : '\n' ∉ component.tagName.toList := by
  intro mem
  have feed := plain.tag _ mem
  revert feed
  decide

theorem OneLine.declares_globalBlock (plain : component.OneLine) :
    Declares component.globalBlock [] := by
  have any_arguments : '\n' ∉ component.generics.anyArguments.toList := by
    apply Generics.no_feed_bracketed
    simp
  have tagLine {type : String} (named : Named type) : Declares (component.tagLine type) [] := by
    have last : IsLine ";\n" := ⟨[';'], rfl, by decide⟩
    apply declares_line (c := '"') _ (by simp [tagLine, Pattern.flushed]) (by decide)
    apply last.append
    simp [plain.tag_no_feed, named.no_feed, any_arguments]
  have start : Declares "declare global \x7b\n" [] := declares_literal (by decide)
  have tags : Declares "  interface HTMLElementTagNameMap \x7b\n" [] := declares_literal (by decide)
  have props : Declares "  interface IntrinsicProps \x7b\n" [] := declares_literal (by decide)
  have inner : Declares "  \x7d\n" [] := declares_literal (by decide)
  have outer : Declares "\x7d\n" [] := declares_literal (by decide)
  rw [globalBlock_eq]
  exact start.append (tags.append ((tagLine plain.named_fragmentNames.1).append
    (inner.append (props.append ((tagLine plain.named_fragmentNames.2.1).append
      (inner.append outer))))))

theorem OneLine.named_of_mem_keptLegacy (plain : component.OneLine) {entry : String × String}
    (mem : entry ∈ component.keptLegacy) :
    entry.1.toList ≠ [] ∧ Named entry.1 ∧ Named entry.2 := by
  have modern := plain.named_fragmentNames
  have with_suffix {suffix : String} (nonempty : suffix.toList ≠ [])
      (named : suffix.toList.all isNameChar = true) :
      (component.name ++ suffix).toList ≠ [] ∧ Named (component.name ++ suffix) := by
    refine ⟨?_, plain.named_name.append (named_of_all named)⟩
    rw [String.toList_append]
    exact List.append_ne_nil_of_right_ne_nil _ nonempty
  have legacy_mem := List.mem_of_mem_filter mem
  simp only [FragmentNames.legacy, List.mem_cons, List.not_mem_nil, or_false] at legacy_mem
  rcases legacy_mem with rfl | rfl | rfl | rfl
  · exact and_assoc.1 ⟨with_suffix (by decide) (by decide), modern.1⟩
  · exact and_assoc.1 ⟨with_suffix (by decide) (by decide), modern.2.1⟩
  · exact and_assoc.1 ⟨with_suffix (by decide) (by decide), modern.2.2⟩
  · exact and_assoc.1 ⟨with_suffix (by decide) (by decide), modern.2.1⟩

theorem OneLine.declares_legacyAliases (plain : component.OneLine) :
    Declares component.legacyAliases (component.keptLegacy.map Prod.fst) := by
  have forwarded := Generics.no_feed_bracketed plain.params
  have names_eq : component.keptLegacy.map Prod.fst =
      component.keptLegacy.flatMap fun entry => [] ++ [entry.1] :=
    List.map_eq_flatMap
  rw [legacyAliases_eq, names_eq]
  apply Statement.Declares.join
  intro entry mem
  rcases plain.named_of_mem_keptLegacy mem with ⟨nonempty, legacy_named, modern_named⟩
  apply Statement.Declares.append
  · have last : IsLine "` instead. */\n" := ⟨"` instead. */".toList, rfl, by decide⟩
    apply declares_line (c := '/') _ (by simp [Pattern.flushed]) (by decide)
    apply last.append
    simp [modern_named.no_feed]
  · have last : IsLine ";\n" := ⟨[';'], rfl, by decide⟩
    apply plain.declares_exportLine (.inr rfl) nonempty legacy_named
    · apply last.append
      simp [modern_named.no_feed, Generics.forwardedArguments, forwarded]
    · simp

theorem OneLine.declares_headerLine (plain : component.OneLine) :
    Declares component.headerLine [] := by
  have last : IsLine "> declarations\n" := ⟨"> declarations".toList, rfl, by decide⟩
  apply declares_line (c := '/') _ (by simp [headerLine, Pattern.flushed]) (by decide)
  apply last.append
  simp [plain.tag_no_feed]

theorem exportNames_eq (component : ResolvedComponent) (config : Config) :
    component.exportNames config =
      [component.fragmentNames.element, component.fragmentNames.properties,
        component.fragmentNames.eventMap] ++
        if config.needsLegacyNames component.since then component.keptLegacy.map Prod.fst
        else [] := by
  have legacy_eq : (component.fragmentNames.legacy component.name).map Prod.fst =
      ["Element", "Properties", "EventMap", "IntrinsicProps"].map (component.name ++ ·) :=
    rfl
  have kept : component.keptLegacy.map Prod.fst =
      ((component.fragmentNames.legacy component.name).map Prod.fst).filter
        fun name => !(component.fragmentNames.declares name || name == component.name) := by
    rw [List.filter_map]
    rfl
  have refused_eq (name : String) :
      (!(component.fragmentNames.declares name || name == component.name)) =
        (!([component.fragmentNames.element, component.fragmentNames.properties,
          component.fragmentNames.eventMap].contains name) && name != component.name) := by
    rw [Bool.eq_iff_iff]
    simp [FragmentNames.declares, and_assoc]
  rw [kept, legacy_eq]
  simp only [refused_eq]
  rfl

/-- The exports of a fragment are its export names. -/
theorem OneLine.declares_fragment (plain : component.OneLine) (config : Config) :
    Declares (component.fragment config) (component.exportNames config) := by
  have blank : Declares "\n" [] := declares_literal (by decide)
  have declared {text : String} {names : List String} (rest_declares : Declares text names) :
      Declares (component.headerLine ++ ("\n" ++ (component.elementInterface ++ ("\n" ++
        (component.propertiesType ++ ("\n" ++ (component.eventMap ++ ("\n" ++
          (component.globalBlock ++ text)))))))))
        ([component.fragmentNames.element, component.fragmentNames.properties,
          component.fragmentNames.eventMap] ++ names) :=
    plain.declares_headerLine.append (blank.append (plain.declares_elementInterface.append
      (blank.append (plain.declares_propertiesType.append (blank.append
        (plain.declares_eventMap.append (blank.append
          (plain.declares_globalBlock.append rest_declares))))))))
  rw [fragment_eq, exportNames_eq]
  split
  · exact declared (blank.append plain.declares_legacyAliases)
  · exact declared Statement.declares_empty

theorem nodup_exportNames (component : ResolvedComponent) (config : Config) :
    (component.exportNames config).Nodup := by
  have modern (pascal : String) :
      ["HTML" ++ pascal ++ "Element", pascal ++ "Properties", pascal ++ "EventMap"].Nodup := by
    have last_differs {left right suffix other : String} (nonempty : suffix.toList ≠ [])
        (other_nonempty : other.toList ≠ [])
        (differs : suffix.toList.getLast? ≠ other.toList.getLast?) :
        left ++ suffix ≠ right ++ other := by
      intro same
      have last_eq := congrArg (fun text => text.toList.getLast?) same
      simp only [String.toList_append, List.getLast?_append_of_ne_nil _ nonempty,
        List.getLast?_append_of_ne_nil _ other_nonempty] at last_eq
      exact differs last_eq
    simp only [List.nodup_cons, List.mem_cons, List.not_mem_nil, or_false, not_or,
      not_false_iff, List.nodup_nil, and_true]
    refine ⟨⟨?_, ?_⟩, ?_⟩ <;>
      exact last_differs (by decide) (by decide) (by decide)
  have legacy : (["Element", "Properties", "EventMap", "IntrinsicProps"].map
      (component.name ++ ·)).Nodup := by
    apply List.Nodup.map
    · exact fun left right same => String.append_right_inj component.name |>.1 same
    · decide
  rw [exportNames]
  apply List.Nodup.append (modern _)
  · split
    · exact legacy.filter _
    · exact List.nodup_nil
  · intro name modern_mem legacy_mem
    split at legacy_mem
    · have other := (List.mem_filter.1 legacy_mem).2
      rw [List.contains_iff_mem.2 modern_mem] at other
      cases other
    · cases legacy_mem

theorem OneLine.exportedNames_fragment (plain : component.OneLine) (config : Config) :
    Statement.exportedNames (component.fragment config) =
      .ofList (component.exportNames config) := by
  rw [Statement.exportedNames, (plain.declares_fragment config).eq_findAll]

end Plain

end ResolvedComponent

/-! ## Merged declarations -/

namespace ReExport

/-- The names that a statement lists, each with the mark and the source of the statement. -/
def entries (statement : ReExport) : List (Bool × ExportSpecifier × String) :=
  match statement.clause with
  | .all _ => []
  | .named specifiers => specifiers.map fun specifier =>
    (statement.typeOnly, specifier, statement.specifier)

/-- Whether a statement exports everything. -/
def exportsAll (statement : ReExport) : Bool :=
  match statement.clause with
  | .all _ => true
  | .named _ => false

theorem entries_without (statement : ReExport) (exported : NameSet) :
    (statement.without exported).toList.flatMap entries =
      statement.entries.filter fun entry => !exported.contains entry.2.1.exportedName := by
  rcases statement with ⟨typeOnly, clause, specifier, start, stop⟩
  cases clause with
  | all newName => rfl
  | named specifiers =>
    simp only [without, entries, List.filter_map]
    split
    · rename_i none_left
      rw [List.isEmpty_iff] at none_left
      simp [Function.comp_def, none_left]
    · simp [Function.comp_def, entries]

theorem filter_exportsAll_without (statement : ReExport) (exported : NameSet) :
    (statement.without exported).toList.filter exportsAll = [statement].filter exportsAll := by
  rcases statement with ⟨typeOnly, clause, specifier, start, stop⟩
  cases clause with
  | all newName => rfl
  | named specifiers =>
    simp only [without]
    split <;> simp [exportsAll]

end ReExport

namespace Statement

/-- The re-exports of merged declarations, one statement after the other. -/
theorem mergedReExports_eq_flatMap (standsAlone : Bool) (primary : String)
    (fragments : List String) :
    mergedReExports standsAlone primary fragments =
      (reExports (mergedBody standsAlone primary)).flatMap fun statement =>
        (statement.without (.ofList (fragments.flatMap fun fragment =>
          (exportedNames fragment).toList))).toList := by
  rw [mergedReExports, List.filterMap_eq_flatMap_toList]

theorem entries_mergedReExports (standsAlone : Bool) (primary : String) {fragments : List String}
    (isExported : String → Bool)
    (exported : ∀ name, isExported name = true ↔
      ∃ fragment ∈ fragments, name ∈ (exportedNames fragment).toList) :
    (mergedReExports standsAlone primary fragments).flatMap ReExport.entries =
      ((reExports (mergedBody standsAlone primary)).flatMap ReExport.entries).filter
        fun entry => !isExported entry.2.1.exportedName := by
  have refused_eq (name : String) :
      (NameSet.ofList (fragments.flatMap fun fragment =>
        (exportedNames fragment).toList)).contains name = isExported name := by
    rw [Bool.eq_iff_iff, NameSet.contains_ofList, List.mem_flatMap, exported]
  rw [mergedReExports_eq_flatMap, List.flatMap_assoc, List.filter_flatMap]
  simp only [ReExport.entries_without, refused_eq]

theorem filter_exportsAll_mergedReExports (standsAlone : Bool) (primary : String)
    (fragments : List String) :
    (mergedReExports standsAlone primary fragments).filter ReExport.exportsAll =
      (reExports (mergedBody standsAlone primary)).filter ReExport.exportsAll := by
  rw [mergedReExports_eq_flatMap, List.filter_flatMap]
  simp only [ReExport.filter_exportsAll_without]
  rw [← List.filter_flatMap, List.flatMap_singleton']

end Statement

namespace ResolvedComponent

/-- The scan of a fragment finds the names that the fragment is to export and no others, each once,
so these are the names that merged declarations do not re-export. -/
theorem fragments_export_exactly (config : Config) {components : List ResolvedComponent}
    (plain : ∀ component ∈ components, component.OneLine) :
    (∀ component ∈ components,
      (Pattern.exportedDeclaration.findAll (component.fragment config)).filterMap
          (fun found => (found.captured? 1).map String.ofList) = component.exportNames config ∧
        (component.exportNames config).Nodup ∧
        ∀ name, name ∈ (Statement.exportedNames (component.fragment config)).toList ↔
          name ∈ component.exportNames config) ∧
      ∀ standsAlone primary,
        let fragments := components.map (fragment · config)
        let merged := Statement.mergedReExports standsAlone primary fragments
        let original := Statement.reExports (Statement.mergedBody standsAlone primary)
        merged.flatMap ReExport.entries = (original.flatMap ReExport.entries).filter (fun entry =>
            !components.any fun component =>
              (component.exportNames config).contains entry.2.1.exportedName) ∧
          merged.filter ReExport.exportsAll = original.filter ReExport.exportsAll ∧
          Statement.merge standsAlone primary fragments =
            "\n\n".intercalate (Statement.section?
                (Statement.withoutReExports (Statement.mergedBody standsAlone primary)) ++
              fragments.flatMap Statement.section? ++
              if merged.isEmpty then [] else ["\n".intercalate (merged.map ReExport.print)]) ++
              "\n" := by
  have exported_iff {component : ResolvedComponent} (mem : component ∈ components)
      (name : String) : name ∈ (Statement.exportedNames (component.fragment config)).toList ↔
        name ∈ component.exportNames config := by
    rw [(plain component mem).exportedNames_fragment config]
    exact List.contains_iff_mem.symm.trans NameSet.contains_ofList
  constructor
  · intro component mem
    refine ⟨?_, nodup_exportNames component config, exported_iff mem⟩
    exact ((plain component mem).declares_fragment config).eq_findAll
  · intro standsAlone primary
    refine ⟨?_, Statement.filter_exportsAll_mergedReExports standsAlone primary _,
      Statement.merge_eq standsAlone primary _⟩
    apply Statement.entries_mergedReExports standsAlone primary fun name =>
      components.any fun component => (component.exportNames config).contains name
    intro name
    rw [List.any_eq_true]
    constructor
    · rintro ⟨component, mem, declared⟩
      refine ⟨component.fragment config, List.mem_map_of_mem mem, ?_⟩
      exact (exported_iff mem name).2 (List.contains_iff_mem.1 declared)
    · rintro ⟨text, text_mem, declared⟩
      rcases List.mem_map.1 text_mem with ⟨component, mem, rfl⟩
      exact ⟨component, mem, List.contains_iff_mem.2 ((exported_iff mem name).1 declared)⟩

/-- A component with type parameters whose class is named like the element of its tag, and whose
documentation, property and event look like exports. -/
def resolvedPicker : ResolvedComponent where
  name := "HTMLPicker"
  tagName := "picker"
  since := some "1.0"
  docs := { description := some "Picks.\nexport type Fake = 1;" }
  generics := .declare [{ name := "T" }]
  properties := .ofList [("export",
    { signature := .any, declared := "T", docs := { deprecated := some "export type Old" } })]
  events := .ofList [("export type", {})]

theorem oneLine_resolvedPicker : resolvedPicker.OneLine where
  tag := by
    have checked : resolvedPicker.tagName.toList.all
        (fun c => c.isAlphanum || (c == '-' || c == '_')) = true := by decide
    intro c mem
    simpa using List.all_eq_true.1 checked c mem
  name := by
    have checked : resolvedPicker.name.toList.all
        (fun c => c.isAlphanum || (c == '_' || c == '$')) = true := by decide
    intro c mem
    simpa using List.all_eq_true.1 checked c mem
  note := by simp [Annotations.OneLineNote, resolvedPicker]
  declaration := by decide
  params := by decide
  property := by
    intro entry mem
    rw [List.mem_singleton.1 mem]
    simp [Annotations.OneLineNote]
  event := by
    intro entry mem
    rw [List.mem_singleton.1 mem]
    simp [Annotations.OneLineNote]

theorem fragments_export_exactly_picker :
    let config : Config := { legacyNameThreshold := some "2.0" }
    let primary := "export \x7b PickerEventMap, Other \x7d from './x';\nexport * from './y';\n"
    let merged := Statement.mergedReExports false primary [resolvedPicker.fragment config]
    (Pattern.exportedDeclaration.findAll (resolvedPicker.fragment config)).filterMap
        (fun found => (found.captured? 1).map String.ofList) =
      ["HTMLPickerElement", "PickerProperties", "PickerEventMap", "HTMLPickerProperties",
        "HTMLPickerEventMap", "HTMLPickerIntrinsicProps"] ∧
      merged.flatMap ReExport.entries = [(false, ⟨"Other", none, false⟩, "./x")] ∧
      merged.filter ReExport.exportsAll = [⟨false, .all none, "./y", 45, 66⟩] := by
  intro config primary
  have names_eq : resolvedPicker.exportNames config =
      ["HTMLPickerElement", "PickerProperties", "PickerEventMap", "HTMLPickerProperties",
        "HTMLPickerEventMap", "HTMLPickerIntrinsicProps"] := by
    decide +kernel
  have plain : ∀ component ∈ [resolvedPicker], component.OneLine := by
    simpa using oneLine_resolvedPicker
  rcases fragments_export_exactly config plain with ⟨exports, merges⟩
  rcases merges false primary with ⟨entries_eq, all_eq, -⟩
  refine ⟨?_, ?_, ?_⟩
  · rw [← names_eq]
    exact (exports resolvedPicker List.mem_cons_self).1
  · refine entries_eq.trans ?_
    simp only [List.any_cons, List.any_nil, names_eq]
    decide +kernel
  · refine all_eq.trans ?_
    decide +kernel

end ResolvedComponent

end Componentry
