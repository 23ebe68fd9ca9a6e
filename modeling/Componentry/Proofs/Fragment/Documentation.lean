import Mathlib.Data.List.Infix
import Componentry.Proofs.Fragment.Layout
import Componentry.Proofs.Metadata.Tags
import Componentry.Proofs.Statement.Exports
import Componentry.Proofs.Text.Pieces

/-!
# Documentation in declaration fragments

Documentation is printed into block comments. A description or a note that has
the end of a comment in it ends the comment, and what follows is code. Apart from
this, documentation does not change what a fragment declares: `uncommented` takes
the block comments out of a text, and what it leaves of a fragment is the fragment
of the component without documentation.
-/

namespace Componentry

open Pattern (dropWord? flushed)

/-! ## Words in texts -/

namespace Text

variable {word left right : List Char} {c : Char}

theorem isPrefix_of_append_cons (absent : c ∉ word) (starts : word <+: left ++ c :: right) :
    word <+: left := by
  rcases List.prefix_or_prefix_of_prefix starts (List.prefix_append left (c :: right)) with
    inside | ⟨more, rfl⟩
  · exact inside
  · rw [List.prefix_append_right_inj] at starts
    rcases more with _ | ⟨d, more⟩
    · simp
    · have same := (List.cons_prefix_cons.1 starts).1
      subst same
      simp at absent

/-- A word does not reach over a character that it does not have. -/
theorem isInfix_append_cons_iff (nonempty : word ≠ []) (absent : c ∉ word) :
    word <:+: left ++ c :: right ↔ word <:+: left ∨ word <:+: right := by
  induction left with
  | nil =>
    have not_start : ¬word <+: c :: right := by
      intro starts
      have empty : word <+: [] := isPrefix_of_append_cons absent starts
      exact nonempty (List.prefix_nil.1 empty)
    simp [List.infix_cons_iff, not_start, nonempty]
  | cons d left ih =>
    have start_iff : word <+: d :: (left ++ c :: right) ↔ word <+: d :: left := by
      rw [← List.cons_append]
      constructor
      · exact isPrefix_of_append_cons absent
      · intro starts
        exact starts.trans (List.prefix_append (d :: left) (c :: right))
    rw [List.cons_append, List.infix_cons_iff, ih, start_iff, List.infix_cons_iff, or_assoc]

end Text

/-! ## Texts without comments -/

/-- What follows the next end of a comment. -/
def afterClosing? : List Char → Option (List Char)
  | [] => none
  | c :: rest =>
    match dropWord? "*/".toList (c :: rest) with
    | some after => some after
    | none => afterClosing? rest

def dropLineEnd (chars : List Char) : List Char :=
  (dropWord? ['\n'] chars).getD chars

/-- What follows a block comment that starts here, with the indentation before it and the line end
after it. -/
def afterComment? (chars : List Char) : Option (List Char) :=
  match dropWord? "/**".toList (flushed chars) with
  | none => none
  | some inner => (afterClosing? inner).map dropLineEnd

/-- Takes the block comments out of a text, from each opening to the next closing. `skip` counts the
characters that belong to the comment found before. -/
def uncommentedFrom (skip : Nat) : List Char → List Char
  | [] => []
  | c :: rest =>
    match skip with
    | skip + 1 => uncommentedFrom skip rest
    | 0 =>
      match afterComment? (c :: rest) with
      | some after => uncommentedFrom (rest.length - after.length) rest
      | none => c :: uncommentedFrom 0 rest

/-- The text without its block comments. -/
def uncommented (chars : List Char) : List Char :=
  uncommentedFrom 0 chars

theorem uncommentedFrom_length (text rest : List Char) :
    uncommentedFrom text.length (text ++ rest) = uncommented rest := by
  induction text with
  | nil => rfl
  | cons c text ih => exact ih

theorem uncommented_cons {c : Char} {rest : List Char} (plain : afterComment? (c :: rest) = none) :
    uncommented (c :: rest) = c :: uncommented rest := by
  rw [uncommented, uncommentedFrom]
  simp only [plain]
  rfl

theorem uncommented_of_afterComment? {text rest : List Char} (nonempty : text ≠ [])
    (comment : afterComment? (text ++ rest) = some rest) :
    uncommented (text ++ rest) = uncommented rest := by
  rcases text with _ | ⟨c, text⟩
  · exact absurd rfl nonempty
  · rw [List.cons_append] at comment ⊢
    rw [uncommented, uncommentedFrom]
    simp only [comment]
    rw [List.length_append, Nat.add_sub_cancel, uncommentedFrom_length]

theorem afterClosing?_append {inner : List Char} (open_ : ¬"*/".toList <:+: inner)
    (rest : List Char) : afterClosing? (inner ++ ("*/".toList ++ rest)) = some rest := by
  induction inner with
  | nil => rfl
  | cons c inner ih =>
    rw [List.infix_cons_iff, not_or] at open_
    have not_here : dropWord? "*/".toList (c :: (inner ++ ("*/".toList ++ rest))) = none := by
      rw [Option.eq_none_iff_forall_ne_some]
      intro after dropped
      have starts := Pattern.eq_append_of_dropWord? dropped
      apply open_.1
      rcases inner with _ | ⟨d, inner⟩
      · simp at starts
      · have c_eq : c = '*' := (List.cons.inj starts).1
        have d_eq : d = '/' := (List.cons.inj (List.cons.inj starts).2).1
        rw [c_eq, d_eq]
        exact ⟨inner, rfl⟩
    rw [List.cons_append, afterClosing?, not_here]
    exact ih open_.2

theorem afterComment?_comment {indent inner : List Char} (flush : ∀ c ∈ indent, c = ' ' ∨ c = '\t')
    (open_ : ¬"*/".toList <:+: inner) (rest : List Char) :
    afterComment? (indent ++ ("/**".toList ++ (inner ++ "*/\n".toList)) ++ rest) = some rest := by
  have opened : dropWord? "/**".toList
      (flushed (indent ++ ("/**".toList ++ (inner ++ ("*/".toList ++ '\n' :: rest))))) =
      some (inner ++ ("*/".toList ++ '\n' :: rest)) := by
    rw [Pattern.flushed_append flush]
    exact Pattern.dropWord?_append "/**".toList _
  have text_eq : indent ++ ("/**".toList ++ (inner ++ "*/\n".toList)) ++ rest =
      indent ++ ("/**".toList ++ (inner ++ ("*/".toList ++ '\n' :: rest))) := by
    simp
  rw [text_eq, afterComment?, opened]
  simp only [afterClosing?_append open_]
  rfl

theorem flushed_line (front rest : List Char) :
    flushed (front ++ '\n' :: rest) = flushed front ++ '\n' :: rest := by
  by_cases more : flushed front = []
  · have flush : ∀ c ∈ front, c = ' ' ∨ c = '\t' := by
      intro c mem
      simpa using List.dropWhile_eq_nil_iff.1 more c mem
    rw [more, Pattern.flushed_append flush]
    rfl
  · exact Pattern.flushed_append_of_ne_nil more _

theorem afterComment?_eq_none {code : List Char} (unopened : ¬"/**".toList <:+: code)
    (ends_line : code.getLast? = some '\n') (rest : List Char) :
    afterComment? (code ++ rest) = none := by
  rcases List.getLast?_eq_some_iff.1 ends_line with ⟨front, rfl⟩
  have unseen : dropWord? "/**".toList (flushed (front ++ ['\n'] ++ rest)) = none := by
    rw [Option.eq_none_iff_forall_ne_some]
    intro inner dropped
    rw [List.append_assoc, List.singleton_append, flushed_line] at dropped
    have starts : "/**".toList <+: flushed front ++ '\n' :: rest :=
      ⟨inner, (Pattern.eq_append_of_dropWord? dropped).symm⟩
    have inside := (Text.isPrefix_of_append_cons (by decide) starts).isInfix
    have suffix : flushed front <:+ front := List.dropWhile_suffix _
    exact unopened ((inside.trans suffix.isInfix).trans (List.prefix_append front _).isInfix)
  rw [afterComment?, unseen]

/-- No comment starts in code that ends its last line and has no opening in it. -/
theorem uncommented_code {code : List Char} (unopened : ¬"/**".toList <:+: code)
    (ends_line : ∀ c ∈ code.getLast?, c = '\n') (rest : List Char) :
    uncommented (code ++ rest) = code ++ uncommented rest := by
  induction code with
  | nil => rfl
  | cons c code ih =>
    have last_eq : (c :: code).getLast? = some '\n' := by
      rcases Option.isSome_iff_exists.1 (List.getLast?_isSome.2 (List.cons_ne_nil c code)) with
        ⟨last, last_eq⟩
      rw [last_eq, ends_line last last_eq]
    have later_ends : ∀ d ∈ code.getLast?, d = '\n' := by
      intro d last
      apply ends_line
      rw [Option.mem_def, List.getLast?_cons, Option.mem_def.1 last]
      rfl
    have later_unopened : ¬"/**".toList <:+: code := fun inside =>
      unopened (inside.trans (List.suffix_cons c code).isInfix)
    have plain := afterComment?_eq_none unopened last_eq rest
    rw [List.cons_append] at plain ⊢
    rw [uncommented_cons plain, ih later_unopened later_ends]
    rfl

/-! ## Documentation comments -/

/-- A description or a note has the end of a comment in it. -/
def Annotations.ClosesComment (docs : Annotations) : Prop :=
  (∃ text ∈ docs.description, "*/".toList <:+: text.toList) ∨
    ∃ note ∈ docs.deprecated, "*/".toList <:+: note.toList

/-- One block comment on lines of its own: the only end of a comment in it is the last. -/
def IsBlockComment (indent text : String) : Prop :=
  ∃ inner, text.toList = indent.toList ++ ("/**".toList ++ (inner ++ "*/\n".toList)) ∧
    ¬"*/".toList <:+: "/**".toList ++ (inner ++ ['*'])

section Comments

variable {docs : Annotations} {indent : String}

theorem not_isInfix_of_no_slash {text : List Char} (no_slash : '/' ∉ text) :
    ¬"*/".toList <:+: text := by
  intro inside
  exact no_slash (inside.subset (by decide))

theorem isInfix_described :
    (∃ line ∈ (docs.description.map Text.lines).getD [], "*/".toList <:+: line.toList) ↔
      ∃ text ∈ docs.description, "*/".toList <:+: text.toList := by
  cases docs.description with
  | none => simp
  | some text =>
    simp only [Option.map_some, Option.getD_some, Option.mem_some_iff, exists_eq_left']
    exact (Text.isInfix_iff_lines (by decide) (by decide) (by decide) text).symm

theorem isInfix_deprecation (note : String) :
    "*/".toList <:+: (if note.isEmpty then "@deprecated" else "@deprecated " ++ note).toList ↔
      "*/".toList <:+: note.toList := by
  split
  · rename_i empty
    rw [String.isEmpty_iff.1 empty]
    decide
  · have text_eq : ("@deprecated " ++ note).toList =
        "@deprecated".toList ++ ' ' :: note.toList := by
      simp
    rw [text_eq, Text.isInfix_append_cons_iff (by decide) (by decide),
      or_iff_right (not_isInfix_of_no_slash (by decide))]

theorem closesComment_iff_docLines :
    docs.ClosesComment ↔ ∃ line ∈ docLines docs, "*/".toList <:+: line.toList := by
  rw [Annotations.ClosesComment, ← isInfix_described, docLines]
  simp only [List.mem_append, or_and_right, exists_or]
  apply or_congr_right
  cases docs.deprecated with
  | none => simp
  | some note => simp only [Option.mem_some_iff, exists_eq_left', List.mem_singleton,
      exists_eq_left, isInfix_deprecation]

/-- What stands between the ends of a documentation comment. -/
def docInner (docs : Annotations) (indent : String) : List Char :=
  match docLines docs with
  | [line] => ' ' :: (line.toList ++ [' '])
  | lines => '\n' :: (lines.flatMap (fun line => indent.toList ++ (" * ".toList ++
      (line.toList ++ ['\n']))) ++ (indent.toList ++ [' ']))

theorem docComment_of_docLines (indent : String) (some_line : docLines docs ≠ []) :
    (docComment docs indent).toList =
      indent.toList ++ ("/**".toList ++ (docInner docs indent ++ "*/\n".toList)) := by
  cases lines_eq : docLines docs with
  | nil => exact absurd lines_eq some_line
  | cons line lines =>
    cases lines with
    | nil => simp [docComment, docInner, lines_eq]
    | cons next lines => simp [docComment, docInner, lines_eq, List.flatMap_map]

theorem slash_not_mem_of_flush (flush : ∀ c ∈ indent.toList, c = ' ' ∨ c = '\t') :
    '/' ∉ indent.toList := by
  intro slash
  rcases flush _ slash with same | same <;> revert same <;> decide

theorem isInfix_docLines (flush : ∀ c ∈ indent.toList, c = ' ' ∨ c = '\t') (lines : List String)
    {rest : List Char} (unclosed : ¬"*/".toList <:+: rest) :
    "*/".toList <:+: lines.flatMap (fun line => indent.toList ++ (" * ".toList ++
        (line.toList ++ ['\n']))) ++ rest ↔
      ∃ line ∈ lines, "*/".toList <:+: line.toList := by
  have margin_unclosed : ¬"*/".toList <:+: indent.toList ++ [' ', '*'] := by
    apply not_isInfix_of_no_slash
    simp [slash_not_mem_of_flush flush]
  induction lines with
  | nil => simpa using unclosed
  | cons line lines ih =>
    have text_eq : (line :: lines).flatMap (fun line => indent.toList ++ (" * ".toList ++
        (line.toList ++ ['\n']))) ++ rest =
        (indent.toList ++ [' ', '*']) ++ ' ' :: (line.toList ++ '\n' ::
          (lines.flatMap (fun line => indent.toList ++ (" * ".toList ++
            (line.toList ++ ['\n']))) ++ rest)) := by
      simp
    rw [text_eq, Text.isInfix_append_cons_iff (by decide) (by decide),
      or_iff_right margin_unclosed, Text.isInfix_append_cons_iff (by decide) (by decide),
      List.exists_mem_cons_iff]
    exact or_congr_right ih

/-- A comment is closed before its end exactly if a line of the documentation closes it. -/
theorem isInfix_docInner (flush : ∀ c ∈ indent.toList, c = ' ' ∨ c = '\t') :
    "*/".toList <:+: "/**".toList ++ (docInner docs indent ++ ['*']) ↔ docs.ClosesComment := by
  have opening : ¬"*/".toList <:+: "/**".toList := by decide
  have star : ¬"*/".toList <:+: ['*'] := by decide
  have margin : ¬"*/".toList <:+: indent.toList ++ ' ' :: ['*'] := by
    apply not_isInfix_of_no_slash
    simp [slash_not_mem_of_flush flush]
  rw [closesComment_iff_docLines, docInner]
  split
  · rename_i line lines_eq
    have text_eq : "/**".toList ++ (' ' :: (line.toList ++ [' ']) ++ ['*']) =
        "/**".toList ++ ' ' :: (line.toList ++ ' ' :: ['*']) := by
      simp
    rw [text_eq, Text.isInfix_append_cons_iff (by decide) (by decide), or_iff_right opening,
      Text.isInfix_append_cons_iff (by decide) (by decide), or_iff_left star, lines_eq]
    simp
  · have text_eq : "/**".toList ++ ('\n' :: ((docLines docs).flatMap (fun line =>
          indent.toList ++ (" * ".toList ++ (line.toList ++ ['\n']))) ++
          (indent.toList ++ [' '])) ++ ['*']) =
        "/**".toList ++ '\n' :: ((docLines docs).flatMap (fun line =>
          indent.toList ++ (" * ".toList ++ (line.toList ++ ['\n']))) ++
          (indent.toList ++ ' ' :: ['*'])) := by
      simp
    rw [text_eq, Text.isInfix_append_cons_iff (by decide) (by decide), or_iff_right opening]
    exact isInfix_docLines flush _ margin

theorem docComment_eq_empty (no_line : docLines docs = []) : docComment docs indent = "" := by
  rw [docComment, no_line]

theorem isBlockComment_iff (flush : ∀ c ∈ indent.toList, c = ' ' ∨ c = '\t')
    (some_line : docLines docs ≠ []) :
    IsBlockComment indent (docComment docs indent) ↔ ¬docs.ClosesComment := by
  have text_eq := docComment_of_docLines indent some_line
  rw [← isInfix_docInner flush]
  constructor
  · rintro ⟨inner, other_eq, unclosed⟩
    rw [text_eq] at other_eq
    have inner_eq : docInner docs indent = inner := by
      simpa using other_eq
    rwa [inner_eq]
  · intro unclosed
    exact ⟨docInner docs indent, text_eq, unclosed⟩

/-- The documentation of a member is nothing or one block comment unless it closes the comment. -/
theorem docComment_inert_iff (flush : ∀ c ∈ indent.toList, c = ' ' ∨ c = '\t') :
    docComment docs indent = "" ∨ IsBlockComment indent (docComment docs indent) ↔
      ¬docs.ClosesComment := by
  by_cases no_line : docLines docs = []
  · have quiet : ¬docs.ClosesComment := by
      rw [closesComment_iff_docLines, no_line]
      simp
    simp [docComment_eq_empty no_line, quiet]
  · have some_text : docComment docs indent ≠ "" := by
      intro empty
      have text_eq := docComment_of_docLines indent no_line
      rw [empty] at text_eq
      simp at text_eq
    rw [or_iff_right some_text, isBlockComment_iff flush no_line]

end Comments

/-! ## Fragments without comments -/

/-- Without its comments, the text is the other one, unless a comment is opened there. -/
def Uncomments (text bare : String) : Prop :=
  ¬"/**".toList <:+: bare.toList →
    ∀ rest, uncommented (text.toList ++ rest) = bare.toList ++ uncommented rest

theorem Uncomments.append {left right bare other : String} (left_bare : Uncomments left bare)
    (right_bare : Uncomments right other) : Uncomments (left ++ right) (bare ++ other) := by
  intro unopened rest
  rw [String.toList_append] at unopened
  have left_unopened : ¬"/**".toList <:+: bare.toList := fun inside =>
    unopened (inside.trans (List.prefix_append _ _).isInfix)
  have right_unopened : ¬"/**".toList <:+: other.toList := fun inside =>
    unopened (inside.trans (List.suffix_append _ _).isInfix)
  rw [String.toList_append, List.append_assoc, left_bare left_unopened, right_bare right_unopened,
    String.toList_append, List.append_assoc]

theorem Uncomments.join {α : Type} {items : List α} {text bare : α → String}
    (each : ∀ item ∈ items, Uncomments (text item) (bare item)) :
    Uncomments (String.join (items.map text)) (String.join (items.map bare)) := by
  induction items with
  | nil => exact fun _ _ => rfl
  | cons item items ih =>
    rw [List.forall_mem_cons] at each
    rw [List.map_cons, List.map_cons, String.join_cons, String.join_cons]
    exact each.1.append (ih each.2)

def EndsLine (text : String) : Prop :=
  text.toList.getLast? = some '\n'

theorem EndsLine.append (left : String) {right : String} (ends_line : EndsLine right) :
    EndsLine (left ++ right) := by
  rw [EndsLine, String.toList_append, List.getLast?_append, ends_line]
  rfl

theorem uncomments_code {code : String} (ends_line : EndsLine code) : Uncomments code code := by
  intro unopened rest
  apply uncommented_code unopened
  intro c last
  rw [ends_line] at last
  exact (Option.some.inj last).symm

theorem uncomments_docComment {docs : Annotations} {indent : String}
    (flush : ∀ c ∈ indent.toList, c = ' ' ∨ c = '\t') (quiet : ¬docs.ClosesComment) :
    Uncomments (docComment docs indent) (docComment {} indent) := by
  intro _ rest
  rcases (docComment_inert_iff flush).2 quiet with empty | ⟨inner, text_eq, unclosed⟩
  · rw [empty]
    rfl
  · have inner_unclosed : ¬"*/".toList <:+: inner := by
      intro inside
      apply unclosed
      have within : inner <:+: "/**".toList ++ (inner ++ ['*']) := ⟨"/**".toList, ['*'], by simp⟩
      exact inside.trans within
    rw [text_eq]
    exact uncommented_of_afterComment? (by simp) (afterComment?_comment flush inner_unclosed rest)

/-- Documented lines between an opening and a closing line. -/
theorem uncomments_block {α : Type} {items : List α} {docs : α → Annotations} {line : α → String}
    {opening closing : String} (opening_ends : EndsLine opening) (closing_ends : EndsLine closing)
    (lines_end : ∀ item, EndsLine (line item))
    (quiet : ∀ item ∈ items, ¬(docs item).ClosesComment) :
    Uncomments
      (opening ++ (String.join (items.map fun item => docComment (docs item) "  " ++ line item) ++
        closing))
      (opening ++ (String.join (items.map fun item => docComment {} "  " ++ line item) ++
        closing)) := by
  apply (uncomments_code opening_ends).append
  apply (Uncomments.join _).append (uncomments_code closing_ends)
  intro item mem
  apply (uncomments_docComment (by simp) (quiet item mem)).append
  exact uncomments_code (lines_end item)

namespace ResolvedComponent

/-- The component without documentation. -/
def undocumented (component : ResolvedComponent) : ResolvedComponent :=
  { component with
    docs := {}
    properties := component.properties.mapValues fun property => { property with docs := {} }
    events := component.events.mapValues fun event => { event with docs := {} } }

/-- The part of a fragment that has documentation in it. -/
def documentedPart (component : ResolvedComponent) : String :=
  component.headerLine ++ ("\n" ++ (component.elementInterface ++ ("\n" ++
    (component.propertiesType ++ ("\n" ++ (component.eventMap ++ "\n"))))))

/-- The rest of a fragment. -/
def registration (component : ResolvedComponent) (config : Config) : String :=
  component.globalBlock ++
    if config.needsLegacyNames component.since then "\n" ++ component.legacyAliases else ""

/-- No documentation that is printed closes its comment. -/
structure QuietDocs (component : ResolvedComponent) : Prop where
  own : ¬component.docs.ClosesComment
  property : ∀ entry ∈ component.settableProperties, ¬entry.2.docs.ClosesComment
  event : ∀ entry ∈ component.events.entries, ¬entry.2.docs.ClosesComment

section Undocumented

variable (component : ResolvedComponent)

theorem fragment_eq_append (config : Config) :
    component.fragment config = component.documentedPart ++ component.registration config := by
  rw [fragment_eq, documentedPart, registration]
  simp only [String.append_assoc]

theorem registration_undocumented (config : Config) :
    component.undocumented.registration config = component.registration config :=
  rfl

theorem settableProperties_undocumented :
    component.undocumented.settableProperties =
      component.settableProperties.map fun entry => (entry.1, { entry.2 with docs := {} }) := by
  exact List.filter_map

variable {component}

theorem endsLine_exportLine (kind name : String) {rest : String} (ends_line : EndsLine rest) :
    EndsLine (component.exportLine kind name rest) :=
  ((((ends_line.append _).append name).append " ").append kind).append "export "

theorem QuietDocs.uncomments_elementInterface (quiet : component.QuietDocs) :
    Uncomments component.elementInterface component.undocumented.elementInterface := by
  rw [elementInterface_eq, elementInterface_eq]
  apply (uncomments_docComment (by simp) quiet.own).append
  apply uncomments_code
  exact endsLine_exportLine _ _ (EndsLine.append _ rfl)

theorem QuietDocs.uncomments_propertiesType (quiet : component.QuietDocs) :
    Uncomments component.propertiesType component.undocumented.propertiesType := by
  rw [propertiesType_eq, propertiesType_eq, settableProperties_undocumented, List.map_map]
  apply uncomments_block _ _ _ quiet.property
  · exact endsLine_exportLine _ _ rfl
  · rfl
  · intro entry
    exact EndsLine.append _ rfl

theorem QuietDocs.uncomments_eventMap (quiet : component.QuietDocs) :
    Uncomments component.eventMap component.undocumented.eventMap := by
  have events_eq : component.undocumented.events.entries =
      component.events.entries.map fun entry => (entry.1, { entry.2 with docs := {} }) :=
    rfl
  rw [eventMap_eq, eventMap_eq, events_eq, List.map_map]
  apply uncomments_block _ _ _ quiet.event
  · exact endsLine_exportLine _ _ rfl
  · rfl
  · intro entry
    exact EndsLine.append _ rfl

theorem QuietDocs.uncomments_documentedPart (quiet : component.QuietDocs) :
    Uncomments component.documentedPart component.undocumented.documentedPart := by
  have blank : Uncomments "\n" "\n" := uncomments_code rfl
  have header : Uncomments component.headerLine component.undocumented.headerLine :=
    uncomments_code (EndsLine.append _ rfl)
  exact header.append (blank.append (quiet.uncomments_elementInterface.append (blank.append
    (quiet.uncomments_propertiesType.append (blank.append
      (quiet.uncomments_eventMap.append blank))))))

/-- Without comments a fragment is that of the component without documentation. -/
theorem QuietDocs.uncommented_fragment (quiet : component.QuietDocs)
    (unopened : ¬"/**".toList <:+: component.undocumented.documentedPart.toList)
    (config : Config) :
    uncommented (component.fragment config).toList =
      component.undocumented.documentedPart.toList ++
        uncommented (component.undocumented.registration config).toList := by
  rw [fragment_eq_append, String.toList_append, quiet.uncomments_documentedPart unopened,
    registration_undocumented]

end Undocumented

end ResolvedComponent

/-- Documentation that does not close its comment is inert: it is printed as nothing or as one block
comment, and fragments of components that differ only in documentation differ only in comments,
unless a name or a type opens a comment. -/
theorem documentation_inert (docs : Annotations) (indent : String) (config : Config)
    (left right : ResolvedComponent) :
    ((∀ c ∈ indent.toList, c = ' ' ∨ c = '\t') →
      (docComment docs indent = "" ∨ IsBlockComment indent (docComment docs indent) ↔
        ¬docs.ClosesComment)) ∧
      (left.undocumented = right.undocumented → left.QuietDocs → right.QuietDocs →
        ¬"/**".toList <:+: left.undocumented.documentedPart.toList →
          uncommented (left.fragment config).toList =
            uncommented (right.fragment config).toList) := by
  constructor
  · intro flush
    exact docComment_inert_iff flush
  · intro same left_quiet right_quiet unopened
    have right_unopened := unopened
    rw [same] at right_unopened
    rw [left_quiet.uncommented_fragment unopened, right_quiet.uncommented_fragment right_unopened,
      same]

/-- A card with one text in all its documentation. -/
def describedCard (text : String) : ResolvedComponent where
  name := "Card"
  tagName := "my-card"
  docs := { description := some text }
  properties := .ofList [("title",
    { signature := .any, declared := "string", docs := { description := some text } })]
  events := .ofList [("open", { docs := { deprecated := some text } })]

theorem quietDocs_describedCard {text : String} (unclosed : ¬"*/".toList <:+: text.toList) :
    (describedCard text).QuietDocs where
  own := by simpa [describedCard, Annotations.ClosesComment] using unclosed
  property := by
    intro entry mem
    rw [List.mem_singleton.1 mem]
    simpa [Annotations.ClosesComment] using unclosed
  event := by
    intro entry mem
    rw [List.mem_singleton.1 mem]
    simpa [Annotations.ClosesComment] using unclosed

theorem documentation_inert_card :
    let text := "Shows *\n/* all\n\nexport type of /** cards. * /"
    (describedCard text).fragment {} ≠ (describedCard "").fragment {} ∧
      uncommented ((describedCard text).fragment {}).toList =
        uncommented ((describedCard "").fragment {}).toList := by
  intro text
  constructor
  · decide +kernel
  · have unclosed : ¬"*/".toList <:+: text.toList := by decide +kernel
    have empty_unclosed : ¬"*/".toList <:+: "".toList := by decide
    exact (documentation_inert {} "" {} _ _).2 rfl (quietDocs_describedCard unclosed)
      (quietDocs_describedCard empty_unclosed) (by decide +kernel)

/-- A card starts with its header and the comment about it. -/
theorem fragment_describedCard (text : String) : ∃ rest,
    ((describedCard text).fragment {}).toList =
      "// <my-card> declarations\n\n".toList ++
        ((docComment { description := some text } "").toList ++ 'e' :: rest) := by
  have line_starts : ∃ tail, (describedCard text).elementLine.toList = 'e' :: tail := by
    rw [ResolvedComponent.elementLine, ResolvedComponent.exportLine, String.toList_append]
    exact ⟨_, rfl⟩
  have parts : ∃ rest, (describedCard text).fragment {} =
      "// <my-card> declarations\n" ++ ("\n" ++
        ((describedCard text).elementInterface ++ rest)) :=
    ⟨_, ResolvedComponent.fragment_eq _ _⟩
  have docs_eq : (describedCard text).docs = { description := some text } := rfl
  rcases line_starts with ⟨tail, line_eq⟩
  rcases parts with ⟨rest, fragment_eq⟩
  refine ⟨tail ++ rest.toList, ?_⟩
  rw [fragment_eq, ResolvedComponent.elementInterface_eq, docs_eq]
  simp [line_eq]

/-- A description that ends its comment is followed by code. -/
theorem description_becomes_code :
    let text := "A card. */ export type Extra = 1; /* end"
    docComment { description := some text } "" =
        "/** A card. */ export type Extra = 1; /* end */\n" ∧
      uncommented ((describedCard text).fragment {}).toList ≠
        uncommented ((describedCard "").fragment {}).toList := by
  intro text
  have comment_eq : docComment { description := some text } "" =
      "/** A card. */ export type Extra = 1; /* end */\n" := by
    decide +kernel
  have comment_parts : "/** A card. */ export type Extra = 1; /* end */\n" =
      "/** A card. */" ++ " export type Extra = 1; /* end */\n" := by
    decide
  have no_comment : docComment { description := some "" } "" = "" := by
    decide +kernel
  have header : Uncomments "// <my-card> declarations\n\n" "// <my-card> declarations\n\n" :=
    uncomments_code rfl
  refine ⟨comment_eq, ?_⟩
  rcases fragment_describedCard text with ⟨rest, text_eq⟩
  rcases fragment_describedCard "" with ⟨other, other_eq⟩
  rw [text_eq, other_eq, header (by decide), header (by decide), comment_eq, comment_parts,
    no_comment]
  intro same
  -- After the header comes the rest of the description here and the first declaration there.
  have heads := congrArg List.head? (List.append_cancel_left same)
  have text_head : (uncommented (("/** A card. */" ++
      " export type Extra = 1; /* end */\n").toList ++ 'e' :: rest)).head? = some ' ' := by
    rw [String.toList_append, List.append_assoc, uncommented_of_afterComment? (by decide) rfl]
    exact congrArg List.head? (uncommented_cons rfl)
  have other_head : (uncommented ("".toList ++ 'e' :: other)).head? = some 'e' :=
    congrArg List.head? (uncommented_cons rfl)
  rw [text_head, other_head] at heads
  cases heads

end Componentry
