import Componentry.Proofs.Statement.Shapes
import Componentry.Proofs.Text.Pieces

/-!
# What a text exports, line by line

A text that consists of whole lines can be read in parts: what it declares is what
its parts declare, one after the other. `Declares` states this for any text that
follows. There is one rule for lines that declare nothing and one for lines that
start with an exported interface or type.
-/

namespace Componentry

/-- One line with its end. -/
def Text.IsLine (text : String) : Prop :=
  ∃ line, text.toList = line ++ ['\n'] ∧ '\n' ∉ line

theorem Text.IsLine.append {left right : String} (no_feed : '\n' ∉ left.toList)
    (isLine : IsLine right) : IsLine (left ++ right) := by
  rcases isLine with ⟨line, line_eq, line_no_feed⟩
  refine ⟨left.toList ++ line, ?_, ?_⟩
  · rw [String.toList_append, line_eq, List.append_assoc]
  · simp [no_feed, line_no_feed]

namespace Pattern

/-- From the middle of a line a scan passes over the rest of the line. -/
theorem scan_line {pattern : Pattern} {line : List Char} (no_feed : '\n' ∉ line) (offset : Nat)
    (rest : List Char) :
    scan pattern false offset 0 (line ++ ['\n'] ++ rest) =
      (line ++ ['\n']).map .plain ++
        scan pattern true (offset + bytes (line ++ ['\n'])) 0 rest := by
  induction line generalizing offset with
  | nil => exact scan_cons offset (by simp)
  | cons c line ih =>
    rw [List.mem_cons, not_or] at no_feed
    have inside : (c == '\n') = false := by
      simpa using Ne.symm no_feed.1
    simp only [List.cons_append]
    rw [scan_cons offset (by simp), inside, ih no_feed.2, bytes_cons, ← Nat.add_assoc]
    rfl

/-- The text without the spaces and tabs that it starts with. -/
def flushed (chars : List Char) : List Char :=
  chars.dropWhile fun c => c == ' ' || c == '\t'

theorem flushed_append {indent : List Char} (flush : ∀ c ∈ indent, c = ' ' ∨ c = '\t')
    (rest : List Char) : flushed (indent ++ rest) = flushed rest := by
  apply List.dropWhile_append_of_pos
  intro c mem
  simpa using flush c mem

theorem flushed_append_of_ne_nil {text : List Char} (more : flushed text ≠ []) (rest : List Char) :
    flushed (text ++ rest) = flushed text ++ rest := by
  rw [flushed, List.dropWhile_append, if_neg]
  · rfl
  · rwa [List.isEmpty_iff]

theorem flushed_word {word : List Char} (isWord : Text.IsWord word) (rest : List Char) :
    flushed (word ++ rest) = word ++ rest := by
  rcases word with _ | ⟨c, word⟩
  · exact absurd rfl isWord.1
  · apply List.dropWhile_cons_of_neg
    have kept := isWord.2 c List.mem_cons_self
    rw [Bool.or_eq_true, beq_iff_eq, beq_iff_eq]
    rintro (rfl | rfl) <;> revert kept <;> decide

theorem first?_exportedDeclaration_eq_none {chars : List Char}
    (other : ∀ blank rest, Text.isBlank blank = true →
      flushed chars ≠ "export".toList ++ blank :: rest) :
    first? exportedDeclaration chars = none := by
  apply first?_eq_none_of_matches (by decide)
  rintro text captures matched ⟨after, rfl⟩
  rcases matches_exportedDeclaration matched with ⟨indent, blank, rest, rfl, flush, is_blank⟩
  apply other blank (rest ++ after) is_blank
  rw [List.append_assoc, flushed_append flush]
  simp [flushed]

end Pattern

namespace Statement

open Pattern (exportedDeclaration scan bytes isNameChar)

/-- The names in slot 1 of statements. -/
def declaredNames (segments : List Pattern.Segment) : List String :=
  (Pattern.statements segments).filterMap fun found => (found.captured? 1).map String.ofList

/-- The text exports declarations of these names, in this order, and ends where a line does. -/
def Declares (text : String) (names : List String) : Prop :=
  ∀ offset rest, declaredNames (scan exportedDeclaration true offset 0 (text.toList ++ rest)) =
    names ++ declaredNames (scan exportedDeclaration true (offset + bytes text.toList) 0 rest)

theorem Declares.eq_findAll {text : String} {names : List String} (declares : Declares text names) :
    (exportedDeclaration.findAll text).filterMap
      (fun found => (found.captured? 1).map String.ofList) = names := by
  have read := declares 0 []
  rw [List.append_nil] at read
  rw [Pattern.findAll_eq, Pattern.segments_eq_scan]
  exact read.trans (List.append_nil names)

theorem declares_empty : Declares "" [] :=
  fun _ _ => rfl

theorem Declares.append {left right : String} {names others : List String}
    (left_declares : Declares left names) (right_declares : Declares right others) :
    Declares (left ++ right) (names ++ others) := by
  intro offset rest
  rw [String.toList_append, List.append_assoc, left_declares, right_declares, List.append_assoc,
    Pattern.bytes_append, Nat.add_assoc]

theorem Declares.join {α : Type} {items : List α} {text : α → String} {names : α → List String}
    (each : ∀ item ∈ items, Declares (text item) (names item)) :
    Declares (String.join (items.map text)) (items.flatMap names) := by
  induction items with
  | nil => exact declares_empty
  | cons item items ih =>
    rw [List.forall_mem_cons] at each
    rw [List.map_cons, String.join_cons, List.flatMap_cons]
    exact each.1.append (ih each.2)

theorem Declares.join_nothing {α : Type} {items : List α} {text : α → String}
    (each : ∀ item ∈ items, Declares (text item) []) :
    Declares (String.join (items.map text)) [] := by
  have joined := Declares.join each
  have no_names : (items.flatMap fun _ => ([] : List String)) = [] := by simp
  rwa [no_names] at joined

/-! ## Lines -/

/-- No exported declaration starts here. -/
def Silent (text : String) : Prop :=
  ∀ rest, Pattern.first? exportedDeclaration (text.toList ++ rest) = none

theorem silent_of_head {text : String} {c : Char}
    (starts : (Pattern.flushed text.toList).head? = some c) (other : c ≠ 'e') : Silent text := by
  intro rest
  apply Pattern.first?_exportedDeclaration_eq_none
  intro blank after _ same
  have nonempty : Pattern.flushed text.toList ≠ [] := by
    intro none
    rw [none] at starts
    cases starts
  have here : (Pattern.flushed (text.toList ++ rest)).head? = some c := by
    rw [Pattern.flushed_append_of_ne_nil nonempty, List.head?_append_of_ne_nil _ nonempty]
    exact starts
  rw [same] at here
  exact other (Option.some.inj here).symm

theorem declares_of_silent {text : String} (isLine : Text.IsLine text) (silent : Silent text) :
    Declares text [] := by
  intro offset rest
  rcases isLine with ⟨line, line_eq, no_feed⟩
  have none_here := silent rest
  rw [line_eq] at none_here ⊢
  rcases line with _ | ⟨c, line⟩
  · rw [List.nil_append, List.singleton_append] at none_here ⊢
    rw [Pattern.scan_cons offset fun _ => none_here]
    rfl
  · rw [List.mem_cons, not_or] at no_feed
    have inside : (c == '\n') = false := by
      simpa using Ne.symm no_feed.1
    rw [List.cons_append, List.cons_append] at none_here ⊢
    rw [Pattern.scan_cons offset fun _ => none_here, inside, Pattern.scan_line no_feed.2,
      Pattern.bytes_cons, ← Nat.add_assoc, declaredNames, Pattern.statements_plain,
      Pattern.statements_map_plain]
    rfl

/-- A line that starts with an exported interface or type. -/
theorem declares_exported {kind name tail : String} (known : kind = "interface" ∨ kind = "type")
    (nonempty : name.toList ≠ []) (named : ∀ c ∈ name.toList, isNameChar c = true)
    (isLine : Text.IsLine tail) (stops : ∀ c ∈ tail.toList.head?, isNameChar c = false) :
    Declares ("export " ++ (kind ++ (" " ++ (name ++ tail)))) [name] := by
  intro offset rest
  rcases isLine with ⟨line, line_eq, no_feed⟩
  have ends : ∀ c ∈ (tail.toList ++ rest).head?, isNameChar c = false := by
    rw [List.head?_append_of_ne_nil _ (by simp [line_eq])]
    exact stops
  have taken := Pattern.takes_exportedDeclaration known nonempty named ends
  have text_eq : ("export " ++ (kind ++ (" " ++ (name ++ tail)))).toList ++ rest =
      ("export ".toList ++ (kind.toList ++ (' ' :: name.toList))) ++ (tail.toList ++ rest) := by
    simp
  have bytes_eq : bytes ("export " ++ (kind ++ (" " ++ (name ++ tail)))).toList =
      bytes ("export ".toList ++ (kind.toList ++ (' ' :: name.toList))) + bytes tail.toList := by
    rw [← Pattern.bytes_append]
    simp
  have middle : Pattern.lineStart true
      ("export ".toList ++ (kind.toList ++ (' ' :: name.toList))) = false := by
    have front_eq : "export ".toList ++ (kind.toList ++ (' ' :: name.toList)) =
        ("export ".toList ++ (kind.toList ++ [' '])) ++ name.toList := by
      simp
    rcases Option.isSome_iff_exists.1 (List.getLast?_isSome.2 nonempty) with ⟨last, last_eq⟩
    have last_named := named last (List.mem_of_getLast? last_eq)
    have other : (last == '\n') = false := by
      rw [beq_eq_false_iff_ne]
      rintro rfl
      revert last_named
      decide
    rw [front_eq, Pattern.lineStart, List.getLast?_append_of_ne_nil _ nonempty, last_eq,
      Option.map_some, other]
    rfl
  rw [text_eq, bytes_eq, taken.scan_eq (by simp), middle, line_eq, Pattern.scan_line no_feed,
    declaredNames, Pattern.statements_statement, Pattern.statements_map_plain, Nat.add_assoc]
  simp [declaredNames, Pattern.Found.captured?]

end Statement

end Componentry
