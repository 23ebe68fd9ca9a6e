import Componentry.Proofs.Json.Reading
import Componentry.Proofs.TypeExpr.Reading

/-!
# Alternatives of a text

The alternatives of a display type are the parts between the bars that stand
outside of brackets and quotes, as a reader of types pairs them: the arrow of a
function type is no bracket, and brackets in string literals are none either.

A text is *whole* at a depth of brackets if no bar in it is a cut and reading
goes on behind it as if it had not been there (`ReadWhole`). The text of a
legible type is whole inside of brackets (`TypeExpr.closed_print`), and what
is made of whole texts by names, arguments and braces is whole everywhere.
-/

namespace Componentry

/-- The depth of brackets after a character. -/
def bracketDepth (depth : Nat) (c : Char) : Nat :=
  if c = '<' ∨ c = '\x7b' ∨ c = '(' then depth + 1
  else if c = '>' ∨ c = '\x7d' ∨ c = ')' then depth - 1
  else depth

/-- Cuts a text at the bars outside of brackets and quotes. -/
def cutAtBars (depth : Nat) (quoted : Bool) : List Char → List (List Char)
  | [] => [[]]
  | '=' :: '>' :: rest => (cutAtBars depth quoted rest).modifyHead (['=', '>'] ++ ·)
  | c :: rest =>
    if c = '"' then (cutAtBars depth (!quoted) rest).modifyHead (c :: ·)
    else if quoted then (cutAtBars depth quoted rest).modifyHead (c :: ·)
    else if c = '|' ∧ depth = 0 then [] :: cutAtBars depth quoted rest
    else (cutAtBars (bracketDepth depth c) quoted rest).modifyHead (c :: ·)

/-- The alternatives of a display type. -/
def alternatives (display : String) : List String :=
  (cutAtBars 0 false display.toList).map String.ofList

/-- The characters that stand for themselves. -/
def isPlainChar (c : Char) : Bool :=
  !(['<', '>', '\x7b', '\x7d', '(', ')', '"', '|', '='].contains c)

def isPlainText (text : String) : Bool :=
  text.toList.all isPlainChar

/-! ## Whole texts -/

/-- At this depth, the text is not cut and changes nothing for what follows it. -/
def ReadWhole (depth : Nat) (text : List Char) : Prop :=
  ∀ rest, cutAtBars depth false (text ++ rest) =
    (cutAtBars depth false rest).modifyHead (text ++ ·)

variable {depth : Nat} {text first second : List Char} {c : Char}

theorem readWhole_nil (depth : Nat) : ReadWhole depth [] := by
  intro rest
  exact (congrFun List.modifyHead_id _).symm

theorem ReadWhole.append (left : ReadWhole depth first) (right : ReadWhole depth second) :
    ReadWhole depth (first ++ second) := by
  intro rest
  rw [List.append_assoc, left, right, List.modifyHead_modifyHead]
  congr 1
  funext part
  simp

theorem cutAtBars_cons (no_arrow : c ≠ '=') (quoted : Bool) (rest : List Char) :
    cutAtBars depth quoted (c :: rest) =
      if c = '"' then (cutAtBars depth (!quoted) rest).modifyHead (c :: ·)
      else if quoted then (cutAtBars depth quoted rest).modifyHead (c :: ·)
      else if c = '|' ∧ depth = 0 then [] :: cutAtBars depth quoted rest
      else (cutAtBars (bracketDepth depth c) quoted rest).modifyHead (c :: ·) := by
  rw [cutAtBars]
  intro following same
  exact absurd same no_arrow

theorem readWhole_char (plain : isPlainChar c = true) (depth : Nat) :
    ReadWhole depth [c] := by
  intro rest
  have specials : ∀ other ∈ ['<', '>', '\x7b', '\x7d', '(', ')', '"', '|', '='], c ≠ other := by
    intro other mem same
    subst same
    simp [isPlainChar] at plain
    simp [plain] at mem
  simp only [List.mem_cons, List.not_mem_nil, or_false, forall_eq_or_imp, forall_eq] at specials
  rcases specials with ⟨_, _, _, _, _, _, no_quote, no_bar, no_arrow⟩
  rw [List.singleton_append, cutAtBars_cons no_arrow, if_neg no_quote]
  simp_all [bracketDepth]

theorem readWhole_of_plain (plain : ∀ c ∈ text, isPlainChar c = true) (depth : Nat) :
    ReadWhole depth text := by
  induction text with
  | nil => exact readWhole_nil depth
  | cons c rest ih =>
    rw [List.forall_mem_cons] at plain
    exact (readWhole_char plain.1 depth).append (ih plain.2)

/-- Inside of brackets, bars do not cut. -/
theorem readWhole_bar (depth : Nat) : ReadWhole (depth + 1) ['|'] := by
  intro rest
  rw [List.singleton_append, cutAtBars_cons (by decide)]
  simp [bracketDepth]

theorem readWhole_arrow (depth : Nat) : ReadWhole depth ['=', '>'] := by
  intro rest
  rfl

theorem cutAtBars_opening (opening : c = '<' ∨ c = '\x7b' ∨ c = '(') (depth : Nat)
    (rest : List Char) :
    cutAtBars depth false (c :: rest) = (cutAtBars (depth + 1) false rest).modifyHead (c :: ·) := by
  rcases opening with rfl | rfl | rfl <;> simp [cutAtBars_cons, bracketDepth]

theorem cutAtBars_closing (closing : c = '>' ∨ c = '\x7d' ∨ c = ')') (depth : Nat)
    (rest : List Char) :
    cutAtBars (depth + 1) false (c :: rest) = (cutAtBars depth false rest).modifyHead (c :: ·) := by
  rcases closing with rfl | rfl | rfl <;> simp [cutAtBars_cons, bracketDepth]

/-- What is whole one level deeper is whole in brackets. -/
theorem ReadWhole.bracketed (inner : ReadWhole (depth + 1) text) {left right : Char}
    (opening : left = '<' ∨ left = '\x7b' ∨ left = '(')
    (closing : right = '>' ∨ right = '\x7d' ∨ right = ')') :
    ReadWhole depth (left :: text ++ [right]) := by
  intro rest
  have whole : left :: text ++ [right] ++ rest = left :: (text ++ right :: rest) := by simp
  rw [whole, cutAtBars_opening opening, inner, cutAtBars_closing closing,
    List.modifyHead_modifyHead, List.modifyHead_modifyHead]
  congr 1
  funext part
  simp

theorem cutAtBars_quoted (unquoted : '"' ∉ text) {quoted : Bool} (inside : quoted = true)
    (depth : Nat) (rest : List Char) :
    cutAtBars depth quoted (text ++ '"' :: rest) =
      (cutAtBars depth false rest).modifyHead (text ++ '"' :: ·) := by
  fun_induction cutAtBars depth quoted text with
  | case1 depth quoted =>
    subst inside
    rw [List.nil_append, cutAtBars_cons (by decide), if_pos rfl]
    rfl
  | case2 depth quoted following ih =>
    have still_unquoted : '"' ∉ following := fun mem => unquoted (by simp [mem])
    rw [List.cons_append, List.cons_append, cutAtBars, ih still_unquoted inside,
      List.modifyHead_modifyHead]
    rfl
  | case3 depth quoted following no_arrow ih => simp at unquoted
  | case4 depth c following no_arrow no_quote ih =>
    have still_unquoted : '"' ∉ following := fun mem => unquoted (List.mem_cons_of_mem c mem)
    rw [List.cons_append, cutAtBars, if_neg no_quote, if_pos rfl, ih still_unquoted inside,
      List.modifyHead_modifyHead]
    · rfl
    · intro tail equals arrow
      cases following with
      | nil => simp at arrow
      | cons next others =>
        rw [List.cons_append, List.cons.injEq] at arrow
        exact no_arrow others equals (by rw [arrow.1])
  | case5 depth quoted c following no_arrow no_quote outside
  | case6 depth quoted c following no_arrow no_quote outside =>
    exact absurd inside outside

theorem readWhole_quoted (unquoted : '"' ∉ text) (depth : Nat) :
    ReadWhole depth ('"' :: text ++ ['"']) := by
  intro rest
  have whole : '"' :: text ++ ['"'] ++ rest = '"' :: (text ++ '"' :: rest) := by simp
  rw [whole, cutAtBars_cons (by decide), if_pos rfl, Bool.not_false, cutAtBars_quoted unquoted rfl,
    List.modifyHead_modifyHead]
  congr 1
  funext part
  simp

/-! ## Texts made of whole texts -/

/-- The text is whole wherever it stands. -/
def Whole (text : String) : Prop :=
  ∀ depth, ReadWhole depth text.toList

/-- The text is whole inside of brackets. -/
def Closed (text : String) : Prop :=
  ∀ depth, ReadWhole (depth + 1) text.toList

variable {text : String}

theorem Whole.closed (whole : Whole text) : Closed text :=
  fun depth => whole (depth + 1)

theorem whole_of_plain (plain : isPlainText text = true) : Whole text :=
  readWhole_of_plain (List.all_eq_true.1 plain)

theorem Whole.append {first second : String} (left : Whole first) (right : Whole second) :
    Whole (first ++ second) := by
  intro depth
  rw [String.toList_append]
  exact (left depth).append (right depth)

namespace Closed

variable {first second text : String}

theorem append (left : Closed first) (right : Closed second) : Closed (first ++ second) := by
  intro depth
  rw [String.toList_append]
  exact (left depth).append (right depth)

theorem intercalate {separator : String} (between : Closed separator) {texts : List String}
    (each : ∀ text ∈ texts, Closed text) : Closed (separator.intercalate texts) := by
  induction texts with
  | nil => exact fun depth => readWhole_nil (depth + 1)
  | cons first others ih =>
    rw [List.forall_mem_cons] at each
    cases others with
    | nil => simpa using each.1
    | cons second others =>
      rw [String.intercalate_cons_cons]
      exact (each.1.append between).append (ih each.2)

theorem angled (closed : Closed text) : Whole ("<" ++ text ++ ">") := by
  intro depth
  have whole := (closed depth).bracketed (.inl rfl : '<' = '<' ∨ _) (.inl rfl : '>' = '>' ∨ _)
  simpa using whole

theorem parenthesized (closed : Closed text) : Whole ("(" ++ text ++ ")") := by
  intro depth
  have whole := (closed depth).bracketed (.inr (.inr rfl) : '(' = '<' ∨ _)
    (.inr (.inr rfl) : ')' = '>' ∨ _)
  simpa using whole

theorem braced (closed : Closed text) : Whole ("\x7b " ++ text ++ " \x7d") := by
  intro depth
  have blank : Closed " " := (whole_of_plain (by decide)).closed
  have whole := ((blank.append closed).append blank depth).bracketed
    (.inr (.inl rfl) : '\x7b' = '<' ∨ _) (.inr (.inl rfl) : '\x7d' = '>' ∨ _)
  simpa using whole

end Closed

/-! ## Joined texts -/

theorem alternatives_of_whole (whole : Whole text) :
    alternatives text = [text] := by
  have uncut := whole 0 []
  rw [List.append_nil] at uncut
  simp [alternatives, uncut, cutAtBars]

/-- Brackets and quotes are closed at the end of the text, so that a bar after it is a cut. -/
structure Balanced (text : String) : Prop where
  closed : Closed text
  cut : ∀ rest, alternatives (text ++ "|" ++ rest) = alternatives text ++ alternatives rest

theorem Whole.balanced (whole : Whole text) : Balanced text := by
  refine ⟨whole.closed, ?_⟩
  intro rest
  have joined : (text ++ "|" ++ rest).toList = text.toList ++ '|' :: rest.toList := by simp
  rw [alternatives_of_whole whole, alternatives, joined, whole 0, cutAtBars_cons (by decide)]
  simp [alternatives]

namespace Balanced

theorem join {first second : String} (left : Balanced first) (right : Balanced second) :
    Balanced (first ++ "|" ++ second) := by
  have bar : Closed "|" := readWhole_bar
  refine ⟨(left.closed.append bar).append right.closed, ?_⟩
  intro rest
  have regrouped : first ++ "|" ++ second ++ "|" ++ rest =
      first ++ "|" ++ (second ++ "|" ++ rest) := by
    simp only [String.append_assoc]
  rw [regrouped, left.cut, right.cut, left.cut, List.append_assoc]

/-- The alternatives of joined texts are those of the texts. -/
theorem intercalate {texts : List String} (nonempty : texts ≠ [])
    (each : ∀ text ∈ texts, Balanced text) :
    Balanced ("|".intercalate texts) ∧
      alternatives ("|".intercalate texts) = texts.flatMap alternatives := by
  induction texts with
  | nil => exact absurd rfl nonempty
  | cons first others ih =>
    rw [List.forall_mem_cons] at each
    cases others with
    | nil => simpa using each.1
    | cons second others =>
      rcases ih (by simp) each.2 with ⟨balanced, joined⟩
      rw [String.intercalate_cons_cons, List.flatMap_cons, ← joined]
      exact ⟨each.1.join balanced, each.1.cut _⟩

end Balanced

/-- A literal is legible if there is no quote in it. -/
def Literal.Legible : Literal → Prop
  | .string value => '"' ∉ value.toList
  | _ => True

theorem isPlainChar_of_isNumeric (numeric : Json.isNumeric c = true) :
    isPlainChar c = true := by
  rw [isPlainChar, Bool.not_eq_true', Bool.eq_false_iff, ne_eq, List.contains_iff_mem]
  intro special
  simp only [List.mem_cons, List.not_mem_nil, or_false] at special
  rcases special with rfl | rfl | rfl | rfl | rfl | rfl | rfl | rfl | rfl <;>
    exact absurd numeric (by decide)

theorem isPlainChar_of_mem_numberText {value : Double}
    (inside : c ∈ (Literal.numberText value).toList) : isPlainChar c = true := by
  apply isPlainChar_of_isNumeric
  have positional : c ∈ value.positionalText.toList → Json.isNumeric c = true := by
    intro mem
    simp only [Double.positionalText, String.toList_ofList, List.mem_append] at mem
    rcases mem with sign | magnitude
    · split at sign <;> simp_all [Json.isNumeric]
    · split at magnitude
      · simp_all [Json.isNumeric]
      · exact Json.isNumeric_of_mem_positional magnitude
  rw [Literal.numberText] at inside
  split at inside
  · rename_i integer _
    split at inside
    · rw [Json.toList_toString] at inside
      split at inside
      · exact Json.isNumeric_of_mem_toDigits inside
      · rcases List.mem_cons.1 inside with rfl | inside
        · rfl
        · exact Json.isNumeric_of_mem_toDigits inside
    · exact positional inside
  · exact positional inside

theorem Literal.whole_print {value : Literal} (legible : value.Legible) : Whole value.print := by
  cases value with
  | boolean value => cases value <;> exact whole_of_plain (by decide)
  | number value =>
    apply whole_of_plain
    exact List.all_eq_true.2 fun c => isPlainChar_of_mem_numberText
  | string value =>
    intro depth
    rw [print, String.toList_ofList, TypeExpr.flatMap_escapeQuote legible]
    exact readWhole_quoted legible depth

namespace TypeExpr

theorem whole_applied {name : String} (plain : isPlainText name = true)
    {args : List String} (each : ∀ arg ∈ args, Closed arg) : Whole (applied name args) := by
  rw [applied]
  split
  · exact whole_of_plain plain
  · have comma : Closed ", " := (whole_of_plain (by decide)).closed
    have whole := (whole_of_plain plain).append (comma.intercalate each).angled
    simpa only [String.append_assoc] using whole

theorem closed_grouped (closed : Closed text) (type : TypeExpr) :
    Closed (grouped type text) := by
  rw [grouped]
  split
  · exact closed.parenthesized.closed
  · exact closed

theorem closed_bar : Closed " | " := by
  have blank : Closed " " := (whole_of_plain (by decide)).closed
  have bar : Closed "|" := readWhole_bar
  exact (blank.append bar).append blank

theorem closed_arrow : Closed " => " := by
  have blank : Closed " " := (whole_of_plain (by decide)).closed
  have arrow : Closed "=>" := fun depth => readWhole_arrow (depth + 1)
  exact (blank.append arrow).append blank

theorem closed_memberText {name : String} (plain : isPlainText name = true) (closed : Closed text)
    (optional readonly : Bool) : Closed (memberText name optional readonly text) := by
  have colon : Closed ": " := (whole_of_plain (by decide)).closed
  have before : Closed (if readonly then "readonly " else "") := by
    cases readonly <;> exact (whole_of_plain (by decide)).closed
  have mark : Closed (if optional then "?" else "") := by
    cases optional <;> exact (whole_of_plain (by decide)).closed
  exact (((before.append (whole_of_plain plain).closed).append mark).append colon).append closed

/-! ## Legible types -/

mutual

/-- The names of a type are plain, and what is printed as it is given does not disturb the rest. -/
def Legible : TypeExpr → Prop
  | .primitive _ => True
  | .literal value => value.Legible
  | .array element => element.Legible
  | .struct (some name) typeArgs _ => isPlainText name = true ∧ LegibleAll typeArgs
  | .struct none _ members => LegibleMembers members
  | .reference name args => isPlainText name = true ∧ LegibleAll args
  | .union members => LegibleAll members
  | .intersection members => LegibleAll members
  | .mapped wrapper args => isPlainText wrapper = true ∧ LegibleAll args
  | .generic name _ => isPlainText name = true
  | .function params returns => LegibleParams params ∧ returns.Legible
  | .conditional text _ => Closed text
  | .any => True
  | .unknown => True
  | .null => True

def LegibleAll : List TypeExpr → Prop
  | [] => True
  | type :: rest => type.Legible ∧ LegibleAll rest

def LegibleMembers : List Member → Prop
  | [] => True
  | ⟨name, type, _, _⟩ :: rest =>
    isPlainText name = true ∧ type.Legible ∧ LegibleMembers rest

def LegibleParams : List Parameter → Prop
  | [] => True
  | ⟨name, type, _⟩ :: rest =>
    isPlainText name = true ∧ type.Legible ∧ LegibleParams rest

end

theorem whole_object {members : List Member}
    (each : Closed ("; ".intercalate (printMembers members))) (typeArgs : List TypeExpr) :
    Whole (TypeExpr.struct none typeArgs members).print := by
  cases members with
  | nil =>
    intro depth
    have whole := (readWhole_nil (depth + 1)).bracketed (.inr (.inl rfl) : '\x7b' = '<' ∨ _)
      (.inr (.inl rfl) : '\x7d' = '>' ∨ _)
    simpa [print] using whole
  | cons member rest => exact each.braced

mutual

/-- The text of a legible type is whole inside of brackets. -/
theorem closed_print (type : TypeExpr) (legible : type.Legible) : Closed type.print := by
  match type with
  | .primitive keyword => cases keyword <;> exact (whole_of_plain (by decide)).closed
  | .literal value => exact (Literal.whole_print legible).closed
  | .array element =>
    have brackets : Closed "[]" := (whole_of_plain (by decide)).closed
    exact (closed_grouped (closed_print element legible) element).append brackets
  | .struct (some name) typeArgs members =>
    exact (whole_applied legible.1 (closed_printAll typeArgs legible.2)).closed
  | .struct none typeArgs members =>
    have semicolon : Closed "; " := (whole_of_plain (by decide)).closed
    exact (whole_object (semicolon.intercalate (closed_printMembers members legible))
      typeArgs).closed
  | .reference name args =>
    exact (whole_applied legible.1 (closed_printAll args legible.2)).closed
  | .union members => exact closed_bar.intercalate (closed_printOperands members legible)
  | .intersection members =>
    have ampersand : Closed " & " := (whole_of_plain (by decide)).closed
    exact ampersand.intercalate (closed_printOperands members legible)
  | .mapped wrapper args =>
    exact (whole_applied legible.1 (closed_printAll args legible.2)).closed
  | .generic name constraint => exact (whole_of_plain legible).closed
  | .function params returns =>
    have comma : Closed ", " := (whole_of_plain (by decide)).closed
    have listed := (comma.intercalate (closed_printParams params legible.1)).parenthesized.closed
    have whole := (listed.append closed_arrow).append (closed_print returns legible.2)
    have arrow : ") => " = ")" ++ " => " := rfl
    rw [print, arrow]
    simpa only [String.append_assoc] using whole
  | .conditional text resolved => exact legible
  | .any | .unknown | .null => exact (whole_of_plain (by decide)).closed

theorem closed_printAll (types : List TypeExpr) (legible : LegibleAll types) :
    ∀ text ∈ printAll types, Closed text := by
  match types with
  | [] => simp [printAll]
  | type :: rest =>
    rw [printAll, List.forall_mem_cons]
    exact ⟨closed_print type legible.1, closed_printAll rest legible.2⟩

theorem closed_printOperands (types : List TypeExpr) (legible : LegibleAll types) :
    ∀ text ∈ printOperands types, Closed text := by
  match types with
  | [] => simp [printOperands]
  | type :: rest =>
    rw [printOperands, List.forall_mem_cons]
    exact ⟨closed_grouped (closed_print type legible.1) type,
      closed_printOperands rest legible.2⟩

theorem closed_printMembers (members : List Member) (legible : LegibleMembers members) :
    ∀ text ∈ printMembers members, Closed text := by
  match members with
  | [] => simp [printMembers]
  | ⟨name, type, optional, readonly⟩ :: rest =>
    rw [printMembers, List.forall_mem_cons]
    exact ⟨closed_memberText legible.1 (closed_print type legible.2.1) optional readonly,
      closed_printMembers rest legible.2.2⟩

theorem closed_printParams (params : List Parameter) (legible : LegibleParams params) :
    ∀ text ∈ printParams params, Closed text := by
  match params with
  | [] => simp [printParams]
  | ⟨name, type, optional⟩ :: rest =>
    rw [printParams, List.forall_mem_cons]
    refine ⟨?_, closed_printParams rest legible.2.2⟩
    have text := closed_memberText legible.1 (closed_print type legible.2.1) optional false
    simpa [memberText] using text

end

end TypeExpr

end Componentry
