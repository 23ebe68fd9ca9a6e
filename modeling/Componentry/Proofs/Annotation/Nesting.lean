import Componentry.Annotation
import Componentry.TypeExpr.Print

/-!
# Nesting of display types

A display type is cut at the bars outside of brackets, and brackets are counted
without regard to what they stand for. A text that takes the count back to where
it started may be followed by a bar and more alternatives: the alternatives of
the whole are then those of the parts (`Json.matchesDisplay_intercalate`).

Not every text of a type does so. The arrow of a function type is counted as a
closing bracket, and brackets in string literals are counted as well. `skew`
says where the text of a type takes the count (`TypeExpr.nesting_print`).
-/

namespace Componentry

/-- How far a text takes the nesting of brackets up or down. -/
def nesting : List Char → Int
  | [] => 0
  | c :: rest => nestingStep c + nesting rest

@[simp]
theorem nesting_nil : nesting [] = 0 :=
  rfl

@[simp]
theorem nesting_cons (c : Char) (rest : List Char) :
    nesting (c :: rest) = nestingStep c + nesting rest :=
  rfl

@[simp]
theorem nesting_append (left right : List Char) :
    nesting (left ++ right) = nesting left + nesting right := by
  induction left with
  | nil => simp
  | cons c rest ih =>
    rw [List.cons_append, nesting_cons, nesting_cons, ih]
    omega

/-! ## Cutting at bars -/

theorem splitBars_ne_nil (depth : Int) (text : List Char) : splitBars depth text ≠ [] := by
  induction text generalizing depth with
  | nil => simp [splitBars]
  | cons c rest ih =>
    rw [splitBars]
    split
    · simp
    · simpa using ih (depth + nestingStep c)

/-- A text that ends outside of brackets is cut at the bar after it. -/
theorem splitBars_append (depth : Int) {text : List Char} (level : depth + nesting text = 0)
    (rest : List Char) :
    splitBars depth (text ++ '|' :: rest) = splitBars depth text ++ splitBars 0 rest := by
  induction text generalizing depth with
  | nil =>
    have outside : depth = 0 := by
      simpa using level
    simp [splitBars, outside]
  | cons c tail ih =>
    rw [nesting_cons] at level
    rw [List.cons_append, splitBars, splitBars]
    split
    · rename_i bar
      have step : nestingStep c = 0 := by
        have c_eq : c = '|' := by
          simp only [Bool.and_eq_true, beq_iff_eq] at bar
          exact bar.1
        subst c_eq
        decide
      rw [ih _ (by omega), List.cons_append]
    · rw [ih _ (by omega)]
      cases parts : splitBars (depth + nestingStep c) tail with
      | nil => exact absurd parts (splitBars_ne_nil _ _)
      | cons first others => rfl

namespace Json

theorem matchesDisplay_append (value : Json) {left : String} (level : nesting left.toList = 0)
    (right : String) :
    value.matchesDisplay (left ++ "|" ++ right) =
      (value.matchesDisplay left || value.matchesDisplay right) := by
  have cut := splitBars_append 0 (by simpa using level) right.toList
  have text_eq : (left ++ "|" ++ right).toList = left.toList ++ '|' :: right.toList := by
    simp
  simp only [matchesDisplay, displayParts, text_eq, cut, List.map_append, List.any_append]

/-- A value is of a display type that is joined from others if it is of one of them. -/
theorem matchesDisplay_intercalate (value : Json) {displays : List String}
    (nonempty : displays ≠ []) (level : ∀ display ∈ displays, nesting display.toList = 0) :
    value.matchesDisplay ("|".intercalate displays) = displays.any value.matchesDisplay := by
  induction displays with
  | nil => exact absurd rfl nonempty
  | cons first others ih =>
    cases others with
    | nil => simp
    | cons second others =>
      have others_eq := ih (by simp) fun display mem =>
        level display (List.mem_cons_of_mem first mem)
      rw [String.intercalate_cons_cons,
        matchesDisplay_append value (level first List.mem_cons_self), others_eq, List.any_cons,
        List.any_cons, List.any_cons]

end Json

theorem nesting_intercalate_cons {separator : String} (level : nesting separator.toList = 0)
    (text : String) (others : List String) :
    nesting (separator.intercalate (text :: others)).toList =
      nesting text.toList + nesting (separator.intercalate others).toList := by
  cases others with
  | nil => simp
  | cons second others =>
    rw [String.intercalate_cons_cons]
    simp [level]

/-- Joining texts with bars keeps them where they started. -/
theorem nesting_intercalate_bar {texts : List String}
    (level : ∀ text ∈ texts, nesting text.toList = 0) :
    nesting ("|".intercalate texts).toList = 0 := by
  induction texts with
  | nil => rfl
  | cons text others ih =>
    rw [nesting_intercalate_cons (by decide), level text List.mem_cons_self,
      ih fun other mem => level other (List.mem_cons_of_mem text mem)]
    rfl

/-! ## Texts of types -/

namespace TypeExpr

mutual

/-- How far the text of a type takes the nesting up or down. An arrow takes it down by one; names,
literals and conditional types take it where their own texts do. -/
def skew : TypeExpr → Int
  | .primitive _ => 0
  | .literal value => nesting value.print.toList
  | .array element => element.skew
  | .struct (some name) typeArgs _ => nesting name.toList + skewAll typeArgs
  | .struct none _ members => skewMembers members
  | .reference name args => nesting name.toList + skewAll args
  | .union members => skewAll members
  | .intersection members => skewAll members
  | .mapped wrapper args => nesting wrapper.toList + skewAll args
  | .generic name _ => nesting name.toList
  | .function params returns => skewParams params + returns.skew - 1
  | .conditional text _ => nesting text.toList
  | .any => 0
  | .unknown => 0
  | .null => 0

def skewAll : List TypeExpr → Int
  | [] => 0
  | type :: rest => type.skew + skewAll rest

def skewMembers : List Member → Int
  | [] => 0
  | ⟨name, type, _, _⟩ :: rest => nesting name.toList + type.skew + skewMembers rest

def skewParams : List Parameter → Int
  | [] => 0
  | ⟨name, type, _⟩ :: rest => nesting name.toList + type.skew + skewParams rest

end

theorem nesting_grouped (type : TypeExpr) (text : String) :
    nesting (grouped type text).toList = nesting text.toList := by
  rw [grouped]
  split
  · have opening : nesting "(".toList = 1 := by decide
    have closing : nesting ")".toList = -1 := by decide
    rw [String.toList_append, String.toList_append, nesting_append, nesting_append, opening,
      closing]
    omega
  · rfl

theorem nesting_applied (name : String) (args : List String) :
    nesting (applied name args).toList =
      nesting name.toList + nesting (", ".intercalate args).toList := by
  rw [applied]
  split
  · rename_i empty
    rw [List.isEmpty_iff] at empty
    simp [empty]
  · have opening : nesting "<".toList = 1 := by decide
    have closing : nesting ">".toList = -1 := by decide
    simp only [String.toList_append, nesting_append, opening, closing]
    omega

theorem nesting_memberText (name : String) (optional readonly : Bool) (text : String) :
    nesting (memberText name optional readonly text).toList =
      nesting name.toList + nesting text.toList := by
  cases optional <;> cases readonly <;> simp [memberText, nestingStep]

mutual

theorem nesting_print (type : TypeExpr) : nesting type.print.toList = type.skew := by
  match type with
  | .primitive keyword => cases keyword <;> decide
  | .literal value => rw [print, skew]
  | .array element =>
    simp [print, skew, nesting_grouped, nesting_print element, nestingStep]
  | .struct (some name) typeArgs members =>
    rw [print, skew, nesting_applied, nesting_printAll (by decide) typeArgs]
  | .struct none typeArgs [] => simp [print, skew, skewMembers, nestingStep]
  | .struct none typeArgs (member :: members) =>
    have members_eq := nesting_printMembers (member :: members)
    have opening : nesting "\x7b ".toList = 1 := by decide
    have closing : nesting " \x7d".toList = -1 := by decide
    rw [print, skew]
    · simp only [String.toList_append, nesting_append, members_eq, opening, closing]
      omega
    · simp
  | .reference name args =>
    rw [print, skew, nesting_applied, nesting_printAll (by decide) args]
  | .union members => rw [print, skew, nesting_printOperands (by decide) members]
  | .intersection members => rw [print, skew, nesting_printOperands (by decide) members]
  | .mapped wrapper args =>
    rw [print, skew, nesting_applied, nesting_printAll (by decide) args]
  | .generic name constraint => rw [print, skew]
  | .function params returns =>
    have params_eq := nesting_printParams params
    have returns_eq := nesting_print returns
    have opening : nesting "(".toList = 1 := by decide
    have arrow : nesting ") => ".toList = -2 := by decide
    rw [print, skew]
    simp only [String.toList_append, nesting_append, params_eq, returns_eq, opening, arrow]
    omega
  | .conditional text resolved => rw [print, skew]
  | .any => rfl
  | .unknown => rfl
  | .null => rfl

theorem nesting_printAll {separator : String} (level : nesting separator.toList = 0)
    (types : List TypeExpr) :
    nesting (separator.intercalate (printAll types)).toList = skewAll types := by
  match types with
  | [] => simp [printAll, skewAll]
  | type :: rest =>
    rw [printAll, skewAll, nesting_intercalate_cons level, nesting_print type,
      nesting_printAll level rest]

theorem nesting_printOperands {separator : String} (level : nesting separator.toList = 0)
    (types : List TypeExpr) :
    nesting (separator.intercalate (printOperands types)).toList = skewAll types := by
  match types with
  | [] => simp [printOperands, skewAll]
  | type :: rest =>
    rw [printOperands, skewAll, nesting_intercalate_cons level, nesting_grouped,
      nesting_print type, nesting_printOperands level rest]

theorem nesting_printMembers (members : List Member) :
    nesting ("; ".intercalate (printMembers members)).toList = skewMembers members := by
  match members with
  | [] => simp [printMembers, skewMembers]
  | ⟨name, type, optional, readonly⟩ :: rest =>
    rw [printMembers, skewMembers, nesting_intercalate_cons (by decide), nesting_memberText,
      nesting_print type, nesting_printMembers rest]

theorem nesting_printParams (params : List Parameter) :
    nesting (", ".intercalate (printParams params)).toList = skewParams params := by
  match params with
  | [] => simp [printParams, skewParams]
  | ⟨name, type, optional⟩ :: rest =>
    rw [printParams, skewParams, nesting_intercalate_cons (by decide), nesting_printParams rest]
    cases optional <;> simp [nestingStep, nesting_print type]

end

end TypeExpr

end Componentry
