/-!
# Patterns of statements

Patterns describe statements that start on a line of their own. A pattern may fit the start of a
text in several ways; of two alternatives the first is preferred, and of a run of characters the
longest. Statements are found from left to right without overlap.

`Pattern.fit` says what a pattern means: it tries the ways in the order of preference and goes on
with whatever follows the pattern. A `Pattern.Plan` finds the same without trying a place twice
(`Pattern.segments_eq_fit`).
-/

namespace Componentry

/-- The shapes of statements: a small part of regular expressions. -/
inductive Pattern where
  /-- The characters of a text. -/
  | word (text : List Char)
  /-- As many characters of a class as possible, at least so many. -/
  | run (least : Nat) (accepts : Char → Bool)
  | seq (first second : Pattern)
  /-- The first pattern if the rest fits after it, else the second. -/
  | orElse (first second : Pattern)
  /-- The text that the pattern takes is kept in a slot. -/
  | capture (slot : Nat) (inner : Pattern)

namespace Pattern

/-- How a pattern fits. Places are given by the number of characters from there to the end of the
text. -/
structure Outcome where
  /-- The place where the pattern ends. -/
  left : Nat
  /-- Where the text of a slot starts. -/
  opened : List (Nat × Nat) := []
  /-- Where the text of a slot ends. -/
  closed : List (Nat × Nat) := []
deriving DecidableEq, Repr

namespace Outcome

def opening (slot left : Nat) (outcome : Outcome) : Outcome :=
  { outcome with opened := (slot, left) :: outcome.opened }

def closing (slot left : Nat) (outcome : Outcome) : Outcome :=
  { outcome with closed := (slot, left) :: outcome.closed }

/-- The texts in the slots, taken from a text that starts at a place. -/
def captures (outcome : Outcome) (start : Nat) (text : List Char) : List (Nat × List Char) :=
  outcome.opened.filterMap fun (slot, first) =>
    (outcome.closed.lookup slot).map fun last =>
      (slot, (text.drop (start - first)).take (first - last))

end Outcome

/-- What is left after a text at the start. -/
def dropWord? : List Char → List Char → Option (List Char)
  | [], chars => some chars
  | _ :: _, [] => none
  | expected :: text, c :: rest => if c = expected then dropWord? text rest else none

/-! ## Meaning -/

/-- The first outcome of what follows a run of characters, the longest run first. -/
def fitRun (accepts : Char → Bool) (follow : List Char → Option Outcome) :
    Nat → List Char → Option Outcome
  | 0, [] => follow []
  | 0, c :: rest =>
    (if accepts c then fitRun accepts follow 0 rest else none) <|> follow (c :: rest)
  | _ + 1, [] => none
  | least + 1, c :: rest => if accepts c then fitRun accepts follow least rest else none

/-- The outcome at the start of a text of a pattern and of what follows it. -/
def fit : Pattern → (List Char → Option Outcome) → List Char → Option Outcome
  | .word text, follow, chars => (dropWord? text chars).bind follow
  | .run least accepts, follow, chars => fitRun accepts follow least chars
  | .seq first second, follow, chars => fit first (fit second follow) chars
  | .orElse first second, follow, chars => fit first follow chars <|> fit second follow chars
  | .capture slot inner, follow, chars =>
    (fit inner (fun rest => (follow rest).map (·.closing slot rest.length)) chars).map
      (·.opening slot chars.length)

/-- The outcome of a pattern that nothing has to follow. -/
def finished (chars : List Char) : Option Outcome :=
  some { left := chars.length }

/-! ## Plans

A plan is a pattern prepared for one text. Where a run of characters may end at many places, the
plan looks the outcome up in a table of all places of the text, so that no place is tried twice.
-/

inductive Plan where
  /-- Nothing has to follow. -/
  | finish
  | word (text : List Char) (next : Plan)
  /-- One character of a class. -/
  | step (accepts : Char → Bool) (next : Plan)
  /-- A run of characters and what follows it, by the number of characters left. -/
  | table (outcomes : Thunk (Array (Option Outcome)))
  | either (first second : Plan)
  | opening (slot : Nat) (next : Plan)
  | closing (slot : Nat) (next : Plan)

namespace Plan

/-- The outcome of a plan at the start of a text of a length. -/
def outcome : Plan → Nat → List Char → Option Outcome
  | .finish, left, _ => some { left }
  | .word text next, left, chars =>
    match dropWord? text chars with
    | some rest => next.outcome (left - text.length) rest
    | none => none
  | .step accepts next, left, chars =>
    match chars with
    | [] => none
    | c :: rest => if accepts c then next.outcome (left - 1) rest else none
  | .table outcomes, left, _ => outcomes.get[left]?.join
  | .either first second, left, chars => first.outcome left chars <|> second.outcome left chars
  | .opening slot next, left, chars => (next.outcome left chars).map (·.opening slot left)
  | .closing slot next, left, chars => (next.outcome left chars).map (·.closing slot left)

/-- The outcomes of a run and of what follows it at the places of a text, from its end to its
start. -/
def runTable (accepts : Char → Bool) (next : Plan) : List Char → Array (Option Outcome)
  | [] => #[next.outcome 0 []]
  | c :: rest =>
    let later := runTable accepts next rest
    later.push ((if accepts c then later.back?.join else none) <|>
      next.outcome later.size (c :: rest))

/-- The plan of a run of at least so many characters. -/
def run (text : List Char) (accepts : Char → Bool) (next : Plan) : Nat → Plan
  | 0 => .table (Thunk.mk fun _ => runTable accepts next text)
  | least + 1 => .step accepts (run text accepts next least)

/-- The plan of a pattern and of what follows it. -/
def ofPattern (text : List Char) : Pattern → Plan → Plan
  | .word expected, next => .word expected next
  | .run least accepts, next => run text accepts next least
  | .seq first second, next => ofPattern text first (ofPattern text second next)
  | .orElse first second, next => .either (ofPattern text first next) (ofPattern text second next)
  | .capture slot inner, next => .opening slot (ofPattern text inner (.closing slot next))

/-- At every place of a text, the plan has the outcome that a function gives. -/
def Means (text : List Char) (plan : Plan) (meaning : List Char → Option Outcome) : Prop :=
  ∀ chars, chars <:+ text → plan.outcome chars.length chars = meaning chars

theorem finish_means (text : List Char) : Means text .finish finished :=
  fun _ _ => rfl

theorem size_runTable (accepts : Char → Bool) (next : Plan) (text : List Char) :
    (runTable accepts next text).size = text.length + 1 := by
  induction text with
  | nil => rfl
  | cons c rest ih => rw [runTable, Array.size_push, ih, List.length_cons]

theorem getElem?_runTable {accepts : Char → Bool} {next : Plan} {text : List Char}
    {follow : List Char → Option Outcome} (means : Means text next follow) (chars : List Char)
    (suffix : chars <:+ text) :
    (runTable accepts next text)[chars.length]? = some (fitRun accepts follow 0 chars) := by
  induction text generalizing chars with
  | nil =>
    have empty : chars = [] := List.suffix_nil.mp suffix
    subst empty
    rw [fitRun, ← means [] suffix]
    rfl
  | cons c rest ih =>
    have rest_suffix : rest <:+ c :: rest := List.suffix_cons c rest
    have later := ih fun others among => means others (among.trans rest_suffix)
    rw [runTable]
    rcases List.suffix_cons_iff.mp suffix with whole | inside
    · subst whole
      have last : (runTable accepts next rest).back? = some (fitRun accepts follow 0 rest) := by
        rw [Array.back?_eq_getElem?, size_runTable, Nat.add_sub_cancel]
        exact later rest (List.suffix_refl rest)
      have here : next.outcome (rest.length + 1) (c :: rest) = follow (c :: rest) :=
        means (c :: rest) suffix
      rw [List.length_cons, last, size_runTable, here, ← size_runTable accepts next rest,
        Array.getElem?_push_size, fitRun, Option.join_some]
    · have shorter : chars.length < (runTable accepts next rest).size := by
        rw [size_runTable]
        exact Nat.lt_succ_of_le inside.length_le
      rw [Array.getElem?_push_lt shorter, ← later chars inside, Array.getElem?_eq_getElem shorter]

theorem run_means {accepts : Char → Bool} {next : Plan} {text : List Char}
    {follow : List Char → Option Outcome} (means : Means text next follow) (least : Nat) :
    Means text (run text accepts next least) (fitRun accepts follow least) := by
  induction least with
  | zero =>
    intro chars suffix
    rw [run, outcome]
    exact congrArg Option.join (getElem?_runTable means chars suffix)
  | succ least ih =>
    intro chars suffix
    cases chars with
    | nil => rfl
    | cons c rest =>
      rw [run, outcome, fitRun, List.length_cons, Nat.add_sub_cancel,
        ih rest ((List.suffix_cons c rest).trans suffix)]

/-- A text that stands at the start leaves what comes after its length. -/
theorem drop_of_dropWord? {text chars rest : List Char}
    (dropped : dropWord? text chars = some rest) : rest = chars.drop text.length := by
  induction text generalizing chars with
  | nil =>
    rw [dropWord?, Option.some.injEq] at dropped
    exact dropped.symm
  | cons expected text ih =>
    cases chars with
    | nil => simp [dropWord?] at dropped
    | cons c chars =>
      rw [dropWord?] at dropped
      split at dropped
      · exact ih dropped
      · simp at dropped

/-- The plan of a pattern has the outcomes that the meaning of the pattern gives. -/
theorem ofPattern_means {text : List Char} (pattern : Pattern) {next : Plan}
    {follow : List Char → Option Outcome} (means : Means text next follow) :
    Means text (ofPattern text pattern next) (fit pattern follow) := by
  induction pattern generalizing next follow with
  | word expected =>
    intro chars suffix
    rw [ofPattern, outcome, fit]
    cases dropped : dropWord? expected chars with
    | none => rfl
    | some rest =>
      have after := drop_of_dropWord? dropped
      have length : chars.length - expected.length = rest.length := by
        rw [after, List.length_drop]
      have rest_suffix : rest <:+ text := by
        rw [after]
        exact (List.drop_suffix expected.length chars).trans suffix
      exact (congrArg (next.outcome · rest) length).trans (means rest rest_suffix)
  | run least accepts => exact run_means means least
  | seq first second first_ih second_ih => exact first_ih (second_ih means)
  | orElse first second first_ih second_ih =>
    intro chars suffix
    rw [ofPattern, outcome, fit, first_ih means chars suffix, second_ih means chars suffix]
  | capture slot inner ih =>
    intro chars suffix
    have closed : Means text (.closing slot next)
        fun rest => (follow rest).map (·.closing slot rest.length) := by
      intro rest rest_suffix
      rw [outcome, means rest rest_suffix]
    rw [ofPattern, outcome, fit, ih closed chars suffix]

end Plan

/-! ## Common patterns -/

/-- Patterns one after the other. -/
def sequence : List Pattern → Pattern
  | [] => .word []
  | [last] => last
  | first :: rest => .seq first (sequence rest)

/-- The pattern if it fits, else nothing. -/
def optional (inner : Pattern) : Pattern := .orElse inner (.word [])

/-- The first of the texts that fits. -/
def anyOf : List String → Pattern
  | [] => .run 1 fun _ => false
  | [last] => .word last.toList
  | first :: rest => .orElse (.word first.toList) (anyOf rest)

/-! ## Statements in a text -/

/-- A statement that was found in a text. -/
structure Found where
  /-- The place in the text, in bytes. -/
  start : Nat
  text : List Char
  captures : List (Nat × List Char)

namespace Found

/-- How many bytes a statement takes. -/
def byteLength (found : Found) : Nat :=
  found.text.foldl (fun total c => total + c.utf8Size) 0

/-- The text in a slot. -/
def captured? (found : Found) (slot : Nat) : Option (List Char) :=
  found.captures.lookup slot

end Found

/-- A text is made of statements and of characters between them. -/
inductive Segment where
  | plain (c : Char)
  | statement (found : Found)

/-- Cuts a text of a length into statements and other characters, given the outcome at every place
by its length and its text. `atStart` says that a line starts here, `offset` where the text is in
bytes, and `skip` how many characters belong to the statement found before. -/
def segmentsFrom (outcome : Nat → List Char → Option Outcome) (atStart : Bool)
    (offset skip left : Nat) : List Char → List Segment
  | [] => []
  | c :: rest =>
    match skip with
    | skip + 1 => segmentsFrom outcome (c == '\n') (offset + c.utf8Size) skip (left - 1) rest
    | 0 =>
      match if atStart then outcome left (c :: rest) else none with
      | some found =>
        let length := left - found.left
        .statement ⟨offset, (c :: rest).take length, found.captures left (c :: rest)⟩ ::
          segmentsFrom outcome (c == '\n') (offset + c.utf8Size) (length - 1) (left - 1) rest
      | none =>
        .plain c :: segmentsFrom outcome (c == '\n') (offset + c.utf8Size) 0 (left - 1) rest

/-- Cuts a text into the statements of a pattern and other characters. -/
def segments (pattern : Pattern) (text : String) : List Segment :=
  let chars := text.toList
  segmentsFrom (Plan.ofPattern chars pattern .finish).outcome true 0 0 chars.length chars

theorem segmentsFrom_congr {text : List Char} {plan : Plan} {meaning : List Char → Option Outcome}
    (means : plan.Means text meaning) (atStart : Bool) (offset skip : Nat) (chars : List Char)
    (suffix : chars <:+ text) :
    segmentsFrom plan.outcome atStart offset skip chars.length chars =
      segmentsFrom (fun _ => meaning) atStart offset skip chars.length chars := by
  induction chars generalizing atStart offset skip with
  | nil => rfl
  | cons c rest ih =>
    have later (atStart : Bool) (offset skip : Nat) :=
      ih atStart offset skip ((List.suffix_cons c rest).trans suffix)
    have here := means (c :: rest) suffix
    cases skip with
    | succ skip => exact later (c == '\n') (offset + c.utf8Size) skip
    | zero =>
      rw [List.length_cons] at here
      simp only [segmentsFrom, List.length_cons, Nat.add_sub_cancel, here, later]

/-- Statements are found where the meaning of the pattern says that it fits. -/
theorem segments_eq_fit (pattern : Pattern) (text : String) :
    segments pattern text =
      segmentsFrom (fun _ => fit pattern finished) true 0 0 text.toList.length text.toList :=
  segmentsFrom_congr (Plan.ofPattern_means pattern (Plan.finish_means text.toList)) true 0 0
    text.toList (List.suffix_refl text.toList)

/-- The statements of a text, in order. -/
def findAll (pattern : Pattern) (text : String) : List Found :=
  (segments pattern text).filterMap fun
    | .statement found => some found
    | .plain _ => none

/-- The text without its statements. -/
def strip (pattern : Pattern) (text : String) : String :=
  String.ofList ((segments pattern text).filterMap fun
    | .statement _ => none
    | .plain c => some c)

end Pattern

end Componentry
