import Mathlib.Data.List.Basic
import Componentry.Statement.Pattern

/-!
# The ways in which a pattern fits

`ways` lists all the ways in which a pattern fits at the start of a text, the
preferred ones first, and the pattern takes the first of them (`fit_finished`).
Places are counted from the start of the text, so that a way does not depend on
how the text goes on.

A way that ends inside a part of a text sees nothing of what comes after that
part: `filter_ways_append` says that two texts with the same beginning have the
same ways inside it, in the same order. If the first way of each text ends there,
the two therefore take the same way (`first?_eq_of_append`).
-/

namespace Componentry

namespace Pattern

variable {chars text left : List Char} {pattern : Pattern} {way : Way}

/-- One way in which a pattern fits: how many characters it takes, and where the texts in slots
start and end. -/
structure Way where
  taken : Nat
  opened : List (Nat × Nat) := []
  closed : List (Nat × Nat) := []
deriving DecidableEq, Repr

namespace Way

/-- One way, and another one from where it ends. -/
def andThen (first second : Way) : Way where
  taken := first.taken + second.taken
  opened := first.opened ++ second.opened.map fun mark => (mark.1, first.taken + mark.2)
  closed := first.closed ++ second.closed.map fun mark => (mark.1, first.taken + mark.2)

/-- The way with all that it takes kept in a slot. -/
def keep (slot : Nat) (way : Way) : Way :=
  { way with opened := (slot, 0) :: way.opened, closed := way.closed ++ [(slot, way.taken)] }

/-- The outcome of a way in a text of a length, if it is followed by an outcome. -/
def before (way : Way) (length : Nat) (rest : Outcome) : Outcome where
  left := rest.left
  opened := (way.opened.map fun mark => (mark.1, length - mark.2)) ++ rest.opened
  closed := (way.closed.map fun mark => (mark.1, length - mark.2)) ++ rest.closed

/-- The texts in the slots. -/
def captures (way : Way) (text : List Char) : List (Nat × List Char) :=
  way.opened.filterMap fun (slot, first) =>
    (way.closed.lookup slot).map fun last => (slot, (text.drop first).take (last - first))

@[simp]
theorem before_taken (taken length : Nat) : ({ taken } : Way).before length = id :=
  rfl

@[simp]
theorem taken_andThen (first second : Way) :
    (first.andThen second).taken = first.taken + second.taken :=
  rfl

@[simp]
theorem taken_keep (slot : Nat) (way : Way) : (way.keep slot).taken = way.taken :=
  rfl

theorem before_andThen (first second : Way) (length : Nat) :
    (first.andThen second).before length =
      first.before length ∘ second.before (length - first.taken) := by
  funext rest
  simp [before, andThen, Nat.sub_sub]

theorem before_keep (slot : Nat) (way : Way) (length : Nat) :
    (way.keep slot).before length = fun rest =>
      (way.before length (rest.closing slot (length - way.taken))).opening slot length := by
  funext rest
  simp [before, keep, Outcome.opening, Outcome.closing]

end Way

/-- The lengths of the runs of characters at the start of a text, the longest first. -/
def runs (accepts : Char → Bool) : Nat → List Char → List Nat
  | 0, [] => [0]
  | 0, c :: rest => (if accepts c then (runs accepts 0 rest).map (· + 1) else []) ++ [0]
  | _ + 1, [] => []
  | least + 1, c :: rest => if accepts c then (runs accepts least rest).map (· + 1) else []

/-- The ways in which a pattern fits at the start of a text, in the order of preference. -/
def ways : Pattern → List Char → List Way
  | .word text, chars => if (dropWord? text chars).isSome then [{ taken := text.length }] else []
  | .run least accepts, chars => (runs accepts least chars).map fun taken => { taken }
  | .seq first second, chars =>
    (ways first chars).flatMap fun way =>
      (ways second (chars.drop way.taken)).map way.andThen
  | .orElse first second, chars => ways first chars ++ ways second chars
  | .capture slot inner, chars => (ways inner chars).map (Way.keep slot)

/-! ## The first way -/

theorem findSome?_flatMap {α β γ : Type} (items : List α) (expand : α → List β)
    (choose : β → Option γ) :
    (items.flatMap expand).findSome? choose =
      items.findSome? fun item => (expand item).findSome? choose := by
  induction items with
  | nil => rfl
  | cons item rest ih =>
    rw [List.flatMap_cons, List.findSome?_append, ih, List.findSome?_cons]
    cases (expand item).findSome? choose <;> rfl

theorem findSome?_some {α β : Type} (items : List α) (value : α → β) :
    (items.findSome? fun item => some (value item)) = items.head?.map value := by
  cases items <;> rfl

theorem fitRun_eq (accepts : Char → Bool) (follow : List Char → Option Outcome) (least : Nat)
    (chars : List Char) :
    fitRun accepts follow least chars =
      (runs accepts least chars).findSome? fun taken => follow (chars.drop taken) := by
  fun_induction runs accepts least chars with
  | case1 => simp [fitRun]
  | case2 c rest ih =>
    rw [fitRun, ih, List.findSome?_append]
    by_cases accepted : accepts c = true
    · simp [accepted, List.findSome?_map, Function.comp_def]
    · simp [accepted]
  | case3 least => simp [fitRun]
  | case4 least c rest accepted ih =>
    rw [fitRun, if_pos accepted, ih, List.findSome?_map]
    rfl
  | case5 least c rest refused => simp [fitRun, refused]

/-- A pattern takes the first way after which the rest goes on. -/
theorem fit_eq_findSome? (pattern : Pattern) (follow : List Char → Option Outcome)
    (chars : List Char) :
    fit pattern follow chars = (ways pattern chars).findSome? fun way =>
      (follow (chars.drop way.taken)).map (way.before chars.length) := by
  induction pattern generalizing follow chars with
  | word text =>
    rw [fit, ways]
    cases dropped : dropWord? text chars with
    | none => rfl
    | some rest => simp [Plan.drop_of_dropWord? dropped]
  | run least accepts =>
    rw [fit, ways, fitRun_eq, List.findSome?_map]
    simp [Function.comp_def]
  | seq first second first_ih second_ih =>
    rw [fit, ways, first_ih, findSome?_flatMap]
    congr 1
    funext way
    rw [second_ih, List.map_findSome?, List.findSome?_map]
    congr 1
    funext later
    simp [Way.before_andThen, Function.comp_def]
  | orElse first second first_ih second_ih =>
    rw [fit, ways, first_ih, second_ih, List.findSome?_append]
    cases (ways first chars).findSome? _ <;> rfl
  | capture slot inner ih =>
    rw [fit, ways, ih, List.map_findSome?, List.findSome?_map]
    congr 1
    funext way
    simp [Way.before_keep, Function.comp_def]

/-- What a way comes to in a text of a length, if nothing has to follow. -/
def Way.outcome (way : Way) (length : Nat) : Outcome :=
  way.before length { left := length - way.taken }

/-- If nothing has to follow, a pattern takes its first way. -/
theorem fit_finished (pattern : Pattern) (chars : List Char) :
    fit pattern finished chars =
      (ways pattern chars).head?.map fun way => way.outcome chars.length := by
  rw [fit_eq_findSome?, ← findSome?_some]
  simp only [finished, Way.outcome, Option.map_some, List.length_drop]

/-! ## Words -/

@[simp]
theorem dropWord?_append (word rest : List Char) : dropWord? word (word ++ rest) = some rest := by
  induction word with
  | nil => rfl
  | cons c word ih => simp [dropWord?, ih]

theorem eq_append_of_dropWord? {word rest : List Char}
    (dropped : dropWord? word chars = some rest) :
    chars = word ++ rest := by
  induction word generalizing chars with
  | nil => simpa [dropWord?] using dropped
  | cons c word ih =>
    cases chars with
    | nil => simp [dropWord?] at dropped
    | cons d chars =>
      rw [dropWord?] at dropped
      split at dropped
      · rename_i same
        rw [ih dropped, same]
        rfl
      · simp at dropped

/-! ## Ways inside a part of a text -/

theorem filter_runs_zero (accepts : Char → Bool) (least : Nat) (chars : List Char) :
    (runs accepts least chars).filter (· ≤ 0) = if least = 0 then [0] else [] := by
  cases least with
  | zero =>
    cases chars with
    | nil => rfl
    | cons c rest =>
      rw [runs, List.filter_append]
      by_cases accepted : accepts c = true
      · simp [accepted, List.filter_map, Function.comp_def]
      · simp [accepted]
  | succ least =>
    cases chars with
    | nil => rfl
    | cons c rest =>
      rw [runs]
      split
      · simp [List.filter_map, Function.comp_def]
      · rfl

theorem filter_map_succ (lengths : List Nat) (bound : Nat) :
    (lengths.map (· + 1)).filter (· ≤ bound + 1) = (lengths.filter (· ≤ bound)).map (· + 1) := by
  simp [List.filter_map, Function.comp_def]

theorem filter_runs_append (accepts : Char → Bool) (least : Nat) (text left right : List Char) :
    (runs accepts least (text ++ left)).filter (· ≤ text.length) =
      (runs accepts least (text ++ right)).filter (· ≤ text.length) := by
  induction text generalizing least with
  | nil => simp only [List.nil_append, List.length_nil, filter_runs_zero]
  | cons c text ih =>
    cases least with
    | zero =>
      simp only [List.cons_append, runs, List.length_cons, List.filter_append]
      split
      · rw [filter_map_succ, filter_map_succ, ih]
      · rfl
    | succ least =>
      simp only [List.cons_append, runs, List.length_cons]
      split
      · rw [filter_map_succ, filter_map_succ, ih]
      · rfl

theorem dropWord?_isSome_iff {word : List Char} :
    (dropWord? word chars).isSome = true ↔ word <+: chars := by
  constructor
  · intro dropped
    rcases Option.isSome_iff_exists.1 dropped with ⟨rest, rest_eq⟩
    exact ⟨rest, (eq_append_of_dropWord? rest_eq).symm⟩
  · rintro ⟨rest, rfl⟩
    rw [dropWord?_append]
    rfl

theorem flatMap_filter_of_nil {α β : Type} {items : List α} {keep : α → Bool}
    {expand : α → List β} (nothing : ∀ item ∈ items, keep item = false → expand item = []) :
    (items.filter keep).flatMap expand = items.flatMap expand := by
  induction items with
  | nil => rfl
  | cons item rest ih =>
    have rest_eq := ih fun other mem => nothing other (List.mem_cons_of_mem item mem)
    cases kept : keep item with
    | true => simp [kept, rest_eq]
    | false => simp [kept, rest_eq, nothing item List.mem_cons_self kept]

theorem filter_ways_append (pattern : Pattern) (text left right : List Char) :
    (ways pattern (text ++ left)).filter (·.taken ≤ text.length) =
      (ways pattern (text ++ right)).filter (·.taken ≤ text.length) := by
  induction pattern generalizing text with
  | word expected =>
    by_cases short : expected.length ≤ text.length
    · have inside (rest : List Char) : expected <+: text ++ rest ↔ expected <+: text :=
        ⟨fun starts =>
            List.prefix_of_prefix_length_le starts (List.prefix_append text rest) short,
          fun starts => starts.trans (List.prefix_append text rest)⟩
      simp only [ways, dropWord?_isSome_iff, inside]
    · have long (rest : List Char) :
          (ways (.word expected) (text ++ rest)).filter (·.taken ≤ text.length) = [] := by
        rw [ways]
        split <;> simp [short]
      rw [long, long]
  | run least accepts =>
    have runs_eq := filter_runs_append accepts least text left right
    simp only [ways, List.filter_map, Function.comp_def, runs_eq]
  | seq first second first_ih second_ih =>
    have expand (rest : List Char) :
        (ways (.seq first second) (text ++ rest)).filter (·.taken ≤ text.length) =
          ((ways first (text ++ rest)).filter (·.taken ≤ text.length)).flatMap fun way =>
            ((ways second (text.drop way.taken ++ rest)).filter
              (·.taken ≤ (text.drop way.taken).length)).map way.andThen := by
      have too_long : ∀ way ∈ ways first (text ++ rest),
          (decide (way.taken ≤ text.length)) = false →
          ((ways second ((text ++ rest).drop way.taken)).map way.andThen).filter
            (·.taken ≤ text.length) = [] := by
        intro way _ long
        rw [decide_eq_false_iff_not] at long
        simp only [List.filter_eq_nil_iff, List.mem_map, decide_eq_true_eq]
        rintro _ ⟨later, _, rfl⟩
        rw [Way.taken_andThen]
        omega
      rw [ways, List.filter_flatMap, ← flatMap_filter_of_nil too_long]
      apply List.flatMap_congr
      intro way mem
      have inside := of_decide_eq_true (List.mem_filter.1 mem).2
      have same (later : Way) : decide ((way.andThen later).taken ≤ text.length) =
          decide (later.taken ≤ (text.drop way.taken).length) := by
        apply decide_eq_decide.2
        rw [Way.taken_andThen, List.length_drop]
        omega
      simp only [List.filter_map, Function.comp_def, same, List.drop_append_of_le_length inside]
    rw [expand, expand, first_ih]
    congr 1
    funext way
    rw [second_ih]
  | orElse first second first_ih second_ih =>
    rw [ways, ways, List.filter_append, List.filter_append, first_ih, second_ih]
  | capture slot inner ih =>
    rw [ways, ways, List.filter_map, List.filter_map]
    exact congrArg (List.map (Way.keep slot)) (ih text)

/-- The way that a pattern takes, if it fits. -/
def first? (pattern : Pattern) (chars : List Char) : Option Way :=
  (ways pattern chars).head?

theorem mem_ways_of_first? (first : first? pattern chars = some way) : way ∈ ways pattern chars :=
  List.mem_of_head? first

/-- A pattern that fits inside a beginning of a text fits in all texts that begin so. -/
theorem exists_first?_of_append (first : first? pattern (text ++ left) = some way)
    (inside : way.taken ≤ text.length) (right : List Char) :
    ∃ other, first? pattern (text ++ right) = some other := by
  have mem : way ∈ (ways pattern (text ++ left)).filter (·.taken ≤ text.length) :=
    List.mem_filter.2 ⟨mem_ways_of_first? first, decide_eq_true inside⟩
  rw [filter_ways_append pattern text left right] at mem
  have other_mem := (List.mem_filter.1 mem).1
  rw [first?]
  cases others : ways pattern (text ++ right) with
  | nil => simp [others] at other_mem
  | cons other rest => exact ⟨other, rfl⟩

theorem head?_filter_of_first? {bound : Nat} (first : first? pattern chars = some way)
    (inside : way.taken ≤ bound) :
    ((ways pattern chars).filter (·.taken ≤ bound)).head? = some way := by
  rw [first?] at first
  cases all : ways pattern chars with
  | nil => simp [all] at first
  | cons head rest =>
    rw [all, List.head?_cons] at first
    cases first
    simp [inside]

/-- If the first ways of two texts end inside a beginning that they share, they are the same. -/
theorem first?_eq_of_append {right : List Char} {other : Way}
    (first : first? pattern (text ++ left) = some way) (inside : way.taken ≤ text.length)
    (other_first : first? pattern (text ++ right) = some other)
    (other_inside : other.taken ≤ text.length) : way = other := by
  have head := head?_filter_of_first? first inside
  have other_head := head?_filter_of_first? other_first other_inside
  rw [filter_ways_append pattern text left right, other_head] at head
  exact (Option.some.inj head).symm

/-! ## Bounds -/

/-- The least number of characters that a pattern takes. -/
def leastLength : Pattern → Nat
  | .word text => text.length
  | .run least _ => least
  | .seq first second => leastLength first + leastLength second
  | .orElse first second => min (leastLength first) (leastLength second)
  | .capture _ inner => leastLength inner

theorem of_mem_runs {accepts : Char → Bool} {least : Nat} {taken : Nat}
    (mem : taken ∈ runs accepts least chars) :
    least ≤ taken ∧ taken ≤ chars.length ∧ ∀ c ∈ chars.take taken, accepts c = true := by
  fun_induction runs accepts least chars generalizing taken with
  | case1 => simp_all
  | case2 c rest ih =>
    rcases List.mem_append.1 mem with longer | zero
    · split at longer
      · rename_i accepted
        rcases List.mem_map.1 longer with ⟨shorter, shorter_mem, rfl⟩
        simpa [accepted] using (ih shorter_mem).2
      · simp at longer
    · simp [List.mem_singleton.1 zero]
  | case3 least => simp at mem
  | case4 least c rest accepted ih =>
    rcases List.mem_map.1 mem with ⟨shorter, shorter_mem, rfl⟩
    simpa [accepted] using ih shorter_mem
  | case5 least c rest refused => simp at mem

theorem mem_ways_word :
    way ∈ ways (.word text) chars ↔ text <+: chars ∧ way = { taken := text.length } := by
  rw [← dropWord?_isSome_iff, ways]
  split
  · rename_i starts
    simp [starts]
  · rename_i other
    simp [other]

/-- What each kind of pattern passes on from the ways in its parts holds of every way. -/
theorem ways_induction {motive : ∀ chars pattern way, way ∈ ways pattern chars → Prop}
    (word : ∀ {chars text mem}, text <+: chars →
      motive chars (.word text) { taken := text.length } mem)
    (run : ∀ {chars least accepts taken mem}, taken ∈ runs accepts least chars →
      motive chars (.run least accepts) { taken } mem)
    (seq : ∀ {chars first second earlier later mem} earlier_mem later_mem,
      motive chars first earlier earlier_mem →
      motive (chars.drop earlier.taken) second later later_mem →
      motive chars (.seq first second) (earlier.andThen later) mem)
    (inFirst : ∀ {chars first second way mem} part_mem, motive chars first way part_mem →
      motive chars (.orElse first second) way mem)
    (inSecond : ∀ {chars first second way mem} part_mem, motive chars second way part_mem →
      motive chars (.orElse first second) way mem)
    (capture : ∀ {chars slot inner inside mem} inside_mem, motive chars inner inside inside_mem →
      motive chars (.capture slot inner) (inside.keep slot) mem)
    (mem : way ∈ ways pattern chars) : motive chars pattern way mem := by
  induction pattern generalizing chars way with
  | word text =>
    rcases mem_ways_word.1 mem with ⟨starts, rfl⟩
    exact word starts
  | run least accepts =>
    rcases List.mem_map.1 mem with ⟨taken, taken_mem, rfl⟩
    exact run taken_mem
  | seq first second first_ih second_ih =>
    rcases List.mem_flatMap.1 mem with ⟨earlier, earlier_mem, joined_mem⟩
    rcases List.mem_map.1 joined_mem with ⟨later, later_mem, rfl⟩
    exact seq earlier_mem later_mem (first_ih earlier_mem) (second_ih later_mem)
  | orElse first second first_ih second_ih =>
    rcases List.mem_append.1 mem with part_mem | part_mem
    · exact inFirst part_mem (first_ih part_mem)
    · exact inSecond part_mem (second_ih part_mem)
  | capture slot inner ih =>
    rcases List.mem_map.1 mem with ⟨inside, inside_mem, rfl⟩
    exact capture inside_mem (ih inside_mem)

theorem bounds_of_mem_ways (mem : way ∈ ways pattern chars) :
    leastLength pattern ≤ way.taken ∧ way.taken ≤ chars.length := by
  induction mem using ways_induction with
  | word starts => exact ⟨Nat.le_refl _, starts.length_le⟩
  | run taken_mem =>
    rcases of_mem_runs taken_mem with ⟨enough, within, _⟩
    exact ⟨enough, within⟩
  | seq _ _ earlier_bounds later_bounds =>
    rw [List.length_drop] at later_bounds
    rw [leastLength, Way.taken_andThen]
    omega
  | inFirst _ bounds | inSecond _ bounds =>
    rw [leastLength]
    omega
  | capture _ bounds => exact bounds

theorem length_take_of_first? (first : first? pattern chars = some way) :
    (chars.take way.taken).length = way.taken := by
  have bounds := bounds_of_mem_ways (mem_ways_of_first? first)
  rw [List.length_take]
  omega

/-- A pattern fits in every text that begins with what it takes in another one. -/
theorem exists_first?_of_isPrefix {others : List Char} (first : first? pattern chars = some way)
    (shared : chars.take way.taken <+: others) :
    ∃ other, first? pattern others = some other := by
  have text_length := length_take_of_first? first
  rcases shared with ⟨right, rfl⟩
  rw [← List.take_append_drop way.taken chars] at first
  exact exists_first?_of_append first (by omega) right

/-- Two texts that each begin with what a pattern takes in the other take the same way. -/
theorem first?_eq_of_isPrefix {others : List Char} {other : Way}
    (first : first? pattern chars = some way) (other_first : first? pattern others = some other)
    (shared : chars.take way.taken <+: others) (other_shared : others.take other.taken <+: chars) :
    way = other := by
  have text_length := length_take_of_first? first
  have other_length := length_take_of_first? other_first
  -- The longer of the two stretches is a beginning of both texts.
  rcases Nat.le_total other.taken way.taken with shorter | longer
  · rcases shared with ⟨right, rfl⟩
    rw [← List.take_append_drop way.taken chars] at first
    exact first?_eq_of_append first (by omega) other_first (by omega)
  · rcases other_shared with ⟨right, rfl⟩
    rw [← List.take_append_drop other.taken others] at other_first
    exact first?_eq_of_append first (by omega) other_first (by omega)

theorem first?_congr {others : List Char}
    (shared : ∀ way, first? pattern chars = some way → chars.take way.taken <+: others)
    (other_shared : ∀ way, first? pattern others = some way → others.take way.taken <+: chars) :
    first? pattern others = first? pattern chars := by
  cases first : first? pattern chars with
  | some way =>
    rcases exists_first?_of_isPrefix first (shared way first) with ⟨other, other_first⟩
    rw [other_first,
      first?_eq_of_isPrefix first other_first (shared way first) (other_shared other other_first)]
  | none =>
    cases other_first : first? pattern others with
    | none => rfl
    | some other =>
      rcases exists_first?_of_isPrefix other_first (other_shared other other_first) with
        ⟨way, found⟩
      rw [first] at found
      cases found

theorem marks_append_le {first second : Nat} {marks others : List (Nat × Nat)}
    (marks_le : ∀ mark ∈ marks, mark.2 ≤ first) (others_le : ∀ mark ∈ others, mark.2 ≤ second) :
    ∀ mark ∈ marks ++ others.map (fun mark => (mark.1, first + mark.2)),
      mark.2 ≤ first + second := by
  intro mark mem
  rcases List.mem_append.1 mem with mem | mem
  · have := marks_le mark mem
    omega
  · rcases List.mem_map.1 mem with ⟨other, other_mem, rfl⟩
    have := others_le other other_mem
    simp only
    omega

/-- Slots lie inside of what a way takes. -/
theorem marks_le_of_mem_ways (mem : way ∈ ways pattern chars) :
    (∀ mark ∈ way.opened, mark.2 ≤ way.taken) ∧ ∀ mark ∈ way.closed, mark.2 ≤ way.taken := by
  induction mem using ways_induction with
  | word => simp
  | run => simp
  | seq _ _ earlier_marks later_marks =>
    exact ⟨marks_append_le earlier_marks.1 later_marks.1,
      marks_append_le earlier_marks.2 later_marks.2⟩
  | inFirst _ marks => exact marks
  | inSecond _ marks => exact marks
  | capture _ marks =>
    constructor
    · intro mark mark_mem
      rcases List.mem_cons.1 mark_mem with rfl | mark_mem
      · exact Nat.zero_le _
      · exact marks.1 mark mark_mem
    · intro mark mark_mem
      rcases List.mem_append.1 mark_mem with mark_mem | mark_mem
      · exact marks.2 mark mark_mem
      · rw [List.mem_singleton] at mark_mem
        subst mark_mem
        exact Nat.le_refl _

theorem lookup_map_snd (marks : List (Nat × Nat)) (change : Nat → Nat) (slot : Nat) :
    (marks.map fun mark => (mark.1, change mark.2)).lookup slot =
      (marks.lookup slot).map change := by
  induction marks with
  | nil => rfl
  | cons mark rest ih =>
    rw [List.map_cons, List.lookup_cons, List.lookup_cons, ih]
    split <;> rfl

theorem le_of_lookup {marks : List (Nat × Nat)} {bound slot last : Nat}
    (marks_le : ∀ mark ∈ marks, mark.2 ≤ bound) (found : marks.lookup slot = some last) :
    last ≤ bound := by
  rcases List.lookup_eq_some_iff.1 found with ⟨earlier, later, rfl, _⟩
  exact marks_le (slot, last) (List.mem_append_right earlier List.mem_cons_self)

/-- The texts in the slots are found where the way has them. -/
theorem captures_outcome (mem : way ∈ ways pattern chars) :
    (way.outcome chars.length).captures chars.length chars = way.captures chars := by
  have taken_le := (bounds_of_mem_ways mem).2
  rcases marks_le_of_mem_ways mem with ⟨opened_le, closed_le⟩
  simp only [Outcome.captures, Way.captures, Way.outcome, Way.before, List.append_nil,
    List.filterMap_map]
  apply List.filterMap_congr
  rintro ⟨slot, first⟩ opened
  have first_le := opened_le _ opened
  simp only [Function.comp_apply, lookup_map_snd, Option.map_map]
  cases found : way.closed.lookup slot with
  | none => rfl
  | some last =>
    have last_le := le_of_lookup closed_le found
    have start_eq : chars.length - (chars.length - first) = first := by omega
    have length_eq : chars.length - first - (chars.length - last) = last - first := by omega
    simp [start_eq, length_eq]

/-- The texts in the slots of a way lie inside of what it takes. -/
theorem captures_append (mem : way ∈ ways pattern chars) (inside : way.taken ≤ text.length) :
    way.captures (text ++ left) = way.captures text := by
  rcases marks_le_of_mem_ways mem with ⟨opened_le, closed_le⟩
  rw [Way.captures, Way.captures]
  apply List.filterMap_congr
  rintro ⟨slot, first⟩ opened
  have first_le := opened_le _ opened
  simp only
  cases found : way.closed.lookup slot with
  | none => rfl
  | some last =>
    have last_le := le_of_lookup closed_le found
    simp only at first_le
    have inside_rest : last - first ≤ (text.drop first).length := by
      rw [List.length_drop]
      omega
    rw [Option.map_some, Option.map_some, List.drop_append_of_le_length (by omega),
      List.take_append_of_le_length inside_rest]

end Pattern

end Componentry
