import Componentry.Proofs.Statement.Scan

/-!
# What a pattern matches

`Matches` says which texts a pattern stands for and what its slots hold, without
an order of preference. Every way in which a pattern fits is a match
(`matches_of_mem_ways`), so what all matches have in common holds of whatever a
scan finds.

`Takes` says which of its ways a pattern prefers at the start of a text. There
is one rule for each kind of pattern. The rule for a sequence asks that what its
first part prefers leads on, so that nothing has to be tried twice.
-/

namespace Componentry

namespace Pattern

variable {chars text rest : List Char} {pattern : Pattern} {way : Way}
  {captures : List (Nat × List Char)} {accepts : Char → Bool} {least : Nat}

/-! ## Slots -/

/-- The slots of a pattern, in order. -/
def slots : Pattern → List Nat
  | .word _ => []
  | .run _ _ => []
  | .seq first second => slots first ++ slots second
  | .orElse first second => slots first ++ slots second
  | .capture slot inner => slot :: slots inner

/-- No slot is filled twice in one match. -/
def slotsApart : Pattern → Bool
  | .word _ => true
  | .run _ _ => true
  | .seq first second =>
    (slots first).all (fun slot => !(slots second).contains slot) && slotsApart first &&
      slotsApart second
  | .orElse first second => slotsApart first && slotsApart second
  | .capture slot inner => !(slots inner).contains slot && slotsApart inner

theorem marks_of_mem_ways (mem : way ∈ ways pattern chars) :
    (∀ mark ∈ way.opened, mark.1 ∈ slots pattern) ∧
      ∀ mark ∈ way.closed, mark.1 ∈ slots pattern := by
  induction mem using ways_induction with
  | word => simp
  | run => simp
  | @seq _ first second _ _ _ _ _ earlier_marks later_marks =>
    have joined {marks others : List (Nat × Nat)} {taken : Nat}
        (marks_mem : ∀ mark ∈ marks, mark.1 ∈ slots first)
        (others_mem : ∀ mark ∈ others, mark.1 ∈ slots second) :
        ∀ mark ∈ marks ++ others.map (fun mark => (mark.1, taken + mark.2)),
          mark.1 ∈ slots (.seq first second) := by
      intro mark mark_mem
      apply List.mem_append.2
      rcases List.mem_append.1 mark_mem with mark_mem | mark_mem
      · exact Or.inl (marks_mem mark mark_mem)
      · rcases List.mem_map.1 mark_mem with ⟨other, other_mem, rfl⟩
        exact Or.inr (others_mem other other_mem)
    exact ⟨joined earlier_marks.1 later_marks.1, joined earlier_marks.2 later_marks.2⟩
  | inFirst _ marks =>
    exact ⟨fun mark here => List.mem_append_left _ (marks.1 mark here),
      fun mark here => List.mem_append_left _ (marks.2 mark here)⟩
  | inSecond _ marks =>
    exact ⟨fun mark here => List.mem_append_right _ (marks.1 mark here),
      fun mark here => List.mem_append_right _ (marks.2 mark here)⟩
  | capture _ marks =>
    constructor
    · intro mark mark_mem
      rcases List.mem_cons.1 mark_mem with rfl | mark_mem
      · exact List.mem_cons_self
      · exact List.mem_cons_of_mem _ (marks.1 mark mark_mem)
    · intro mark mark_mem
      rcases List.mem_append.1 mark_mem with mark_mem | mark_mem
      · exact List.mem_cons_of_mem _ (marks.2 mark mark_mem)
      · rw [List.mem_singleton] at mark_mem
        subst mark_mem
        exact List.mem_cons_self

theorem lookup_eq_none_of_fst {α : Type} {marks : List (Nat × α)} {slot : Nat}
    (absent : ∀ mark ∈ marks, mark.1 ≠ slot) : marks.lookup slot = none := by
  apply List.lookup_eq_none_iff.2
  intro mark mem
  have other := absent mark mem
  simpa using fun same => other (Eq.symm same)

/-- The slots of two patterns that follow each other are filled side by side. -/
theorem captures_andThen {first second : Pattern} {others : List Char} {later : Way}
    (apart : ∀ slot ∈ slots first, slot ∉ slots second) (mem : way ∈ ways first chars)
    (later_mem : later ∈ ways second others) (taken_eq : way.taken = text.length) :
    (way.andThen later).captures (text ++ rest) = way.captures text ++ later.captures rest := by
  have slots_mem := marks_of_mem_ways mem
  have later_slots_mem := marks_of_mem_ways later_mem
  have marks_le := marks_le_of_mem_ways mem
  simp only [Way.captures, Way.andThen, List.filterMap_append, List.filterMap_map]
  congr 1
  · apply List.filterMap_congr
    rintro ⟨slot, start⟩ opened
    have start_le := marks_le.1 _ opened
    have slot_mem := slots_mem.1 _ opened
    have unfilled : (later.closed.map fun mark => (mark.1, way.taken + mark.2)).lookup slot =
        none := by
      rw [lookup_map_snd, lookup_eq_none_of_fst, Option.map_none]
      rintro mark mark_mem rfl
      exact apart _ slot_mem (later_slots_mem.2 mark mark_mem)
    simp only [List.lookup_append, unfilled, Option.or_none]
    cases found : way.closed.lookup slot with
    | none => rfl
    | some last =>
      have last_le := le_of_lookup marks_le.2 found
      have inside : last - start ≤ (text.drop start).length := by
        rw [List.length_drop]
        omega
      rw [Option.map_some, Option.map_some, List.drop_append_of_le_length (by omega),
        List.take_append_of_le_length inside]
  · apply List.filterMap_congr
    rintro ⟨slot, start⟩ opened
    have slot_mem : slot ∈ slots second := later_slots_mem.1 _ opened
    have unfilled : way.closed.lookup slot = none := by
      apply lookup_eq_none_of_fst
      rintro mark mark_mem rfl
      exact apart _ (slots_mem.2 mark mark_mem) slot_mem
    simp only [Function.comp_apply, List.lookup_append, unfilled, Option.none_or, lookup_map_snd,
      Option.map_map]
    cases later.closed.lookup slot with
    | none => rfl
    | some last =>
      have length_eq : text.length + last - (text.length + start) = last - start := by omega
      simp only [Option.map_some, Function.comp_apply, taken_eq, length_eq,
        List.drop_length_add_append]

theorem captures_keep {inner : Pattern} {slot : Nat} (fresh : slot ∉ slots inner)
    (mem : way ∈ ways inner chars) (taken_eq : way.taken = text.length) :
    (way.keep slot).captures text = (slot, text) :: way.captures text := by
  have slots_mem := marks_of_mem_ways mem
  have unfilled : way.closed.lookup slot = none := by
    apply lookup_eq_none_of_fst
    rintro mark mark_mem rfl
    exact fresh (slots_mem.2 mark mark_mem)
  simp only [Way.captures, Way.keep, List.filterMap_cons, List.lookup_append, unfilled,
    Option.none_or, List.lookup_cons_self, Option.map_some, List.drop_zero, Nat.sub_zero, taken_eq,
    List.take_length]
  congr 1
  apply List.filterMap_congr
  rintro ⟨other, start⟩ opened
  have different : other ≠ slot := by
    rintro rfl
    exact fresh (slots_mem.1 _ opened)
  have absent : ([(slot, text.length)] : List (Nat × Nat)).lookup other = none := by
    apply lookup_eq_none_of_fst
    rintro mark mark_mem rfl
    rw [List.mem_singleton] at mark_mem
    subst mark_mem
    exact different rfl
  simp only [absent, Option.or_none]

/-! ## Matches -/

/-- A text that a pattern stands for, with the texts in its slots. -/
inductive Matches : Pattern → List Char → List (Nat × List Char) → Prop
  | word (text : List Char) : Matches (.word text) text []
  | run {least : Nat} {accepts : Char → Bool} {text : List Char} (enough : least ≤ text.length)
      (accepted : ∀ c ∈ text, accepts c = true) : Matches (.run least accepts) text []
  | seq {first second : Pattern} {text rest : List Char} {captures others : List (Nat × List Char)}
      (before : Matches first text captures) (after : Matches second rest others) :
      Matches (.seq first second) (text ++ rest) (captures ++ others)
  | first {first second : Pattern} {text : List Char} {captures : List (Nat × List Char)}
      (inner : Matches first text captures) : Matches (.orElse first second) text captures
  | second {first second : Pattern} {text : List Char} {captures : List (Nat × List Char)}
      (inner : Matches second text captures) : Matches (.orElse first second) text captures
  | capture {slot : Nat} {inner : Pattern} {text : List Char} {captures : List (Nat × List Char)}
      (inside : Matches inner text captures) :
      Matches (.capture slot inner) text ((slot, text) :: captures)

theorem Matches.mem_slots (matched : Matches pattern text captures) :
    ∀ capture ∈ captures, capture.1 ∈ slots pattern := by
  intro capture mem
  induction matched with
  | word text => cases mem
  | run enough accepted => cases mem
  | seq before after before_ih after_ih =>
    apply List.mem_append.2
    rcases List.mem_append.1 mem with mem | mem
    · exact Or.inl (before_ih mem)
    · exact Or.inr (after_ih mem)
  | first inner ih => exact List.mem_append_left _ (ih mem)
  | second inner ih => exact List.mem_append_right _ (ih mem)
  | capture inside ih =>
    rcases List.mem_cons.1 mem with rfl | mem
    · exact List.mem_cons_self
    · exact List.mem_cons_of_mem _ (ih mem)

theorem Matches.captures_eq_nil (matched : Matches pattern text captures)
    (unkept : slots pattern = []) : captures = [] := by
  apply List.eq_nil_iff_forall_not_mem.2
  intro capture mem
  have slot_mem := matched.mem_slots capture mem
  rw [unkept] at slot_mem
  cases slot_mem

/-- Each way in which a pattern fits is a match. -/
theorem matches_of_mem_ways (apart : slotsApart pattern = true) (mem : way ∈ ways pattern chars) :
    Matches pattern (chars.take way.taken) (way.captures (chars.take way.taken)) := by
  induction mem using ways_induction with
  | word starts =>
    rcases starts with ⟨rest, rfl⟩
    rw [List.take_left]
    exact Matches.word _
  | run taken_mem =>
    rcases of_mem_runs taken_mem with ⟨enough, within, accepted⟩
    refine Matches.run ?_ accepted
    rw [List.length_take]
    exact Nat.le_min.2 ⟨enough, Nat.le_trans enough within⟩
  | seq earlier_mem later_mem earlier_matches later_matches =>
    simp only [slotsApart, Bool.and_eq_true, List.all_eq_true, Bool.not_eq_true',
      List.contains_eq_mem, decide_eq_false_iff_not] at apart
    have earlier_bounds := bounds_of_mem_ways earlier_mem
    have taken_eq := (List.length_take_of_le earlier_bounds.2).symm
    rw [Way.taken_andThen, List.take_add,
      captures_andThen apart.1.1 earlier_mem later_mem taken_eq]
    exact Matches.seq (earlier_matches apart.1.2) (later_matches apart.2)
  | inFirst _ matched =>
    rw [slotsApart, Bool.and_eq_true] at apart
    exact Matches.first (matched apart.1)
  | inSecond _ matched =>
    rw [slotsApart, Bool.and_eq_true] at apart
    exact Matches.second (matched apart.2)
  | capture inside_mem matched =>
    simp only [slotsApart, Bool.and_eq_true, Bool.not_eq_true', List.contains_eq_mem,
      decide_eq_false_iff_not] at apart
    have bounds := bounds_of_mem_ways inside_mem
    have taken_eq := (List.length_take_of_le bounds.2).symm
    rw [Way.taken_keep, captures_keep apart.1 inside_mem taken_eq]
    exact Matches.capture (matched apart.2)

/-- A pattern does not fit where none of its matches stands. -/
theorem first?_eq_none_of_matches (apart : slotsApart pattern = true)
    (absent : ∀ text captures, Matches pattern text captures → ¬text <+: chars) :
    first? pattern chars = none := by
  cases first : first? pattern chars with
  | none => rfl
  | some way =>
    have matched := matches_of_mem_ways apart (mem_ways_of_first? first)
    exact absurd (List.take_prefix way.taken chars) (absent _ _ matched)

section Inversion

variable {text : List Char} {captures : List (Nat × List Char)}

theorem matches_word {word : List Char} (matched : Matches (.word word) text captures) :
    text = word ∧ captures = [] := by
  cases matched
  exact ⟨rfl, rfl⟩

theorem matches_run {least : Nat} {accepts : Char → Bool}
    (matched : Matches (.run least accepts) text captures) :
    least ≤ text.length ∧ (∀ c ∈ text, accepts c = true) ∧ captures = [] := by
  cases matched with
  | run enough accepted => exact ⟨enough, accepted, rfl⟩

theorem matches_seq {first second : Pattern} (matched : Matches (.seq first second) text captures) :
    ∃ left right before after, text = left ++ right ∧ captures = before ++ after ∧
      Matches first left before ∧ Matches second right after := by
  cases matched with
  | seq before after => exact ⟨_, _, _, _, rfl, rfl, before, after⟩

theorem matches_orElse {first second : Pattern}
    (matched : Matches (.orElse first second) text captures) :
    Matches first text captures ∨ Matches second text captures := by
  cases matched with
  | first inner => exact Or.inl inner
  | second inner => exact Or.inr inner

theorem matches_capture {slot : Nat} {inner : Pattern}
    (matched : Matches (.capture slot inner) text captures) :
    ∃ others, captures = (slot, text) :: others ∧ Matches inner text others := by
  cases matched with
  | capture inside => exact ⟨_, rfl, inside⟩

end Inversion

/-! ## Preferred ways -/

/-- The pattern takes this text, with these texts in its slots, if the rest follows. -/
inductive Takes (pattern : Pattern) (text rest : List Char)
    (captures : List (Nat × List Char)) : Prop
  | of_first? (way : Way) (first : first? pattern (text ++ rest) = some way)
      (taken_eq : way.taken = text.length) (captures_eq : way.captures text = captures) :
      Takes pattern text rest captures

theorem takes_word (word rest : List Char) : Takes (.word word) word rest [] := by
  refine ⟨{ taken := word.length }, ?_, rfl, rfl⟩
  simp [first?, ways]

theorem head?_runs (enough : least ≤ text.length) (accepted : ∀ c ∈ text, accepts c = true)
    (stops : ∀ c ∈ rest.head?, accepts c = false) :
    (runs accepts least (text ++ rest)).head? = some text.length := by
  induction text generalizing least with
  | nil =>
    obtain rfl : least = 0 := Nat.le_zero.1 enough
    cases rest with
    | nil => rfl
    | cons c rest => simp [runs, stops c rfl]
  | cons c text ih =>
    have here := accepted c List.mem_cons_self
    have later : ∀ d ∈ text, accepts d = true := fun d mem =>
      accepted d (List.mem_cons_of_mem c mem)
    rw [List.length_cons] at enough
    cases least with
    | zero =>
      rw [List.cons_append, runs, if_pos here, List.head?_append, List.head?_map,
        ih (Nat.zero_le _) later]
      rfl
    | succ least =>
      rw [List.cons_append, runs, if_pos here, List.head?_map,
        ih (Nat.le_of_succ_le_succ enough) later]
      rfl

theorem takes_run (enough : least ≤ text.length) (accepted : ∀ c ∈ text, accepts c = true)
    (stops : ∀ c ∈ rest.head?, accepts c = false) : Takes (.run least accepts) text rest [] := by
  refine ⟨{ taken := text.length }, ?_, rfl, rfl⟩
  rw [first?, ways, List.head?_map, head?_runs enough accepted stops, Option.map_some]

theorem first?_seq {first second : Pattern} {later : Way} (before : first? first chars = some way)
    (after : first? second (chars.drop way.taken) = some later) :
    first? (.seq first second) chars = some (way.andThen later) := by
  rw [first?] at before after ⊢
  rw [ways]
  cases all : ways first chars with
  | nil => simp [all] at before
  | cons head others =>
    rw [all, List.head?_cons] at before
    cases before
    rw [List.flatMap_cons, List.head?_append, List.head?_map, after]
    rfl

section Rules

variable {pattern other : Pattern} {text rest : List Char}
  {captures others : List (Nat × List Char)}

theorem Takes.seq {more : List Char} (before : Takes pattern text (more ++ rest) captures)
    (after : Takes other more rest others) (apart : ∀ slot ∈ slots pattern, slot ∉ slots other) :
    Takes (.seq pattern other) (text ++ more) rest (captures ++ others) := by
  rcases before with ⟨way, way_first, way_taken, rfl⟩
  rcases after with ⟨later, later_first, later_taken, rfl⟩
  have drop_eq : (text ++ (more ++ rest)).drop way.taken = more ++ rest := by
    rw [way_taken, List.drop_left]
  refine ⟨way.andThen later, ?_, ?_, ?_⟩
  · rw [List.append_assoc]
    apply first?_seq way_first
    rw [drop_eq]
    exact later_first
  · rw [Way.taken_andThen, way_taken, later_taken, List.length_append]
  · exact captures_andThen apart (mem_ways_of_first? way_first) (mem_ways_of_first? later_first)
      way_taken

theorem Takes.first (inner : Takes pattern text rest captures) :
    Takes (.orElse pattern other) text rest captures := by
  rcases inner with ⟨way, way_first, taken_eq, captures_eq⟩
  refine ⟨way, ?_, taken_eq, captures_eq⟩
  rw [first?] at way_first ⊢
  rw [ways, List.head?_append, way_first]
  rfl

theorem Takes.second (absent : first? pattern (text ++ rest) = none)
    (inner : Takes other text rest captures) :
    Takes (.orElse pattern other) text rest captures := by
  rcases inner with ⟨way, way_first, taken_eq, captures_eq⟩
  refine ⟨way, ?_, taken_eq, captures_eq⟩
  rw [first?] at absent way_first ⊢
  rw [ways, List.head?_append, absent, way_first]
  rfl

theorem Takes.capture (slot : Nat) (inner : Takes pattern text rest captures)
    (fresh : slot ∉ slots pattern) :
    Takes (.capture slot pattern) text rest ((slot, text) :: captures) := by
  rcases inner with ⟨way, way_first, taken_eq, rfl⟩
  refine ⟨way.keep slot, ?_, taken_eq, ?_⟩
  · rw [first?] at way_first ⊢
    rw [ways, List.head?_map, way_first]
    rfl
  · exact captures_keep fresh (mem_ways_of_first? way_first) taken_eq

theorem takes_optional_nil (absent : first? pattern rest = none) :
    Takes (optional pattern) [] rest [] :=
  Takes.second absent (takes_word [] rest)

end Rules

/-! ## Scans -/

/-- What a scan finds is a match. -/
theorem matches_of_mem (apart : slotsApart pattern = true) {atStart : Bool} {offset skip : Nat}
    {found : Found} (mem : found ∈ statements (scan pattern atStart offset skip chars)) :
    Matches pattern found.text found.captures := by
  rcases exists_place_of_mem mem with ⟨_, after, way, _, _, _, first, taken_eq, captures_eq⟩
  have matched := matches_of_mem_ways apart (mem_ways_of_first? first)
  rw [taken_eq, List.take_left] at matched
  rw [captures_eq]
  exact matched

theorem Takes.scan_eq (taken : Takes pattern text rest captures) (nonempty : text ≠ [])
    (offset : Nat) :
    scan pattern true offset 0 (text ++ rest) = .statement ⟨offset, text, captures⟩ ::
      scan pattern (lineStart true text) (offset + bytes text) 0 rest := by
  rcases taken with ⟨way, first, taken_eq, rfl⟩
  exact scan_of_first? offset first taken_eq nonempty

end Pattern

end Componentry
