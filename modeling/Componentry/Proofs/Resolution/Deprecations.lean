import Mathlib.Logic.Relation
import Componentry.Proofs.Attempt.Notices
import Componentry.Proofs.Resolution.Outcome

/-!
# Deprecated declarations that resolution meets

Resolution notes the use of a declaration where it comes to its name. From a type it goes on to the
types in `inside`, and from an alias to its body; all other parts of a type, such as type arguments
and the types of functions, are printed and not looked at.

An alias that is being followed is not followed again, but nothing is missed by that: a way that
enters an alias twice can be cut short (`Noted.cut`). So what is noted are the deprecated ones among
the declarations that a type `Uses`, a notion that does not speak of aliases being followed.
-/

namespace Componentry

open Relation (ReflTransGen)
open Attempt.Notes (composes)

/-- The declaration is deprecated, and the notice is the one about its use. -/
def Declaration.Warns (declaration : Declaration) (notice : Notice) : Prop :=
  ∃ note, declaration.deprecated = some note ∧ notice = .deprecated declaration.name note

namespace Scope

/-- The types inside a type that resolution goes on with. -/
def inside (scope : Scope) (type : TypeExpr) : List TypeExpr :=
  if scope.model.isWrapper type then [scope.model.core type]
  else
    match type with
    | .array element => [element]
    | .union members =>
      if (TypeExpr.flatten members).any TypeExpr.isOpen then []
      else TypeExpr.presentMembers members
    | .intersection members => (TypeExpr.brandedType? members).toList
    | .conditional _ (some branch) => [branch]
    | _ => []

/-- The declaration that a type names; the name of an object type only counts if it is not kept. -/
def used? (scope : Scope) : TypeExpr → Option Declaration
  | .reference name _ => scope.model.find? name
  | .struct (some name) _ _ => if scope.isWellKnown name then none else scope.model.find? name
  | _ => none

/-- The alias that resolution may follow from a type. -/
def followed? (scope : Scope) : TypeExpr → Option Declaration
  | .reference name _ =>
    if scope.isWellKnown name then none
    else (scope.model.find? name).filter (·.kind == .typeAlias)
  | _ => none

/-- The steps of resolution from a type to the next. -/
inductive Continues (scope : Scope) : TypeExpr → TypeExpr → Prop
  | inside {type inner : TypeExpr} (mem : inner ∈ scope.inside type) : Continues scope type inner
  | body {type : TypeExpr} {followed : Declaration}
      (follows : scope.followed? type = some followed) : Continues scope type followed.body

/-- Resolution of the type comes to the name of the declaration. -/
def Uses (scope : Scope) (type : TypeExpr) (declaration : Declaration) : Prop :=
  ∃ last, ReflTransGen scope.Continues type last ∧ scope.used? last = some declaration

/-- The notices about the deprecated declarations that are met, when the aliases in a list are being
followed already. -/
inductive Noted (scope : Scope) : List String → TypeExpr → Notice → Prop
  | here {seen : List String} {type : TypeExpr} {declaration : Declaration} {notice : Notice}
      (used : scope.used? type = some declaration) (warns : declaration.Warns notice) :
      Noted scope seen type notice
  | inside {seen : List String} {type inner : TypeExpr} {notice : Notice}
      (mem : inner ∈ scope.inside type) (noted : Noted scope seen inner notice) :
      Noted scope seen type notice
  | body {seen : List String} {type : TypeExpr} {followed : Declaration} {notice : Notice}
      (follows : scope.followed? type = some followed) (fresh : followed.name ∉ seen)
      (noted : Noted scope (followed.name :: seen) followed.body notice) :
      Noted scope seen type notice

variable {scope : Scope} {context : Context} {seen : List String} {type : TypeExpr}
  {declaration followed : Declaration} {notice : Notice}

theorem find?_of_used? (used : scope.used? type = some declaration) :
    scope.model.find? declaration.name = some declaration := by
  have named {name : String} (found : scope.model.find? name = some declaration) :
      scope.model.find? declaration.name = some declaration := by
    rw [TypeModel.name_of_find? found]
    exact found
  unfold used? at used
  split at used
  · exact named used
  · split at used
    · cases used
    · exact named used
  · cases used

theorem followed?_eq_some (follows : scope.followed? type = some followed) :
    scope.model.find? followed.name = some followed ∧ followed.kind = .typeAlias ∧
      ∃ args, type = .reference followed.name args := by
  unfold followed? at follows
  split at follows
  · split at follows
    · cases follows
    · rw [Option.filter_eq_some_iff, beq_iff_eq] at follows
      rcases follows with ⟨found, kind⟩
      rw [TypeModel.name_of_find? found]
      exact ⟨found, kind, _, rfl⟩
  · cases follows

theorem used?_of_wrapper (wrapped : scope.model.isWrapper type = true) :
    scope.used? type = none := by
  cases type with
  | reference name args =>
    cases found : scope.model.find? name with
    | none => exact found
    | some declaration =>
      rw [isWrapper_of_find? found] at wrapped
      cases wrapped
  | struct name typeArgs members => cases wrapped
  | _ => rfl

theorem followed?_of_wrapper (wrapped : scope.model.isWrapper type = true) :
    scope.followed? type = none := by
  cases follows : scope.followed? type with
  | none => rfl
  | some followed =>
    rcases followed?_eq_some follows with ⟨found, _, args, rfl⟩
    rw [isWrapper_of_find? found] at wrapped
    cases wrapped

/-! ## Ways without repetition -/

theorem Noted.mono {fewer : List String} (noted : scope.Noted seen type notice)
    (subset : fewer ⊆ seen) : scope.Noted fewer type notice := by
  induction noted generalizing fewer with
  | here used warns => exact .here used warns
  | inside mem _ ih => exact .inside mem (ih subset)
  | body follows fresh _ ih =>
    exact .body follows (fun seen_before => fresh (subset seen_before))
      (ih (List.cons_subset_cons _ subset))

/-- What is met by following an alias again is met from its body without doing so. -/
theorem Noted.cut (noted : scope.Noted seen type notice)
    (found : scope.model.find? followed.name = some followed) :
    scope.Noted (followed.name :: seen) type notice ∨
      scope.Noted (followed.name :: seen) followed.body notice := by
  induction noted with
  | here used warns => exact .inl (.here used warns)
  | inside mem _ ih => exact ih.imp_left (.inside mem)
  | @body seen type other notice follows fresh noted ih =>
    by_cases same : other.name = followed.name
    · have other_found := (followed?_eq_some follows).1
      rw [same] at other_found
      cases found.symm.trans other_found
      exact .inr noted
    · apply ih.imp
      · intro noted
        refine .body follows (by simp [same, fresh]) (noted.mono ?_)
        simp
      · intro noted
        exact noted.mono (List.cons_subset_cons _ (List.subset_cons_self _ _))

theorem Noted.exists_uses (noted : scope.Noted seen type notice) :
    ∃ declaration, scope.Uses type declaration ∧ declaration.Warns notice := by
  induction noted with
  | here used warns => exact ⟨_, ⟨_, .refl, used⟩, warns⟩
  | inside mem _ ih =>
    rcases ih with ⟨declaration, ⟨last, way, used⟩, warns⟩
    exact ⟨declaration, ⟨last, .head (.inside mem) way, used⟩, warns⟩
  | body follows _ _ ih =>
    rcases ih with ⟨declaration, ⟨last, way, used⟩, warns⟩
    exact ⟨declaration, ⟨last, .head (.body follows) way, used⟩, warns⟩

theorem noted_nil_iff : scope.Noted [] type notice ↔
    ∃ declaration, scope.Uses type declaration ∧ declaration.Warns notice := by
  constructor
  · exact Noted.exists_uses
  · rintro ⟨declaration, ⟨last, way, used⟩, warns⟩
    induction way using ReflTransGen.head_induction_on with
    | refl => exact .here used warns
    | head step _ noted =>
      cases step with
      | inside mem => exact .inside mem noted
      | body follows =>
        have cut := noted.cut (followed?_eq_some follows).1
        exact .body follows List.not_mem_nil (cut.elim id id)

/-! ## What resolution notes -/

theorem noteUse_notes (declaration : Declaration) :
    (noteUse declaration).Notes declaration.Warns := by
  unfold noteUse
  split
  · rename_i deprecated
    apply (Attempt.Notes.raise _).congr
    simp [Declaration.Warns, deprecated]
  · rename_i supported
    exact composes.ok_of_not fun notice => by simp [Declaration.Warns, supported]

theorem degrade_notes (context : Context) (reason printed : String) :
    (degrade context reason printed).Notes fun _ => False := by
  unfold degrade
  split
  · apply composes.after (.raise_other ?_) fun _ _ => .ok _
    simp [Notice.category?]
  · exact .ok _

theorem calls_of_inside {inner : TypeExpr} (mem : inner ∈ scope.inside type) :
    scope.Calls (seen, inner) (seen, type) := by
  unfold inside at mem
  split at mem
  · rename_i wrapped
    cases List.mem_singleton.1 mem
    exact .core wrapped
  · split at mem
    · cases List.mem_singleton.1 mem
      exact .element
    · split at mem
      · cases mem
      · exact .alternative mem
    · exact .branded (Option.mem_toList.1 mem)
    · cases List.mem_singleton.1 mem
      exact .branch
    · cases mem

/-- What a step of resolution notes, given what is noted in the calls that it makes. -/
def StepNotes (scope : Scope) (Inner : List String → TypeExpr → Notice → Prop)
    (seen : List String) (type : TypeExpr) (notice : Notice) : Prop :=
  (∃ declaration, scope.used? type = some declaration ∧ declaration.Warns notice) ∨
  (∃ inner ∈ scope.inside type, Inner seen inner notice) ∨
  ∃ followed, scope.followed? type = some followed ∧ followed.name ∉ seen ∧
    Inner (followed.name :: seen) followed.body notice

theorem stepNotes_noted_iff : scope.StepNotes scope.Noted seen type notice ↔
    scope.Noted seen type notice := by
  constructor
  · rintro (⟨declaration, used, warns⟩ | ⟨inner, mem, noted⟩ | ⟨followed, follows, fresh, noted⟩)
    · exact .here used warns
    · exact .inside mem noted
    · exact .body follows fresh noted
  · intro noted
    cases noted with
    | here used warns => exact .inl ⟨_, used, warns⟩
    | inside mem noted => exact .inr (.inl ⟨_, mem, noted⟩)
    | body follows fresh noted => exact .inr (.inr ⟨_, follows, fresh, noted⟩)

theorem resolveStruct_notes (structName : Option String) (typeArgs : List TypeExpr)
    (members : List Member) (printed : String) :
    (scope.resolveStruct context structName members printed).Notes fun notice =>
      ∃ declaration, scope.used? (.struct structName typeArgs members) = some declaration ∧
        declaration.Warns notice := by
  cases structName with
  | none => exact composes.ok_of_not fun notice => by simp [used?]
  | some structName =>
    rw [resolveStruct]
    split
    · rename_i known
      exact composes.ok_of_not fun notice => by simp [used?, known]
    · rename_i unknown
      split
      · rename_i declaration found
        apply (composes.before (noteUse_notes declaration) fun _ _ => .ok _).congr
        simp [used?, unknown, found]
      · rename_i undeclared
        exact composes.ok_of_not fun notice => by simp [used?, unknown, undeclared]

theorem resolveAll_notes {types : List TypeExpr} {Inner : TypeExpr → Notice → Prop}
    (each : ∀ type ∈ types, (scope.resolveWith context seen type).Notes (Inner type)) :
    (scope.resolveAll context seen types).Notes fun notice =>
      ∃ type ∈ types, Inner type notice := by
  induction types with
  | nil =>
    rw [resolveAll]
    exact composes.ok_of_not fun notice => by simp
  | cons type rest ih =>
    have others := ih fun other mem => each other (List.mem_cons_of_mem type mem)
    rw [resolveAll]
    apply Attempt.Notes.congr
    · apply (each type List.mem_cons_self).bind
      intro first _
      exact composes.before others fun found _ => .ok _
    · simp

/-- A step of resolution notes the declaration that the type names, and what is noted in the calls
that it makes. -/
theorem resolveWith_notes_step {Inner : List String → TypeExpr → Notice → Prop}
    (each : ∀ inner ∈ scope.inside type,
      (scope.resolveWith context seen inner).Notes (Inner seen inner))
    (body : ∀ followed, scope.followed? type = some followed → followed.name ∉ seen →
      (scope.resolveWith context (followed.name :: seen) followed.body).Notes
        (Inner (followed.name :: seen) followed.body)) :
    (scope.resolveWith context seen type).Notes (scope.StepNotes Inner seen type) := by
  by_cases wrapped : scope.model.isWrapper type = true
  · have core : scope.inside type = [scope.model.core type] := by simp [inside, wrapped]
    rw [resolveWith, dif_pos wrapped]
    apply (composes.before (each _ (by simp [core])) fun _ _ => .ok _).congr
    simp [StepNotes, core, used?_of_wrapper wrapped, followed?_of_wrapper wrapped]
  · rw [resolveWith, dif_neg wrapped]
    cases type with
    | array element =>
      have element_inside : scope.inside (.array element) = [element] := rfl
      apply (composes.before (each _ (by simp [element_inside])) fun _ _ => .ok _).congr
      simp [StepNotes, element_inside, used?, followed?]
    | struct structName typeArgs members =>
      have nothing_inside : scope.inside (.struct structName typeArgs members) = [] := rfl
      apply (resolveStruct_notes structName typeArgs members _).congr
      simp [StepNotes, nothing_inside, followed?]
    | reference reference args =>
      have nothing_inside : scope.inside (.reference reference args) = [] := by
        simp [inside, wrapped]
      dsimp only
      split
      · rename_i undeclared
        have unnoted (notice : Notice) :
            False ↔ scope.StepNotes Inner seen (.reference reference args) notice := by
          simp [StepNotes, nothing_inside, used?, followed?, undeclared]
        split
        · exact (Attempt.Notes.ok _).congr unnoted
        · exact (degrade_notes _ _ _).congr unnoted
      · rename_i declaration found
        cases TypeModel.name_of_find? found
        have noted (notice : Notice) : declaration.Warns notice ∨
            (∃ followed, scope.followed? (.reference declaration.name args) = some followed ∧
              followed.name ∉ seen ∧ Inner (followed.name :: seen) followed.body notice) ↔
            scope.StepNotes Inner seen (.reference declaration.name args) notice := by
          simp [StepNotes, nothing_inside, used?, found]
        refine .congr ?_ noted
        apply (noteUse_notes declaration).bind
        intro _ _
        split
        · rename_i known
          exact composes.ok_of_not fun notice => by simp [followed?, known]
        · rename_i unknown
          cases kind : declaration.kind with
          | typeAlias =>
            have follows : scope.followed? (.reference declaration.name args) =
                some declaration := by simp [followed?, unknown, found, kind]
            dsimp only
            split
            · rename_i being_followed
              exact composes.ok_of_not fun notice => by simp [follows, being_followed]
            · rename_i fresh
              apply (composes.before (body declaration follows fresh) fun _ _ => .ok _).congr
              simp [follows, fresh]
          | _ => exact composes.ok_of_not fun notice => by simp [followed?, unknown, found, kind]
    | union members =>
      dsimp only
      split
      · rename_i isOpen
        exact composes.ok_of_not fun notice => by
          simp [StepNotes, inside, isOpen, used?, followed?, TypeModel.isWrapper]
      · rename_i closed
        have present : scope.inside (.union members) = TypeExpr.presentMembers members := by
          simp [inside, closed, TypeModel.isWrapper]
        split
        · rename_i empty
          rw [List.isEmpty_iff] at empty
          exact composes.ok_of_not fun notice => by
            simp [StepNotes, present, empty, used?, followed?]
        · rw [← present]
          apply (composes.before (resolveAll_notes each) ?_).congr
          · simp [StepNotes, used?, followed?]
          · intro signatures _
            split <;> exact .ok _
    | intersection members =>
      have branded_inside : scope.inside (.intersection members) =
          (TypeExpr.brandedType? members).toList := rfl
      dsimp only
      split
      · rename_i candidate branded
        rw [branded] at branded_inside
        apply (composes.before (each _ (by simp [branded_inside])) fun _ _ => .ok _).congr
        simp [StepNotes, branded_inside, used?, followed?]
      · rename_i unbranded
        rw [unbranded] at branded_inside
        exact composes.ok_of_not fun notice => by
          simp [StepNotes, branded_inside, used?, followed?]
    | conditional text resolved =>
      cases resolved with
      | some branch =>
        have branch_inside : scope.inside (.conditional text (some branch)) = [branch] := rfl
        apply (each _ (by simp [branch_inside])).congr
        simp [StepNotes, branch_inside, used?, followed?]
      | none =>
        have nothing_inside : scope.inside (.conditional text none) = [] := rfl
        dsimp only
        split
        · exact .fail _ _
        · exact composes.ok_of_not fun notice => by
            simp [StepNotes, nothing_inside, used?, followed?]
    | mapped wrapper args =>
      have nothing_inside : scope.inside (.mapped wrapper args) = [] := by simp [inside, wrapped]
      apply (degrade_notes _ _ _).congr
      simp [StepNotes, nothing_inside, used?, followed?]
    | _ =>
      exact composes.ok_of_not fun notice => by
        simp [StepNotes, inside, used?, followed?, TypeModel.isWrapper]

/-- Resolution that succeeds has noted the deprecated declarations that it meets. -/
theorem resolveWith_notes (context : Context) (seen : List String) (type : TypeExpr) :
    (scope.resolveWith context seen type).Notes (scope.Noted seen type) := by
  induction seen, type using scope.calls_induction with
  | step seen type ih =>
    apply Attempt.Notes.congr
    · apply resolveWith_notes_step
      · intro inner mem
        exact ih _ _ (calls_of_inside mem)
      · intro followed follows fresh
        rcases followed?_eq_some follows with ⟨found, kind, args, rfl⟩
        exact ih _ _ (.aliased found kind fresh)
    · intro notice
      exact stepNotes_noted_iff

theorem resolve_notes (context : Context) (type : TypeExpr) :
    (scope.resolve context type).Notes fun notice =>
      ∃ declaration, scope.Uses type declaration ∧ declaration.Warns notice :=
  (resolveWith_notes context [] type).congr fun _ => noted_nil_iff

end Scope

end Componentry
