import Mathlib.Data.List.Find
import Componentry.Proofs.Closure.Copies
import Componentry.Proofs.FileTree.Detours

/-!
# Spellings of declaration files

The path of a declaration file may be written with dots and detours. This changes
neither what is read and found nor the text that is written, since everything is
looked up from the directory of the file. It does change where the closure is
copied to. The files of a closure are known by normalized paths, and these start
with the directory of the declaration file as it is written only if that is written
plainly. Files below a directory that is not are all copied into the output
directory itself, as if they were outside.
-/

namespace Componentry

namespace FileTree

variable {tree : FileTree} {path other : Path} {name text : String}

/-! ## Discovery -/

/-- Specifiers of files that are found alike stand for the same files. -/
theorem Alike.resolveSpecifier_eq (alike : tree.Alike path other) (ends : path.EndsIn name)
    {specifier : String} (relative : Statement.isRelative specifier = true)
    (legal : ∀ candidate ∈ candidates (.ofText specifier),
      pathError? (path.directory.join candidate) = none ∧
        pathError? (other.directory.join candidate) = none) :
    tree.resolveSpecifier path specifier = tree.resolveSpecifier other specifier := by
  rcases Path.ofText_of_isRelative relative with ⟨not_rooted, nonempty⟩
  have joined : ∀ candidate ∈ candidates (.ofText specifier), ∃ last,
      (path.directory.join candidate).EndsIn last ∧
        tree.Alike (path.directory.join candidate) (other.directory.join candidate) := by
    intro candidate mem
    rcases candidate_cases nonempty mem with ⟨rooted_eq, last, candidate_ends, _⟩
    have candidate_relative := rooted_eq.trans not_rooted
    exact ⟨last, candidate_ends.join candidate_relative,
      alike.join ends candidate_relative candidate_ends⟩
  have same_files : ∀ candidate ∈ candidates (.ofText specifier),
      tree.isFile (path.directory.join candidate) =
        tree.isFile (other.directory.join candidate) := by
    intro candidate mem
    rcases joined candidate mem with ⟨last, joined_ends, joined_alike⟩
    exact joined_alike.isFile_eq joined_ends (legal candidate mem).1 (legal candidate mem).2
  rw [FileTree.resolveSpecifier_eq tree path relative,
    FileTree.resolveSpecifier_eq tree other relative, List.find?_congr same_files]
  apply Option.map_congr
  intro candidate found
  rcases joined candidate (List.mem_of_find?_eq_some found) with ⟨last, joined_ends, joined_alike⟩
  exact joined_alike.normalize_eq joined_ends

theorem discover_congr (named : path.fileName? = other.fileName?)
    (same : ∀ specifier ∈ relativeReExports text,
      tree.resolveSpecifier path specifier = tree.resolveSpecifier other specifier)
    {closure : List Path} (discovered : tree.discover path text = .ok closure) :
    tree.discover other text = .ok closure := by
  have same_missing : tree.missing? path (relativeReExports text) =
      tree.missing? other (relativeReExports text) := by
    apply List.find?_congr
    intro specifier mem
    rw [same specifier mem]
  have same_targets : tree.targets path (relativeReExports text) =
      tree.targets other (relativeReExports text) :=
    List.filterMap_congr same
  rw [discover_eq, same_missing] at discovered
  rw [discover_eq]
  split at discovered
  · cases discovered
  · rw [← named, ← same_targets]
    exact discovered

/-- One path is the other with dots and detours, and neither is too long for what is looked up from
it. -/
structure Respelled (tree : FileTree) (path other : Path) : Prop where
  detours : Relation.EqvGen tree.Detour path other
  legal : pathError? path = none ∧ pathError? other = none
  candidates_legal : ∀ text, tree.Holds path text → ∀ specifier ∈ relativeReExports text,
    ∀ candidate ∈ candidates (.ofText specifier),
      pathError? (path.directory.join candidate) = none ∧
        pathError? (other.directory.join candidate) = none

theorem Respelled.alike (respelled : tree.Respelled path other) : tree.Alike path other :=
  alike_of_detours respelled.detours

theorem Respelled.symm (respelled : tree.Respelled path other) : tree.Respelled other path where
  detours := respelled.detours.symm
  legal := respelled.legal.symm
  candidates_legal text holds specifier mem candidate candidate_mem := by
    have path_holds := respelled.alike.symm.holds respelled.legal.1 holds
    exact (respelled.candidates_legal text path_holds specifier mem candidate candidate_mem).symm

end FileTree

namespace ModuleInput

variable {input : ModuleInput} {config : Config} {fragments : List String} {tree : FileTree}
  {other file : Path} {name merged : String} {closure : List Path}

/-- The module with another path of its declaration file. -/
def respell (input : ModuleInput) (primary : Path) : ModuleInput :=
  { input with primary }

/-! ## Plans -/

theorem plan_of_discover (input : ModuleInput) {text : String}
    (readable : tree.readText input.primary = .ok text)
    (named : input.primary.fileName? = some name)
    (discovered : tree.discover input.primary text = .ok closure) :
    input.plan config fragments tree = .ok (name,
      Statement.merge (config.outputShape == .singleComponent) text fragments, closure) := by
  have read : input.readPrimary tree = .ok (name, text) := by
    rw [readPrimary, readable]
    dsimp only
    rw [named]
  rw [plan, read]
  dsimp only
  rw [discovered]

theorem plan_respell (input : ModuleInput) (respelled : tree.Respelled input.primary other)
    (planned : input.plan config fragments tree = .ok (name, merged, closure)) :
    (input.respell other).plan config fragments tree = .ok (name, merged, closure) := by
  rcases plan_eq_ok planned with ⟨text, readable, named, discovered⟩
  have ends := (FileTree.reaches_of_readText readable named).1.ends
  have holds := FileTree.holds_of_readText readable named
  have other_holds := respelled.alike.holds respelled.legal.2 holds
  have other_named : other.fileName? = some name := (respelled.alike.endsIn ends).fileName?
  have other_discovered : tree.discover other text = .ok closure := by
    refine FileTree.discover_congr (named.trans other_named.symm) ?_ discovered
    intro specifier mem
    exact respelled.alike.resolveSpecifier_eq ends (List.mem_filter.1 mem).2
      (respelled.candidates_legal text holds specifier mem)
  rw [merged_of_plan planned readable]
  exact plan_of_discover (input.respell other) other_holds.readText other_named other_discovered

/-! ## Copies -/

/-- Below the directory of the declaration file, but not directly in it. -/
def IsDeeper (input : ModuleInput) (file : Path) : Prop :=
  ∃ parts, file.parts = input.primary.directory.normalParts ++ parts ∧
    parts ≠ [.name file.baseName]

/-- Where a file is copied to that is not below the directory of the declaration file. -/
def flatTarget (input : ModuleInput) (file : Path) : Path :=
  input.outDirectory.join ⟨false, [file.baseName]⟩

theorem IsSource.copyTarget_of_not_isPlain (isSource : input.IsSource tree file)
    (not_plain : ¬input.primary.directory.IsPlain) :
    input.copyTarget file = input.flatTarget file := by
  apply isSource.copyTarget_of_outside
  cases after : file.partsAfter? input.primary.directory with
  | none => rfl
  | some parts =>
    have parts_eq := Path.partsAfter?_eq_some_iff.1 after
    apply absurd _ not_plain
    rw [Path.isPlain_iff]
    apply isSource.settled.of_prefix
    exact ⟨parts, parts_eq.symm⟩

theorem IsSource.copyTarget_eq_flatTarget_iff (isSource : input.IsSource tree file)
    (plain : input.primary.directory.IsPlain) :
    input.copyTarget file = input.flatTarget file ↔ ¬input.IsDeeper file := by
  rw [IsDeeper, plain]
  cases after : file.partsAfter? input.primary.directory with
  | none =>
    refine iff_of_true (isSource.copyTarget_of_outside after) ?_
    rintro ⟨parts, parts_eq, _⟩
    rw [Path.partsAfter?_eq_some_iff.2 parts_eq] at after
    cases after
  | some rest =>
    have rest_eq := Path.partsAfter?_eq_some_iff.1 after
    rcases isSource.settled_after after with ⟨settled, no_root⟩
    have relative := settled.rooted_ofParts no_root
    have steps_eq := settled.steps_ofParts no_root
    have own_steps : (⟨false, [file.baseName]⟩ : Path).steps = [.name file.baseName] :=
      Path.steps_eq_names (by simpa using isSource.isName)
    constructor
    · rintro same ⟨parts, parts_eq, not_own⟩
      apply not_own
      rw [rest_eq, List.append_cancel_left_eq] at parts_eq
      have same_steps := congrArg Path.steps same
      rw [copyTarget_of_parts after, flatTarget, Path.steps_join _ relative,
        Path.steps_join _ rfl, steps_eq, own_steps, List.append_cancel_left_eq] at same_steps
      rw [← parts_eq, same_steps]
    · intro not_deeper
      have own : rest = [.name file.baseName] := by
        by_contra not_own
        exact not_deeper ⟨rest, rest_eq, not_own⟩
      rw [copyTarget_of_parts after, own]
      rfl

/-- Copies do not change with the spelling if the directories are both written plainly, or neither
is. -/
theorem IsSource.copyTarget_respell (isSource : input.IsSource tree file)
    (other_isSource : (input.respell other).IsSource tree file)
    (same : input.primary.directory.normalParts = other.directory.normalParts)
    (plain_iff : input.primary.directory.IsPlain ↔ other.directory.IsPlain) :
    input.copyTarget file = (input.respell other).copyTarget file := by
  by_cases plain : input.primary.directory.IsPlain
  · have same_parts : input.primary.directory.parts = other.directory.parts := by
      rw [← plain, same]
      exact plain_iff.1 plain
    rw [copyTarget, copyTarget, Path.partsAfter?, Path.partsAfter?, respell, same_parts]
  · rw [isSource.copyTarget_of_not_isPlain plain]
    exact (other_isSource.copyTarget_of_not_isPlain fun other_plain =>
      plain (plain_iff.2 other_plain)).symm

/-- When two ways to write the primary path lead to the same copies. -/
theorem copies_respell_iff (respelled : tree.Respelled input.primary other)
    (planned : input.plan config fragments tree = .ok (name, merged, closure)) :
    closure.map input.copyTarget = closure.map (input.respell other).copyTarget ↔
      (input.primary.directory.IsPlain ↔ other.directory.IsPlain) ∨
        ∀ file ∈ closure, ¬input.IsDeeper file := by
  have other_planned := plan_respell input respelled planned
  rcases plan_eq_ok planned with ⟨text, readable, named, _⟩
  have ends := (FileTree.reaches_of_readText readable named).1.ends
  have same := respelled.alike.normalParts_directory ends
  rw [List.map_inj_left]
  by_cases plain_iff : input.primary.directory.IsPlain ↔ other.directory.IsPlain
  · refine iff_of_true ?_ (.inl plain_iff)
    intro file mem
    exact (isSource_of_plan planned mem).copyTarget_respell (isSource_of_plan other_planned mem)
      same plain_iff
  · rw [or_iff_right plain_iff]
    refine forall₂_congr fun file mem => ?_
    have isSource := isSource_of_plan planned mem
    have other_isSource := isSource_of_plan other_planned mem
    by_cases plain : input.primary.directory.IsPlain
    · have other_not_plain : ¬other.directory.IsPlain := by
        intro other_plain
        exact plain_iff (iff_of_true plain other_plain)
      rw [other_isSource.copyTarget_of_not_isPlain other_not_plain]
      exact isSource.copyTarget_eq_flatTarget_iff plain
    · have other_plain : other.directory.IsPlain := by
        by_contra other_not_plain
        exact plain_iff (iff_of_false plain other_not_plain)
      rw [isSource.copyTarget_of_not_isPlain plain, eq_comm, IsDeeper, same]
      exact other_isSource.copyTarget_eq_flatTarget_iff other_plain

/-! ## Assembly -/

theorem copyFiles_congr {input' : ModuleInput} {files : List Path}
    (same : ∀ file ∈ files, input.copyTarget file = input'.copyTarget file) (tree : FileTree) :
    input.copyFiles files tree = input'.copyFiles files tree := by
  induction files generalizing tree with
  | nil => rfl
  | cons file rest ih =>
    rw [List.forall_mem_cons] at same
    have first_eq : input.copyFile file tree = input'.copyFile file tree := by
      delta copyFile
      rw [same.1]
    rw [copyFiles_cons, copyFiles_cons, first_eq]
    split
    · rfl
    · exact ih same.2 _

theorem assemble_respell {processed : NameSet}
    (planned : input.plan config fragments tree = .ok (name, merged, closure))
    (other_planned : (input.respell other).plan config fragments tree = .ok (name, merged, closure))
    (same : closure.map input.copyTarget = closure.map (input.respell other).copyTarget) :
    (input.respell other).assemble config fragments processed tree =
      input.assemble config fragments processed tree := by
  have same_writes : (input.respell other).writeModule name merged closure tree =
      input.writeModule name merged closure tree := by
    have same_copies := copyFiles_congr (List.map_inj_left.1 same)
    rw [writeModule, writeModule, same]
    simp only [same_copies]
    rfl
  rw [assemble, assemble, planned, other_planned]
  dsimp only
  rw [same_writes]
  rfl

/-- Another spelling of the declaration file leads to the same plan, so to the same closure and the
same output. The copies are at the same places exactly if the directories of both paths are written
plainly, or neither is, or if there is no file further down. -/
theorem layout_of_respelled_primary (config : Config) (fragments : List String)
    (processed : NameSet) (respelled : tree.Respelled input.primary other)
    (read : ∃ text, input.primary = .ofText text) :
    (∀ planned, input.plan config fragments tree = .ok planned ↔
        (input.respell other).plan config fragments tree = .ok planned) ∧
      (∀ bundle after made bundle' after' made',
        input.assemble config fragments processed tree = (.ok (some bundle), after, made) →
        (input.respell other).assemble config fragments processed tree =
          (.ok (some bundle'), after', made') →
        bundle'.closure = bundle.closure ∧ bundle'.output = bundle.output ∧
          made'.readText bundle'.output = made.readText bundle.output ∧
          (bundle'.copied = bundle.copied ↔
            (input.primary.directory.IsPlain ↔ other.directory.IsPlain) ∨
              ∀ file ∈ bundle.closure, ¬input.IsDeeper file)) ∧
      ∀ name merged closure, input.plan config fragments tree = .ok (name, merged, closure) →
        ((input.primary.directory.IsPlain ↔ other.directory.IsPlain) ∨
            (∀ file ∈ closure, ¬input.IsDeeper file) →
          (input.respell other).assemble config fragments processed tree =
            input.assemble config fragments processed tree) ∧
        ∀ file ∈ closure,
          (input.primary.directory.IsPlain → ∀ names : List String,
            file.parts = input.primary.directory.normalParts ++ names.map .name →
              input.copyTarget file = input.outDirectory.join ⟨false, names⟩) ∧
          (¬input.primary.directory.IsPlain → input.copyTarget file = input.flatTarget file) := by
  refine ⟨?_, ?_, ?_⟩
  · rintro ⟨name, merged, closure⟩
    exact ⟨plan_respell input respelled, plan_respell (input.respell other) respelled.symm⟩
  · intro bundle after made bundle' after' made' assembled other_assembled
    rcases assemble_eq_ok assembled with ⟨name, merged, planned, written⟩
    rcases assemble_eq_ok other_assembled with ⟨name', merged', other_planned, other_written⟩
    rcases writeModule_eq_ok written with ⟨output_eq, _, copied_eq, _⟩
    rcases writeModule_eq_ok other_written with ⟨other_output_eq, _, other_copied_eq, _⟩
    have same_plan := (plan_respell input respelled planned).symm.trans other_planned
    rw [Except.ok.injEq, Prod.mk.injEq, Prod.mk.injEq] at same_plan
    rcases same_plan with ⟨rfl, rfl, closure_eq⟩
    have same_output : bundle'.output = bundle.output := other_output_eq.trans output_eq.symm
    have output_ends := endsIn_output planned read
    rw [← output_eq] at output_ends
    refine ⟨closure_eq.symm, same_output, ?_, ?_⟩
    · rw [(holds_output planned written output_ends).readText]
      rw [← same_output] at output_ends
      exact (holds_output other_planned other_written output_ends).readText
    · rw [copied_eq, other_copied_eq, ← closure_eq, eq_comm]
      exact copies_respell_iff respelled planned
  · intro name merged closure planned
    refine ⟨?_, ?_⟩
    · intro criterion
      apply assemble_respell planned (plan_respell input respelled planned)
      exact (copies_respell_iff respelled planned).2 criterion
    · intro file mem
      refine ⟨?_, (isSource_of_plan planned mem).copyTarget_of_not_isPlain⟩
      intro plain names parts_eq
      rw [plain] at parts_eq
      rw [copyTarget_of_parts (Path.partsAfter?_eq_some_iff.2 parts_eq), Path.ofParts_names]

/-! The path of a declaration file with a dot, and with a detour. -/

def dotted : Path := .ofText "./s/g.d.ts"

def winding : Path := .ofText "s/l/../g.d.ts"

theorem detour_dotted : galleryTree.Detour gallery.primary dotted := by
  have plain_eq : gallery.primary = ⟨false, ["s", "g.d.ts"]⟩ := by decide +kernel
  have dotted_eq : dotted = ⟨false, [".", "s", "g.d.ts"]⟩ := by decide +kernel
  rw [plain_eq, dotted_eq]
  exact .dot false [] ["s", "g.d.ts"] (by simp)

theorem detour_winding : galleryTree.Detour gallery.primary winding := by
  have plain_eq : gallery.primary = ⟨false, ["s", "g.d.ts"]⟩ := by decide +kernel
  have winding_eq : winding = ⟨false, ["s", "l", "..", "g.d.ts"]⟩ := by decide +kernel
  rw [plain_eq, winding_eq]
  exact .back false ["s"] ["g.d.ts"] "l" (by simp) rfl (by decide +kernel)

theorem respelled_winding : galleryTree.Respelled dotted winding where
  detours := .trans _ _ _ (.symm _ _ (.rel _ _ detour_dotted)) (.rel _ _ detour_winding)
  legal := by decide +kernel
  candidates_legal text holds := by
    have readable : galleryTree.readText dotted =
        .ok "export * from './l/a'\nexport * from '../b'" := by decide +kernel
    rw [holds.readText] at readable
    cases readable
    decide +kernel

theorem layout_of_respelled_primary_winding :
    galleryTree.Respelled dotted winding ∧
      ∀ name merged closure,
        (gallery.respell dotted).plan {} [] galleryTree = .ok (name, merged, closure) →
        ((gallery.respell dotted).respell winding).plan {} [] galleryTree =
            .ok (name, merged, closure) ∧
          ((gallery.respell dotted).respell winding).assemble {} [] .empty galleryTree =
            (gallery.respell dotted).assemble {} [] .empty galleryTree := by
  refine ⟨respelled_winding, ?_⟩
  intro name merged closure planned
  have respelled : galleryTree.Respelled (gallery.respell dotted).primary winding :=
    respelled_winding
  have neither : (gallery.respell dotted).primary.directory.IsPlain ↔
      winding.directory.IsPlain := by
    apply iff_of_false
    · unfold Path.IsPlain
      decide +kernel
    · unfold Path.IsPlain
      decide +kernel
  rcases layout_of_respelled_primary {} [] .empty respelled ⟨"./s/g.d.ts", rfl⟩ with
    ⟨same_plan, _, layout⟩
  exact ⟨(same_plan _).1 planned, (layout name merged closure planned).1 (.inl neither)⟩

/-- Written with a dot, the path of the declaration file leads to the same closure, but a file below
its directory loses its place there. -/
theorem dotted_directory_flattens_copies :
    galleryTree.Detour gallery.primary dotted ∧
      (gallery.assemble {} [] .empty galleryTree).1 = .ok (some galleryBundle) ∧
      galleryBundle.copied = [.ofText "out/l/a.d.ts", .ofText "out/b.d.ts"] ∧
      ((gallery.respell dotted).assemble {} [] .empty galleryTree).1 =
        .ok (some { galleryBundle with
          copied := [.ofText "out/a.d.ts", .ofText "out/b.d.ts"] }) := by
  refine ⟨detour_dotted, ?_, rfl, ?_⟩
  · rcases assemble_gallery with ⟨after, made, assembled⟩
    rw [assembled]
  · decide +kernel

end ModuleInput

end Componentry
