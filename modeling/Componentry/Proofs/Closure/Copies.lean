import Componentry.Proofs.Closure.SelfContained
import Componentry.Proofs.FileTree.Contents
import Componentry.Proofs.Path.Normal

/-!
# Copies of a closure

Each file of a closure is copied to its place below the directory of the
declaration file, or, if it is not below that, into the output directory itself.
Whichever it is, the copy has the name of the file (`endsIn_copyTarget`). Since no
two files of a closure have the same name, and none has that of the declaration
file, no two copies are at the same place, and none is where the merged
declarations are.

So what is written stays. While files are copied, a file that was not copied yet
is the one of the sources, if it is there at all, and a copy that was made is not
written to again (`holds_of_copyFiles`).
-/

namespace Componentry

namespace Path

/-- A piece of a path that is read. -/
def NoSlash (piece : String) : Prop :=
  ∀ c ∈ piece.toList, (c == '/') = false

theorem NoSlash.append {first second : String} (no_slash : NoSlash first)
    (no_slash' : NoSlash second) : NoSlash (first ++ second) := by
  intro c mem
  rw [String.toList_append, List.mem_append] at mem
  rcases mem with mem | mem
  · exact no_slash c mem
  · exact no_slash' c mem

theorem noSlash_of_all {piece : String} (all : piece.toList.all (fun c => !(c == '/')) = true) :
    NoSlash piece := by
  intro c mem
  rw [← Bool.not_eq_true']
  exact List.all_eq_true.1 all c mem

end Path

namespace FileTree

variable {file importer : Path} {specifier : String}

variable {tree : FileTree} {primary : Path} {text : String}

/-! ## Names of closures -/

theorem noSlash_of_mapLast {path : Path} {change : String → String}
    (pieces : ∀ piece ∈ path.pieces, Path.NoSlash piece)
    (changed : Path.NoSlash (change (path.pieces.getLast?.getD ""))) :
    ∀ piece ∈ (path.mapLast change).pieces, Path.NoSlash piece := by
  rw [Path.mapLast, List.forall_mem_append, List.forall_mem_singleton]
  refine ⟨?_, changed⟩
  intro piece mem
  exact pieces piece (List.dropLast_subset _ mem)

theorem noSlash_of_mem_candidates {target candidate : Path} (nonempty : target.pieces ≠ [])
    (pieces : ∀ piece ∈ target.pieces, Path.NoSlash piece) (mem : candidate ∈ candidates target) :
    ∀ piece ∈ candidate.pieces, Path.NoSlash piece := by
  have suffix : Path.NoSlash declarationSuffix := Path.noSlash_of_all (by decide)
  have last : Path.NoSlash (target.pieces.getLast?.getD "") := by
    rw [List.getLast?_eq_some_getLast nonempty]
    exact pieces _ (List.getLast_mem nonempty)
  unfold candidates at mem
  rcases List.mem_append.1 mem with mem | mem
  rcases List.mem_append.1 mem with mem | mem
  rcases List.mem_append.1 mem with mem | mem
  · rw [List.mem_singleton.1 mem]
    exact noSlash_of_mapLast pieces (last.append suffix)
  · split at mem
    · rename_i stem found
      rw [List.mem_singleton.1 mem]
      have stem_no_slash : Path.NoSlash stem := by
        intro c stem_mem
        apply last c
        rw [eq_append_of_stem? found, String.toList_append]
        exact List.mem_append_left _ stem_mem
      exact noSlash_of_mapLast pieces (stem_no_slash.append suffix)
    · simp at mem
  · split at mem
    · rw [List.mem_singleton.1 mem]
      exact noSlash_of_mapLast pieces last
    · simp at mem
  · rw [List.mem_singleton.1 mem, Path.join_eq target rfl (by simp), List.forall_mem_append,
      List.forall_mem_singleton]
    refine ⟨?_, Path.NoSlash.append (Path.noSlash_of_all (by decide)) suffix⟩
    intro piece piece_mem
    apply pieces
    rw [Path.stemPieces] at piece_mem
    split at piece_mem
    · exact List.dropLast_subset _ piece_mem
    · exact piece_mem

/-- The name of a file that a relative specifier stands for is a path of its own. -/
theorem ofText_baseName_of_resolveSpecifier (relative : Statement.isRelative specifier = true)
    (resolved : tree.resolveSpecifier importer specifier = some file) :
    Path.ofText file.baseName = ⟨false, [file.baseName]⟩ := by
  rcases Path.ofText_of_isRelative relative with ⟨not_rooted, nonempty⟩
  rw [resolveSpecifier_eq tree importer relative] at resolved
  rcases Option.map_eq_some_iff.1 resolved with ⟨candidate, first, rfl⟩
  have mem := List.mem_of_find?_eq_some first
  rcases candidate_cases nonempty mem with ⟨rooted_eq, name, ends, _⟩
  have joined : (importer.directory.join candidate).EndsIn name :=
    ends.join (rooted_eq.trans not_rooted)
  rcases joined.last with ⟨before, pieces_eq⟩
  have name_eq : (importer.directory.join candidate).normalize.baseName = name := by
    have path_eq : importer.directory.join candidate =
        ⟨(importer.directory.join candidate).rooted, before ++ [name]⟩ := by
      rw [← pieces_eq]
    rw [Path.baseName, path_eq, Path.fileName?_normalize_of_last ends.named, Option.getD_some]
  rw [name_eq]
  apply Path.ofText_of_isName ends.named
  apply noSlash_of_mem_candidates nonempty (fun _ => Path.no_slash_of_mem_ofText) mem
  rcases ends.last with ⟨front, front_eq⟩
  simp [front_eq]

theorem isRelative_of_mem_importsOf (mem : specifier ∈ tree.importsOf file) :
    Statement.isRelative specifier = true := by
  rw [importsOf] at mem
  split at mem
  · exact (List.mem_filter.1 mem).2
  · simp at mem

theorem isSettled_of_resolveSpecifier
    (resolved : tree.resolveSpecifier importer specifier = some file) :
    Path.IsSettled file.parts := by
  unfold resolveSpecifier at resolved
  rcases Option.map_eq_some_iff.1 resolved with ⟨candidate, _, rfl⟩
  rw [Path.parts_normalize]
  exact candidate.isSettled_normalParts

theorem rooted_of_resolveSpecifier {name : String} (ends : importer.EndsIn name)
    (relative : Statement.isRelative specifier = true)
    (resolved : tree.resolveSpecifier importer specifier = some file) :
    file.rooted = importer.rooted := by
  rcases Path.ofText_of_isRelative relative with ⟨not_rooted, nonempty⟩
  rw [resolveSpecifier_eq tree importer relative] at resolved
  rcases Option.map_eq_some_iff.1 resolved with ⟨candidate, first, rfl⟩
  rcases candidate_cases nonempty (List.mem_of_find?_eq_some first) with ⟨rooted_eq, _⟩
  rw [Path.rooted_normalize, Path.rooted_join _ (rooted_eq.trans not_rooted),
    ends.rooted_directory]

theorem exists_specifier_of_mem_found {done : List Path}
    (mem : file ∈ tree.found primary text done) :
    ∃ importer specifier, Statement.isRelative specifier = true ∧
      tree.resolveSpecifier importer specifier = some file := by
  rcases mem_sources.1 (mem_of_mem_newFiles mem) with exported | ⟨earlier, _, imported⟩
  · rcases mem_targets.1 exported with ⟨specifier, specifier_mem, resolved⟩
    exact ⟨primary, specifier, (List.mem_filter.1 specifier_mem).2, resolved⟩
  · rcases mem_targets.1 imported with ⟨specifier, specifier_mem, resolved⟩
    exact ⟨earlier, specifier, isRelative_of_mem_importsOf specifier_mem, resolved⟩

/-- A property of all files of a closure goes from each file to those that it leads to. -/
theorem IsClosure.forall_mem {closure : List Path} {property : Path → Prop}
    (isClosure : tree.IsClosure primary text closure)
    (exported : ∀ file ∈ tree.targets primary (relativeReExports text), property file)
    (imported : ∀ earlier ∈ closure, property earlier →
      ∀ file ∈ tree.targets earlier (tree.importsOf earlier), property file) :
    ∀ file ∈ closure, property file := by
  have up_to (before after : List Path) (split_eq : closure = before ++ after) :
      ∀ file ∈ before, property file := by
    induction before using List.reverseRecOn generalizing after with
    | nil => simp
    | append_singleton before file ih =>
      rw [List.append_assoc, List.singleton_append] at split_eq
      have earlier_hold := ih _ split_eq
      rw [List.forall_mem_append, List.forall_mem_singleton]
      refine ⟨earlier_hold, ?_⟩
      rcases isClosure.discovered before file after split_eq with first | ⟨earlier, mem, later⟩
      · exact exported file first
      · apply imported earlier _ (earlier_hold earlier mem) file later
        rw [split_eq]
        exact List.mem_append_left _ mem
  exact up_to closure [] (List.append_nil closure).symm

theorem IsClosure.rooted_eq {closure : List Path} {name : String}
    (isClosure : tree.IsClosure primary text closure) (ends : primary.EndsIn name) :
    ∀ file ∈ closure, file.rooted = primary.rooted := by
  refine isClosure.forall_mem ?_ ?_
  · intro file mem
    rcases mem_targets.1 mem with ⟨specifier, specifier_mem, resolved⟩
    exact rooted_of_resolveSpecifier ends (List.mem_filter.1 specifier_mem).2 resolved
  · intro earlier earlier_mem same file mem
    rcases mem_targets.1 mem with ⟨specifier, specifier_mem, resolved⟩
    rcases isClosure.imports_inside earlier earlier_mem with ⟨content, readable, _⟩
    rw [isClosure.breadth_first] at earlier_mem
    have reaches := (reaches_of_readText readable (fileName?_of_mem_found earlier_mem)).1
    rw [← same]
    exact rooted_of_resolveSpecifier reaches.ends (isRelative_of_mem_importsOf specifier_mem)
      resolved

end FileTree

namespace Path

variable {path base : Path} {name : String}

theorem fileName?_eq_some_iff :
    path.fileName? = some name ↔ path.parts.getLast? = some (.name name) := by
  rw [fileName?]
  split
  · rename_i text last
    simp [last]
  · rename_i not_name
    simp only [reduceCtorEq, false_iff]
    exact not_name name

theorem EndsIn.fileName? (ends : path.EndsIn name) : path.fileName? = some name := by
  rcases ends.last with ⟨before, pieces_eq⟩
  have path_eq : path = ⟨path.rooted, before ++ [name]⟩ := by
    rw [← pieces_eq]
  rw [path_eq]
  exact fileName?_of_last ends.named

/-- Paths that end in different names lead to different places. -/
theorem nodup_place_of_fileName? {paths : List Path}
    (ends : ∀ path ∈ paths, ∃ name, path.EndsIn name)
    (distinct : (paths.map Path.fileName?).Nodup) : (paths.map Path.place).Nodup := by
  have names_eq : paths.map Path.fileName? =
      (paths.map Path.place).map fun place => place.names.getLast? := by
    rw [List.map_map]
    apply List.map_congr_left
    intro path mem
    rcases ends path mem with ⟨name, path_ends⟩
    rw [Function.comp_apply, path_ends.fileName?, path_ends.place_eq, Place.child]
    exact List.getLast?_concat.symm
  rw [names_eq] at distinct
  exact distinct.of_map

theorem EndsIn.place_ne {other : Path} {name' : String} (ends : path.EndsIn name)
    (other_ends : other.EndsIn name') (different : name ≠ name') : path.place ≠ other.place := by
  intro same
  rw [ends.place_eq, other_ends.place_eq, Place.child_inj] at same
  exact different same.2

theorem endsIn_ofParts (named : IsName name) (front : List Part) :
    (ofParts (front ++ [.name name])).EndsIn name := by
  refine ⟨named, ?_⟩
  unfold ofParts
  split
  · rename_i rest parts_eq
    cases front with
    | nil => simp at parts_eq
    | cons first others =>
      rw [List.cons_append, List.cons.injEq] at parts_eq
      rw [← parts_eq.2, List.map_append]
      exact ⟨others.map ofParts.pieceOf, rfl⟩
  · rw [List.map_append]
    exact ⟨front.map ofParts.pieceOf, rfl⟩

/-- A path ends as what is joined to it, also if that is a path from the root. -/
theorem EndsIn.of_join {other : Path} (ends : other.EndsIn name) :
    (base.join other).EndsIn name := by
  cases rooted : other.rooted with
  | false => exact ends.join rooted
  | true =>
    rw [Path.join, if_pos rooted]
    exact ends

end Path

namespace ModuleInput

variable {parts : List Path.Part}

variable {input : ModuleInput} {tree made source : FileTree} {file : Path} {closure : List Path}
  {config : Config} {fragments : List String} {name merged : String}

/-! ## Names of copies -/

/-- What is known of a file of a closure. -/
structure IsSource (input : ModuleInput) (tree : FileTree) (file : Path) : Prop where
  readable : ∃ text, tree.readText file = .ok text
  named : file.fileName? = some file.baseName
  own : Path.ofText file.baseName = ⟨false, [file.baseName]⟩
  settled : Path.IsSettled file.parts
  rooted : file.rooted = input.primary.directory.rooted
  /-- It is not the directory of the declaration file. -/
  apart : file.place ≠ input.primary.directory.place

theorem isSource_of_plan (planned : input.plan config fragments tree = .ok (name, merged, closure))
    (mem : file ∈ closure) : input.IsSource tree file := by
  rcases plan_eq_ok planned with ⟨text, readable, named, discovered⟩
  have isClosure := FileTree.discover_eq_ok_iff.1 discovered
  have reaches := (FileTree.reaches_of_readText readable named).1
  have rooted := isClosure.rooted_eq reaches.ends file mem
  rcases isClosure.imports_inside file mem with ⟨content, file_readable, _⟩
  rw [isClosure.breadth_first] at mem
  have file_named := FileTree.fileName?_of_mem_found mem
  rcases FileTree.exists_specifier_of_mem_found mem with ⟨importer, specifier, relative, resolved⟩
  refine ⟨⟨content, file_readable⟩, file_named,
    FileTree.ofText_baseName_of_resolveSpecifier relative resolved,
    FileTree.isSettled_of_resolveSpecifier resolved,
    rooted.trans reaches.ends.rooted_directory.symm, ?_⟩
  intro same
  have has_file := (FileTree.reaches_of_readText file_readable file_named).2
  rw [same] at has_file
  exact has_file.not_directory reaches.directory

theorem IsSource.copyTarget_of_outside (isSource : input.IsSource tree file)
    (outside : file.partsAfter? input.primary.directory = none) :
    input.copyTarget file = input.outDirectory.join ⟨false, [file.baseName]⟩ := by
  rw [copyTarget, outside, ← isSource.own]
  rfl

theorem copyTarget_of_parts (after : file.partsAfter? input.primary.directory = some parts) :
    input.copyTarget file = input.outDirectory.join (.ofParts parts) := by
  rw [copyTarget, after]

/-- What is left of a file after the directory of the declaration file. -/
theorem IsSource.settled_after (isSource : input.IsSource tree file)
    (after : file.partsAfter? input.primary.directory = some parts) :
    Path.IsSettled parts ∧ .root ∉ parts := by
  have parts_eq := Path.partsAfter?_eq_some_iff.1 after
  have settled := isSource.settled
  have no_root : .root ∉ parts := by
    intro mem
    cases directory_parts : input.primary.directory.parts with
    | nil =>
      have rooted : .root ∈ file.parts := by
        rw [parts_eq]
        exact List.mem_append_right _ mem
      rw [Path.root_mem_parts, isSource.rooted, ← Path.root_mem_parts, directory_parts] at rooted
      simp at rooted
    | cons first rest =>
      apply file.root_notMem_tail_parts
      rw [parts_eq, directory_parts]
      exact List.mem_append_right _ mem
  rw [parts_eq] at settled
  exact ⟨settled.of_append no_root, no_root⟩

theorem IsSource.isName (isSource : input.IsSource tree file) : Path.IsName file.baseName :=
  (Path.mem_pieces_of_fileName? isSource.named).2

/-- What is left of a file after the directory of the declaration file ends in its name. -/
theorem IsSource.exists_front (isSource : input.IsSource tree file)
    (after : file.partsAfter? input.primary.directory = some parts) :
    ∃ front, parts = front ++ [.name file.baseName] := by
  have parts_eq := Path.partsAfter?_eq_some_iff.1 after
  rcases List.eq_nil_or_concat parts with rfl | ⟨front, last, rfl⟩
  · apply absurd _ isSource.apart
    rw [Path.place_eq_foldl_parts, parts_eq, List.append_nil, ← Path.place_eq_foldl_parts]
  · have last_eq := Path.fileName?_eq_some_iff.1 isSource.named
    rw [parts_eq, List.concat_eq_append, ← List.append_assoc, List.getLast?_concat,
      Option.some.injEq] at last_eq
    exact ⟨front, by rw [List.concat_eq_append, last_eq]⟩

/-- A copy is named as its source. -/
theorem IsSource.endsIn_copyTarget (isSource : input.IsSource tree file) :
    (input.copyTarget file).EndsIn file.baseName := by
  cases after : file.partsAfter? input.primary.directory with
  | none =>
    rw [isSource.copyTarget_of_outside after]
    apply Path.EndsIn.of_join
    exact ⟨isSource.isName, [], rfl⟩
  | some parts =>
    rw [copyTarget_of_parts after]
    rcases isSource.exists_front after with ⟨front, rfl⟩
    apply Path.EndsIn.of_join
    exact Path.endsIn_ofParts isSource.isName front

/-! ## Contents of copies -/

theorem keepsFiles_copyFile (input : ModuleInput) (file : Path) (tree : FileTree) :
    tree.KeepsFiles (input.copyFile file tree).2 [(input.copyTarget file).place] := by
  have directories := tree.keepsFiles_makeDirectories (input.copyTarget file).directory
  delta copyFile
  dsimp only
  split
  · rename_i made_directories
    rw [made_directories] at directories
    exact directories.mono (List.nil_subset _)
  · rename_i prepared made_directories
    rw [made_directories] at directories
    split
    · exact directories.mono (List.nil_subset _)
    · rename_i copy_eq
      rcases FileTree.copy_eq_ok copy_eq with ⟨content, written⟩
      exact directories.trans (FileTree.keepsFiles_write written)

theorem keepsFiles_copyFiles (input : ModuleInput) (files : List Path) (tree : FileTree) :
    tree.KeepsFiles (input.copyFiles files tree).2
      (files.map fun file => (input.copyTarget file).place) := by
  induction files generalizing tree with
  | nil => exact .refl tree
  | cons file rest ih =>
    have first := keepsFiles_copyFile input file tree
    rw [copyFiles_cons]
    split
    · rename_i failed
      rw [failed] at first
      apply first.mono
      simp
    · rename_i next copied
      rw [copied] at first
      exact first.trans (ih next)

/-- A copy holds what its source held, unless it is the same file. -/
theorem holds_of_copyFile {text : String} (copied : input.copyFile file tree = (none, made))
    (content : ∀ content, tree.node? file.place = some (.file content) → content = .text text)
    (apart : file.place ≠ (input.copyTarget file).place) :
    made.Holds (input.copyTarget file) text := by
  have directories := tree.keepsFiles_makeDirectories (input.copyTarget file).directory
  delta copyFile at copied
  dsimp only at copied
  split at copied
  · cases copied
  · rename_i prepared made_directories
    rw [made_directories] at directories
    split at copied
    · cases copied
    · rename_i copy_eq
      cases copied
      rcases FileTree.copy_eq_write copy_eq with ⟨held, node_eq, written⟩
      have held_eq := content held (directories.changes _ _ (List.not_mem_nil) node_eq)
      have elsewhere : prepared.leadsTo (input.copyTarget file) file.place = false := by
        rw [← Bool.not_eq_true]
        intro leads
        exact apart (FileTree.place_of_leadsTo leads).symm
      rw [elsewhere, if_neg Bool.false_ne_true, held_eq] at written
      exact FileTree.holds_of_write written

theorem IsSource.endsIn (isSource : input.IsSource tree file) : file.EndsIn file.baseName := by
  rcases isSource.readable with ⟨text, readable⟩
  exact (FileTree.reaches_of_readText readable isSource.named).1.ends

/-- The copy of a file is neither where another file is nor where that is copied to. -/
def Apart (input : ModuleInput) (file other : Path) : Prop :=
  other.place ≠ (input.copyTarget file).place ∧
    (input.copyTarget file).place ≠ (input.copyTarget other).place

theorem pairwise_apart_of_plan
    (planned : input.plan config fragments tree = .ok (name, merged, closure)) :
    closure.Pairwise input.Apart := by
  rcases plan_eq_ok planned with ⟨text, _, _, discovered⟩
  have distinct := (FileTree.discover_eq_ok_iff.1 discovered).distinct
  apply (List.pairwise_map.1 distinct).imp_of_mem
  intro file other mem other_mem different
  have isSource := isSource_of_plan planned mem
  have other_isSource := isSource_of_plan planned other_mem
  have names_ne : file.baseName ≠ other.baseName := by
    intro same
    apply different
    rw [isSource.named, other_isSource.named, same]
  refine ⟨?_, ?_⟩
  · exact other_isSource.endsIn.place_ne isSource.endsIn_copyTarget names_ne.symm
  · exact isSource.endsIn_copyTarget.place_ne other_isSource.endsIn_copyTarget names_ne

/-- Copies hold what the sources held. Whatever was written before is at certain places, where none
of the files is that are still to be copied. -/
theorem holds_of_copyFiles {files : List Path} {places : List Place}
    (changes : source.ChangesOnly tree places) (copied : input.copyFiles files tree = (none, made))
    (apart : files.Pairwise input.Apart) (untouched : ∀ file ∈ files, file.place ∉ places) :
    ∀ file ∈ files, ∀ text, source.node? file.place = some (.file (.text text)) →
      file.place ≠ (input.copyTarget file).place → made.Holds (input.copyTarget file) text := by
  induction files generalizing tree places with
  | nil => simp
  | cons first rest ih =>
    rw [List.pairwise_cons] at apart
    rw [List.forall_mem_cons] at untouched ⊢
    rw [copyFiles_cons] at copied
    split at copied
    · cases copied
    · rename_i next copy_eq
      have first_keeps := keepsFiles_copyFile input first tree
      have rest_keeps := keepsFiles_copyFiles input rest next
      rw [copy_eq] at first_keeps
      rw [copied] at rest_keeps
      constructor
      · intro text held moved
        have first_holds : next.Holds (input.copyTarget first) text := by
          apply holds_of_copyFile copy_eq _ moved
          intro content node_eq
          have same := changes _ _ untouched.1 node_eq
          rw [held] at same
          cases same
          rfl
        apply first_holds.kept (grows_copyFiles copied).1 rest_keeps
        intro mem
        rcases List.mem_map.1 mem with ⟨other, other_mem, same⟩
        exact (apart.1 other other_mem).2 same.symm
      · apply ih (changes.trans first_keeps.changes) copied apart.2
        intro file mem
        rw [List.mem_append, List.mem_singleton, not_or]
        exact ⟨untouched.2 file mem, (apart.1 file mem).1⟩

/-! ## What an assembled module consists of -/

theorem merged_of_plan {text : String}
    (planned : input.plan config fragments tree = .ok (name, merged, closure))
    (readable : tree.readText input.primary = .ok text) :
    merged = Statement.merge (config.outputShape == .singleComponent) text fragments := by
  rw [plan] at planned
  split at planned
  · cases planned
  · rename_i content read
    split at planned
    · cases planned
    · simp only [Except.ok.injEq, Prod.mk.injEq] at planned
      rw [(readPrimary_eq_ok read).1, Except.ok.injEq] at readable
      rw [← planned.2.1, readable]

theorem endsIn_output (planned : input.plan config fragments tree = .ok (name, merged, closure))
    (read : ∃ text, input.primary = .ofText text) :
    (input.outDirectory.join (.ofText name)).EndsIn name := by
  rcases plan_eq_ok planned with ⟨_, _, named, _⟩
  rcases read with ⟨text, primary_eq⟩
  rw [primary_eq] at named
  rw [Path.ofText_fileName? named]
  apply Path.EndsIn.of_join
  exact ⟨(Path.mem_pieces_of_fileName? named).2, [], rfl⟩

theorem baseName_ne_of_plan
    (planned : input.plan config fragments tree = .ok (name, merged, closure))
    (mem : file ∈ closure) : file.baseName ≠ name := by
  rintro rfl
  rcases plan_eq_ok planned with ⟨text, _, named, discovered⟩
  apply (FileTree.discover_eq_ok_iff.1 discovered).not_primary
  rw [named, ← (isSource_of_plan planned mem).named]
  exact List.mem_map_of_mem mem

section Written

variable {bundle : AssembledModule}
  (planned : input.plan config fragments tree = .ok (name, merged, closure))
  (written : input.writeModule name merged closure tree = (.ok bundle, made))
  (output_ends : bundle.output.EndsIn name)

include planned written output_ends

/-- The copies are made at other places than the merged declarations. -/
theorem holds_output : made.Holds bundle.output merged := by
  rcases writeModule_eq_ok written with ⟨_, _, _, emptied, next, _, write_eq, copy_eq⟩
  have copies_keep := keepsFiles_copyFiles input closure next
  rw [copy_eq] at copies_keep
  apply (FileTree.holds_of_write write_eq).kept (grows_copyFiles copy_eq).1 copies_keep
  intro mem
  rcases List.mem_map.1 mem with ⟨file, file_mem, same⟩
  exact (isSource_of_plan planned file_mem).endsIn_copyTarget.place_ne output_ends
    (baseName_ne_of_plan planned file_mem) same

theorem readText_copyTarget (mem : file ∈ closure)
    (moved : file.place ≠ (input.copyTarget file).place) :
    made.readText (input.copyTarget file) = tree.readText file := by
  rcases writeModule_eq_ok written with ⟨_, _, _, emptied, next, reset, write_eq, copy_eq⟩
  have isSource := isSource_of_plan planned mem
  rcases isSource.readable with ⟨content, readable⟩
  have changes := tree.changesOnly_resetDirectory input.outDirectory
  rw [reset] at changes
  rw [readable]
  apply FileTree.Holds.readText
  apply holds_of_copyFiles (changes.trans (FileTree.keepsFiles_write write_eq).changes) copy_eq
    (pairwise_apart_of_plan planned) _ file mem content
    (FileTree.holds_of_readText readable isSource.named).node moved
  intro other other_mem
  rw [List.nil_append, List.mem_singleton]
  exact (isSource_of_plan planned other_mem).endsIn.place_ne output_ends
    (baseName_ne_of_plan planned other_mem)

end Written

/-- The merged declarations and the copies are named as the files that they come from. They are at
different places, so that each holds what was written there. -/
theorem copies_never_collide {processed after : NameSet} {bundle : AssembledModule}
    (assembled : input.assemble config fragments processed tree = (.ok (some bundle), after, made))
    (read : ∃ text, input.primary = .ofText text) :
    (bundle.output :: bundle.copied).map Path.fileName? =
        (input.primary :: bundle.closure).map Path.fileName? ∧
      (∀ file ∈ input.primary :: bundle.closure, file.fileName? ≠ none) ∧
      ((bundle.output :: bundle.copied).map Path.parts).Nodup ∧
      ((bundle.output :: bundle.copied).map Path.place).Nodup ∧
      (∃ text, tree.readText input.primary = .ok text ∧
        made.readText bundle.output =
          .ok (Statement.merge (config.outputShape == .singleComponent) text fragments)) ∧
      ∀ file copy, (file, copy) ∈ bundle.closure.zip bundle.copied → file.place ≠ copy.place →
        made.readText copy = tree.readText file := by
  rcases assemble_eq_ok assembled with ⟨name, merged, planned, written⟩
  rcases plan_eq_ok planned with ⟨text, readable, named, discovered⟩
  rcases writeModule_eq_ok written with ⟨output_eq, _, copied_eq, _⟩
  have isClosure := FileTree.discover_eq_ok_iff.1 discovered
  have isSource := fun file (mem : file ∈ bundle.closure) => isSource_of_plan planned mem
  have output_ends := endsIn_output planned read
  rw [← output_eq] at output_ends
  have names_eq : (bundle.output :: bundle.copied).map Path.fileName? =
      (input.primary :: bundle.closure).map Path.fileName? := by
    rw [List.map_cons, List.map_cons, output_ends.fileName?, named, copied_eq, List.map_map]
    congr 1
    apply List.map_congr_left
    intro file mem
    rw [Function.comp_apply, (isSource file mem).endsIn_copyTarget.fileName?,
      (isSource file mem).named]
  have places_distinct : ((bundle.output :: bundle.copied).map Path.place).Nodup := by
    apply Path.nodup_place_of_fileName?
    · rw [List.forall_mem_cons, copied_eq, List.forall_mem_map]
      exact ⟨⟨name, output_ends⟩, fun file mem => ⟨_, (isSource file mem).endsIn_copyTarget⟩⟩
    · rw [names_eq, List.map_cons, List.nodup_cons]
      exact ⟨isClosure.not_primary, isClosure.distinct⟩
  refine ⟨names_eq, ?_, ?_, places_distinct, ⟨text, readable, ?_⟩, ?_⟩
  · rw [List.forall_mem_cons, named]
    refine ⟨by simp, ?_⟩
    intro file mem
    simp [(isSource file mem).named]
  · -- The place of a path can be read off its parts.
    have place_eq : Path.place = (fun parts => parts.foldl Place.move Place.current) ∘ Path.parts :=
      funext Path.place_eq_foldl_parts
    rw [place_eq, ← List.map_map] at places_distinct
    exact places_distinct.of_map
  · rw [← merged_of_plan planned readable]
    exact (holds_output planned written output_ends).readText
  · intro file copy pair moved
    rw [copied_eq, ← List.map_prod_left_eq_zip, List.mem_map] at pair
    rcases pair with ⟨source, mem, pair_eq⟩
    cases pair_eq
    exact readText_copyTarget planned written output_ends mem moved

/-! A declaration file that exports from a file below its directory and from one beside that. -/

def gallery : ModuleInput := ⟨"gallery", .ofText "s/g.d.ts", .ofText "out"⟩

def galleryTree : FileTree :=
  ⟨[(⟨.above 0, ["s"]⟩, .directory),
    (⟨.above 0, ["s", "g.d.ts"]⟩,
      .file (.text "export * from './l/a'\nexport * from '../b'")),
    (⟨.above 0, ["s", "l"]⟩, .directory),
    (⟨.above 0, ["s", "l", "a.d.ts"]⟩, .file (.text "import '../g'")),
    (⟨.above 0, ["b.d.ts"]⟩, .file (.text ""))]⟩

def galleryBundle : AssembledModule :=
  ⟨"gallery", .ofText "out/g.d.ts", [.ofText "s/l/a.d.ts", .ofText "b.d.ts"],
    [.ofText "out/l/a.d.ts", .ofText "out/b.d.ts"]⟩

theorem assemble_gallery :
    ∃ after made, gallery.assemble {} [] .empty galleryTree =
      (.ok (some galleryBundle), after, made) := by
  have accepted : (gallery.assemble {} [] .empty galleryTree).1 = .ok (some galleryBundle) := by
    decide +kernel
  generalize gallery.assemble {} [] .empty galleryTree = result at accepted ⊢
  rw [← accepted]
  exact ⟨_, _, rfl⟩

theorem copies_never_collide_gallery :
    ∃ after made, gallery.assemble {} [] .empty galleryTree =
        (.ok (some galleryBundle), after, made) ∧
      ((galleryBundle.output :: galleryBundle.copied).map Path.place).Nodup ∧
      made.readText (.ofText "out/l/a.d.ts") = galleryTree.readText (.ofText "s/l/a.d.ts") ∧
      made.readText (.ofText "out/b.d.ts") = galleryTree.readText (.ofText "b.d.ts") := by
  rcases assemble_gallery with ⟨after, made, assembled⟩
  rcases copies_never_collide assembled ⟨"s/g.d.ts", rfl⟩ with ⟨_, _, _, distinct, _, copies⟩
  refine ⟨after, made, assembled, distinct, ?_, ?_⟩
  · exact copies (.ofText "s/l/a.d.ts") (.ofText "out/l/a.d.ts") (by decide +kernel)
      (by decide +kernel)
  · exact copies (.ofText "b.d.ts") (.ofText "out/b.d.ts") (by decide +kernel) (by decide +kernel)

end ModuleInput

end Componentry
