import Mathlib.Data.List.Nodup
import Componentry.Proofs.FileTree.Writing
import Componentry.Proofs.Session.Run

/-!
# Output of sessions

A session keeps components by the names of their classes and writes their files
by their tags. The names of the files of a tag end in ways that no other file of
a tag ends in, so a name says which tag and which of the three files it is. If no
two components have one tag, nothing is written twice, and everything that was
written can be read back. A tag that two classes share loses the files of the
first (`shared_tag_loses_output`).
-/

namespace Componentry

namespace Session

/-! ## Names of files -/

/-- How the names of the files of a component end. -/
def outputSuffixes : List String := [".rt.json", ".dt.json", ".fragment.d.ts"]

theorem outputs_eq (metadata : ComponentMetadata) :
    metadata.outputs =
      [(metadata.tagName ++ ".rt.json", metadata.runtime.pretty ++ "\n"),
        (metadata.tagName ++ ".dt.json", metadata.designTime.pretty ++ "\n"),
        (metadata.tagName ++ ".fragment.d.ts", metadata.fragment)] := by
  simp only [ComponentMetadata.outputs, String.append_assoc]
  rfl

theorem names_outputs (metadata : ComponentMetadata) :
    metadata.outputs.map Prod.fst = outputSuffixes.map (metadata.tagName ++ ·) := by
  rw [outputs_eq]
  rfl

/-- The name of a file determines the tag and the end of the name. -/
theorem tag_suffix_inj {tag other suffix suffix' : String} (mem : suffix ∈ outputSuffixes)
    (mem' : suffix' ∈ outputSuffixes) (same : tag ++ suffix = other ++ suffix') :
    tag = other ∧ suffix = suffix' := by
  have apart : ∀ suffix ∈ outputSuffixes, ∀ suffix' ∈ outputSuffixes,
      suffix.toList <:+ suffix'.toList → suffix = suffix' := by decide
  have chars_eq := congrArg String.toList same
  rw [String.toList_append, String.toList_append] at chars_eq
  have ends : suffix.toList <:+ tag.toList ++ suffix.toList := List.suffix_append _ _
  have ends' : suffix'.toList <:+ tag.toList ++ suffix.toList := chars_eq ▸ List.suffix_append _ _
  have suffix_eq : suffix = suffix' := by
    rcases List.suffix_or_suffix_of_suffix ends ends' with shorter | longer
    · exact apart _ mem _ mem' shorter
    · exact (apart _ mem' _ mem longer).symm
  subst suffix_eq
  exact ⟨String.toList_inj.1 (List.append_cancel_right chars_eq), rfl⟩

/-- A tag that can be a file name. -/
def IsPlain (tag : String) : Prop :=
  '/' ∉ tag.toList

instance (tag : String) : Decidable (IsPlain tag) :=
  inferInstanceAs (Decidable ('/' ∉ tag.toList))

theorem ofText_output {tag suffix : String} (plain : IsPlain tag) (mem : suffix ∈ outputSuffixes) :
    Path.IsName (tag ++ suffix) ∧ Path.ofText (tag ++ suffix) = ⟨false, [tag ++ suffix]⟩ := by
  have no_slash : ∀ suffix ∈ outputSuffixes, '/' ∉ suffix.toList := by decide
  have long : ∀ suffix ∈ outputSuffixes, 2 < suffix.toList.length := by decide
  have length_eq : (tag ++ suffix).toList.length = tag.toList.length + suffix.toList.length := by
    rw [String.toList_append, List.length_append]
  have suffix_long := long suffix mem
  have named : Path.IsName (tag ++ suffix) := by
    have differs (piece : String) (short : piece.toList.length ≤ 2) : tag ++ suffix ≠ piece := by
      rintro rfl
      omega
    rw [Path.IsName, Path.part?, if_neg, if_neg (differs ".." (by decide))]
    rintro (empty | dot)
    · exact differs "" (by decide) empty
    · exact differs "." (by decide) dot
  refine ⟨named, Path.ofText_of_isName named ?_⟩
  intro c c_mem
  rw [String.toList_append, List.mem_append] at c_mem
  rw [beq_eq_false_iff_ne]
  rintro rfl
  rcases c_mem with in_tag | in_suffix
  · exact plain in_tag
  · exact no_slash suffix mem in_suffix

theorem place_output (out : Path) {tag suffix : String} (plain : IsPlain tag)
    (mem : suffix ∈ outputSuffixes) :
    (out.join (.ofText (tag ++ suffix))).place = out.place.child (tag ++ suffix) := by
  rcases ofText_output plain mem with ⟨named, path_eq⟩
  rw [path_eq, Path.place_join out rfl, Path.steps_eq_names (by simpa using named)]
  rfl

/-! ## Files that are written in a row -/

/-- A tree after files were written, each at a place of its own. -/
structure Wrote (files made : FileTree) (outputs : List (Path × String)) : Prop where
  grows : files.Grows made (outputs.map (·.1.place))
  holds : ∀ output ∈ outputs, made.Holds output.1 output.2
  kept : ∀ place ∉ outputs.map (·.1.place), made.node? place = files.node? place

/-- Files at distinct places are all there after they have been written. -/
theorem wrote_of_writeFiles {outputs : List (Path × String)} {files made : FileTree}
    (distinct : (outputs.map (·.1.place)).Nodup)
    (succeeded : writeFiles outputs files = (none, made)) : Wrote files made outputs := by
  induction outputs generalizing files with
  | nil =>
    cases succeeded
    exact ⟨.refl _, by simp, by simp⟩
  | cons output rest ih =>
    rw [List.map_cons, List.nodup_cons] at distinct
    rw [writeFiles] at succeeded
    split at succeeded
    · simp at succeeded
    · rename_i middle written
      have later := ih distinct.2 succeeded
      refine ⟨(FileTree.grows_write written).1.trans later.grows, ?_, ?_⟩
      · -- Nothing that comes later is written at the place of the first file.
        intro other mem
        rcases List.mem_cons.1 mem with rfl | in_rest
        · have first := FileTree.holds_of_write written
          exact first.grows later.grows (later.kept _ distinct.1)
        · exact later.holds other in_rest
      · intro place elsewhere
        rw [List.map_cons, List.mem_cons, not_or] at elsewhere
        rw [later.kept place elsewhere.2, FileTree.node?_write written elsewhere.1]

theorem writeOutputs_eq_ok {session : Session} {out : Path} {files made : FileTree}
    {written : List Path} (succeeded : session.writeOutputs out files = (.ok written, made)) :
    ∃ empty, files.resetDirectory out = (none, empty) ∧
      writeFiles (session.outputs out) empty = (none, made) ∧
      written = (session.outputs out).map Prod.fst := by
  rw [writeOutputs] at succeeded
  split at succeeded
  · simp at succeeded
  · rename_i empty reset
    dsimp only at succeeded
    split at succeeded
    · simp at succeeded
    · rename_i left wrote
      cases succeeded
      exact ⟨empty, reset, wrote, rfl⟩

/-! ## What is written -/

variable {session : Session} {out : Path}

theorem mem_outputs {path : Path} {text : String} :
    (path, text) ∈ session.outputs out ↔ ∃ metadata ∈ session.components.values, ∃ name,
      (name, text) ∈ metadata.outputs ∧ path = out.join (.ofText name) := by
  simp only [outputs, List.mem_flatMap, List.mem_map, Prod.mk.injEq, Prod.exists]
  constructor
  · rintro ⟨metadata, mem, name, _, output, rfl, rfl⟩
    exact ⟨metadata, mem, name, output, rfl⟩
  · rintro ⟨metadata, mem, name, output, rfl⟩
    exact ⟨metadata, mem, name, text, output, rfl, rfl⟩

theorem mem_written {path : Path} :
    path ∈ (session.outputs out).map Prod.fst ↔ ∃ metadata ∈ session.components.values,
      ∃ suffix ∈ outputSuffixes, path = out.join (.ofText (metadata.tagName ++ suffix)) := by
  have names_iff (metadata : ComponentMetadata) (name : String) :
      (∃ text, (name, text) ∈ metadata.outputs) ↔
        ∃ suffix ∈ outputSuffixes, metadata.tagName ++ suffix = name := by
    rw [← List.mem_map, ← names_outputs, List.mem_map]
    simp
  constructor
  · intro listed
    rcases List.mem_map.1 listed with ⟨⟨_, text⟩, written, rfl⟩
    rcases mem_outputs.1 written with ⟨metadata, mem, name, output, rfl⟩
    rcases (names_iff metadata name).1 ⟨text, output⟩ with ⟨suffix, suffix_mem, rfl⟩
    exact ⟨metadata, mem, suffix, suffix_mem, rfl⟩
  · rintro ⟨metadata, mem, suffix, suffix_mem, rfl⟩
    rcases (names_iff metadata _).2 ⟨suffix, suffix_mem, rfl⟩ with ⟨text, output⟩
    exact List.mem_map_of_mem (mem_outputs.2 ⟨metadata, mem, _, output, rfl⟩)

theorem places_outputs (plain : ∀ metadata ∈ session.components.values, IsPlain metadata.tagName) :
    (session.outputs out).map (·.1.place) =
      (session.components.values.flatMap fun metadata =>
        outputSuffixes.map (metadata.tagName ++ ·)).map out.place.child := by
  rw [outputs, List.map_flatMap, List.map_flatMap]
  apply List.flatMap_congr
  intro metadata mem
  rw [← names_outputs, List.map_map, List.map_map]
  apply List.map_congr_left
  rintro ⟨name, text⟩ output
  have name_mem : name ∈ metadata.outputs.map Prod.fst := List.mem_map_of_mem output
  rw [names_outputs] at name_mem
  rcases List.mem_map.1 name_mem with ⟨suffix, suffix_mem, rfl⟩
  exact place_output out (plain metadata mem) suffix_mem

/-- Components with distinct plain tags do not write to the same place. -/
theorem nodup_places_outputs
    (plain : ∀ metadata ∈ session.components.values, IsPlain metadata.tagName)
    (distinct : (session.components.values.map ComponentMetadata.tagName).Nodup) :
    ((session.outputs out).map (·.1.place)).Nodup := by
  rw [places_outputs plain]
  apply List.Nodup.map
  · intro name name' same
    exact (Place.child_inj.1 same).2
  · rw [List.nodup_flatMap]
    constructor
    · intro metadata _
      refine List.Nodup.map_on ?_ (by decide)
      intro suffix mem suffix' mem' same
      exact (tag_suffix_inj mem mem' same).2
    · rw [List.Nodup, List.pairwise_map] at distinct
      refine distinct.imp ?_
      intro metadata other different
      apply List.disjoint_left.2
      intro name in_first in_second
      rcases List.mem_map.1 in_first with ⟨suffix, mem, rfl⟩
      rcases List.mem_map.1 in_second with ⟨suffix', mem', same⟩
      exact different (tag_suffix_inj mem mem' same.symm).1

/-- A directory holds the output of a session and nothing else. -/
structure Delivered (session : Session) (out : Path) (made : FileTree) (written : List Path) :
    Prop where
  runtime : ∀ metadata ∈ session.components.values,
    made.readText (out.join (.ofText (metadata.tagName ++ ".rt.json"))) =
      .ok (metadata.runtime.pretty ++ "\n")
  designTime : ∀ metadata ∈ session.components.values,
    made.readText (out.join (.ofText (metadata.tagName ++ ".dt.json"))) =
      .ok (metadata.designTime.pretty ++ "\n")
  fragment : ∀ metadata ∈ session.components.values,
    made.readText (out.join (.ofText (metadata.tagName ++ ".fragment.d.ts"))) =
      .ok metadata.fragment
  listed : ∀ path, path ∈ written ↔ ∃ metadata ∈ session.components.values,
    ∃ suffix ∈ outputSuffixes, path = out.join (.ofText (metadata.tagName ++ suffix))
  once : (written.map Path.place).Nodup
  files : ∀ names ≠ [], made.HasFile (out.place.descend names) ↔
    out.place.descend names ∈ written.map Path.place
  /-- A path that goes up may have made directories below the one that it leads to. -/
  directories : .parent ∉ out.steps → ∀ names ≠ [],
    made.node? (out.place.descend names) ≠ some .directory

/-- A session whose components have tags of their own loses no output: all of it can be read back
from the directory, and nothing else is there. What is at the place of the directory must be found
by its path, or the directory is not emptied. -/
theorem writeOutputs_delivers (session : Session) (out : Path) (files made : FileTree)
    (written : List Path) (coherent : files.Coherent)
    (found : files.exists? out = true ∨ files.node? out.place = none)
    (plain : ∀ metadata ∈ session.components.values, IsPlain metadata.tagName)
    (distinct : (session.components.values.map ComponentMetadata.tagName).Nodup)
    (succeeded : session.writeOutputs out files = (.ok written, made)) :
    session.Delivered out made written := by
  rcases writeOutputs_eq_ok succeeded with ⟨empty, reset, writing, rfl⟩
  have once : ((session.outputs out).map (·.1.place)).Nodup := nodup_places_outputs plain distinct
  have wrote := wrote_of_writeFiles once writing
  have read {metadata : ComponentMetadata} (mem : metadata ∈ session.components.values)
      {name text : String} (output : (name, text) ∈ metadata.outputs) :
      made.readText (out.join (.ofText name)) = .ok text :=
    (wrote.holds _ (mem_outputs.2 ⟨metadata, mem, name, output, rfl⟩)).readText
  have places_eq : ((session.outputs out).map Prod.fst).map Path.place =
      (session.outputs out).map (·.1.place) := List.map_map
  refine ⟨?_, ?_, ?_, ?_, ?_, ?_, ?_⟩
  · intro metadata mem
    apply read mem
    simp [outputs_eq]
  · intro metadata mem
    apply read mem
    simp [outputs_eq]
  · intro metadata mem
    apply read mem
    simp [outputs_eq]
  · intro path
    exact mem_written
  · rw [places_eq]
    exact once
  · intro names nonempty
    rw [places_eq, wrote.grows.files]
    have cleared := (FileTree.resetDirectory_eq_ok coherent found reset).2 names nonempty
    exact or_iff_right cleared
  · intro straight names nonempty directory
    by_cases here : out.place.descend names ∈ (session.outputs out).map (·.1.place)
    · -- There is a file at the place.
      exact ((wrote.grows.files _).2 (.inr here)).not_directory directory
    · rw [wrote.kept _ here, FileTree.node?_resetDirectory coherent found straight reset nonempty]
        at directory
      contradiction

/-! Two cards and what was left by an earlier build. -/

def card (name tagName : String) : Component :=
  { name, tagName, events := .ofList [("flip", {})] }

def cards : State :=
  (State.fresh .empty {} ⟨[(⟨.above 0, ["out"]⟩, .directory),
    (⟨.above 0, ["out", "old.rt.json"]⟩, .file (.text "old"))]⟩).run
      [.process (card "Card" "my-card"), .process (card "Deck" "my-deck")]

theorem writeOutputs_delivers_cards :
    cards.session.components.keys = ["Card", "Deck"] ∧
      ∃ written made, cards.session.writeOutputs (.ofText "out") cards.files = (.ok written, made) ∧
        written.length = 6 ∧ cards.session.Delivered (.ofText "out") made written := by
  have keys_eq : cards.session.components.keys = ["Card", "Deck"] := by decide +kernel
  have coherent : cards.files.Coherent := FileTree.coherent_of_entries (by decide +kernel)
  have there : cards.files.exists? (.ofText "out") = true := by decide +kernel
  have tags_eq : cards.session.components.values.map ComponentMetadata.tagName =
      ["my-card", "my-deck"] := by decide +kernel
  have plain : ∀ metadata ∈ cards.session.components.values, IsPlain metadata.tagName := by
    rw [← List.forall_mem_map (P := IsPlain), tags_eq]
    decide
  have succeeded : (cards.session.writeOutputs (.ofText "out") cards.files).1.map List.length =
      .ok 6 := by decide +kernel
  rcases outcome : cards.session.writeOutputs (.ofText "out") cards.files with ⟨result, made⟩
  rw [outcome] at succeeded
  cases result with
  | error error => simp [Except.map] at succeeded
  | ok written =>
    refine ⟨keys_eq, written, made, rfl, Except.ok.inj succeeded, ?_⟩
    exact writeOutputs_delivers _ _ _ _ _ coherent (.inl there) plain (by simp [tags_eq]) outcome

/-- The class that comes later takes the files of a shared tag, and they are listed twice. -/
theorem shared_tag_loses_output :
    let steps : List Step := [.process (card "Card" "my-card"), .process (card "Deck" "my-card")]
    let session := ((State.fresh .empty {} .empty).run steps).session
    (∀ metadata ∈ session.components.values, IsPlain metadata.tagName) ∧
      ∃ written made metadata,
        session.writeOutputs (.ofText "out") .empty = (.ok written, made) ∧
        session.component? "Card" = some metadata ∧
        made.readText (.ofText ("out/" ++ metadata.tagName ++ ".rt.json")) ≠
          .ok (metadata.runtime.pretty ++ "\n") ∧
        ¬written.Nodup := by
  intro steps session
  have repeated : (session.writeOutputs (.ofText "out") .empty).1.map
      (fun written => decide written.Nodup) = .ok false := by decide +kernel
  have lost : (session.component? "Card").map (fun metadata =>
      decide ((session.writeOutputs (.ofText "out") .empty).2.readText
        (.ofText ("out/" ++ metadata.tagName ++ ".rt.json")) =
          .ok (metadata.runtime.pretty ++ "\n"))) = some false := by decide +kernel
  rcases outcome : session.writeOutputs (.ofText "out") .empty with ⟨result, made⟩
  rw [outcome] at repeated lost
  rcases Option.map_eq_some_iff.1 lost with ⟨metadata, kept, lost⟩
  cases result with
  | error error => simp [Except.map] at repeated
  | ok written =>
    have repeated := Except.ok.inj repeated
    refine ⟨by decide +kernel, written, made, metadata, rfl, kept, ?_, ?_⟩
    · exact of_decide_eq_false lost
    · exact of_decide_eq_false repeated

end Session

end Componentry
