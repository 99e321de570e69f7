import ApiInventory.Proofs.Batch.Views
import ApiInventory.Proofs.Source.FirstDefinition

/-!
# Desks where nothing is in the way

At an open desk (`Desk.Open`) every record and every checkpoint is written that the device takes,
and the desk stays open, whatever the services do. So a run that has time for its list comes to the
end of it (`Desk.Open.run_completes`).

Services that find a class in every package (`classServices`) record each package at such a desk
when it comes up first, and know it from then on (`Desk.Open.outcome_class`).
-/

namespace ApiInventory.Batch

open Files (FileTree Place)

/-- A desk whose store lies in the place `S` and whose checkpoint in the place `C`, with no link,
lock or directory in the way. -/
structure Desk.Open (d : Desk) (t : FileTree) (S C : Place) : Prop where
  noLinks : t.NoLinks
  unlocked : ∀ p, t.isLocked p = false
  store : t.find d.directory d.store.folder = .ok (S, .directory)
  records : ∀ record, t.get? (S ++ [record]) ≠ some .directory
  scratch : t.isDirectory d.directory d.temporary = true
  /-- The directory that the checkpoint lies in is there. -/
  home : ∃ H, t.find d.directory (FileTree.folderOf d.checkpoint) = .ok (H, .directory)
  located : t.locate d.directory d.checkpoint false = .ok C
  free : t.get? C ≠ some .directory

namespace Desk.Open

variable {σ : Type} {s : Services σ} {d : Desk} {t t' : FileTree} {S C p : Place}
variable {w : Progress σ} {package token : String} {table : SymbolTable}

/-- A desk stays open while no directories are made. -/
theorem evolve {may : Place → Prop} (h : d.Open t S C) (evolution : t.Evolves may t')
    (noneMade : ∀ p, t'.get? p = some .directory → t.get? p = some .directory) :
    d.Open t' S C where
  noLinks := evolution.noLinks h.noLinks
  unlocked p := evolution.unlocked p (h.unlocked p)
  store := evolution.find_directory h.noLinks h.store
  records record there := h.records record (noneMade _ there)
  scratch := by
    obtain ⟨p, located, entry⟩ := FileTree.isDirectory_eq_true_iff.mp h.scratch
    obtain ⟨located, entry⟩ := FileTree.find_eq_ok_iff.mp (evolution.find_directory h.noLinks
      (FileTree.find_eq_ok_iff.mpr ⟨located, entry⟩))
    exact FileTree.isDirectory_eq_true_iff.mpr ⟨p, located, entry⟩
  home := h.home.imp fun _ found => evolution.find_directory h.noLinks found
  located := by
    obtain ⟨nonempty, leads⟩ := FileTree.locate_eq_ok_iff.mp h.located
    exact FileTree.locate_eq_ok_iff.mpr ⟨nonempty, leads.evolve evolution
      fun p target link => absurd link (h.noLinks p target)⟩
  free there := h.free (noneMade _ there)

theorem alike (h : d.Open t S C) (same : t.Alike t') : d.Open t' S C :=
  h.evolve (same.evolves fun _ => True) fun p there => by rwa [← same.get?]

theorem set (h : d.Open t S C) {content : ByteArray} (noDirectory : t.get? p ≠ some .directory) :
    d.Open (t.set p (.file content)) S C := by
  refine h.evolve (FileTree.evolves_set_file trivial noDirectory : t.Evolves (fun _ => True) _)
    fun q there => ?_
  rw [FileTree.get?_set _ _ _ _ (FileTree.ne_nil_of_get?_ne_directory noDirectory)] at there
  split at there
  · cases there
  · exact there

/-! ## What is written -/

/-- A record is known if it is a file. -/
theorem has_iff (h : d.Open t S C) :
    d.store.has t d.directory package token = true ↔
      ∃ content, t.get? (S ++ [recordName package token]) = some (.file content) := by
  rw [RecordStore.has_iff h.store (h.noLinks _), and_iff_right (h.unlocked S)]

theorem obstacle?_eq_none (h : d.Open t S C) : d.store.obstacle? t S package token true = none :=
  RecordStore.obstacle?_eq_none_iff.mpr ⟨rfl, h.unlocked S, h.records _⟩

theorem write_open (h : d.Open t S C) {accepts : Bool} :
    d.Open (d.store.write t d.directory package token table accepts).tree S C := by
  cases result : (d.store.write t d.directory package token table accepts).result with
  | ok =>
      obtain ⟨_, noDirectory, alike⟩ := RecordStore.write_of_ok h.store result
      exact (h.set noDirectory).alike alike
  | error e => exact h.alike (RecordStore.write_of_error h.store result)

theorem save (h : d.Open t S C) (position : Nat) :
    (Checkpoint.save t d.directory d.checkpoint position true).result = .ok () ∧
      d.Open (Checkpoint.save t d.directory d.checkpoint position true).tree S C := by
  obtain ⟨H, home⟩ := h.home
  have above := FileTree.makeDirectories_parentOf home
  have done : (Checkpoint.save t d.directory d.checkpoint position true).result = .ok () :=
    (FileTree.result_replaceFile above home (h.unlocked H) h.located).mpr ⟨rfl, h.free⟩
  obtain ⟨goal, _, noDirectory, alike⟩ := FileTree.replaceFile_of_ok done
  rw [above] at noDirectory alike
  exact ⟨done, (h.set noDirectory).alike alike⟩

theorem attempt_open (h : d.Open w.tree S C) : d.Open (Item.attempt s d package w).1.tree S C := by
  rw [Item.attempt_tree]
  rcases Item.process_cases s d package w with ⟨same, _⟩ | ⟨version, _, _, _, recording⟩
  · rwa [same]
  · generalize Item.process s d package w = result at recording ⊢
    obtain ⟨⟨tree, outside, events⟩, reply⟩ := result
    dsimp only at recording ⊢
    cases recording with
    | idle => exact h
    | recorded | unwritten => exact h.write_open

variable (accepts : ∀ o, (s.accepts o).1 = true)
include accepts

theorem takeTurn (h : d.Open w.tree S C) (position : Nat) :
    (takeTurn s d package position w).saved = .ok () ∧
      d.Open (takeTurn s d package position w).after.tree S C := by
  rw [takeTurn_saved, takeTurn_after_tree, accepts]
  exact h.attempt_open.save (position + 1)

theorem before_turns {limits : Limits} {packages : List String} (h : d.Open w.tree S C) :
    ∀ turn ∈ turns s d limits packages w, d.Open turn.before.tree S C := by
  refine ((turns_chain s d limits packages w).invariant (d.Open · S C) h
    fun turn member there => ?_).1
  rw [eq_takeTurn_of_mem_turns member]
  exact (there.takeTurn accepts turn.position).2

/-- Nothing keeps a run from the end of its list. -/
theorem run_completes {limits : Limits} {packages : List String} (h : d.Open w.tree S C)
    (start : told d w.tree = 0) (large : packages.length ≤ limits.batchSize)
    (early : ∀ o, (s.now o).1 < limits.deadline) :
    ∃ summary, (run s d limits packages w).2 = .ok summary ∧ summary.passCompleted = true := by
  refine Batch.run_completes (d.Open · S C) start large early h
    (fun _ position _ there => there.takeTurn accepts position) fun t o there => ?_
  rw [accepts]
  exact (there.save 0).1

theorem packages_turns {limits : Limits} {packages : List String} (h : d.Open w.tree S C)
    (start : told d w.tree = 0) (large : packages.length ≤ limits.batchSize)
    (early : ∀ o, (s.now o).1 < limits.deadline) :
    (turns s d limits packages w).map (·.package) = packages := by
  obtain ⟨_, back, completed⟩ := h.run_completes accepts start large early
  exact packages_of_completed start back completed

end Desk.Open

/-! ## Services that find a class -/

section Class

open Source (Vocabulary grammar)

/-- A work area in which a source that declares a class is unpacked. -/
def classArea (name : String) : FileTree :=
  ⟨[(["extracted"], .directory),
    (["extracted", "m.py"], .file (Text.encode ("class " ++ name ++ ":")))], []⟩

def classTable (name : String) : SymbolTable := (∅ : SymbolTable).insertNew name (.classType ∅)

/-- Services that have one version of every package, with this source in it. -/
def classServices (name : String) : Services Unit where
  now o := (0, o)
  resolve _ o := (.answer (some "1"), o)
  fetch _ _ area o := (.answer ["/download/a.whl"], area, o)
  unpack _ _ o := (.answer (.ok ()), classArea name, o)
  accepts o := (true, o)

variable {name : String}

theorem find_classArea (name : String) :
    (classArea name).find [] WorkArea.unpacked = .ok (["extracted"], .directory) := by
  have steps : FileTree.pathSteps WorkArea.unpacked = ["extracted"] := by decide +kernel
  have absolute : Files.Path.isAbsolute WorkArea.unpacked = true := by decide +kernel
  rw [FileTree.find, FileTree.locate, steps, absolute]
  simp [classArea, FileTree.walk, FileTree.get?, FileTree.isLocked, WorkArea.unpacked]

theorem scan_classArea (name : String) :
    Source.scan (Source.foundIn (classArea name) [] WorkArea.unpacked).2 =
      [⟨[Text.encode "m.py"], some (Text.encode ("class " ++ name ++ ":"))⟩] := by
  have isSource : Files.isSourceFile "m.py" = true := by decide +kernel
  rw [Source.foundIn, find_classArea]
  simp [classArea, Source.foundBelow, FileTree.below, Files.Path.stripFront?, Source.reachable,
    Source.bytesAt?, FileTree.get?, FileTree.isLocked, FileTree.lookup_cons_if, Source.scan,
    Source.FoundFile.isSource, Source.FoundFile.place, isSource]

theorem extractDirectory_classArea (word : Vocabulary.isWord name = true)
    (unknown : name ∉ grammar.literals) :
    Source.extractDirectory (classArea name) [] WorkArea.unpacked =
      (classTable name, ⟨1, 1, 0⟩) := by
  have declares := Source.extract_class word unknown
  rw [Source.extractDirectory, scan_classArea, Source.summarize]
  simp only [List.filterMap_cons, List.filterMap_nil, Source.symbols?_encode, declares]
  rfl

variable {d : Desk} {S C : Place} {w : Progress Unit} {package : String}

/-- At an open desk they record a package that is not known. -/
theorem Desk.Open.ends_class (h : d.Open w.tree S C) (word : Vocabulary.isWord name = true)
    (unknown : name ∉ grammar.literals) (safe : isSafePart package = true)
    (missing : d.store.has w.tree d.directory package (versionToken "1") = false) :
    Item.Ends (classServices name) d S package w
      ⟨[.resolve package, .fetch package "1", .unpack "/download/a.whl"],
        .answer (.recorded (recordName package (versionToken "1")) 1),
        some (recordName package (versionToken "1"), RecordStore.body (classTable name))⟩ := by
  have seeks : Seeks (classServices name) d package w "1" := ⟨safe, rfl, missing, h.scratch⟩
  have foremost : Foremost ["/download/a.whl"] "/download/a.whl" := leastPath?_eq_some_iff.mp rfl
  have obtains : Obtains (classServices name) d package w "1" "/download/a.whl" :=
    ⟨seeks, _, rfl, foremost⟩
  have table := congrArg Prod.fst (extractDirectory_classArea word unknown)
  have opens : Opens (classServices name) d package w "1" "/download/a.whl" (classTable name) :=
    ⟨obtains, rfl, table⟩
  have exit : Exit (classServices name) d S package w _ :=
    .recorded opens rfl h.obstacle?_eq_none
  exact exit.ends h.store

/-- A turn of theirs finds a package known, or records it. -/
theorem Desk.Open.outcome_class {limits : Limits} {packages : List String} {turn : Turn Unit}
    (h : d.Open turn.before.tree S C) (word : Vocabulary.isWord name = true)
    (unknown : name ∉ grammar.literals)
    (member : turn ∈ turns (classServices name) d limits packages w)
    (safe : isSafePart turn.package = true) :
    turn.outcome =
      if d.store.has turn.before.tree d.directory turn.package (versionToken "1") then
        .known (versionToken "1")
      else .recorded (recordName turn.package (versionToken "1")) 1 := by
  rw [outcome_of_mem_turns member]
  split
  · rename_i known
    rw [(Item.process_of_known _ d turn.package safe rfl known).2]
    rfl
  · rename_i missing
    rw [(h.ends_class word unknown safe (by simpa using missing)).reply]
    rfl

/-- Nothing is in the way at the sample desk. -/
theorem sampleDesk_open : sampleDesk.Open sampleTree ["db"] ["at"] where
  noLinks := noLinks_sampleTree
  unlocked p := by
    unfold FileTree.isLocked
    split <;> rfl
  store := by cbv
  records record := by simp [sampleTree, FileTree.get?, FileTree.lookup_cons_if]
  scratch := by cbv
  home := ⟨[], by cbv⟩
  located := by cbv
  free := by decide

end Class

end ApiInventory.Batch
