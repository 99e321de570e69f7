import ApiInventory.Proofs.Files.AllOrNothing
import ApiInventory.Proofs.Files.PlainPath
import Mathlib

/-!
# The checkpoint as a file

The file of the checkpoint may be edited, removed or replaced by a directory at any time. Whatever
has been done at its path, what is loaded is told by what stands there (`Loads`), and a position is
saved unless a directory stands there or a file is in the way (`Keeps`). Then it is loaded again.

The path is one of plain names, which may come after links as long as the links do not depend on
what is at the path (`FileTree.PlainPath`). A link that is itself in the place of the file gives way
to it, and takes the way to it along (`not_semantics_of_link_or_lock`).
-/

namespace ApiInventory.Batch.Checkpoint

open Files (FileTree Place FileError IsEntryName)
open Files.FileTree (Standing PlainPath)

variable {t : FileTree} {cwd home : Place} {front names : List String}

/-! ## What is loaded -/

/-- What is loaded where something stands, and the warning. -/
inductive Loads : Standing → Nat × Option Warning → Prop
  | absent : Loads .absent (0, none)
  | counter {text : String} {position : Nat} (spells : Text.Spells text.toList position) :
      Loads (.file (Text.encode text)) (position, none)
  | otherText {text : String} (other : ∀ position, ¬Text.Spells text.toList position) :
      Loads (.file (Text.encode text)) (0, some .invalid)
  | noText {content : ByteArray} (other : ∀ text, content ≠ Text.encode text) :
      Loads (.file content) (0, some .unreadable)
  | directory : Loads .directory (0, some .unreadable)
  | blocked : Loads .blocked (0, some .unreadable)

/-- What stands at a path leaves no choice. -/
theorem Loads.unique {s : Standing} {r r' : Nat × Option Warning} (h : Loads s r)
    (h' : Loads s r') : r = r' := by
  cases h with
  | absent | directory | blocked =>
      cases h'
      rfl
  | counter spells =>
      generalize same : Text.encode _ = content at h'
      cases h' with
      | counter spells' =>
          obtain rfl := Text.encode_injective same
          rw [← Text.counter?_trim_eq_some_iff] at spells spells'
          rw [spells] at spells'
          cases spells'
          rfl
      | otherText other =>
          obtain rfl := Text.encode_injective same
          exact absurd spells (other _)
      | noText other => exact absurd same.symm (other _)
  | otherText none =>
      generalize same : Text.encode _ = content at h'
      cases h' with
      | counter spells =>
          obtain rfl := Text.encode_injective same
          exact absurd spells (none _)
      | otherText => rfl
      | noText other => exact absurd same.symm (other _)
  | noText none =>
      cases h' with
      | counter | otherText => exact absurd rfl (none _)
      | noText => rfl

theorem loads_file {path : String} {content : ByteArray} (read : t.read cwd path = .ok content) :
    Loads (.file content) (load t cwd path) := by
  rw [load, read]
  dsimp only
  cases decoded : Text.decode? content with
  | none =>
      refine .noText fun text same => ?_
      rw [same, Text.decode?_encode] at decoded
      cases decoded
  | some text =>
      obtain rfl := Text.decode?_eq_some_iff.mp decoded
      dsimp only
      cases counted : Text.counter? (Text.trim text.toList) with
      | some position => exact .counter (Text.counter?_trim_eq_some_iff.mp counted)
      | none =>
          refine .otherText fun position spells => ?_
          rw [Text.counter?_trim_eq_some_iff.mpr spells] at counted
          cases counted

theorem loads {s : Standing} (plain : t.PlainPath cwd front home names)
    (stands : t.Stands home names s) :
    Loads s (load t cwd (Files.Path.joinSteps (front ++ names))) := by
  have read := plain.read_eq stands
  cases s with
  | file content => exact loads_file read
  | absent =>
      rw [load, read]
      exact .absent
  | directory =>
      rw [load, read]
      exact .directory
  | blocked =>
      rw [load, read]
      exact .blocked

/-! ## What is done at the path -/

/-- What is done at the path of a checkpoint, by a run or by anyone else. -/
inductive Operation where
  | save (position : Nat) (accepts : Bool)
  | reset (accepts : Bool)
  | write (content : ByteArray)
  | replace (content : ByteArray) (accepts : Bool)
  | remove
  | makeDirectory
  | makeParents

/-- The tree after an operation. One that fails may leave directories above the path. -/
def Operation.apply (cwd : Place) (path : String) (t : FileTree) : Operation → FileTree
  | save position accepts => (Checkpoint.save t cwd path position accepts).tree
  | reset accepts => (Checkpoint.save t cwd path 0 accepts).tree
  | write content => (t.writeFile cwd path content).toOption.getD t
  | replace content accepts => (t.replaceFile cwd path content accepts).tree
  | remove => (t.remove cwd path).toOption.getD t
  | makeDirectory => (t.openDirectories cwd path).tree
  | makeParents => (t.makeDirectories cwd (FileTree.parentOf path)).tree

/-- The tree after some operations, one after the other. -/
def afterAll (cwd : Place) (path : String) (t : FileTree) (history : List Operation) : FileTree :=
  history.foldl (fun t operation => operation.apply cwd path t) t

theorem Operation.plainPath_apply (plain : t.PlainPath cwd front home names)
    (operation : Operation) :
    (operation.apply cwd (Files.Path.joinSteps (front ++ names)) t).PlainPath cwd front home
      names := by
  have whole : names <+: names := List.prefix_rfl
  obtain ⟨p, n, split⟩ := plain.exists_concat
  cases operation with
  | save position accepts => exact plain.effect (plain.replaceFile_effect _ accepts)
  | reset accepts => exact plain.effect (plain.replaceFile_effect _ accepts)
  | replace content accepts => exact plain.effect (plain.replaceFile_effect content accepts)
  | write content =>
      rw [apply]
      cases written : t.writeFile cwd (Files.Path.joinSteps (front ++ names)) content with
      | error => exact plain
      | ok t' => exact plain.effect (plain.writeFile_effect written)
  | remove =>
      rw [apply]
      cases removed : t.remove cwd (Files.Path.joinSteps (front ++ names)) with
      | error => exact plain
      | ok t' => exact plain.effect (plain.remove_effect removed)
  | makeDirectory =>
      have entries := plain.entries_of_part whole
      have some : front ++ names ≠ [] := by simp [plain.nonempty]
      rw [apply, FileTree.openDirectories, Files.Path.components_joinSteps entries some]
      have made := plain.makeDirectories_effect whole
      rw [FileTree.makeDirectories, Files.Path.ofComponents_normal entries some] at made
      exact plain.effect made
  | makeParents =>
      rw [apply, plain.parentOf_eq split]
      exact plain.effect (plain.makeDirectories_effect (split ▸ List.prefix_append p [n]))

theorem plainPath_afterAll (plain : t.PlainPath cwd front home names) (history : List Operation) :
    (afterAll cwd (Files.Path.joinSteps (front ++ names)) t history).PlainPath cwd front home
      names := by
  induction history generalizing t with
  | nil => exact plain
  | cons operation history ih => exact ih (operation.plainPath_apply plain)

/-! ## What is kept -/

/-- How a checkpoint behaves where something stands at its path. -/
structure Keeps (t : FileTree) (cwd : Place) (path : String) (home : Place) (names : List String)
    (s : Standing) : Prop where
  loads_iff : ∀ result, Loads s result ↔ load t cwd path = result
  /-- A position is saved if the device takes it and a file can be put at the path. -/
  save_iff : ∀ position accepts,
    (save t cwd path position accepts).result = .ok () ↔ accepts = true ∧ s.takesFile = true
  /-- Once saved it stands there in decimal, and is loaded. -/
  saved : ∀ position accepts, (save t cwd path position accepts).result = .ok () →
    (save t cwd path position accepts).tree.Stands home names (.file (content position)) ∧
      (position < Text.counterBound →
        load (save t cwd path position accepts).tree cwd path = (position, none))
  /-- If it is not saved, then what was there is there. -/
  unsaved : ∀ position accepts e, (save t cwd path position accepts).result = .error e →
    (save t cwd path position accepts).tree.Stands home names s

theorem keeps {s : Standing} (plain : t.PlainPath cwd front home names)
    (stands : t.Stands home names s) :
    Keeps t cwd (Files.Path.joinSteps (front ++ names)) home names s where
  loads_iff result := by
    have loaded := loads plain stands
    exact ⟨loaded.unique, fun same => same ▸ loaded⟩
  save_iff position accepts := plain.result_eq_ok_iff stands (content position) accepts
  saved position accepts done := by
    have takes := (plain.result_eq_ok_iff stands (content position) accepts).mp done
    have put := plain.stands_replaceFile stands (content position) accepts
    rw [takes.1, takes.2] at put
    rw [takes.1]
    refine ⟨put, fun small => ?_⟩
    have plain' := plain.effect (plain.replaceFile_effect (content position) true)
    exact load_of_read small (plain'.read_eq put)
  unsaved position accepts e failed := by
    have refused := plain.result_eq_ok_iff stands (content position) accepts
    have kept := plain.stands_replaceFile stands (content position) accepts
    have not : (accepts && s.takesFile) = false := by
      unfold save at failed
      rw [failed] at refused
      simpa using refused
    rwa [not] at kept

/-- **The checkpoint as a file.** Whatever has been done at the path of a checkpoint, one thing
stands there, which tells what is loaded and whether a position can be saved. -/
theorem file_semantics (plain : t.PlainPath cwd front home names) (history : List Operation) :
    (∃ s, (afterAll cwd (Files.Path.joinSteps (front ++ names)) t history).Stands home names s) ∧
      ∀ s, (afterAll cwd (Files.Path.joinSteps (front ++ names)) t history).Stands home names s →
        Keeps (afterAll cwd (Files.Path.joinSteps (front ++ names)) t history) cwd
          (Files.Path.joinSteps (front ++ names)) home names s := by
  have plain' := plainPath_afterAll plain history
  exact ⟨plain'.exists_stands, fun s stands => keeps plain' stands⟩

/-- A position that has been saved, removed and written by hand with a plus sign is loaded. -/
theorem file_semantics_of_handwritten :
    (∅ : FileTree).PlainPath [] [] [] ["d", "a"] ∧
      ∃ s, (afterAll [] "d/a" ∅ [.save 5 true, .remove, .write (Text.encode " +07\n")]).Stands []
        ["d", "a"] s ∧ Loads s (7, none) := by
  have entries : ∀ n ∈ ["d", "a"], IsEntryName n := by
    have plain : ∀ n ∈ ["d", "a"], n ≠ "" ∧ '/' ∉ n.toList ∧ n ≠ "." ∧ n ≠ ".." := by decide
    intro n member
    obtain ⟨nonempty, noSlash, noDot, noDots⟩ := plain n member
    exact ⟨nonempty, noSlash, noDot, noDots⟩
  have grounded : (∅ : FileTree).Grounded := FileTree.grounded_of_entries (by decide)
  have unlocked : ∀ q, (∅ : FileTree).isLocked q = false := by
    intro q
    unfold FileTree.isLocked
    split <;> rfl
  have plain : (∅ : FileTree).PlainPath [] [] [] ["d", "a"] :=
    FileTree.plainPath_of_noLinks grounded FileTree.noLinks_empty unlocked rfl entries (by decide)
  have path : Files.Path.joinSteps ([] ++ ["d", "a"]) = "d/a" := by decide
  obtain ⟨⟨s, stands⟩, keeps⟩ :=
    file_semantics plain [.save 5 true, .remove, .write (Text.encode " +07\n")]
  have loaded : load (afterAll [] "d/a" ∅ [.save 5 true, .remove, .write (Text.encode " +07\n")])
      [] "d/a" = (7, none) := by cbv
  rw [path] at stands keeps
  exact ⟨plain, s, stands, ((keeps s stands).loads_iff _).mpr loaded⟩

/-- On other paths of names, and with a device that refuses files, it may be otherwise. A position
that is saved is not loaded if its file has taken the place of a link on the way to it. None is saved
below a link that leads nowhere, nor where the device refuses the file, and none is loaded from a
file that is locked. -/
theorem not_semantics_of_link_or_lock :
    ((save linkedToItself [] (Files.Path.joinSteps ["l", "l"]) 1 true).result = .ok () ∧
      load (save linkedToItself [] (Files.Path.joinSteps ["l", "l"]) 1 true).tree []
        (Files.Path.joinSteps ["l", "l"]) = (0, some .unreadable)) ∧
      (save ⟨[(["l"], .link "x")], []⟩ [] (Files.Path.joinSteps ["l", "c"]) 1 true).result =
        .error (.during "create dir l" .alreadyExists) ∧
      (save ∅ [] (Files.Path.joinSteps ["c"]) 1 false).result =
        .error (.during "write temp file for c" .deviceFailed) ∧
      load ⟨[(["c"], .file (content 1))], [["c"]]⟩ [] (Files.Path.joinSteps ["c"]) =
        (0, some .unreadable) := by
  refine ⟨⟨?_, ?_⟩, ?_, ?_, ?_⟩ <;> cbv

end ApiInventory.Batch.Checkpoint
