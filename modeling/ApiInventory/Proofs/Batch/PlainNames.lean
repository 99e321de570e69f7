import ApiInventory.Proofs.Batch.Exits
import ApiInventory.Proofs.Batch.RecordNames

/-!
# Names that stay in their directory

A part of a file name is cleaned, or it is asked whether it is safe as it is. The two agree: what is
cleaned is safe, and what is safe is what cleaning leaves alone (`isSafePart_iff_cleaned_eq`). White
space plays no part in this, though one of the two trims it and the other does not know it, for a
blank is no safe character.

A plain name is that of an entry of a directory, so whatever it is made from, a path that is put
together of a directory and a cleaned part leads into that directory and no deeper, and neither out
of it (`isChildOf_append`). Records lie in their store for this reason.
-/

namespace ApiInventory.Batch

open Files (FileTree Place IsEntryName)
open Files.Path (append components folder)

/-- A letter or digit of the ASCII range, a point, an underscore or a hyphen. -/
def IsPlainChar (c : Char) : Prop :=
  ('a' ≤ c ∧ c ≤ 'z') ∨ ('A' ≤ c ∧ c ≤ 'Z') ∨ ('0' ≤ c ∧ c ≤ '9') ∨ c = '.' ∨ c = '_' ∨ c = '-'

/-- Plain characters, one or more, and not points alone. -/
structure IsPlainName (name : String) : Prop where
  nonempty : name ≠ ""
  chars : ∀ c ∈ name.toList, IsPlainChar c
  notPoints : ∃ c ∈ name.toList, c ≠ '.'

/-- A path leads to the entry of a directory that has a name. -/
structure IsChildOf (directory name path : String) : Prop where
  components : components path = components directory ++ [.normal name]
  /-- It means the entry wherever the directory is found and can be passed through. -/
  located : ∀ (t : FileTree) (cwd home : Place), t.find cwd (folder directory) =
    .ok (home, .directory) → t.isLocked home = false →
      t.locate cwd path false = .ok (home ++ [name])

/-! ## Safe parts -/

theorem isSafeChar_iff {c : Char} : isSafeChar c = true ↔ IsPlainChar c := by
  simp only [isSafeChar, IsPlainChar, Char.isAlphanum, Char.isAlpha, Char.isUpper, Char.isLower,
    Char.isDigit, Char.le_def, Bool.or_eq_true, Bool.and_eq_true, decide_eq_true_eq, beq_iff_eq]
  tauto

theorem isSafePart_iff {part : String} : isSafePart part = true ↔ IsPlainName part := by
  have points : (!part.toList.all (· == '.')) = true ↔ ∃ c ∈ part.toList, c ≠ '.' := by
    simp
  rw [isSafePart, Bool.and_eq_true, Bool.and_eq_true, decide_eq_true_eq, List.all_eq_true, points]
  simp only [isSafeChar_iff]
  constructor
  · intro safe
    exact ⟨safe.1.1, safe.1.2, safe.2⟩
  · intro plain
    exact ⟨⟨plain.nonempty, plain.chars⟩, plain.notPoints⟩

/-- What is cleaned is not made of points alone. -/
theorem exists_ne_point_of_cleanedChars (part : List Char) : ∃ c ∈ cleanedChars part, c ≠ '.' := by
  unfold cleanedChars
  dsimp only
  split
  · exact ⟨'_', List.mem_singleton.mpr rfl, by decide⟩
  · rename_i kept
    simpa using kept

/-- A part is safe once it is cleaned. -/
theorem isPlainName_cleaned (part : String) : IsPlainName (cleaned part) := by
  have spelled : (cleaned part).toList = cleanedChars part.toList := String.toList_ofList
  obtain ⟨c, member, notPoint⟩ := exists_ne_point_of_cleanedChars part.toList
  constructor
  case nonempty =>
    intro empty
    rw [← spelled, empty] at member
    cases member
  case chars =>
    intro c member
    rw [spelled] at member
    exact isSafeChar_iff.mp (isSafeChar_of_mem_cleanedChars member)
  case notPoints => exact ⟨c, spelled ▸ member, notPoint⟩

theorem isSafePart_cleaned (part : String) : isSafePart (cleaned part) = true :=
  isSafePart_iff.mpr (isPlainName_cleaned part)

/-- To be safe is to stay as it is. -/
theorem isSafePart_iff_cleaned_eq {part : String} :
    isSafePart part = true ↔ cleaned part = part := by
  constructor
  · exact cleaned_eq_self
  · intro same
    rw [← same]
    exact isSafePart_cleaned part

/-! ## Entries of a directory -/

theorem isChildOf_append {name : String} (entry : IsEntryName name) (directory : String) :
    IsChildOf directory name (append directory name) where
  components := Files.Path.components_entryPath entry
  located _ _ _ found unlocked := FileTree.locate_append entry found unlocked

/-- A package that is not turned away because of its name has it unchanged in front of the names of
its records. -/
theorem recordName_of_accepted {σ : Type} {s : Services σ} {d : Desk} {package : String}
    {w : Progress σ} (accepted : (Item.process s d package w).2 ≠ .answer (.skipped .unsafeName))
    (token : String) : recordName package token = package ++ "_" ++ cleaned token ++ ".json" := by
  have safe : isSafePart package = true := by
    by_contra bad
    rw [Bool.not_eq_true] at bad
    exact accepted (congrArg Prod.snd (Item.process_of_unsafe bad))
  rw [recordName, cleaned_eq_self safe]

/-- **Names neither escape nor drift.** A part that is cleaned is a plain name, whatever it was, and
leads to an entry of any directory that it is appended to. It is safe then, and cleaning it again
changes nothing; what is safe is what cleaning does not change. So each record lies directly in its
store, and has in front the name of the package, if that is accepted at all. -/
theorem plain_names :
    (∀ raw, IsPlainName (cleaned raw) ∧
      (∀ directory, IsChildOf directory (cleaned raw) (append directory (cleaned raw))) ∧
      isSafePart (cleaned raw) = true ∧ cleaned (cleaned raw) = cleaned raw ∧
      (isSafePart raw = true ↔ cleaned raw = raw)) ∧
    (∀ (store : RecordStore) (package token : String),
      IsChildOf store.directory (recordName package token) (store.path package token)) ∧
    ∀ {σ : Type} (s : Services σ) (d : Desk) (package : String) (w : Progress σ),
      (Item.process s d package w).2 ≠ .answer (.skipped .unsafeName) →
      ∀ token, recordName package token = package ++ "_" ++ cleaned token ++ ".json" := by
  refine ⟨fun raw => ?_, fun store package token => ?_, fun s d package w => ?_⟩
  · have safe := isSafePart_cleaned raw
    exact ⟨isPlainName_cleaned raw, isChildOf_append (isEntryName_cleaned raw), safe,
      cleaned_eq_self safe, isSafePart_iff_cleaned_eq⟩
  · exact isChildOf_append (isEntryName_recordName package token) store.directory
  · exact recordName_of_accepted

/-- A package of a safe name that no index knows. -/
theorem plain_names_of_unknown_package :
    (Item.process noServices sampleDesk "a.b" ⟨sampleTree, (), []⟩).2 ≠
        .answer (.skipped .unsafeName) ∧
      recordName "a.b" "1/2" = "a.b_1_2.json" := by
  have accepted : (Item.process noServices sampleDesk "a.b" ⟨sampleTree, (), []⟩).2 ≠
      .answer (.skipped .unsafeName) := by
    have replied : (Item.process noServices sampleDesk "a.b" ⟨sampleTree, (), []⟩).2 =
        .answer (.skipped .unresolved) := by cbv
    rw [replied]
    simp
  have named := plain_names.2.2 noServices sampleDesk "a.b" ⟨sampleTree, (), []⟩ accepted "1/2"
  exact ⟨accepted, named.trans (by decide)⟩

/-- What leads out of a directory is kept in it. -/
example : cleaned " ../x " = ".._x" := by decide

end ApiInventory.Batch
