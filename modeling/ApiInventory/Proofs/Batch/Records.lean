import ApiInventory.Batch.RecordStore
import ApiInventory.Proofs.Batch.Checkpoint
import ApiInventory.Proofs.Batch.RecordNames
import ApiInventory.Proofs.Files.Entries
import ApiInventory.Proofs.Symbols.RoundTrip

/-!
# Where records lie

A record lies in the directory of its store, under its own name. Writing it puts it there
(`RecordStore.write_of_ok`), and where no link is, it is known as long as it is there
(`RecordStore.has_iff`).

Directories and files can come up while a store is in use, and links on the way to it can give way
to files. Even then no record lands anywhere else (`RecordStore.locate_path`): one is written only
while the way to the store is open (`RecordStore.find_of_write`).
-/

namespace ApiInventory.Batch.RecordStore

open Files

/-- The path of the directory of a store. Without one, records lie in the working directory. -/
def folder (s : RecordStore) : String := if s.directory = "" then "." else s.directory

/-- The steps to a record before its name. -/
def steps (s : RecordStore) : List String :=
  if s.directory = "" then [] else Path.names s.directory.toList

section Path

variable (s : RecordStore) (package token : String)

theorem steps_eq : s.steps = Path.names s.directory.toList := by
  unfold steps
  split
  · rename_i bare
    rw [bare]
    rfl
  · rfl

theorem pathSteps_path :
    FileTree.pathSteps (s.path package token) = s.steps ++ [recordName package token] := by
  rw [steps_eq]
  exact Path.pathSteps_entryPath (isEntryName_recordName package token)

theorem pathBase_path (cwd : Place) :
    FileTree.pathBase cwd (s.path package token) = FileTree.pathBase cwd s.folder :=
  Path.pathBase_entryPath cwd (isEntryName_recordName package token)

theorem pathSteps_folder :
    (FileTree.pathSteps s.folder).filter (· ≠ ".") = s.steps.filter (· ≠ ".") := by
  rw [steps_eq]
  exact Path.pathSteps_folder s.directory

end Path

section Place

variable {s : RecordStore} {package token : String} {t t' : FileTree} {cwd S p : Place}

theorem leads_steps (found : t.find cwd s.folder = .ok (S, .directory)) :
    t.Leads true FileTree.linkLimit (FileTree.pathBase cwd (s.path package token)) s.steps S := by
  rw [steps_eq]
  exact FileTree.leads_names (isEntryName_recordName package token) found

/-- Whatever has come up since the store was found, a record lands in it or nowhere. -/
theorem locate_path {may : Place → Prop} (found : t.find cwd s.folder = .ok (S, .directory))
    (evolution : t.Evolves may t') (located : t'.locate cwd (s.path package token) false = .ok p) :
    p = S ++ [recordName package token] ∧ t'.isLocked S = false := by
  obtain ⟨_, leads⟩ := FileTree.locate_eq_ok_iff.mp located
  rw [pathSteps_path] at leads
  exact (leads_steps found).entry_of_directory (FileTree.find_eq_ok_iff.mp found).2 evolution
    (isEntryName_recordName package token).isName leads

theorem locate_path_of_found (found : t.find cwd s.folder = .ok (S, .directory))
    (unlocked : t.isLocked S = false) :
    t.locate cwd (s.path package token) false = .ok (S ++ [recordName package token]) :=
  FileTree.locate_append (isEntryName_recordName package token) found unlocked

theorem locate_path_of_locked (found : t.find cwd s.folder = .ok (S, .directory))
    (locked : t.isLocked S = true) :
    t.locate cwd (s.path package token) false = .error .locked :=
  FileTree.locate_append_of_locked (isEntryName_recordName package token) found locked

theorem parentOf_path (s : RecordStore) (package token : String) :
    FileTree.parentOf (s.path package token) =
      if s.directory = "" then [] else Path.components s.directory := by
  have entry := isEntryName_recordName package token
  unfold path
  by_cases bare : s.directory = ""
  · rw [if_pos bare, bare, Path.append_empty, FileTree.parentOf, Path.components_of_entry entry]
    rfl
  · rw [if_neg bare, Path.parentOf_append bare entry]

/-- What is written first is beside the record. -/
theorem find_folderOf (found : t.find cwd s.folder = .ok (S, .directory)) :
    t.find cwd (FileTree.folderOf (s.path package token)) = .ok (S, .directory) := by
  unfold folder at found
  rw [FileTree.folderOf, parentOf_path]
  by_cases bare : s.directory = ""
  · rw [if_pos bare] at found
    rw [if_pos bare, if_pos rfl, found]
  · rw [if_neg bare] at found
    rw [if_neg bare, if_neg (Path.components_ne_nil bare)]
    exact FileTree.find_ofComponents found

/-- A store that is there needs no directories made. -/
theorem makeDirectories_parentOf (found : t.find cwd s.folder = .ok (S, .directory)) :
    t.makeDirectories cwd (FileTree.parentOf (s.path package token)) = ⟨t, .ok ()⟩ :=
  FileTree.makeDirectories_parentOf (find_folderOf found)

end Place

section Write

variable {s : RecordStore} {package token : String} {t t' : FileTree} {cwd S : Place}
variable {table : SymbolTable} {accepts : Bool}

/-- Whatever has come up since the store was found, it is found when a record is written. -/
theorem find_of_write (found : t.find cwd s.folder = .ok (S, .directory))
    (evolution : t.Evolves (fun _ => True) t')
    (done : (s.write t' cwd package token table accepts).result = .ok ()) :
    t'.find cwd s.folder = .ok (S, .directory) := by
  have made := FileTree.makeDirectories_evolves (fun _ => True) t' cwd
    (FileTree.parentOf (s.path package token))
  obtain ⟨goal, located, _⟩ := FileTree.replaceFile_of_ok done
  obtain ⟨nonempty, _⟩ := FileTree.locate_eq_ok_iff.mp (FileTree.find_eq_ok_iff.mp found).1
  obtain ⟨_, leads⟩ := FileTree.locate_eq_ok_iff.mp located
  have directory := (FileTree.find_eq_ok_iff.mp found).2
  rw [pathSteps_path] at leads
  have way := (leads_steps found).open_before_entry directory evolution made leads
  have directory' := evolution.directory directory
  rw [pathBase_path] at way
  exact FileTree.find_eq_ok_iff.mpr ⟨FileTree.locate_eq_ok_iff.mpr
    ⟨nonempty, way.of_filter_eq directory' s.pathSteps_folder.symm⟩, directory'⟩

/-- A record that is written is in the place that has its name. -/
theorem write_of_ok (found : t.find cwd s.folder = .ok (S, .directory))
    (done : (s.write t cwd package token table accepts).result = .ok ()) :
    t.isLocked S = false ∧ t.get? (S ++ [recordName package token]) ≠ some .directory ∧
      (t.set (S ++ [recordName package token]) (.file (body table))).Alike
        (s.write t cwd package token table accepts).tree := by
  obtain ⟨goal, located, noDirectory, alike⟩ := FileTree.replaceFile_of_ok done
  rw [makeDirectories_parentOf found] at located noDirectory alike
  obtain ⟨rfl, unlocked⟩ := locate_path found (.refl (fun _ => True) t) located
  exact ⟨unlocked, noDirectory, alike⟩

/-- What keeps a record out of a store that is there, and in which step. -/
def obstacle? (s : RecordStore) (t : FileTree) (S : Place) (package token : String)
    (accepts : Bool) : Option FileError :=
  let path := s.path package token
  if t.isLocked S = true then
    some (.during ("create temp file in " ++ FileTree.folderOf path) .locked)
  else if accepts = false then some (.during ("write temp file for " ++ path) .deviceFailed)
  else if t.get? (S ++ [recordName package token]) = some .directory then
    some (.during ("rename into " ++ path) .isDirectory)
  else none

theorem obstacle?_eq_none_iff :
    s.obstacle? t S package token accepts = none ↔
      accepts = true ∧ t.isLocked S = false ∧
        t.get? (S ++ [recordName package token]) ≠ some .directory := by
  unfold obstacle?
  cases accepts <;> cases t.isLocked S <;> simp

/-- A record is written unless something keeps it out. -/
theorem result_write (found : t.find cwd s.folder = .ok (S, .directory)) :
    (s.write t cwd package token table accepts).result =
      match s.obstacle? t S package token accepts with
      | none => .ok ()
      | some e => .error e := by
  have missing := t.freshName_missing S ".tmp"
  have ne := FileTree.ne_nil_of_get?_eq_none missing
  -- the file that is written first is in the way of nothing
  have found' : (t.set (S ++ [t.freshName S ".tmp"]) (.file (body table))).find cwd s.folder =
      .ok (S, .directory) := (FileTree.find_set_missing_iff missing).mpr found
  have unlocked : (t.set (S ++ [t.freshName S ".tmp"]) (.file (body table))).isLocked S =
      t.isLocked S := by
    exact FileTree.isLocked_set_of_ne ne (by simp)
  have directory_iff : (t.set (S ++ [t.freshName S ".tmp"]) (.file (body table))).get?
      (S ++ [recordName package token]) = some .directory ↔
      t.get? (S ++ [recordName package token]) = some .directory := by
    rw [FileTree.get?_set _ _ _ _ ne]
    split
    · rename_i same
      simp [same, missing]
    · rfl
  unfold write FileTree.replaceFile obstacle?
  dsimp only
  rw [makeDirectories_parentOf found]
  dsimp only
  rw [find_folderOf found]
  dsimp only
  cases locked : t.isLocked S with
  | true => rfl
  | false =>
      rw [if_neg Bool.false_ne_true, if_neg Bool.false_ne_true]
      cases accepts with
      | false => rfl
      | true =>
          have located : (t.set (S ++ [t.freshName S ".tmp"]) (.file (body table))).locate cwd
              (s.path package token) false = .ok (S ++ [recordName package token]) :=
            locate_path_of_found found' (unlocked.trans locked)
          rw [if_pos rfl, if_neg (by simp)]
          by_cases directory : t.get? (S ++ [recordName package token]) = some .directory
          · rw [if_pos directory, FileTree.renameFile, located]
            dsimp only
            rw [directory_iff.mpr directory]
          · rw [if_neg directory,
              FileTree.renameFile_of_locate located (mt directory_iff.mp directory)]

/-- A record that cannot be written leaves everything as it is. -/
theorem write_of_error {e : FileError} (found : t.find cwd s.folder = .ok (S, .directory))
    (failed : (s.write t cwd package token table accepts).result = .error e) :
    t.Alike (s.write t cwd package token table accepts).tree := by
  rcases FileTree.replaceFile_cases t cwd (s.path package token) (body table) accepts with
    ⟨_, _, alike⟩ | ⟨done, _⟩
  · rwa [makeDirectories_parentOf found] at alike
  · exact absurd (failed.symm.trans done) nofun

theorem has_of_get? {content : ByteArray} (found : t.find cwd s.folder = .ok (S, .directory))
    (unlocked : t.isLocked S = false)
    (entry : t.get? (S ++ [recordName package token]) = some (.file content)) :
    s.has t cwd package token = true := by
  obtain ⟨nonempty, leads⟩ := FileTree.locate_eq_ok_iff.mp
    (locate_path_of_found found unlocked : t.locate cwd (s.path package token) false = _)
  have leads := leads.followed_of_not_link (by simp [entry])
  exact FileTree.isFile_eq_true_iff.mpr
    ⟨_, content, FileTree.locate_eq_ok_iff.mpr ⟨nonempty, leads⟩, entry⟩

/-- Where no link is, a record is known if it is a file in a store that is not locked. -/
theorem has_iff (found : t.find cwd s.folder = .ok (S, .directory))
    (noLink : ∀ target, t.get? (S ++ [recordName package token]) ≠ some (.link target)) :
    s.has t cwd package token = true ↔
      t.isLocked S = false ∧
        ∃ content, t.get? (S ++ [recordName package token]) = some (.file content) := by
  constructor
  · intro known
    obtain ⟨p, content, located, entry⟩ := FileTree.isFile_eq_true_iff.mp known
    cases locked : t.isLocked S with
    | true =>
        obtain ⟨nonempty, leads⟩ := FileTree.locate_eq_ok_iff.mp located
        rcases leads.unfollowed_or_link with leads | ⟨q, target, leads, link⟩
        all_goals
          have located := FileTree.locate_eq_ok_iff.mpr ⟨nonempty, leads⟩
          rw [locate_path_of_locked found locked] at located
          cases located
    | false =>
        obtain ⟨nonempty, leads⟩ := FileTree.locate_eq_ok_iff.mp located
        rcases leads.unfollowed_or_link with leads | ⟨q, target, leads, link⟩
        all_goals
          have located := FileTree.locate_eq_ok_iff.mpr ⟨nonempty, leads⟩
          obtain ⟨rfl, _⟩ := locate_path found (.refl (fun _ => True) t) located
        · exact ⟨rfl, content, entry⟩
        · exact absurd link (noLink target)
  · rintro ⟨unlocked, content, entry⟩
    exact has_of_get? found unlocked entry

/-- In the place of a record that is not known and could be written is nothing, or a link. -/
theorem missing_or_link (found : t.find cwd s.folder = .ok (S, .directory))
    (unlocked : t.isLocked S = false)
    (noDirectory : t.get? (S ++ [recordName package token]) ≠ some .directory)
    (unknown : s.has t cwd package token = false) :
    t.get? (S ++ [recordName package token]) = none ∨
      ∃ target, t.get? (S ++ [recordName package token]) = some (.link target) := by
  cases entry : t.get? (S ++ [recordName package token]) with
  | none => exact .inl rfl
  | some e =>
      cases e with
      | file content =>
          rw [has_of_get? found unlocked entry] at unknown
          cases unknown
      | directory => exact absurd entry noDirectory
      | link target => exact .inr ⟨target, rfl⟩

/-- Nothing is locked where a record is missing that could be written. -/
theorem isLocked_of_not_has (found : t.find cwd s.folder = .ok (S, .directory))
    (unlocked : t.isLocked S = false)
    (noDirectory : t.get? (S ++ [recordName package token]) ≠ some .directory)
    (unknown : s.has t cwd package token = false) :
    t.isLocked (S ++ [recordName package token]) = false := by
  rcases missing_or_link found unlocked noDirectory unknown with missing | ⟨target, link⟩
  · exact FileTree.isLocked_eq_false_of_get?_eq_none missing
  · exact FileTree.isLocked_eq_false_of_link link

/-- A record is no checkpoint. -/
theorem position?_body (table : SymbolTable) : Checkpoint.position? (body table) = none := by
  obtain ⟨rest, text⟩ := table.toList_pretty
  rw [Checkpoint.position?, body, Text.decode?_encode, Option.bind_some, String.toList_append, text,
    List.cons_append, Text.counter?_trim_eq_none (by decide) (by decide) (by decide)]

end Write

end ApiInventory.Batch.RecordStore
