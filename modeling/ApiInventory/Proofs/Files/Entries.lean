import ApiInventory.Proofs.Files.Evolution
import ApiInventory.Proofs.Files.Spelling

/-!
# Entries of a directory

A name appended to the path of a directory means the entry of that name, and nothing else: the
walk to it is the walk to the directory and one step more (`FileTree.locate_append`). In a tree
whose entries all lie in directories, there is no other way to a path of this kind, so that
`FileTree.writeFile_append_eq_ok_iff` can say when exactly a file is written there and what has
become of the tree.
-/

namespace ApiInventory.Files

namespace Path

/-- The path of the directory that a name is appended to. To append a name to nothing is to take
it from the working directory. -/
def folder (directory : String) : String := if directory = "" then "." else directory

variable {directory name : String}

theorem hasTrailingSlash_of_entry (entry : IsEntryName name) : hasTrailingSlash name = false := by
  have other : name.toList.getLast? ≠ some '/' := fun slash =>
    entry.noSlash (List.mem_of_getLast? slash)
  simpa [hasTrailingSlash] using other

theorem entryPath_ne_empty (entry : IsEntryName name) : append directory name ≠ "" := by
  by_cases bare : directory = ""
  · rw [bare, append_empty]
    exact entry.nonempty
  · exact append_ne_empty bare entry

/-- The steps to an entry are those to its directory and its name. -/
theorem pathSteps_entryPath (entry : IsEntryName name) :
    FileTree.pathSteps (append directory name) = names directory.toList ++ [name] := by
  by_cases bare : directory = ""
  · rw [bare, append_empty, pathSteps_eq, names_toList entry, hasTrailingSlash_of_entry entry]
    simp
  · exact pathSteps_append bare entry

theorem pathBase_entryPath (cwd : Place) (entry : IsEntryName name) :
    FileTree.pathBase cwd (append directory name) = FileTree.pathBase cwd (folder directory) := by
  unfold FileTree.pathBase folder
  by_cases bare : directory = ""
  · rw [bare, append_empty, isAbsolute_of_entry entry]
    rfl
  · rw [if_neg bare, isAbsolute_append bare (isAbsolute_of_entry entry)]

theorem pathSteps_folder (directory : String) :
    (FileTree.pathSteps (folder directory)).filter (· ≠ ".") =
      (names directory.toList).filter (· ≠ ".") := by
  unfold folder
  by_cases bare : directory = ""
  · rw [if_pos bare, bare]
    decide
  · rw [if_neg bare, pathSteps_eq, List.filter_append]
    cases hasTrailingSlash directory <;> simp

/-- The components of an entry are those of its directory and its name. -/
theorem components_entryPath (entry : IsEntryName name) :
    components (append directory name) = components directory ++ [.normal name] := by
  by_cases bare : directory = ""
  · rw [bare, append_empty, components_of_entry entry]
    rfl
  · exact components_append bare entry

end Path

namespace FileTree

variable {t t' : FileTree} {cwd home p : Place} {directory name : String} {content : ByteArray}

/-! ## Trees whose entries lie in directories -/

/-- Whatever is in a tree is in a directory. -/
def Grounded (t : FileTree) : Prop :=
  ∀ p name, t.get? (p ++ [name]) ≠ none → t.get? p = some .directory

/-- It is enough to look at the entries. -/
theorem grounded_of_entries (above : ∀ e ∈ t.entries, t.get? e.1.dropLast = some .directory) :
    t.Grounded := by
  intro p name some
  obtain ⟨e, there⟩ := Option.ne_none_iff_exists'.mp some
  rw [get?, if_neg (by simp)] at there
  obtain ⟨before, after, split, -⟩ := List.lookup_eq_some_iff.mp there
  have directory := above (p ++ [name], e) (by simp [split])
  rwa [List.dropLast_concat] at directory

theorem Grounded.dropLast (grounded : t.Grounded) (there : t.get? p = some .directory) :
    t.get? p.dropLast = some .directory := by
  rcases List.eq_nil_or_concat p with rfl | ⟨above, name, rfl⟩
  · exact there
  · rw [List.concat_eq_append, List.dropLast_concat]
    apply grounded above name
    rw [← List.concat_eq_append, there]
    exact Option.some_ne_none _

theorem get?_linkBase {target : String} (there : t.get? p = some .directory) :
    t.get? (linkBase p target) = some .directory := by
  unfold linkBase
  split
  · rfl
  · exact there

/-- Before the last step down, a walk is in a directory. -/
theorem Leads.before_name {links : Nat} {here : Place} {steps : List String} {s : String}
    (grounded : t.Grounded) (name : IsName s) (start : t.get? here = some .directory)
    (h : t.Leads true links here (steps ++ [s]) p) :
    ∃ home, t.Leads true links here steps home ∧ t.get? home = some .directory := by
  generalize whole : steps ++ [s] = all at h
  induction h generalizing steps with
  | here => simp at whole
  | current _ ih =>
      rcases steps with _ | ⟨first, steps⟩
      · exact absurd (List.cons.inj whole).1 name.1
      · obtain ⟨rfl, more⟩ := List.cons.inj whole
        obtain ⟨home, leads, there⟩ := ih start more
        exact ⟨home, .current leads, there⟩
  | parent _ ih =>
      rcases steps with _ | ⟨first, steps⟩
      · exact absurd (List.cons.inj whole).1 name.2
      · obtain ⟨rfl, more⟩ := List.cons.inj whole
        obtain ⟨home, leads, there⟩ := ih (grounded.dropLast start) more
        exact ⟨home, .parent leads, there⟩
  | directory name' unlocked entry _ ih =>
      rcases steps with _ | ⟨first, steps⟩
      · exact ⟨_, .here, start⟩
      · obtain ⟨rfl, more⟩ := List.cons.inj whole
        obtain ⟨home, leads, there⟩ := ih entry more
        exact ⟨home, .directory name' unlocked entry leads, there⟩
  | last =>
      rcases steps with _ | ⟨first, steps⟩
      · exact ⟨_, .here, start⟩
      · simp at whole
  | unfollowed _ _ _ stays => cases stays
  | @followed links here p s' target rest name' unlocked entry _ nonempty _ ih =>
      rcases steps with _ | ⟨first, steps⟩
      · exact ⟨_, .here, start⟩
      · obtain ⟨rfl, rfl⟩ := List.cons.inj whole
        obtain ⟨home, leads, there⟩ := ih (get?_linkBase start) (List.append_assoc _ _ _)
        exact ⟨home, .followed name' unlocked entry (.inl rfl) nonempty leads, there⟩

theorem get?_pathBase (start : t.get? cwd = some .directory) (path : String) :
    t.get? (pathBase cwd path) = some .directory := by
  unfold FileTree.pathBase
  split
  · rfl
  · exact start

/-! ## The way to an entry -/

section Entry

variable (entry : IsEntryName name)
include entry

theorem leads_names (found : t.find cwd (Path.folder directory) = .ok (home, .directory)) :
    t.Leads true linkLimit (pathBase cwd (Path.append directory name))
      (Path.names directory.toList) home := by
  obtain ⟨located, there⟩ := find_eq_ok_iff.mp found
  obtain ⟨_, leads⟩ := locate_eq_ok_iff.mp located
  rw [Path.pathBase_entryPath cwd entry]
  exact leads.of_filter_eq there (Path.pathSteps_folder directory)

theorem find_folder_of_leads
    (leads : t.Leads true linkLimit (pathBase cwd (Path.append directory name))
      (Path.names directory.toList) home) (there : t.get? home = some .directory) :
    t.find cwd (Path.folder directory) = .ok (home, .directory) := by
  have nonempty : Path.folder directory ≠ "" := by
    unfold Path.folder
    split <;> simp_all
  rw [Path.pathBase_entryPath cwd entry] at leads
  have leads := leads.of_filter_eq there (Path.pathSteps_folder directory).symm
  exact find_eq_ok_iff.mpr ⟨locate_eq_ok_iff.mpr ⟨nonempty, leads⟩, there⟩

/-- An entry of a directory that is open lies where the directory does. -/
theorem locate_append (found : t.find cwd (Path.folder directory) = .ok (home, .directory))
    (unlocked : t.isLocked home = false) :
    t.locate cwd (Path.append directory name) false = .ok (home ++ [name]) := by
  apply locate_eq_ok_iff.mpr
  refine ⟨Path.entryPath_ne_empty entry, ?_⟩
  rw [Path.pathSteps_entryPath entry]
  exact (leads_names entry found).append_name (find_eq_ok_iff.mp found).2 unlocked entry.isName

theorem locate_append_of_not_link
    (found : t.find cwd (Path.folder directory) = .ok (home, .directory))
    (unlocked : t.isLocked home = false)
    (noLink : ∀ target, t.get? (home ++ [name]) ≠ some (.link target)) :
    t.locate cwd (Path.append directory name) true = .ok (home ++ [name]) := by
  obtain ⟨nonempty, leads⟩ := locate_eq_ok_iff.mp (locate_append entry found unlocked)
  exact locate_eq_ok_iff.mpr ⟨nonempty, leads.followed_of_not_link noLink⟩

/-- Nothing is found in a directory that is locked. -/
theorem locate_append_of_locked {follow : Bool}
    (found : t.find cwd (Path.folder directory) = .ok (home, .directory))
    (locked : t.isLocked home = true) :
    t.locate cwd (Path.append directory name) follow = .error .locked := by
  obtain ⟨left, onward⟩ : ∃ left, t.walk follow linkLimit
      (pathBase cwd (Path.append directory name)) (Path.names directory.toList ++ [name]) =
      t.walk follow left home [name] :=
    (leads_names entry found).walk_append (find_eq_ok_iff.mp found).2 (List.cons_ne_nil name [])
  rw [locate, if_neg (Path.entryPath_ne_empty entry), Path.pathSteps_entryPath entry]
  exact onward.trans (walk_name_of_locked entry.isName locked)

/-- Who finds an entry of a directory has found the directory. -/
theorem find_folder_of_locate (grounded : t.Grounded) (start : t.get? cwd = some .directory)
    (located : t.locate cwd (Path.append directory name) true = .ok p) :
    ∃ home, t.find cwd (Path.folder directory) = .ok (home, .directory) := by
  obtain ⟨_, leads⟩ := locate_eq_ok_iff.mp located
  rw [Path.pathSteps_entryPath entry] at leads
  have base : t.get? (pathBase cwd (Path.append directory name)) = some .directory :=
    get?_pathBase start _
  obtain ⟨home, way, there⟩ := leads.before_name grounded entry.isName base
  exact ⟨home, find_folder_of_leads entry way there⟩

end Entry

/-! ## Writing a file into a directory -/

/-- A directory takes a file under a name: it is open, no directory has the name, and a file that
has it may be written to. -/
structure Takes (t : FileTree) (home : Place) (name : String) : Prop where
  unlocked : t.isLocked home = false
  noDirectory : t.get? (home ++ [name]) ≠ some .directory
  writable : t.isLocked (home ++ [name]) = false

theorem writeFile_eq_ok_iff_of_locate {path : String} (located : t.locate cwd path true = .ok p)
    (noLink : ∀ target, t.get? p ≠ some (.link target)) :
    t.writeFile cwd path content = .ok t' ↔
      t.get? p ≠ some .directory ∧ t.isLocked p = false ∧ t' = t.set p (.file content) := by
  unfold writeFile
  rw [located]
  dsimp only
  rcases there : t.get? p with _ | (_ | _ | target)
  · cases t.isLocked p <;> simp [eq_comm]
  · cases t.isLocked p <;> simp [eq_comm]
  · simp
  · exact absurd there (noLink target)

section Write

variable (entry : IsEntryName name)
  (noLink : ∀ home, t.find cwd (Path.folder directory) = .ok (home, .directory) →
    ∀ target, t.get? (home ++ [name]) ≠ some (.link target))
include entry noLink

/-- A file is written under a name in a directory if the directory is there and takes it, and then
nothing else in the tree is changed. -/
theorem writeFile_append_eq_ok_iff (grounded : t.Grounded)
    (start : t.get? cwd = some .directory) :
    t.writeFile cwd (Path.append directory name) content = .ok t' ↔
      ∃ home, t.find cwd (Path.folder directory) = .ok (home, .directory) ∧ t.Takes home name ∧
        t' = t.set (home ++ [name]) (.file content) := by
  constructor
  · intro written
    have located : ∃ p, t.locate cwd (Path.append directory name) true = .ok p := by
      unfold writeFile at written
      cases located : t.locate cwd (Path.append directory name) true with
      | error e => simp [located] at written
      | ok p => exact ⟨p, rfl⟩
    obtain ⟨p, located⟩ := located
    obtain ⟨home, found⟩ := find_folder_of_locate entry grounded start located
    have unlocked : t.isLocked home = false := by
      cases locked : t.isLocked home with
      | false => rfl
      | true =>
          rw [locate_append_of_locked entry found locked] at located
          cases located
    have there := locate_append_of_not_link entry found unlocked (noLink home found)
    obtain ⟨noDirectory, writable, same⟩ :=
      (writeFile_eq_ok_iff_of_locate there (noLink home found)).mp written
    exact ⟨home, found, ⟨unlocked, noDirectory, writable⟩, same⟩
  · rintro ⟨home, found, takes, same⟩
    have there := locate_append_of_not_link entry found takes.unlocked (noLink home found)
    exact (writeFile_eq_ok_iff_of_locate there (noLink home found)).mpr
      ⟨takes.noDirectory, takes.writable, same⟩

/-- What was written under a name in a directory is found there. -/
theorem find_append_of_set (found : t.find cwd (Path.folder directory) = .ok (home, .directory))
    (takes : t.Takes home name) :
    (t.set (home ++ [name]) (.file content)).find cwd (Path.append directory name) =
      .ok (home ++ [name], .file content) := by
  have ne : home ++ [name] ≠ [] := by simp
  have evolution : t.Evolves (fun _ => True) (t.set (home ++ [name]) (.file content)) :=
    evolves_set_file trivial takes.noDirectory
  have kept : ∀ q target, t.get? q = some (.link target) →
      (t.set (home ++ [name]) (.file content)).get? q = some (.link target) := by
    intro q target link
    have other : q ≠ home ++ [name] := by
      rintro rfl
      exact noLink home found target link
    rw [get?_set_of_ne ne other, link]
  obtain ⟨located, there⟩ := find_eq_ok_iff.mp found
  obtain ⟨nonempty, leads⟩ := locate_eq_ok_iff.mp located
  have found' : (t.set (home ++ [name]) (.file content)).find cwd (Path.folder directory) =
      .ok (home, .directory) :=
    find_eq_ok_iff.mpr ⟨locate_eq_ok_iff.mpr ⟨nonempty, leads.evolve evolution kept⟩,
      evolution.directory there⟩
  have put : (t.set (home ++ [name]) (.file content)).get? (home ++ [name]) =
      some (.file content) := by
    rw [get?_set _ _ _ _ ne, if_pos rfl]
  have unlocked := evolution.unlocked home takes.unlocked
  apply find_eq_ok_iff.mpr
  exact ⟨locate_append_of_not_link entry found' unlocked (by simp [put]), put⟩

theorem read_append_of_set (found : t.find cwd (Path.folder directory) = .ok (home, .directory))
    (takes : t.Takes home name) :
    (t.set (home ++ [name]) (.file content)).read cwd (Path.append directory name) =
      .ok content := by
  have ne : home ++ [name] ≠ [] := by simp
  rw [read, find_append_of_set entry noLink found takes]
  simp [isLocked_set _ _ _ _ ne]

end Write

end FileTree

end ApiInventory.Files
