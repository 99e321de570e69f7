import ApiInventory.Files.Replace
import ApiInventory.Proofs.Files.Evolution
import ApiInventory.Proofs.Text.Decimal
import Mathlib.Data.List.Nodup

/-!
# What a replacement does

`replaceFile_cases` is the whole of it: once the missing directories are made, either nothing
changes or the place that the path leads to holds the new content. The file that is written first
is gone in both cases, and since its name is new (`freshName_missing`) it was never in the way.

Two trees that hold the same and lock the same need not be the same list of entries.
`Alike` is this equality, and no question asked of a tree can tell two such trees apart.
-/

namespace ApiInventory.Files.FileTree

/-- Trees with the same entries and the same locks. -/
structure Alike (t t' : FileTree) : Prop where
  get? : ∀ p, t'.get? p = t.get? p
  isLocked : ∀ p, t'.isLocked p = t.isLocked p

namespace Alike

protected theorem refl (t : FileTree) : t.Alike t := ⟨fun _ => rfl, fun _ => rfl⟩

variable {t t' : FileTree} (h : t.Alike t')
include h

theorem evolves (may : Place → Prop) : t.Evolves may t' :=
  ⟨fun p => .inl (h.get? p), fun p unlocked => by rw [h.isLocked, unlocked]⟩

theorem walk (follow : Bool) (links : Nat) (here : Place) (steps : List String) :
    t'.walk follow links here steps = t.walk follow links here steps := by
  fun_induction FileTree.walk t follow links here steps with
  | case1 => rw [FileTree.walk]
  | case2 links here rest ih => rw [FileTree.walk, if_pos rfl, ih]
  | case3 links here rest _ ih => rw [FileTree.walk, if_neg (by decide), if_pos rfl, ih]
  | _ =>
      rw [FileTree.walk]
      simp_all +zetaDelta [h.get?, h.isLocked]

theorem locate (cwd : Place) (path : String) (follow : Bool) :
    t'.locate cwd path follow = t.locate cwd path follow := by
  rw [FileTree.locate, h.walk, FileTree.locate]

theorem find (cwd : Place) (path : String) : t'.find cwd path = t.find cwd path := by
  simp [FileTree.find, h.locate, h.get?]

theorem read (cwd : Place) (path : String) : t'.read cwd path = t.read cwd path := by
  simp [FileTree.read, h.find, h.isLocked]

theorem isDirectory (cwd : Place) (path : String) :
    t'.isDirectory cwd path = t.isDirectory cwd path := by
  simp [FileTree.isDirectory, h.find]

end Alike

variable {t : FileTree} {cwd : Place} {path : String}

theorem isLocked_erase {p : Place} (q : Place) (ne : p ≠ []) :
    (t.erase p).isLocked q = if q = p then false else t.isLocked q := by
  unfold isLocked
  rw [get?_erase t p q ne]
  by_cases same : q = p
  · simp [same]
  · simp [same, erase]

/-! ## Names that are new -/

theorem mem_entries_of_get? {p : Place} (ne : p ≠ []) (h : (t.get? p).isSome) :
    p ∈ t.entries.map Prod.fst := by
  rw [get?, if_neg ne, List.lookup_isSome_iff] at h
  obtain ⟨entry, member, same⟩ := h
  exact List.mem_map.mpr ⟨entry, member, (by simpa using same : p = entry.1).symm⟩

/-- There are more names to choose from than entries. -/
theorem freshName_missing (t : FileTree) (directory : Place) (stem : String) :
    t.get? (directory ++ [t.freshName directory stem]) = none := by
  unfold freshName
  dsimp only
  cases found : ((List.range (t.entries.length + 1)).map fun i => stem ++ toString i).find?
      fun n => (t.get? (directory ++ [n])).isNone with
  | some name =>
      rw [Option.getD_some]
      simpa using List.find?_some found
  | none =>
      -- every name is taken, by an entry of its own
      exfalso
      have taken : ∀ i ∈ List.range (t.entries.length + 1),
          directory ++ [stem ++ toString i] ∈ t.entries.map Prod.fst := by
        intro i member
        refine mem_entries_of_get? (by simp) ?_
        have some := List.find?_eq_none.mp found _ (List.mem_map.mpr ⟨i, member, rfl⟩)
        simpa [Option.isSome_iff_ne_none] using some
      have injective : Function.Injective fun i : Nat => directory ++ [stem ++ toString i] := by
        intro i j same
        have same : stem ++ toString i = stem ++ toString j := by simpa using same
        exact Text.toString_injective (by simpa using same)
      have distinct := (List.nodup_range (n := t.entries.length + 1)).map injective
      have fits : ((List.range (t.entries.length + 1)).map fun i : Nat =>
          directory ++ [stem ++ toString i]) ⊆ t.entries.map Prod.fst := by
        intro p member
        obtain ⟨i, mem, rfl⟩ := List.mem_map.mp member
        exact taken i mem
      have fewer := distinct.length_le_of_subset fits
      rw [List.length_map, List.length_range, List.length_map] at fewer
      omega

/-! ## Making directories -/

theorem exists_of_makeDirectory_eq_ok {made : FileTree}
    (h : t.makeDirectory cwd path = .ok made) :
    ∃ p, t.get? p = none ∧ made = t.set p .directory := by
  unfold makeDirectory at h
  dsimp only at h
  split at h
  · cases h
  · split at h
    · cases h
    · split at h
      · cases h
      · rename_i p _
        split at h
        · cases h
        · rename_i missing
          cases h
          exact ⟨p, missing, rfl⟩

theorem makeDirectory_evolves {may : Place → Prop} {made : FileTree}
    (h : t.makeDirectory cwd path = .ok made) : t.Evolves may made := by
  obtain ⟨p, missing, rfl⟩ := exists_of_makeDirectory_eq_ok h
  exact evolves_set_directory missing

/-- Directories are made where nothing was. -/
theorem makeDirectoriesAs_evolves (may : Place → Prop) (t : FileTree) (cwd : Place)
    (spelling : String) (path : List Component) :
    t.Evolves may (t.makeDirectoriesAs cwd spelling path).tree := by
  fun_induction makeDirectoriesAs t cwd spelling path with
  | case2 _ _ _ made eq => exact makeDirectory_evolves eq
  | case5 _ _ _ _ _ _ above _ made eq ih => exact ih.trans (makeDirectory_evolves eq)
  | case1 | case3 | case8 | case9 => exact .refl may t
  | case4 _ _ _ _ _ _ above _ _ ih | case6 _ _ _ _ _ _ above _ _ _ _ ih
  | case7 _ _ _ _ _ _ above _ _ _ _ ih => exact ih

theorem makeDirectories_evolves (may : Place → Prop) (t : FileTree) (cwd : Place)
    (path : List Component) : t.Evolves may (t.makeDirectories cwd path).tree :=
  makeDirectoriesAs_evolves may t cwd _ path

/-! ## Replacing a file -/

variable {p : Place} {content : ByteArray}

theorem set_erase_alike (e : Entry) (missing : t.get? p = none) :
    t.Alike ((t.set p e).erase p) := by
  have ne := ne_nil_of_get?_eq_none missing
  constructor
  · intro q
    rw [get?_erase _ p q ne, get?_set t p q e ne]
    by_cases same : q = p <;> simp [same, missing]
  · intro q
    rw [isLocked_erase q ne, isLocked_set t p q e ne]
    by_cases same : q = p
    · simp [same, isLocked_eq_false_of_get?_eq_none missing]
    · simp [same]

theorem set_alike {t' : FileTree} (h : t.Alike t') (e : Entry) (ne : p ≠ []) :
    (t.set p e).Alike (t'.set p e) := by
  constructor
  · intro q
    rw [get?_set t' p q e ne, get?_set t p q e ne, h.get?]
  · intro q
    rw [isLocked_set t' p q e ne, isLocked_set t p q e ne, h.isLocked]

/-- What a file is moved over gives way, unless it is a directory. -/
theorem renameFile_of_locate {source goal : Place}
    (located : t.locate cwd path false = .ok goal) (noDirectory : t.get? goal ≠ some .directory) :
    t.renameFile cwd source content path = .ok ((t.erase source).set goal (.file content)) := by
  rw [renameFile, located]
  dsimp only
  split
  · rename_i there
    exact absurd there noDirectory
  · rfl

/-- A file that was new moves to where the path led before it was there. -/
theorem renameFile_cases (cwd : Place) (path : String) (content : ByteArray)
    (missing : t.get? p = none) :
    (∃ e, (t.set p (.file content)).renameFile cwd p content path = .error e) ∨
    ∃ renamed goal, (t.set p (.file content)).renameFile cwd p content path = .ok renamed ∧
      t.locate cwd path false = .ok goal ∧ t.get? goal ≠ some .directory ∧
      (t.set goal (.file content)).Alike renamed := by
  have ne := ne_nil_of_get?_eq_none missing
  cases located : (t.set p (.file content)).locate cwd path false with
  | error e => exact .inl ⟨e, by rw [renameFile, located]⟩
  | ok goal =>
      obtain ⟨some, leads⟩ := locate_eq_ok_iff.mp located
      have before := leads.before_file ne (isLocked_eq_false_of_get?_eq_none missing)
        fun _ => missing
      by_cases directory : (t.set p (.file content)).get? goal = .some .directory
      · exact .inl ⟨.isDirectory, by simp [renameFile, located, directory]⟩
      · right
        have noDirectory : t.get? goal ≠ .some .directory := by
          rw [get?_set t p goal _ ne] at directory
          by_cases same : goal = p
          · simp [same, missing]
          · simpa [same] using directory
        have alike := set_alike (set_erase_alike (.file content) missing) (.file content)
          (ne_nil_of_get?_ne_directory noDirectory)
        exact ⟨_, goal, renameFile_of_locate located directory,
          locate_eq_ok_iff.mpr ⟨some, before⟩, noDirectory, alike⟩

/-- With the missing directories made, a replacement changes nothing, or only the file. -/
theorem replaceFile_cases (t : FileTree) (cwd : Place) (path : String) (content : ByteArray)
    (accepts : Bool) :
    (∃ e, (t.replaceFile cwd path content accepts).result = .error e ∧
      (t.makeDirectories cwd (parentOf path)).tree.Alike
        (t.replaceFile cwd path content accepts).tree) ∨
    ((t.replaceFile cwd path content accepts).result = .ok () ∧ accepts = true ∧
      ∃ goal, (t.makeDirectories cwd (parentOf path)).tree.locate cwd path false = .ok goal ∧
        (t.makeDirectories cwd (parentOf path)).tree.get? goal ≠ some .directory ∧
        ((t.makeDirectories cwd (parentOf path)).tree.set goal (.file content)).Alike
          (t.replaceFile cwd path content accepts).tree) := by
  unfold replaceFile
  dsimp only
  generalize t.makeDirectories cwd (parentOf path) = made
  cases made with
  | mk above result =>
      have same := Alike.refl above
      cases result with
      | error e => exact .inl ⟨_, rfl, same⟩
      | ok =>
          dsimp only
          split
          · exact .inl ⟨_, rfl, same⟩
          · rename_i place _
            cases above.isLocked place with
            | true => exact .inl ⟨_, rfl, same⟩
            | false =>
                have missing := above.freshName_missing place ".tmp"
                cases accepts with
                | false => exact .inl ⟨_, rfl, set_erase_alike _ missing⟩
                | true =>
                    rcases renameFile_cases cwd path content missing with
                      ⟨e, failed⟩ | ⟨renamed, goal, done, located, noDirectory, alike⟩
                    · rw [if_neg Bool.false_ne_true, if_pos rfl, failed]
                      exact .inl ⟨_, rfl, set_erase_alike _ missing⟩
                    · rw [if_neg Bool.false_ne_true, if_pos rfl, done]
                      exact .inr ⟨rfl, rfl, goal, located, noDirectory, alike⟩
          · exact .inl ⟨_, rfl, same⟩

/-- A replacement that is done has put the file where the path leads. -/
theorem replaceFile_of_ok {accepts : Bool}
    (done : (t.replaceFile cwd path content accepts).result = .ok ()) :
    ∃ goal, (t.makeDirectories cwd (parentOf path)).tree.locate cwd path false = .ok goal ∧
      (t.makeDirectories cwd (parentOf path)).tree.get? goal ≠ some .directory ∧
      ((t.makeDirectories cwd (parentOf path)).tree.set goal (.file content)).Alike
        (t.replaceFile cwd path content accepts).tree := by
  rcases replaceFile_cases t cwd path content accepts with ⟨_, failed, _⟩ | ⟨_, _, put⟩
  · rw [failed] at done
    cases done
  · exact put

/-- A replacement leaves all files alone but the one it puts in its place. -/
theorem replaceFile_files {accepts : Bool} {q : Place} {content' : ByteArray}
    (elsewhere : (t.replaceFile cwd path content accepts).result = .ok () →
      (t.makeDirectories cwd (parentOf path)).tree.locate cwd path false ≠ .ok q) :
    (t.replaceFile cwd path content accepts).tree.get? q = some (.file content') ↔
      t.get? q = some (.file content') := by
  have made := makeDirectories_evolves (fun _ => False) t cwd (parentOf path)
  rcases replaceFile_cases t cwd path content accepts with
    ⟨_, _, alike⟩ | ⟨done, _, goal, located, noDirectory, alike⟩
  · rw [alike.get?, made.file_iff id]
  · have other : q ≠ goal := by
      rintro rfl
      exact elsewhere done located
    have ne := ne_nil_of_get?_ne_directory noDirectory
    rw [alike.get?, get?_set_of_ne ne other, made.file_iff id]

theorem replaceFile_evolves {may : Place → Prop} {accepts : Bool}
    (allowed : ∀ goal, (t.makeDirectories cwd (parentOf path)).tree.locate cwd path false =
      .ok goal → may goal) :
    t.Evolves may (t.replaceFile cwd path content accepts).tree := by
  have above := makeDirectories_evolves may t cwd (parentOf path)
  rcases replaceFile_cases t cwd path content accepts with
    ⟨_, _, alike⟩ | ⟨_, _, goal, located, noDirectory, alike⟩
  · exact above.trans (alike.evolves may)
  · exact above.trans ((evolves_set_file (allowed goal located) noDirectory).trans
      (alike.evolves may))

/-- A replacement whose directories are there is done unless the device refuses the file or a
directory is in its place. -/
theorem result_replaceFile {made : FileTree} {home goal : Place} {accepts : Bool}
    (above : t.makeDirectories cwd (parentOf path) = ⟨made, .ok ()⟩)
    (found : made.find cwd (folderOf path) = .ok (home, .directory))
    (unlocked : made.isLocked home = false)
    (located : made.locate cwd path false = .ok goal) :
    (t.replaceFile cwd path content accepts).result = .ok () ↔
      accepts = true ∧ made.get? goal ≠ some .directory := by
  have missing := made.freshName_missing home ".tmp"
  unfold replaceFile
  dsimp only
  rw [above]
  dsimp only
  rw [found]
  dsimp only
  rw [unlocked]
  generalize home ++ [made.freshName home ".tmp"] = temporary at missing ⊢
  cases accepts with
  | false => simp
  | true =>
      have ne := ne_nil_of_get?_eq_none missing
      obtain ⟨nonempty, leads⟩ := locate_eq_ok_iff.mp located
      have evolution : made.Evolves (fun _ => True) (made.set temporary (.file content)) :=
        evolves_set_file trivial (by simp [missing])
      have leads := leads.evolve evolution fun _ _ link => get?_set_missing missing _ link
      have located' : (made.set temporary (.file content)).locate cwd path false = .ok goal :=
        locate_eq_ok_iff.mpr ⟨nonempty, leads⟩
      by_cases directory : made.get? goal = some .directory
      · have there := get?_set_missing missing (.file content) directory
        simp [renameFile, located', there, directory]
      · have noDirectory : (made.set temporary (.file content)).get? goal ≠ some .directory := by
          rw [get?_set _ _ _ _ ne]
          split <;> simp [directory]
        simp [renameFile_of_locate located' noDirectory, directory]

/-! ## Locks -/

/-- Directories are as locked as they were. -/
def KeepsLocks (t t' : FileTree) : Prop :=
  ∀ q, t.get? q = some .directory → t'.isLocked q = t.isLocked q

theorem keepsLocks_set {e : Entry} (noDirectory : t.get? p ≠ some .directory) :
    t.KeepsLocks (t.set p e) := by
  intro q directory
  have other : q ≠ p := by
    rintro rfl
    exact noDirectory directory
  exact isLocked_set_of_ne (ne_nil_of_get?_ne_directory noDirectory) other

theorem Alike.keepsLocks {t' : FileTree} (h : t.Alike t') : t.KeepsLocks t' :=
  fun q _ => h.isLocked q

theorem KeepsLocks.trans {may : Place → Prop} {t' t'' : FileTree} (h : t.KeepsLocks t')
    (evolution : t.Evolves may t') (h' : t'.KeepsLocks t'') : t.KeepsLocks t'' :=
  fun q directory => (h' q (evolution.directory directory)).trans (h q directory)

theorem makeDirectory_keepsLocks {made : FileTree} (h : t.makeDirectory cwd path = .ok made) :
    t.KeepsLocks made := by
  obtain ⟨p, missing, rfl⟩ := exists_of_makeDirectory_eq_ok h
  exact keepsLocks_set (by simp [missing])

theorem makeDirectories_keepsLocks (t : FileTree) (cwd : Place) (path : List Component) :
    t.KeepsLocks (t.makeDirectories cwd path).tree := by
  rw [makeDirectories]
  generalize Path.ofComponents path = spelling
  fun_induction makeDirectoriesAs t cwd spelling path with
  | case2 _ _ _ made eq => exact makeDirectory_keepsLocks eq
  | case5 _ _ _ _ _ _ above _ made eq ih =>
      exact ih.trans (makeDirectories_evolves (fun _ => True) _ cwd _)
        (makeDirectory_keepsLocks eq)
  | case1 | case3 | case8 | case9 => exact fun _ _ => rfl
  | case4 _ _ _ _ _ _ above _ _ ih | case6 _ _ _ _ _ _ above _ _ _ _ ih
  | case7 _ _ _ _ _ _ above _ _ _ _ ih => exact ih

theorem replaceFile_keepsLocks {accepts : Bool} :
    t.KeepsLocks (t.replaceFile cwd path content accepts).tree := by
  have evolution := makeDirectories_evolves (fun _ => True) t cwd (parentOf path)
  have above := makeDirectories_keepsLocks t cwd (parentOf path)
  rcases replaceFile_cases t cwd path content accepts with
    ⟨_, _, alike⟩ | ⟨_, _, goal, _, noDirectory, alike⟩
  · exact above.trans evolution alike.keepsLocks
  · have put : FileTree.Evolves (fun _ => True) _ (set _ goal (.file content)) :=
      evolves_set_file trivial noDirectory
    exact above.trans evolution ((keepsLocks_set noDirectory).trans put alike.keepsLocks)

/-! ## Reading what was written -/

/-- A path that still leads to a file after the file was put there. Only a symbolic link that
the file takes the place of could have been part of the way. -/
def Steady (t : FileTree) (cwd : Place) (path : String) : Prop :=
  ∀ goal content, t.locate cwd path false = .ok goal → t.get? goal ≠ some .directory →
    (t.set goal (.file content)).locate cwd path false = .ok goal

theorem steady_of_not_link (noLink : ∀ goal, t.locate cwd path false = .ok goal →
    ∀ target, t.get? goal ≠ some (.link target)) : t.Steady cwd path := by
  intro goal content located noDirectory
  obtain ⟨nonempty, leads⟩ := locate_eq_ok_iff.mp located
  have evolution : t.Evolves (· = goal) (t.set goal (.file content)) :=
    evolves_set_file rfl noDirectory
  refine locate_eq_ok_iff.mpr ⟨nonempty, leads.evolve evolution fun q target link => ?_⟩
  have other : q ≠ goal := by
    rintro rfl
    exact noLink q located target link
  rw [get?_set_of_ne (ne_nil_of_get?_ne_directory noDirectory) other, link]

theorem always_steady_of_noLinks {may : Place → Prop} (noLinks : t.NoLinks) (cwd : Place)
    (path : String) : t.Always may fun t' => t'.Steady cwd path :=
  fun _ evolution => steady_of_not_link fun goal _ target =>
    evolution.noLinks noLinks goal target

theorem read_of_locate {goal : Place} (located : t.locate cwd path false = .ok goal)
    (entry : t.get? goal = some (.file content)) (unlocked : t.isLocked goal = false) :
    t.read cwd path = .ok content := by
  obtain ⟨nonempty, leads⟩ := locate_eq_ok_iff.mp located
  have leads := leads.followed_of_not_link (by simp [entry])
  exact read_eq_ok_iff.mpr ⟨goal, locate_eq_ok_iff.mpr ⟨nonempty, leads⟩, entry, unlocked⟩

/-- A file that can be read can be read when directories have been made. -/
theorem read_makeDirectoriesAs (read : t.read cwd path = .ok content) (spelling : String)
    (made : List Component) :
    (t.makeDirectoriesAs cwd spelling made).tree.read cwd path = .ok content := by
  have evolution := makeDirectoriesAs_evolves (fun _ => False) t cwd spelling made
  obtain ⟨p, located, file, unlocked⟩ := read_eq_ok_iff.mp read
  obtain ⟨nonempty, leads⟩ := locate_eq_ok_iff.mp located
  have leads := leads.evolve evolution fun q target link =>
    (evolution.link_after link).resolve_right And.left
  exact read_eq_ok_iff.mpr ⟨p, locate_eq_ok_iff.mpr ⟨nonempty, leads⟩,
    (evolution.file_iff id).mpr file, evolution.unlocked p unlocked⟩

/-- A file that can be read is read as before when a replacement has failed. -/
theorem read_replaceFile_of_error {goal : String} {new : ByteArray} {accepts : Bool} {e : FileError}
    (failed : (t.replaceFile cwd goal new accepts).result = .error e)
    (read : t.read cwd path = .ok content) :
    (t.replaceFile cwd goal new accepts).tree.read cwd path = .ok content := by
  rcases replaceFile_cases t cwd goal new accepts with ⟨_, _, alike⟩ | ⟨done, _⟩
  · rw [alike.read]
    exact read_makeDirectoriesAs read _ _
  · rw [done] at failed
    cases failed

/-- What was written is read, if the file itself was not on the way to it. -/
theorem read_replaceFile {accepts : Bool}
    (done : (t.replaceFile cwd path content accepts).result = .ok ())
    (steady : (t.makeDirectories cwd (parentOf path)).tree.Steady cwd path) :
    (t.replaceFile cwd path content accepts).tree.read cwd path = .ok content := by
  obtain ⟨goal, located, noDirectory, alike⟩ := replaceFile_of_ok done
  have ne := ne_nil_of_get?_ne_directory noDirectory
  have after := steady goal content located noDirectory
  rw [alike.read]
  refine read_of_locate after ?_ ?_
  · simp [ne]
  · simp [isLocked_set _ goal goal _ ne]

end ApiInventory.Files.FileTree
