import ApiInventory.Batch.RecordStore
import ApiInventory.Proofs.Batch.Checkpoint
import ApiInventory.Proofs.Files.Barred
import ApiInventory.Proofs.Files.Entries
import ApiInventory.Proofs.Files.Replacement
import Mathlib

/-!
# All or nothing

A replacement that fails changes no file. One that is done changes the file where its path leads
and no other, and its temporary file is gone. Besides that it makes directories, which stay: each of
them is where a part of the path to the parent leads (`MakesParents`).

After a replacement that is done, the path is read as the new content unless the file has taken the
place of a symbolic link that the path itself is followed through (`Follows`). Then the path leads
through a file, that is, nowhere.
-/

namespace ApiInventory.Files

namespace FileTree

variable {t t' t'' : FileTree} {cwd q p : Place} {path : String} {content : ByteArray}

/-! ## Directories on the way -/

/-- A tree with directories that have been made along a path. -/
structure MakesParents (t t' : FileTree) (cwd : Place) (path : List Component) : Prop where
  /-- They are made where nothing was, and where a part of the path leads. -/
  entry : ∀ q, t'.get? q = t.get? q ∨
    t.get? q = none ∧ t'.get? q = some .directory ∧
      ∃ front, front <+: path ∧ t'.find cwd (Path.ofComponents front) = .ok (q, .directory)
  isLocked : ∀ q, t'.isLocked q = t.isLocked q

theorem MakesParents.refl (t : FileTree) (cwd : Place) (path : List Component) :
    t.MakesParents t cwd path :=
  ⟨fun _ => .inl rfl, fun _ => rfl⟩

theorem MakesParents.of_front {front path : List Component} (h : t.MakesParents t' cwd front)
    (part : front <+: path) : t.MakesParents t' cwd path := by
  refine ⟨fun q => (h.entry q).imp_right ?_, h.isLocked⟩
  rintro ⟨missing, made, shorter, inside, found⟩
  exact ⟨missing, made, shorter, inside.trans part, found⟩

/-- A directory that is found is found when another one has been made. -/
theorem find_set_directory (missing : t.get? p = none)
    (found : t.find cwd path = .ok (q, .directory)) :
    (t.set p .directory).find cwd path = .ok (q, .directory) := by
  have evolution : t.Evolves (fun _ => False) (t.set p .directory) :=
    evolves_set_directory missing
  obtain ⟨located, there⟩ := find_eq_ok_iff.mp found
  obtain ⟨nonempty, leads⟩ := locate_eq_ok_iff.mp located
  have leads := leads.evolve evolution fun _ _ link => get?_set_missing missing _ link
  exact find_eq_ok_iff.mpr ⟨locate_eq_ok_iff.mpr ⟨nonempty, leads⟩,
    get?_set_missing missing _ there⟩

/-- A directory that is made is where its path leads. -/
theorem makeDirectory_eq_ok {made : FileTree}
    (bare : path = "/" ∨ Path.hasTrailingSlash path = false)
    (h : t.makeDirectory cwd path = .ok made) :
    ∃ p, t.get? p = none ∧ made = t.set p .directory ∧
      made.find cwd path = .ok (p, .directory) := by
  rcases bare with rfl | bare
  · have exists' : t.makeDirectory cwd "/" = .error .alreadyExists := by simp [makeDirectory]
    rw [exists'] at h
    cases h
  · unfold makeDirectory at h
    dsimp only at h
    rw [Path.ofList_dropWhile_of_bare bare] at h
    by_cases empty : path = ""
    · simp [empty] at h
    · rw [if_neg empty, if_neg empty] at h
      cases located : t.locate cwd path false with
      | error e => simp [located] at h
      | ok p =>
          cases missing : t.get? p with
          | some e => simp [located, missing] at h
          | none =>
              have same : t.set p .directory = made := by simpa [located, missing] using h
              subst same
              obtain ⟨nonempty, leads⟩ := locate_eq_ok_iff.mp located
              have ne := ne_nil_of_get?_eq_none missing
              have there : (t.set p .directory).get? p = some .directory := by simp [ne]
              have evolution : t.Evolves (fun _ => False) (t.set p .directory) :=
                evolves_set_directory missing
              have leads := leads.evolve evolution fun _ _ link => get?_set_missing missing _ link
              have leads := leads.followed_of_not_link (by simp [there])
              exact ⟨p, missing, rfl,
                find_eq_ok_iff.mpr ⟨locate_eq_ok_iff.mpr ⟨nonempty, leads⟩, there⟩⟩

theorem MakesParents.makeDirectory {path : List Component} (spelled : Path.IsSpelled path)
    (above : t.MakesParents t' cwd path)
    (h : t'.makeDirectory cwd (Path.ofComponents path) = .ok t'') :
    t.MakesParents t'' cwd path := by
  obtain ⟨p, missing, rfl, found⟩ := makeDirectory_eq_ok spelled.last h
  have ne := ne_nil_of_get?_eq_none missing
  have before : t.get? p = none := by
    rcases above.entry p with same | ⟨none, -⟩
    · rw [← same, missing]
    · exact none
  constructor
  · intro q
    by_cases here : q = p
    · subst here
      exact .inr ⟨before, (find_eq_ok_iff.mp found).2, path, List.prefix_rfl, found⟩
    · rw [get?_set_of_ne ne here]
      refine (above.entry q).imp_right ?_
      rintro ⟨none, made, front, part, found'⟩
      exact ⟨none, made, front, part, find_set_directory missing found'⟩
  · intro q
    rw [isLocked_set _ _ _ _ ne, above.isLocked]
    split
    · rename_i here
      rw [here, isLocked_eq_false_of_get?_eq_none before]
    · rfl

/-- Directories are made along a path, whether all of them can be made or not. -/
theorem makesParents_makeDirectories (t : FileTree) (cwd : Place) {path : List Component}
    (spelled : Path.IsSpelled path) :
    t.MakesParents (t.makeDirectories cwd path).tree cwd path := by
  rw [makeDirectories]
  generalize same : Path.ofComponents path = spelling
  fun_induction makeDirectoriesAs t cwd spelling path with
  | case1 | case3 | case8 | case9 => exact .refl t cwd _
  | case2 _ _ _ made eq =>
      exact (MakesParents.refl t cwd _).makeDirectory spelled (same ▸ eq)
  | case5 _ _ _ _ _ _ above _ made eq ih =>
      have part := Path.prefix_of_parentComponents? (by assumption)
      exact ((ih (spelled.of_front part) rfl).of_front part).makeDirectory spelled (same ▸ eq)
  | case4 _ _ _ _ _ _ above _ _ ih | case6 _ _ _ _ _ _ above _ _ _ _ ih
  | case7 _ _ _ _ _ _ above _ _ _ _ ih =>
      have part := Path.prefix_of_parentComponents? (by assumption)
      exact (ih (spelled.of_front part) rfl).of_front part

/-! ## Links on the way -/

/-- A walk that stops at links comes by a link in the place `q` and goes on from there. -/
inductive Follows (t : FileTree) (q : Place) : Nat → Place → List String → Prop
  | current {links : Nat} {here : Place} {rest : List String}
      (onward : Follows t q links here rest) : Follows t q links here ("." :: rest)
  | parent {links : Nat} {here : Place} {rest : List String}
      (onward : Follows t q links here.dropLast rest) : Follows t q links here (".." :: rest)
  | directory {links : Nat} {here : Place} {s : String} {rest : List String}
      (name : IsName s) (unlocked : t.isLocked here = false)
      (entry : t.get? (here ++ [s]) = some .directory)
      (onward : Follows t q links (here ++ [s]) rest) : Follows t q links here (s :: rest)
  | here {links : Nat} {here : Place} {s target : String} {rest : List String}
      (name : IsName s) (unlocked : t.isLocked here = false) (same : here ++ [s] = q)
      (entry : t.get? q = some (.link target)) (more : rest ≠ []) :
      Follows t q links here (s :: rest)
  | beyond {links : Nat} {here : Place} {s target : String} {rest : List String}
      (name : IsName s) (unlocked : t.isLocked here = false) (other : here ++ [s] ≠ q)
      (entry : t.get? (here ++ [s]) = some (.link target)) (nonempty : target ≠ "")
      (more : rest ≠ [])
      (onward : Follows t q links (linkBase here target) (pathSteps target ++ rest)) :
      Follows t q (links + 1) here (s :: rest)

namespace Follows

variable {links : Nat} {here : Place} {steps : List String}

theorem link (h : t.Follows q links here steps) : ∃ target, t.get? q = some (.link target) := by
  induction h with
  | current _ ih | parent _ ih | directory _ _ _ _ ih | beyond _ _ _ _ _ _ _ ih => exact ih
  | here _ _ _ entry => exact ⟨_, entry⟩

theorem ne_nil (h : t.Follows q links here steps) : steps ≠ [] := by
  cases h <;> simp

/-- Where a file has taken the place of the link, the way is barred before its last step. -/
theorem barred (content : ByteArray) (h : t.Follows q links here steps) :
    (t.set q (.file content)).Barred links here steps.dropLast := by
  obtain ⟨target, link⟩ := h.link
  have ne : q ≠ [] := ne_nil_of_get?_ne_directory (t := t) (by simp [link])
  induction h with
  | current onward ih =>
      rw [List.dropLast_cons_of_ne_nil onward.ne_nil]
      exact .current ih
  | parent onward ih =>
      rw [List.dropLast_cons_of_ne_nil onward.ne_nil]
      exact .parent ih
  | @directory links here s rest name unlocked entry onward ih =>
      have other : here ++ [s] ≠ q := fun same => by simp [← same, entry] at link
      rw [List.dropLast_cons_of_ne_nil onward.ne_nil]
      exact .directory name (isLocked_set_of_unlocked ne unlocked)
        ((get?_set_of_ne ne other).trans entry) ih
  | @here links here s _ _ name unlocked same _ more =>
      have there : (t.set q (.file content)).get? (here ++ [s]) = some (.file content) := by
        simp [same, ne]
      rw [List.dropLast_cons_of_ne_nil more]
      exact .file name (isLocked_set_of_unlocked ne unlocked) there
  | beyond name unlocked other entry nonempty more _ ih =>
      rw [List.dropLast_append_of_ne_nil more] at ih
      rw [List.dropLast_cons_of_ne_nil more]
      exact .link name (isLocked_set_of_unlocked ne unlocked)
        ((get?_set_of_ne ne other).trans entry) nonempty ih

end Follows

/-- A way to something else than a directory stays open when a file is put there, if it does not
go on from there. -/
theorem Leads.follows_or_set {links : Nat} {here : Place} {steps : List String}
    (h : t.Leads false links here steps p) (noDirectory : t.get? p ≠ some .directory)
    (content : ByteArray) :
    t.Follows p links here steps ∨
      (t.set p (.file content)).Leads false links here steps p := by
  induction h with
  | here => exact .inr .here
  | current _ ih => exact (ih noDirectory).imp .current .current
  | parent _ ih => exact (ih noDirectory).imp .parent .parent
  | @directory links here p s rest name unlocked entry _ ih =>
      have ne := ne_nil_of_get?_ne_directory noDirectory
      have other : here ++ [s] ≠ p := fun same => noDirectory (same ▸ entry)
      exact (ih noDirectory).imp (.directory name unlocked entry)
        (.directory name (isLocked_set_of_unlocked ne unlocked)
          ((get?_set_of_ne ne other).trans entry))
  | last name unlocked | unfollowed name unlocked =>
      have ne := ne_nil_of_get?_ne_directory noDirectory
      right
      exact .last name (isLocked_set_of_unlocked ne unlocked) (by simp) (by simp)
  | @followed links here p s target rest name unlocked entry goes nonempty _ ih =>
      have ne := ne_nil_of_get?_ne_directory noDirectory
      have more : rest ≠ [] := by simpa using goes
      by_cases same : here ++ [s] = p
      · exact .inl (.here name unlocked same (same ▸ entry) more)
      · exact (ih noDirectory).imp (.beyond name unlocked same entry nonempty more)
          (.followed name (isLocked_set_of_unlocked ne unlocked)
            ((get?_set_of_ne ne same).trans entry) goes nonempty)

/-! ## Replacements -/

/-- What an attempt to replace a file amounts to. -/
inductive AllOrNothing (t : FileTree) (cwd : Place) (path : String) (content : ByteArray) :
    Attempt → Prop
  /-- The file is where the path leads once there are directories above it. All else is as it was,
  and the path is read as the new content unless it goes on from there. -/
  | done {made t' : FileTree} {goal : Place} (parents : t.MakesParents made cwd (parentOf path))
      (located : made.locate cwd path false = .ok goal)
      (noDirectory : made.get? goal ≠ some .directory)
      (alike : (made.set goal (.file content)).Alike t')
      (files : ∀ q ≠ goal, ∀ old, t'.get? q = some (.file old) ↔ t.get? q = some (.file old))
      (read : ¬made.Follows goal linkLimit (pathBase cwd path) (pathSteps path) →
        t'.read cwd path = .ok content)
      (lost : made.Follows goal linkLimit (pathBase cwd path) (pathSteps path) →
        t'.read cwd path = .error .notDirectory) :
      AllOrNothing t cwd path content ⟨t', .ok ()⟩
  /-- There are directories above it at most. What could be read is read as before. -/
  | failed {made t' : FileTree} {e : FileError} (parents : t.MakesParents made cwd (parentOf path))
      (alike : made.Alike t')
      (files : ∀ q old, t'.get? q = some (.file old) ↔ t.get? q = some (.file old))
      (read : ∀ path' old, t.read cwd path' = .ok old → t'.read cwd path' = .ok old) :
      AllOrNothing t cwd path content ⟨t', .error e⟩

theorem read_eq_error_of_locate {e : FileError} {path : String}
    (lost : t.locate cwd path true = .error e) : t.read cwd path = .error e := by
  rw [read, find, lost]

theorem allOrNothing_replaceFile (t : FileTree) (cwd : Place) (path : String) (content : ByteArray)
    (accepts : Bool) :
    AllOrNothing t cwd path content (t.replaceFile cwd path content accepts) := by
  have parents := makesParents_makeDirectories t cwd (Path.isSpelled_parentOf path)
  have files := @replaceFile_files t cwd path content accepts
  have reads := @read_replaceFile_of_error t cwd
  have cases := replaceFile_cases t cwd path content accepts
  generalize attempted : t.replaceFile cwd path content accepts = attempt at files cases
  obtain ⟨t', result⟩ := attempt
  generalize (t.makeDirectories cwd (parentOf path)).tree = made at parents files cases
  rcases cases with ⟨e, failed, alike⟩ | ⟨done, -, goal, located, noDirectory, alike⟩
  · obtain rfl : result = .error e := failed
    refine .failed parents alike (fun q old => files (fun done => by cases done)) ?_
    intro path' old read
    have stopped : (t.replaceFile cwd path content accepts).result = .error e := by
      rw [attempted]
    have kept := reads stopped read
    rwa [attempted] at kept
  · obtain rfl : result = .ok () := done
    obtain ⟨nonempty, leads⟩ := locate_eq_ok_iff.mp located
    have ne := ne_nil_of_get?_ne_directory noDirectory
    have others : ∀ q ≠ goal, ∀ old,
        t'.get? q = some (.file old) ↔ t.get? q = some (.file old) := by
      intro q other old
      refine files fun _ located' => other ?_
      rw [located] at located'
      exact (Except.ok.inj located').symm
    refine .done parents located noDirectory alike others (fun straight => ?_) fun follows => ?_
    · have after := (leads.follows_or_set noDirectory content).resolve_left straight
      rw [alike.read]
      refine read_of_locate (locate_eq_ok_iff.mpr ⟨nonempty, after⟩) (by simp [ne]) ?_
      simp [isLocked_set _ _ _ _ ne]
    · rw [alike.read]
      apply read_eq_error_of_locate
      rw [locate, if_neg nonempty, ← List.dropLast_append_getLast follows.ne_nil]
      exact (follows.barred content).walk_append true (by simp)

variable {accepts : Bool}

/-- What has been put in its place is read there, or it bars its own way. -/
theorem read_or_barred_replaceFile
    (done : (t.replaceFile cwd path content accepts).result = .ok ()) :
    (t.replaceFile cwd path content accepts).tree.read cwd path = .ok content ∨
      (t.replaceFile cwd path content accepts).tree.Barred linkLimit (pathBase cwd path)
        (pathSteps path).dropLast := by
  have ends := t.allOrNothing_replaceFile cwd path content accepts
  generalize t.replaceFile cwd path content accepts = attempt at done ends
  cases ends with
  | failed => cases done
  | @done made t' goal _ _ _ alike _ read =>
      by_cases follows : made.Follows goal linkLimit (pathBase cwd path) (pathSteps path)
      · exact .inr ((follows.barred content).evolve (alike.evolves fun _ => False))
      · exact .inl (read follows)

/-- Behind a way that is barred no file can be replaced. -/
theorem not_replaceFile_of_barred
    (shut : t.Barred linkLimit (pathBase cwd path) (pathSteps path).dropLast) :
    (t.replaceFile cwd path content accepts).result ≠ .ok () := by
  intro done
  have some : pathSteps path ≠ [] := by
    intro none
    rw [none] at shut
    cases shut
  obtain ⟨goal, located, _⟩ := replaceFile_of_ok done
  have shut := shut.evolve (makeDirectories_evolves (fun _ => False) t cwd (parentOf path))
  have stopped := shut.walk_append false (List.cons_ne_nil ((pathSteps path).getLast some) [])
  obtain ⟨_, leads⟩ := locate_eq_ok_iff.mp located
  rw [List.dropLast_append_getLast some, walk_of_leads leads] at stopped
  cases stopped

end FileTree

end ApiInventory.Files

namespace ApiInventory.Batch

open Files (FileTree Place FileError)
open Files.FileTree (AllOrNothing)

/-- **All or nothing.** Replacing a file puts the new content where the path leads and changes no
other file, or it fails and changes none. So the checkpoint and the records keep what could be read
in them when a new value could not be written. -/
theorem replacements_allOrNothing (t : FileTree) (cwd : Place) (accepts : Bool) :
    (∀ path content, AllOrNothing t cwd path content (t.replaceFile cwd path content accepts)) ∧
      (∀ path position e old,
        (Checkpoint.save t cwd path position accepts).result = .error e →
        t.read cwd path = .ok old →
        Checkpoint.load (Checkpoint.save t cwd path position accepts).tree cwd path =
          Checkpoint.load t cwd path) ∧
      ∀ (store : RecordStore) package token table e old,
        (store.write t cwd package token table accepts).result = .error e →
        t.read cwd (store.path package token) = .ok old →
        (store.write t cwd package token table accepts).tree.read cwd (store.path package token) =
          .ok old := by
  refine ⟨fun path content => t.allOrNothing_replaceFile cwd path content accepts, ?_, ?_⟩
  · intro path position e old failed read
    have kept := FileTree.read_replaceFile_of_error failed read
    exact Checkpoint.load_congr (kept.trans read.symm)
  · intro store package token table e old failed read
    exact FileTree.read_replaceFile_of_error failed read

/-- A file in which the first position stands. -/
def positionTree : FileTree := ⟨[(["at"], .file (Checkpoint.content 1))], []⟩

/-- The device does not take the next position, and so the first one is loaded. -/
theorem replacements_allOrNothing_of_positionTree :
    (Checkpoint.save positionTree [] "at" 2 false).result =
        .error (.during "write temp file for at" .deviceFailed) ∧
      positionTree.read [] "at" = .ok (Checkpoint.content 1) ∧
      Checkpoint.load (Checkpoint.save positionTree [] "at" 2 false).tree [] "at" = (1, none) := by
  have failed : (Checkpoint.save positionTree [] "at" 2 false).result =
      .error (.during "write temp file for at" .deviceFailed) := by cbv
  have read : positionTree.read [] "at" = .ok (Checkpoint.content 1) := by cbv
  have kept := (replacements_allOrNothing positionTree [] false).2.1 "at" 2 _ _ failed read
  exact ⟨failed, read, kept.trans (Checkpoint.load_of_read (by decide) read)⟩

/-- A link to the directory in which it lies. -/
def linkedToItself : FileTree := ⟨[(["l"], .link ".")], []⟩

/-- A file that takes the place of a link on the way to it is not read. -/
theorem not_read_of_linkedToItself :
    (linkedToItself.replaceFile [] "l/l" (Text.encode "1") true).result = .ok () ∧
      (linkedToItself.replaceFile [] "l/l" (Text.encode "1") true).tree.read [] "l/l" =
        .error .notDirectory := by
  constructor <;> cbv

end ApiInventory.Batch
