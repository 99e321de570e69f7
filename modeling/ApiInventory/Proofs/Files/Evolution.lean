import ApiInventory.Proofs.Files.Walk

/-!
# How trees evolve

`Evolves` says what making directories and replacing files can do to a tree: nothing
that was there goes away, links are never made, and a file appears only where it may. It is
reflexive and transitive, so that it holds along every run once it holds of each step.

A path that leads somewhere goes on leading there as long as no link on its way gives way to
a file (`Leads.evolve`). A new file never opens a way to anything but itself (`Leads.before_file`).
-/

namespace ApiInventory.Files.FileTree

/-- A tree after changes that take nothing away. Directories stay, and new ones are made only
where nothing was. A file is put, in place of anything but a directory, only where it `may`
be. No link is made, and nothing is locked. -/
structure Evolves (may : Place → Prop) (t t' : FileTree) : Prop where
  entry : ∀ p, t'.get? p = t.get? p ∨
    (may p ∧ t.get? p ≠ some .directory ∧ ∃ content, t'.get? p = some (.file content)) ∨
    (t.get? p = none ∧ t'.get? p = some .directory)
  unlocked : ∀ p, t.isLocked p = false → t'.isLocked p = false

namespace Evolves

variable {may may' : Place → Prop} {t t' t'' : FileTree} {p : Place}

protected theorem refl (may : Place → Prop) (t : FileTree) : t.Evolves may t :=
  ⟨fun _ => .inl rfl, fun _ h => h⟩

protected theorem mono (h : t.Evolves may t') (wider : ∀ p, may p → may' p) :
    t.Evolves may' t' := by
  refine ⟨fun p => ?_, h.unlocked⟩
  rcases h.entry p with same | ⟨allowed, change⟩ | made
  · exact .inl same
  · exact .inr (.inl ⟨wider p allowed, change⟩)
  · exact .inr (.inr made)

theorem directory (h : t.Evolves may t') (entry : t.get? p = some .directory) :
    t'.get? p = some .directory := by
  rcases h.entry p with same | ⟨_, other, _⟩ | ⟨missing, _⟩
  · rw [same, entry]
  · exact absurd entry other
  · simp [missing] at entry

theorem file (h : t.Evolves may t') {content : ByteArray}
    (entry : t.get? p = some (.file content)) : ∃ content', t'.get? p = some (.file content') := by
  rcases h.entry p with same | ⟨_, _, put⟩ | ⟨missing, _⟩
  · exact ⟨content, by rw [same, entry]⟩
  · exact put
  · simp [missing] at entry

/-- A link that is there was there before. -/
theorem link_before (h : t.Evolves may t') {target : String}
    (entry : t'.get? p = some (.link target)) : t.get? p = some (.link target) := by
  rcases h.entry p with same | ⟨_, _, _, put⟩ | ⟨_, made⟩
  · rw [← same, entry]
  · simp [put] at entry
  · simp [made] at entry

/-- A link stays, or it gives way to a file. -/
theorem link_after (h : t.Evolves may t') {target : String}
    (entry : t.get? p = some (.link target)) :
    t'.get? p = some (.link target) ∨ may p ∧ ∃ content, t'.get? p = some (.file content) := by
  rcases h.entry p with same | ⟨allowed, _, put⟩ | ⟨missing, _⟩
  · exact .inl (by rw [same, entry])
  · exact .inr ⟨allowed, put⟩
  · simp [missing] at entry

/-- Where no file may be put, the files are the same. -/
theorem file_iff (h : t.Evolves may t') (kept : ¬may p) {content : ByteArray} :
    t'.get? p = some (.file content) ↔ t.get? p = some (.file content) := by
  rcases h.entry p with same | ⟨allowed, _⟩ | ⟨missing, made⟩
  · rw [same]
  · exact absurd allowed kept
  · simp [missing, made]

protected theorem trans (first : t.Evolves may t') (second : t'.Evolves may t'') :
    t.Evolves may t'' := by
  refine ⟨fun p => ?_, fun p h => second.unlocked p (first.unlocked p h)⟩
  rcases second.entry p with same | ⟨allowed, other, put⟩ | ⟨missing, made⟩
  · rw [same]
    exact first.entry p
  · have before : t.get? p ≠ some .directory := fun entry => other (first.directory entry)
    exact .inr (.inl ⟨allowed, before, put⟩)
  · rcases first.entry p with same | ⟨_, _, _, put⟩ | ⟨_, there⟩
    · exact .inr (.inr ⟨by rw [← same, missing], made⟩)
    · simp [put] at missing
    · simp [there] at missing

end Evolves

/-- A tree without symbolic links. -/
def NoLinks (t : FileTree) : Prop := ∀ p target, t.get? p ≠ some (.link target)

theorem noLinks_empty : (∅ : FileTree).NoLinks := by
  intro p target
  change get? empty p ≠ _
  unfold get? empty
  split <;> simp

theorem noLinks_of_entries {t : FileTree} (plain : ∀ e ∈ t.entries, ∀ target, e.2 ≠ .link target) :
    t.NoLinks := by
  intro p target link
  unfold get? at link
  split at link
  · cases link
  · obtain ⟨before, after, split, -⟩ := List.lookup_eq_some_iff.mp link
    exact plain (p, .link target) (by simp [split]) target rfl

theorem Evolves.noLinks {may : Place → Prop} {t t' : FileTree} (h : t.Evolves may t')
    (noLinks : t.NoLinks) : t'.NoLinks :=
  fun p target link => noLinks p target (h.link_before link)

/-- Something that holds of a tree and of all that it can evolve into. -/
def Always (may : Place → Prop) (t : FileTree) (holds : FileTree → Prop) : Prop :=
  ∀ t', t.Evolves may t' → holds t'

namespace Always

variable {may : Place → Prop} {t t' : FileTree} {holds : FileTree → Prop}

theorem now (h : t.Always may holds) : holds t := h t (.refl may t)

theorem later (h : t.Always may holds) (evolution : t.Evolves may t') : t'.Always may holds :=
  fun t'' onward => h t'' (evolution.trans onward)

end Always

variable {may : Place → Prop} {t t' : FileTree} {p q : Place}

theorem ne_nil_of_get?_eq_none (h : t.get? p = none) : p ≠ [] := by
  rintro rfl
  simp [get?] at h

theorem ne_nil_of_get?_ne_directory (h : t.get? p ≠ some .directory) : p ≠ [] := by
  rintro rfl
  simp [get?] at h

theorem isLocked_eq_false_of_get?_eq_none (h : t.get? p = none) : t.isLocked p = false := by
  simp [isLocked, h]

theorem isLocked_eq_false_of_link {target : String} (h : t.get? p = some (.link target)) :
    t.isLocked p = false := by
  simp [isLocked, h]

theorem get?_set_of_ne {e : Entry} (ne : p ≠ []) (other : q ≠ p) :
    (t.set p e).get? q = t.get? q := by
  rw [get?_set _ _ _ _ ne, if_neg other]

theorem isLocked_set_of_ne {e : Entry} (ne : p ≠ []) (other : q ≠ p) :
    (t.set p e).isLocked q = t.isLocked q := by
  rw [isLocked_set _ _ _ _ ne, if_neg other]

theorem isLocked_set_of_unlocked {e : Entry} (ne : p ≠ []) (unlocked : t.isLocked q = false) :
    (t.set p e).isLocked q = false := by
  rw [isLocked_set _ _ _ _ ne, unlocked, ite_self]

/-- What is there stays when something new is put. -/
theorem get?_set_missing (missing : t.get? p = none) (e : Entry) {there : Entry}
    (h : t.get? q = some there) : (t.set p e).get? q = some there := by
  have other : q ≠ p := by
    rintro rfl
    simp [missing] at h
  rw [get?_set_of_ne (ne_nil_of_get?_eq_none missing) other, h]

theorem evolves_set_directory (missing : t.get? p = none) :
    t.Evolves may (t.set p .directory) := by
  have ne := ne_nil_of_get?_eq_none missing
  constructor
  · intro q
    by_cases here : q = p
    · subst here
      exact .inr (.inr ⟨missing, by simp [ne]⟩)
    · exact .inl (get?_set_of_ne ne here)
  · exact fun q => isLocked_set_of_unlocked ne

theorem evolves_set_file {content : ByteArray} (allowed : may p)
    (noDirectory : t.get? p ≠ some .directory) : t.Evolves may (t.set p (.file content)) := by
  have ne := ne_nil_of_get?_ne_directory noDirectory
  constructor
  · intro q
    by_cases here : q = p
    · subst here
      exact .inr (.inl ⟨allowed, noDirectory, content, by simp [ne]⟩)
    · exact .inl (get?_set_of_ne ne here)
  · exact fun q => isLocked_set_of_unlocked ne

namespace Leads

variable {follow follow' : Bool} {links links' : Nat} {here : Place} {steps : List String}

/-- A way stays open while the tree evolves, if no link gives way to a file. -/
theorem evolve (h : t.Leads follow links here steps p) (evolution : t.Evolves may t')
    (kept : ∀ q target, t.get? q = some (.link target) → t'.get? q = some (.link target)) :
    t'.Leads follow links here steps p := by
  induction h with
  | here => exact .here
  | current _ ih => exact .current ih
  | parent _ ih => exact .parent ih
  | directory name unlocked entry _ ih =>
      exact .directory name (evolution.unlocked _ unlocked) (evolution.directory entry) ih
  | @last links here s name unlocked noDirectory noLink =>
      have unlocked := evolution.unlocked _ unlocked
      by_cases made : t'.get? (here ++ [s]) = some .directory
      · exact .directory name unlocked made .here
      · exact .last name unlocked made fun target entry =>
          noLink target (evolution.link_before entry)
  | unfollowed name unlocked entry stays =>
      exact .unfollowed name (evolution.unlocked _ unlocked) (kept _ _ entry) stays
  | followed name unlocked entry goes nonempty _ ih =>
      exact .followed name (evolution.unlocked _ unlocked) (kept _ _ entry) goes nonempty ih

/-- What is found past a new file was found before it: the way to anything else does not touch
it. To the file itself there was a way already, unless something else gave way to it. -/
theorem before_file {content : ByteArray} (ne : q ≠ []) (unlocked : t.isLocked q = false)
    (h : (t.set q (.file content)).Leads follow links here steps p)
    (fresh : p = q → t.get? q = none) : t.Leads follow links here steps p := by
  have isLocked_of {r : Place} (h : (t.set q (.file content)).isLocked r = false) :
      t.isLocked r = false := by
    rw [isLocked_set t q r _ ne] at h
    split at h
    · simp_all
    · exact h
  induction h with
  | here => exact .here
  | current _ ih => exact .current (ih fresh)
  | parent _ ih => exact .parent (ih fresh)
  | directory name free entry _ ih =>
      rw [get?_set t q _ _ ne] at entry
      split at entry
      · cases entry
      · exact .directory name (isLocked_of free) entry (ih fresh)
  | last name free noDirectory noLink =>
      rw [get?_set t q _ _ ne] at noDirectory noLink
      split at noLink
      · rename_i same
        have missing := fresh same
        exact .last name (isLocked_of free) (by simp [same, missing]) (by simp [same, missing])
      · rename_i other
        exact .last name (isLocked_of free) (by simpa [other] using noDirectory) noLink
  | unfollowed name free entry stays =>
      rw [get?_set t q _ _ ne] at entry
      split at entry
      · cases entry
      · exact .unfollowed name (isLocked_of free) entry stays
  | followed name free entry goes nonempty _ ih =>
      rw [get?_set t q _ _ ne] at entry
      split at entry
      · cases entry
      · exact .followed name (isLocked_of free) entry goes nonempty (ih fresh)

/-- An entry of a directory is found by the way to the directory and its own name, or not at
all, whatever has become of links on that way. -/
theorem entry_of_directory {s : String} (h : t.Leads true links here steps p)
    (directory : t.get? p = some .directory) (evolution : t.Evolves may t') (name : IsName s)
    (found : t'.Leads false links' here (steps ++ [s]) q) :
    q = p ++ [s] ∧ t'.isLocked p = false := by
  induction h generalizing links' with
  | here => exact found.of_last_name name
  | current _ ih => exact ih directory (leads_current_iff.mp found)
  | parent _ ih => exact ih directory (leads_parent_iff.mp found)
  | directory name' _ entry _ ih =>
      rcases (found.of_name name' (by simp)).2 with ⟨_, onward⟩ | ⟨_, _, link, _⟩
      · exact ih directory onward
      · simp [evolution.directory entry] at link
  | last _ _ noDirectory => exact absurd directory noDirectory
  | unfollowed _ _ _ stays => cases stays
  | followed name' _ entry _ _ _ ih =>
      rw [List.cons_append] at found
      rcases (found.of_name name' (by simp)).2 with ⟨made, _⟩ | ⟨_, target', link, onward⟩
      · rcases evolution.link_after entry with same | ⟨_, _, file⟩
        · simp [same] at made
        · simp [file] at made
      · have same := evolution.link_before link
        rw [entry] at same
        cases same
        rw [← List.append_assoc] at onward
        exact ih directory onward

/-- A way that led to a directory is open at any time before an entry of the directory is found:
a link on the way that has given way to a file stays closed. -/
theorem open_before_entry {may' : Place → Prop} {t'' : FileTree} {s : String}
    (h : t.Leads true links here steps p) (directory : t.get? p = some .directory)
    (evolution : t.Evolves may t') (onward : t'.Evolves may' t'')
    (found : t''.Leads false links' here (steps ++ [s]) q) : t'.Leads true links here steps p := by
  induction h generalizing links' with
  | here => exact .here
  | current _ ih => exact .current (ih directory (leads_current_iff.mp found))
  | parent _ ih => exact .parent (ih directory (leads_parent_iff.mp found))
  | directory name' unlocked entry _ ih =>
      have entry' := evolution.directory entry
      refine .directory name' (evolution.unlocked _ unlocked) entry' ?_
      rcases (found.of_name name' (by simp)).2 with ⟨_, further⟩ | ⟨_, _, link, _⟩
      · exact ih directory further
      · simp [onward.directory entry'] at link
  | last _ _ noDirectory => exact absurd directory noDirectory
  | unfollowed _ _ _ stays => cases stays
  | followed name' unlocked entry goes nonempty _ ih =>
      rw [List.cons_append] at found
      have kept := (found.of_name name' (by simp)).2
      rcases evolution.link_after entry with same | ⟨_, _, file⟩
      · refine .followed name' (evolution.unlocked _ unlocked) same goes nonempty ?_
        rcases kept with ⟨made, _⟩ | ⟨_, target', link, further⟩
        · rcases onward.link_after same with link | ⟨_, _, file⟩
          · simp [link] at made
          · simp [file] at made
        · have before := onward.link_before link
          rw [same] at before
          cases before
          rw [← List.append_assoc] at further
          exact ih directory further
      · obtain ⟨_, file⟩ := onward.file file
        rcases kept with ⟨made, _⟩ | ⟨_, _, link, _⟩
        · simp [file] at made
        · simp [file] at link

/-- Where no links are, a path leads to one place at most, whatever directories there are. -/
theorem unique {follow' : Bool} (noLinks : t.NoLinks) (noLinks' : t'.NoLinks)
    (h : t.Leads follow links here steps p) (h' : t'.Leads follow' links' here steps q) :
    p = q := by
  induction h generalizing links' with
  | here =>
      cases h'
      rfl
  | current _ ih => exact ih (leads_current_iff.mp h')
  | parent _ ih => exact ih (leads_parent_iff.mp h')
  | directory name _ _ onward ih =>
      cases h' with
      | current | parent => simp [IsName] at name
      | directory _ _ _ onward' => exact ih onward'
      | last =>
          cases onward
          rfl
      | unfollowed _ _ link | followed _ _ link => exact absurd link (noLinks' _ _)
  | last name =>
      cases h' with
      | current | parent => simp [IsName] at name
      | directory _ _ _ onward' =>
          cases onward'
          rfl
      | last => rfl
      | unfollowed _ _ link | followed _ _ link => exact absurd link (noLinks' _ _)
  | unfollowed _ _ link | followed _ _ link => exact absurd link (noLinks _ _)

/-- The way to an entry of a directory. -/
theorem append_name {s : String} (h : t.Leads true links here steps p)
    (directory : t.get? p = some .directory) (unlocked : t.isLocked p = false) (name : IsName s) :
    t.Leads false links here (steps ++ [s]) (p ++ [s]) := by
  induction h with
  | @here links here =>
      cases entry : t.get? (here ++ [s]) with
      | none => exact .last name unlocked (by simp [entry]) (by simp [entry])
      | some e =>
          cases e with
          | file => exact .last name unlocked (by simp [entry]) (by simp [entry])
          | directory => exact .directory name unlocked entry .here
          | link target => exact .unfollowed name unlocked entry rfl
  | current _ ih => exact .current (ih directory unlocked)
  | parent _ ih => exact .parent (ih directory unlocked)
  | directory name' free entry _ ih => exact .directory name' free entry (ih directory unlocked)
  | last _ _ noDirectory => exact absurd directory noDirectory
  | unfollowed _ _ _ stays => cases stays
  | followed name' free entry _ nonempty _ ih =>
      have onward := ih directory unlocked
      rw [List.append_assoc] at onward
      rw [List.cons_append]
      exact .followed name' free entry (.inr (by simp)) nonempty onward

end Leads

/-- Where no links are, a directory is found as long as the tree evolves. -/
theorem Evolves.find_directory {cwd : Place} {path : String} (h : t.Evolves may t')
    (noLinks : t.NoLinks) (found : t.find cwd path = .ok (p, .directory)) :
    t'.find cwd path = .ok (p, .directory) := by
  obtain ⟨located, entry⟩ := find_eq_ok_iff.mp found
  obtain ⟨nonempty, leads⟩ := locate_eq_ok_iff.mp located
  have leads' := leads.evolve h fun q target link => absurd link (noLinks q target)
  exact find_eq_ok_iff.mpr ⟨locate_eq_ok_iff.mpr ⟨nonempty, leads'⟩, h.directory entry⟩

section NewFile

variable {cwd : Place} {path : String} {content : ByteArray} (missing : t.get? q = none)
include missing

/-- Directories are found past a new file as they were before it. -/
theorem find_set_missing_iff :
    (t.set q (.file content)).find cwd path = .ok (p, .directory) ↔
      t.find cwd path = .ok (p, .directory) := by
  have ne := ne_nil_of_get?_eq_none missing
  have evolution : t.Evolves (fun _ => True) (t.set q (.file content)) :=
    evolves_set_file trivial (by simp [missing])
  rw [find_eq_ok_iff, find_eq_ok_iff, locate_eq_ok_iff, locate_eq_ok_iff]
  constructor
  · rintro ⟨⟨nonempty, leads⟩, directory⟩
    rw [get?_set _ _ _ _ ne] at directory
    split at directory
    · cases directory
    · have unlocked := isLocked_eq_false_of_get?_eq_none missing
      exact ⟨⟨nonempty, leads.before_file ne unlocked fun _ => missing⟩, directory⟩
  · rintro ⟨⟨nonempty, leads⟩, directory⟩
    refine ⟨⟨nonempty, leads.evolve evolution fun r target link => ?_⟩,
      evolution.directory directory⟩
    have other : r ≠ q := by
      rintro rfl
      simp [missing] at link
    rw [get?_set_of_ne ne other, link]

theorem isDirectory_set_missing :
    (t.set q (.file content)).isDirectory cwd path = t.isDirectory cwd path := by
  rw [Bool.eq_iff_iff, isDirectory_eq_true_iff, isDirectory_eq_true_iff]
  refine exists_congr fun r => ?_
  rw [← find_eq_ok_iff, ← find_eq_ok_iff]
  exact find_set_missing_iff missing

end NewFile

end ApiInventory.Files.FileTree
