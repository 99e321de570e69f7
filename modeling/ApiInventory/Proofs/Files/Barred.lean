import ApiInventory.Proofs.Files.Replacement
import ApiInventory.Proofs.Files.Spelling

/-!
# Ways that are barred

A file may take the place of a symbolic link that paths are followed through. From then on these
paths come upon the file and lead no further: they are `Barred`, and since files stay, they are
barred for good (`Barred.evolve`).

Behind a file there is nothing, neither to find nor to replace. An attempt to make the directories of
a barred path fails before it has made any (`makeDirectories_of_barred`).
-/

namespace ApiInventory.Files.FileTree

/-- A walk through directories and links comes upon a file, at its last step or before. -/
inductive Barred (t : FileTree) : Nat → Place → List String → Prop
  | current {links : Nat} {here : Place} {rest : List String}
      (onward : Barred t links here rest) : Barred t links here ("." :: rest)
  | parent {links : Nat} {here : Place} {rest : List String}
      (onward : Barred t links here.dropLast rest) : Barred t links here (".." :: rest)
  | directory {links : Nat} {here : Place} {s : String} {rest : List String}
      (name : IsName s) (unlocked : t.isLocked here = false)
      (entry : t.get? (here ++ [s]) = some .directory)
      (onward : Barred t links (here ++ [s]) rest) : Barred t links here (s :: rest)
  | file {links : Nat} {here : Place} {s : String} {content : ByteArray} {rest : List String}
      (name : IsName s) (unlocked : t.isLocked here = false)
      (entry : t.get? (here ++ [s]) = some (.file content)) : Barred t links here (s :: rest)
  | link {links : Nat} {here : Place} {s target : String} {rest : List String}
      (name : IsName s) (unlocked : t.isLocked here = false)
      (entry : t.get? (here ++ [s]) = some (.link target)) (nonempty : target ≠ "")
      (onward : Barred t links (linkBase here target) (pathSteps target ++ rest)) :
      Barred t (links + 1) here (s :: rest)

namespace Barred

variable {t t' : FileTree} {links : Nat} {here : Place} {steps steps' more : List String}

/-- A way that is barred stays barred. -/
theorem evolve {may : Place → Prop} (h : t.Barred links here steps) (evolution : t.Evolves may t') :
    t'.Barred links here steps := by
  induction h with
  | current _ ih => exact .current ih
  | parent _ ih => exact .parent ih
  | directory name unlocked entry _ ih =>
      exact .directory name (evolution.unlocked _ unlocked) (evolution.directory entry) ih
  | file name unlocked entry =>
      obtain ⟨_, entry⟩ := evolution.file entry
      exact .file name (evolution.unlocked _ unlocked) entry
  | link name unlocked entry nonempty _ ih =>
      have unlocked := evolution.unlocked _ unlocked
      rcases evolution.link_after entry with same | ⟨_, _, file⟩
      · exact .link name unlocked same nonempty ih
      · exact .file name unlocked file

/-- Nothing lies behind a way that is barred. -/
theorem walk_append (follow : Bool) (h : t.Barred links here steps) (some : more ≠ []) :
    t.walk follow links here (steps ++ more) = .error .notDirectory := by
  induction h with
  | current _ ih => simpa [walk] using ih
  | parent _ ih => simpa [walk] using ih
  | directory name unlocked entry _ ih =>
      rw [List.cons_append, walk, if_neg name.1, if_neg name.2]
      simpa [unlocked, entry] using ih
  | file name unlocked entry =>
      rw [List.cons_append, walk, if_neg name.1, if_neg name.2]
      simp [unlocked, entry, some]
  | link name unlocked entry nonempty _ ih =>
      rw [List.append_assoc] at ih
      rw [List.cons_append, walk, if_neg name.1, if_neg name.2]
      simpa [unlocked, entry, some, nonempty, linkBase] using ih

/-- A way that is barred leads to no directory. -/
theorem walk_cases (follow : Bool) (h : t.Barred links here steps) :
    t.walk follow links here steps = .error .notDirectory ∨
      ∃ p e, t.walk follow links here steps = .ok p ∧ t.get? p = some e ∧ e ≠ .directory := by
  induction h with
  | current _ ih => simpa [walk] using ih
  | parent _ ih => simpa [walk] using ih
  | directory name unlocked entry _ ih =>
      rw [walk, if_neg name.1, if_neg name.2]
      simpa [unlocked, entry] using ih
  | @file _ _ _ _ rest name unlocked entry =>
      rw [walk, if_neg name.1, if_neg name.2]
      by_cases final : rest = []
      · exact .inr ⟨_, _, by simp [unlocked, entry, final], entry, by simp⟩
      · exact .inl (by simp [unlocked, entry, final])
  | @link _ _ _ _ rest name unlocked entry nonempty _ ih =>
      rw [walk, if_neg name.1, if_neg name.2]
      by_cases stays : (decide (rest = []) && !follow) = true
      · exact .inr ⟨_, _, by simp [unlocked, entry, stays], entry, by simp⟩
      · simpa [unlocked, entry, stays, nonempty, linkBase] using ih

theorem dots_append {dots : List String} (all : ∀ s ∈ dots, s = ".")
    (h : t.Barred links here steps) : t.Barred links here (dots ++ steps) := by
  induction dots with
  | nil => exact h
  | cons s dots ih =>
      obtain rfl := all s (by simp)
      exact .current (ih fun s member => all s (List.mem_cons_of_mem _ member))

/-- Dots on the way do not matter. -/
theorem of_filter_eq (h : t.Barred links here steps)
    (same : steps.filter (· ≠ ".") = steps'.filter (· ≠ ".")) : t.Barred links here steps' := by
  induction h generalizing steps' with
  | current _ ih => exact ih (by simpa using same)
  | parent _ ih =>
      obtain ⟨dots, rest', rfl, all, same⟩ := split_of_filter_eq (by decide) same
      exact dots_append all (.parent (ih same))
  | directory name unlocked entry _ ih =>
      obtain ⟨dots, rest', rfl, all, same⟩ := split_of_filter_eq name.1 same
      exact dots_append all (.directory name unlocked entry (ih same))
  | file name unlocked entry =>
      obtain ⟨dots, rest', rfl, all, same⟩ := split_of_filter_eq name.1 same
      exact dots_append all (.file name unlocked entry)
  | link name unlocked entry nonempty _ ih =>
      obtain ⟨dots, rest', rfl, all, same⟩ := split_of_filter_eq name.1 same
      refine dots_append all (.link name unlocked entry nonempty (ih ?_))
      rw [List.filter_append, List.filter_append, same]

end Barred

variable {t : FileTree} {cwd : Place} {path : String}

/-- A path that is barred is no directory and cannot be made one. -/
theorem makeDirectory_of_barred (nonempty : path ≠ "")
    (bare : path = "/" ∨ Path.hasTrailingSlash path = false)
    (shut : t.Barred linkLimit (pathBase cwd path) (pathSteps path)) :
    t.isDirectory cwd path = false ∧
      (t.makeDirectory cwd path = .error .notDirectory ∨
        t.makeDirectory cwd path = .error .alreadyExists) := by
  have locate_eq (follow : Bool) : t.locate cwd path follow =
      t.walk follow linkLimit (pathBase cwd path) (pathSteps path) := by
    rw [locate, if_neg nonempty, pathBase]
  constructor
  · unfold isDirectory find
    rw [locate_eq]
    rcases shut.walk_cases true with stopped | ⟨p, e, led, entry, other⟩
    · simp [stopped]
    · rw [led]
      simp only [entry]
      cases e <;> simp_all
  · rcases bare with rfl | bare
    · exact .inr (by simp [makeDirectory])
    · unfold makeDirectory
      rw [Path.ofList_dropWhile_of_bare bare, if_neg nonempty, if_neg nonempty, locate_eq]
      rcases shut.walk_cases false with stopped | ⟨p, e, led, entry, -⟩
      · exact .inl (by simp [stopped])
      · exact .inr (by simp [led, entry])

/-- Where the way is barred, no directory is made. -/
theorem makeDirectories_of_barred (nonempty : path ≠ "")
    (shut : t.Barred linkLimit (pathBase cwd path) (pathSteps path)) :
    ∃ e, t.makeDirectories cwd (Path.components path) = ⟨t, .error e⟩ := by
  obtain ⟨base, spelled⟩ := Path.ofComponents_front nonempty
  have shut := shut.of_filter_eq (Path.pathSteps_ofComponents path).symm
  rw [pathBase, ← base] at shut
  obtain ⟨noDirectory, failed⟩ :=
    makeDirectory_of_barred spelled (Path.getLast?_ofComponents path) shut
  rw [makeDirectories, makeDirectoriesAs, if_neg (Path.components_ne_nil nonempty)]
  rcases failed with failed | failed
  · exact ⟨.notDirectory, by simp [failed, noDirectory]⟩
  · exact ⟨.alreadyExists, by simp [failed, noDirectory]⟩

end ApiInventory.Files.FileTree
