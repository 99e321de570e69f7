import ApiInventory.Proofs.Files.Entries
import ApiInventory.Proofs.Files.Replacement
import Mathlib

/-!
# Trees as a device holds them

A tree is a list of entries. `WellFormed` says what a device sees to: no two entries are in one
place, each lies in a directory, and its name is one that an entry can have. Then an entry is in
the list exactly if it is found in its place (`mem_entries_iff`), and the names in a directory are
the names under which something is found there, each once.
-/

namespace ApiInventory.Files.FileTree

/-- No two entries of a tree are in one place. -/
def Distinct (t : FileTree) : Prop := t.entries.Pairwise fun x y => x.1 ≠ y.1

theorem mem_entries_iff {t : FileTree} (h : t.Distinct) {p : Place} (some : p ≠ []) {e : Entry} :
    (p, e) ∈ t.entries ↔ t.get? p = .some e := by
  unfold Distinct at h
  rw [get?, if_neg some]
  generalize t.entries = entries at h ⊢
  induction entries with
  | nil => simp
  | cons x rest ih =>
      obtain ⟨others, h⟩ := List.pairwise_cons.mp h
      rw [lookup_cons_if, List.mem_cons]
      by_cases here : p = x.1
      · have absent : (p, e) ∉ rest := fun member => others _ member here.symm
        subst here
        rw [if_pos rfl, Option.some.injEq, or_iff_left absent, Prod.ext_iff, eq_comm (a := e)]
        simp
      · have other : (p, e) ≠ x := by
          rintro rfl
          exact here rfl
        rw [if_neg here, ← ih h, or_iff_right other]

/-- The order of entries does not matter to what a tree holds. -/
theorem Distinct.alike_of_perm {t t' : FileTree} (h : t.Distinct)
    (same : t'.entries.Perm t.entries) (locks : t'.locked = t.locked) :
    t'.Distinct ∧ t.Alike t' := by
  have distinct : t'.Distinct := same.symm.pairwise h fun other => other.symm
  have get? : ∀ p, t'.get? p = t.get? p := by
    intro p
    by_cases top : p = []
    · rw [FileTree.get?, FileTree.get?, if_pos top, if_pos top]
    · apply Option.ext
      intro e
      rw [← mem_entries_iff distinct top, ← mem_entries_iff h top, same.mem_iff]
  refine ⟨distinct, get?, ?_⟩
  intro p
  rw [isLocked, isLocked, get?, locks]

/-- What is kept of an entry that lies below a directory. -/
theorem kept_below_iff {directory p q : Place} {e e' : Entry} :
    (match Path.stripFront? directory p with
      | some [] | none => none
      | some rest => some (rest, e)) = some (q, e') ↔ q ≠ [] ∧ p = directory ++ q ∧ e = e' := by
  cases stripped : Path.stripFront? directory p with
  | none =>
      have outside : p ≠ directory ++ q := fun same => by
        rw [Path.stripFront?_eq_some_iff.mpr same] at stripped
        cases stripped
      simp [outside]
  | some rest =>
      rw [Path.stripFront?_eq_some_iff] at stripped
      subst stripped
      cases rest with
      | nil =>
          simp only [reduceCtorEq, List.append_cancel_left_eq, List.nil_eq, false_iff]
          rintro ⟨nonempty, empty, _⟩
          exact nonempty empty
      | cons first rest =>
          simp only [Option.some.injEq, Prod.mk.injEq, List.append_cancel_left_eq]
          constructor
          · rintro ⟨rfl, same⟩
            exact ⟨List.cons_ne_nil first rest, rfl, same⟩
          · rintro ⟨_, same, entry⟩
            exact ⟨same, entry⟩

theorem mem_below_iff {t : FileTree} {directory p : Place} {e : Entry} :
    (p, e) ∈ t.below directory ↔ p ≠ [] ∧ (directory ++ p, e) ∈ t.entries := by
  rw [below, List.mem_filterMap]
  constructor
  · rintro ⟨⟨q, e'⟩, member, kept⟩
    obtain ⟨nonempty, rfl, rfl⟩ := kept_below_iff.mp kept
    exact ⟨nonempty, member⟩
  · rintro ⟨nonempty, member⟩
    exact ⟨_, member, kept_below_iff.mpr ⟨nonempty, rfl, rfl⟩⟩

/-- No two things below a directory are in one place. -/
theorem Distinct.below {t : FileTree} (h : t.Distinct) (directory : Place) :
    (t.below directory).Pairwise fun x y => x.1 ≠ y.1 := by
  rw [FileTree.below, List.pairwise_filterMap]
  apply h.imp
  rintro ⟨p, e⟩ ⟨p', e'⟩ other ⟨q, _⟩ kept ⟨q', _⟩ kept' rfl
  obtain ⟨_, rfl, _⟩ := kept_below_iff.mp kept
  obtain ⟨_, rfl, _⟩ := kept_below_iff.mp kept'
  exact other rfl

/-! ## Entries and their directories -/

/-- A tree as a device holds it: its entries are in different places, and each lies in a directory
under a name that an entry can have. -/
structure WellFormed (t : FileTree) : Prop where
  distinct : t.Distinct
  grounded : t.Grounded
  named : ∀ e ∈ t.entries, ∀ name ∈ e.1, IsEntryName name

/-- Whether a tree is well-formed can be seen from the list of its entries. -/
theorem wellFormed_of_entries {t : FileTree} (distinct : t.entries.Pairwise fun x y => x.1 ≠ y.1)
    (directories : ∀ e ∈ t.entries, t.get? e.1.dropLast = some .directory)
    (named : ∀ e ∈ t.entries, ∀ name ∈ e.1,
      name ≠ "" ∧ '/' ∉ name.toList ∧ name ≠ "." ∧ name ≠ "..") : t.WellFormed where
  distinct := distinct
  grounded := grounded_of_entries directories
  named e member name inside := by
    obtain ⟨nonempty, noSlash, noDot, noDots⟩ := named e member name inside
    exact ⟨nonempty, noSlash, noDot, noDots⟩

variable {t : FileTree} {here p : Place} {name : String}

theorem Grounded.above (grounded : t.Grounded) {q : Place} (below : q ≠ [])
    (some : t.get? (p ++ q) ≠ none) : t.get? p = .some .directory := by
  induction q using List.reverseRecOn with
  | nil => exact absurd rfl below
  | append_singleton q name ih =>
      rw [← List.append_assoc] at some
      have directory := grounded (p ++ q) name some
      by_cases last : q = []
      · rwa [last, List.append_nil] at directory
      · apply ih last
        rw [directory]
        exact Option.some_ne_none _

theorem mem_namesIn_iff :
    name ∈ t.namesIn here ↔ ∃ e, (here ++ [name], e) ∈ t.entries := by
  rw [namesIn, List.mem_filterMap]
  constructor
  · rintro ⟨⟨q, e⟩, member, kept⟩
    rcases List.eq_nil_or_concat q with rfl | ⟨above, last, rfl⟩
    · cases kept
    · rw [List.concat_eq_append] at member kept
      simp only [List.getLast?_append_cons, List.getLast?_singleton, List.dropLast_concat,
        Option.ite_none_right_eq_some, Option.some.injEq] at kept
      obtain ⟨rfl, rfl⟩ := kept
      exact ⟨e, member⟩
  · rintro ⟨e, member⟩
    exact ⟨(here ++ [name], e), member, by simp⟩

theorem Distinct.nodup_namesIn (h : t.Distinct) (here : Place) : (t.namesIn here).Nodup := by
  apply List.pairwise_filterMap.mpr
  apply h.imp
  rintro ⟨q, e⟩ ⟨q', e'⟩ other last kept last' kept' rfl
  rcases List.eq_nil_or_concat q with rfl | ⟨above, name, rfl⟩
  · cases kept
  · rcases List.eq_nil_or_concat q' with rfl | ⟨above', name', rfl⟩
    · cases kept'
    · simp at kept kept' other
      grind

theorem get?_ne_none_iff (h : t.Distinct) :
    t.get? (here ++ [name]) ≠ none ↔ name ∈ t.namesIn here := by
  rw [mem_namesIn_iff, Option.ne_none_iff_exists']
  apply exists_congr
  intro e
  rw [mem_entries_iff h (by simp)]

theorem WellFormed.isEntryName (wellFormed : t.WellFormed) {q : Place} {e : Entry}
    (there : t.get? (here ++ q) = some e) : ∀ name ∈ q, IsEntryName name := by
  intro name member
  have below : here ++ q ≠ [] := List.append_ne_nil_of_right_ne_nil here (List.ne_nil_of_mem member)
  have inside := (mem_entries_iff wellFormed.distinct below).mpr there
  exact wellFormed.named (here ++ q, e) inside name (List.mem_append_right here member)

theorem WellFormed.isEntryName_of_mem (wellFormed : t.WellFormed) (member : name ∈ t.namesIn here) :
    IsEntryName name := by
  obtain ⟨e, there⟩ :=
    Option.ne_none_iff_exists'.mp ((get?_ne_none_iff wellFormed.distinct).mpr member)
  exact wellFormed.isEntryName there name (List.mem_singleton.mpr rfl)

end ApiInventory.Files.FileTree
