import ApiInventory.Proofs.Files.Spelling
import Mathlib.Data.List.Basic

/-!
# Paths relative to others

A path that is appended to a root is found again by taking the root off, whatever the spelling of
the two (`relativeTo?_append`). Their components do not simply come one after the other, since a dot
counts in front of a path and nowhere else, but normalizing drops it in either case.

What a normalized path is can be seen from its text: the pieces between slashes that are neither
empty nor a dot, with single slashes between, or a dot if there are none (`steps_eq_names`,
`names_normalize`). So normalizing again finds the same pieces.
-/

namespace ApiInventory.Files.Path

/-- The names and double dots of a path, in their order. -/
def steps (path : String) : List String := (components path).filterMap Component.step?

/-- A piece of a normalized path. -/
structure IsSegment (piece : String) : Prop where
  nonempty : piece ≠ ""
  noDot : piece ≠ "."
  noSlash : '/' ∉ piece.toList

/-- A text is the normalized form of a path. -/
inductive IsNormalFormOf (path : String) : String → Prop
  | stays (none : steps path = []) : IsNormalFormOf path "."
  | leads (some : steps path ≠ []) (proper : ∀ piece ∈ steps path, IsSegment piece) :
      IsNormalFormOf path ("/".intercalate (steps path))

variable {root path : String}

/-! ## Steps -/

/-- A component of a piece is a step, and is spelled like it. -/
theorem step?_of_mem_inner {c : Component} {piece : List Char} (member : c ∈ inner piece) :
    c.step? = some c.text := by
  unfold inner at member
  split at member
  · cases member
  · split at member
    · obtain rfl := List.mem_singleton.mp member
      rfl
    · obtain rfl := List.mem_singleton.mp member
      rfl

theorem filterMap_step?_flatMap_inner (pieces : List (List Char)) :
    (pieces.flatMap inner).filterMap Component.step? =
      ((pieces.filter (· ≠ [])).map String.ofList).filter (· ≠ ".") := by
  rw [← text_flatMap_inner, ← List.filterMap_eq_map']
  refine List.filterMap_congr fun c member => ?_
  obtain ⟨piece, -, inside⟩ := List.mem_flatMap.mp member
  exact step?_of_mem_inner inside

/-- Neither the root nor a dot in front of a path is a step. -/
theorem steps_eq_flatMap_inner (path : String) :
    steps path = ((Text.pieces '/' path.toList).flatMap inner).filterMap Component.step? := by
  obtain ⟨first, rest, split⟩ :=
    List.exists_cons_of_ne_nil (Text.pieces_ne_nil '/' path.toList)
  rw [steps, components, componentsOf, split]
  dsimp only
  rw [List.flatMap_cons, List.filterMap_append, List.filterMap_append]
  congr 1
  by_cases absolute : path.toList.head? = some '/'
  · obtain ⟨more, spelled⟩ := List.head?_eq_some_iff.mp absolute
    rw [spelled, Text.pieces_separator] at split
    obtain ⟨rfl, -⟩ := List.cons.inj split
    rw [if_pos absolute]
    rfl
  · rw [if_neg absolute]
    by_cases dot : first = ['.']
    · subst dot
      rfl
    · rw [if_neg dot]

/-- The steps of a path are its pieces, those left out that are empty or a dot. -/
theorem steps_eq_names (path : String) : steps path = (names path.toList).filter (· ≠ ".") := by
  rw [steps_eq_flatMap_inner, filterMap_step?_flatMap_inner, names]

theorem steps_eq_pieces (path : String) :
    steps path =
      ((Text.pieces '/' path.toList).map String.ofList).filter fun s => s ≠ "" ∧ s ≠ "." := by
  rw [steps_eq_names, names, List.filter_map, List.filter_map, List.filter_filter]
  congr 1
  refine List.filter_congr fun piece _ => ?_
  simp [Bool.and_comm]

theorem isSegment_of_mem_steps {piece : String} (member : piece ∈ steps path) :
    IsSegment piece := by
  rw [steps_eq_names, names] at member
  simp only [List.mem_filter, List.mem_map, decide_eq_true_eq] at member
  obtain ⟨⟨text, ⟨inside, some⟩, rfl⟩, noDot⟩ := member
  refine ⟨by simpa using some, noDot, ?_⟩
  rw [String.toList_ofList]
  exact Text.not_mem_of_mem_pieces inside

/-! ## Normalized paths -/

theorem normalize_eq (path : String) : normalize path = joinSteps (steps path) := rfl

theorem joinSteps_eq_intercalate {pieces : List String} (some : pieces ≠ []) :
    joinSteps pieces = "/".intercalate pieces := by
  apply String.toList_injective
  rw [joinSteps, if_neg (by simpa using some), String.toList_ofList, String.toList_intercalate,
    Text.join_eq_intercalate]
  rfl

theorem isNormalFormOf_normalize (path : String) : IsNormalFormOf path (normalize path) := by
  rw [normalize_eq]
  by_cases none : steps path = []
  · rw [none]
    exact .stays none
  · rw [joinSteps_eq_intercalate none]
    exact .leads none fun piece => isSegment_of_mem_steps

/-- Steps that are joined are the pieces of the path that they make. -/
theorem names_joinSteps {pieces : List String} (some : pieces ≠ [])
    (proper : ∀ piece ∈ pieces, IsSegment piece) : names (joinSteps pieces).toList = pieces := by
  have clean : ∀ text ∈ pieces.map String.toList, '/' ∉ text := by
    intro text member
    obtain ⟨piece, inside, rfl⟩ := List.mem_map.mp member
    exact (proper piece inside).noSlash
  have kept : (pieces.map String.toList).filter (· ≠ []) = pieces.map String.toList := by
    rw [List.filter_eq_self]
    intro text member
    obtain ⟨piece, inside, rfl⟩ := List.mem_map.mp member
    simpa using (proper piece inside).nonempty
  rw [names, joinSteps, if_neg (by simpa using some), String.toList_ofList,
    Text.pieces_join (by simpa using some) clean, kept]
  simp

theorem steps_normalize (path : String) : steps (normalize path) = steps path := by
  rw [normalize_eq]
  by_cases none : steps path = []
  · rw [none]
    rfl
  · have proper : ∀ piece ∈ steps path, IsSegment piece := fun piece => isSegment_of_mem_steps
    rw [steps_eq_names (joinSteps (steps path)), names_joinSteps none proper, List.filter_eq_self]
    intro piece member
    simpa using (proper piece member).noDot

theorem normalize_normalize (path : String) : normalize (normalize path) = normalize path := by
  rw [normalize_eq (normalize path), steps_normalize, normalize_eq]

/-! ## Taking the root off -/

theorem relativeTo?_eq_none_iff :
    relativeTo? root path = none ↔ ¬components root <+: components path := by
  rw [relativeTo?, Option.map_eq_none_iff, Option.eq_none_iff_forall_ne_some]
  simp only [ne_eq, stripFront?_eq_some_iff]
  constructor
  · rintro apart ⟨rest, split⟩
    exact apart rest split.symm
  · rintro apart rest split
    exact apart ⟨rest, split.symm⟩

theorem relativeTo?_append (root : String) (relative : isAbsolute path = false) :
    relativeTo? root (append root path) = some (normalize path) := by
  by_cases bare : root = ""
  · subst bare
    rw [append_empty]
    rfl
  · have stripped := stripFront?_eq_some_iff.mpr (components_append_relative bare relative)
    rw [relativeTo?, stripped, Option.map_some, normalizeComponents, ← steps_eq_flatMap_inner,
      normalize_eq]

/-- **Normalizing undoes joining.** A path that is appended to a root comes back normalized when the
root is taken off, whatever the two are spelled like. A root cannot be taken off a path exactly if
the components of the path do not begin with those of the root. A normalized path stays as it is
when it is normalized, and it is a dot or the names and double dots of the path in their order, with
single slashes between. These are the pieces between the slashes of its text, without those that are
empty or a dot. -/
theorem relative_paths :
    (∀ root path, isAbsolute path = false →
      relativeTo? root (append root path) = some (normalize path)) ∧
    (∀ root path, relativeTo? root path = none ↔ ¬components root <+: components path) ∧
    (∀ path, normalize (normalize path) = normalize path) ∧
    (∀ path, IsNormalFormOf path (normalize path)) ∧
    ∀ path, steps path =
      ((Text.pieces '/' path.toList).map String.ofList).filter fun s => s ≠ "" ∧ s ≠ "." := by
  exact ⟨fun root path => relativeTo?_append root, fun root path => relativeTo?_eq_none_iff,
    normalize_normalize, isNormalFormOf_normalize, steps_eq_pieces⟩

/-- A path with dots and slashes to spare, appended to a root that has some of its own. -/
theorem relative_paths_of_loose_spelling :
    isAbsolute "./../b//./c/" = false ∧
      relativeTo? "./a//" (append "./a//" "./../b//./c/") = some "../b/c" := by
  have relative : isAbsolute "./../b//./c/" = false := by decide
  have normalized : normalize "./../b//./c/" = "../b/c" := by decide
  have taken := relative_paths.1 "./a//" "./../b//./c/" relative
  exact ⟨relative, normalized ▸ taken⟩

end ApiInventory.Files.Path
