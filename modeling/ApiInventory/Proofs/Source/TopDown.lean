import ApiInventory.Proofs.Source.Walk
import ApiInventory.Proofs.Text.ByteOrder

/-!
# The walk from the top down

`topDown` walks a tree as one would by hand: the source files of a directory come first, by name,
and then what lies in its subdirectories, one after the other, by name. The sources of a package
are listed by sorting all of them once, by a key. Both give the same list (`topDown_ascends` and
`Listing.unique`): the key of a file begins with its directories, so that it never gets between
the files of another directory.

A walk may come upon the entries of a package in any order, and what it comes upon are paths that
begin with the root as it was spelled. `scan?` takes that root off and sorts what is left, and
`scan?_eq` says that this never fails and gives the same list, whatever the order was.
-/

namespace ApiInventory

open Files (FileTree Place Entry)

namespace Files.FileTree

/-- A way down from a directory on which every directory can be entered. A link is no directory. -/
inductive Descends (t : FileTree) : Place → Place → Prop
  | stay {here : Place} : Descends t here []
  | down {here p : Place} {name : String} (directory : t.get? here = some .directory)
      (unlocked : t.isLocked here = false) (onward : Descends t (here ++ [name]) p) :
      Descends t here (name :: p)

end Files.FileTree

namespace Source

/-! ## Walking by hand -/

/-- Names in the order of their bytes. -/
def byBytes (a b : String) : Bool := decide (Text.bytes a ≤ Text.bytes b)

theorem le_of_byBytes {a b : String} (h : byBytes a b = true) : a ≤ b := by
  by_contra after
  have lt : Text.bytes b < Text.bytes a := Text.bytes_lt_bytes (not_le.mp after)
  exact absurd (of_decide_eq_true h) (List.not_le.mpr lt)

theorem ascending_mergeSort {names : List String} (nodup : names.Nodup) :
    (names.mergeSort byBytes).Pairwise (· < ·) := by
  have sorted : (names.mergeSort byBytes).Pairwise fun a b => byBytes a b = true := by
    apply List.pairwise_mergeSort
    · intro a b c before after
      simp only [byBytes, decide_eq_true_eq] at before after ⊢
      exact List.le_trans before after
    · intro a b
      simp only [byBytes, Bool.or_eq_true, decide_eq_true_eq]
      exact List.le_total _ _
  have distinct := (List.mergeSort_perm names byBytes).nodup_iff.mpr nodup
  apply (sorted.and distinct).imp
  rintro a b ⟨before, other⟩
  exact lt_of_le_of_ne (le_of_byBytes before) other

/-- The source files of one directory. -/
def ownSources (t : FileTree) (here : Place) : List String :=
  ((t.namesIn here).filter fun name =>
    match t.get? (here ++ [name]) with
    | some (.file _) => Files.isSourceFile name
    | _ => false).mergeSort byBytes

def subdirectories (t : FileTree) (here : Place) : List String :=
  ((t.namesIn here).filter fun name => t.get? (here ++ [name]) = some .directory).mergeSort byBytes

/-- No entry lies deeper than this. -/
def depth (t : FileTree) : Nat := (t.entries.map fun e => e.1.length).sum

theorem length_le_depth {t : FileTree} {e : Place × Entry} (member : e ∈ t.entries) :
    e.1.length ≤ depth t :=
  List.le_sum_of_mem (List.mem_map_of_mem member)

theorem length_lt_depth {t : FileTree} {here : Place} {name : String}
    (member : name ∈ subdirectories t here) : here.length < depth t := by
  rw [subdirectories, (List.mergeSort_perm _ _).mem_iff, List.mem_filter] at member
  obtain ⟨e, entry⟩ := FileTree.mem_namesIn_iff.mp member.1
  have deep := length_le_depth entry
  rw [List.length_append, List.length_singleton] at deep
  omega

/-- Walk from a directory: its own source files by name, and then, by name, what the walk finds in
each of its subdirectories. A directory that is locked is not looked into. -/
def topDown (t : FileTree) (here : Place) : List Place :=
  if t.isLocked here then []
  else
    (ownSources t here).map (fun name => [name]) ++
      (subdirectories t here).attach.flatMap fun ⟨name, _⟩ =>
        (topDown t (here ++ [name])).map (name :: ·)
termination_by depth t - here.length
decreasing_by
  have deep := length_lt_depth ‹_›
  simp
  omega

variable {t : FileTree} {here p : Place} {name : String}

theorem mem_ownSources_iff (distinct : t.Distinct) :
    name ∈ ownSources t here ↔
      (∃ content, t.get? (here ++ [name]) = some (.file content)) ∧
        Files.isSourceFile name = true := by
  rw [ownSources, (List.mergeSort_perm _ _).mem_iff, List.mem_filter,
    ← FileTree.get?_ne_none_iff distinct]
  rcases t.get? (here ++ [name]) with _ | (_ | _ | _) <;> simp

theorem mem_subdirectories_iff (distinct : t.Distinct) :
    name ∈ subdirectories t here ↔ t.get? (here ++ [name]) = some .directory := by
  rw [subdirectories, (List.mergeSort_perm _ _).mem_iff, List.mem_filter,
    ← FileTree.get?_ne_none_iff distinct]
  rcases t.get? (here ++ [name]) with _ | (_ | _ | _) <;> simp

theorem topDown_eq (t : FileTree) (here : Place) :
    topDown t here =
      if t.isLocked here then []
      else (ownSources t here).map (fun name => [name]) ++
        (subdirectories t here).flatMap fun name =>
          (topDown t (here ++ [name])).map (name :: ·) := by
  rw [topDown]
  split
  · rfl
  · rw [List.flatMap_subtype, List.unattach_attach]
    intro name member
    rfl

theorem mem_topDown_iff :
    p ∈ topDown t here ↔ t.isLocked here = false ∧
      ((∃ name ∈ ownSources t here, p = [name]) ∨
        ∃ name ∈ subdirectories t here, ∃ q ∈ topDown t (here ++ [name]), p = name :: q) := by
  rw [topDown_eq]
  cases t.isLocked here <;> simp [eq_comm]

theorem ne_nil_of_mem_topDown (member : p ∈ topDown t here) : p ≠ [] := by
  rcases (mem_topDown_iff.mp member).2 with ⟨name, _, rfl⟩ | ⟨name, _, q, _, rfl⟩
  · exact List.cons_ne_nil name []
  · exact List.cons_ne_nil name q

/-- A regular file with the extension of source files, which can be reached without a link. -/
structure IsSource (t : FileTree) (here p : Place) : Prop where
  file : ∃ content, t.get? (here ++ p) = some (.file content)
  extension : Files.isSourceFile (p.getLast?.getD "") = true
  reached : t.Descends here p

theorem mem_topDown_iff_isSource (distinct : t.Distinct) (there : t.get? here = some .directory) :
    p ∈ topDown t here ↔ IsSource t here p := by
  induction p generalizing here with
  | nil =>
      constructor
      · intro member
        exact absurd rfl (ne_nil_of_mem_topDown member)
      · rintro ⟨⟨content, file⟩, _, _⟩
        rw [List.append_nil, there] at file
        cases file
  | cons name q ih =>
      have place : here ++ name :: q = here ++ [name] ++ q := by simp
      have last : q ≠ [] → (name :: q).getLast?.getD "" = q.getLast?.getD "" := by
        intro more
        rw [List.getLast?_cons_of_ne_nil more]
      rw [mem_topDown_iff]
      constructor
      · rintro ⟨unlocked, ⟨own, member, same⟩ | ⟨sub, member, r, inside, same⟩⟩
        · obtain ⟨rfl, rfl⟩ := List.cons.inj same
          obtain ⟨file, extension⟩ := (mem_ownSources_iff distinct).mp member
          exact ⟨file, extension, .down there unlocked .stay⟩
        · obtain ⟨rfl, rfl⟩ := List.cons.inj same
          have directory := (mem_subdirectories_iff distinct).mp member
          obtain ⟨file, extension, reached⟩ := (ih directory).mp inside
          rw [← last (ne_nil_of_mem_topDown inside)] at extension
          exact ⟨place ▸ file, extension, .down there unlocked reached⟩
      · rintro ⟨file, extension, reached⟩
        cases reached with
        | down _ unlocked onward =>
            refine ⟨unlocked, ?_⟩
            by_cases final : q = []
            · subst final
              exact .inl ⟨name, (mem_ownSources_iff distinct).mpr ⟨file, extension⟩, rfl⟩
            · have directory : t.get? (here ++ [name]) = some .directory := by
                cases onward with
                | stay => exact absurd rfl final
                | down directory => exact directory
              rw [last final] at extension
              exact .inr ⟨name, (mem_subdirectories_iff distinct).mpr directory, q,
                (ih directory).mpr ⟨place ▸ file, extension, onward⟩, rfl⟩

/-! ## The key agrees with the walk -/

theorem walkRank_singleton_lt {a b : String} : walkRank [a] < walkRank [b] ↔ a < b := by
  simp [walkRank, walkKey, Prod.Lex.toLex_lt_toLex]

/-- What lies in a directory comes before what lies in its subdirectories. -/
theorem walkRank_singleton_lt_cons {a : String} (some : p ≠ []) :
    walkRank [a] < walkRank (name :: p) := by
  obtain ⟨first, rest, rfl⟩ := List.exists_cons_of_ne_nil some
  apply Prod.Lex.toLex_lt_toLex.mpr
  left
  simp [walkKey]

/-- What lies in a directory comes before what lies in those behind it. -/
theorem walkRank_cons_lt_of_lt {a b : String} {q : Place} (lt : a < b) (some : p ≠ [])
    (some' : q ≠ []) : walkRank (a :: p) < walkRank (b :: q) := by
  obtain ⟨first, rest, rfl⟩ := List.exists_cons_of_ne_nil some
  obtain ⟨first', rest', rfl⟩ := List.exists_cons_of_ne_nil some'
  apply Prod.Lex.toLex_lt_toLex.mpr
  left
  simp [walkKey, List.cons_lt_cons_iff, lt]

theorem walkRank_cons_lt {q : Place} (some : p ≠ []) (some' : q ≠ [])
    (lt : walkRank p < walkRank q) : walkRank (name :: p) < walkRank (name :: q) := by
  obtain ⟨first, rest, rfl⟩ := List.exists_cons_of_ne_nil some
  obtain ⟨first', rest', rfl⟩ := List.exists_cons_of_ne_nil some'
  simpa [walkRank, walkKey, Prod.Lex.toLex_lt_toLex, List.cons_lt_cons_iff] using lt

/-- The walk goes from one key to a higher one. -/
theorem topDown_ascends (distinct : t.Distinct) (here : Place) :
    (topDown t here).Pairwise fun p q => walkRank p < walkRank q := by
  have nodup (kept : String → Bool) : ((t.namesIn here).filter kept).Nodup :=
    (distinct.nodup_namesIn here).filter _
  rw [topDown_eq]
  split
  · exact .nil
  · apply List.pairwise_append.mpr
    refine ⟨?_, ?_, ?_⟩
    · apply List.pairwise_map.mpr
      exact (ascending_mergeSort (nodup _)).imp walkRank_singleton_lt.mpr
    · apply List.pairwise_flatMap.mpr
      constructor
      · intro name member
        have inside := topDown_ascends distinct (here ++ [name])
        apply List.pairwise_map.mpr
        apply inside.imp_of_mem
        intro p q member member' lt
        exact walkRank_cons_lt (ne_nil_of_mem_topDown member) (ne_nil_of_mem_topDown member') lt
      · apply (ascending_mergeSort (nodup _)).imp
        intro a b lt p member q member'
        obtain ⟨p, inside, rfl⟩ := List.mem_map.mp member
        obtain ⟨q, inside', rfl⟩ := List.mem_map.mp member'
        exact walkRank_cons_lt_of_lt lt (ne_nil_of_mem_topDown inside)
          (ne_nil_of_mem_topDown inside')
    · intro p own q sub
      obtain ⟨a, _, rfl⟩ := List.mem_map.mp own
      obtain ⟨name, _, member⟩ := List.mem_flatMap.mp sub
      obtain ⟨q, inside, rfl⟩ := List.mem_map.mp member
      exact walkRank_singleton_lt_cons (ne_nil_of_mem_topDown inside)
termination_by depth t - here.length
decreasing_by
  have deep := length_lt_depth member
  simp
  omega

theorem descends_iff_reachable (grounded : t.Grounded) (some : t.get? (here ++ p) ≠ none) :
    t.Descends here p ↔ reachable t here p = true := by
  induction p generalizing here with
  | nil =>
      constructor
      · intro _
        rfl
      · intro _
        exact .stay
  | cons name q ih =>
      have directory : t.get? here = .some .directory :=
        grounded.above (List.cons_ne_nil name q) some
      have onward : reachable t here (name :: q) =
          (!t.isLocked here && reachable t (here ++ [name]) q) := by
        simp [reachable, List.range_succ_eq_map, List.all_map, Function.comp_def]
      have place : here ++ name :: q = here ++ [name] ++ q := by simp
      rw [onward, Bool.and_eq_true, Bool.not_eq_true', ← ih (place ▸ some)]
      constructor
      · intro way
        cases way with
        | down _ unlocked onward => exact ⟨unlocked, onward⟩
      · rintro ⟨unlocked, onward⟩
        exact .down directory unlocked onward

theorem isSome_sourcesAt_iff_isSource (grounded : t.Grounded) :
    (sourcesAt t here p).isSome = true ↔ IsSource t here p := by
  rw [isSome_sourcesAt_iff]
  constructor
  · rintro ⟨content, file, source⟩
    obtain ⟨extension, reached⟩ := Bool.and_eq_true_iff.mp source
    exact ⟨⟨content, file⟩, extension,
      (descends_iff_reachable grounded (by simp [file])).mpr reached⟩
  · rintro ⟨⟨content, file⟩, extension, reached⟩
    have reached := (descends_iff_reachable grounded (by simp [file])).mp reached
    exact ⟨content, file, Bool.and_eq_true_iff.mpr ⟨extension, reached⟩⟩

/-- The walk lists the source files below a directory. -/
theorem listing_topDown (wellFormed : t.WellFormed) (there : t.get? here = some .directory) :
    Listing (sourcesAt t here) (topDown t here) := by
  have ascends := topDown_ascends wellFormed.distinct here
  constructor
  case mem_iff =>
    intro p
    rw [isSome_sourcesAt_iff_isSource wellFormed.grounded]
    exact mem_topDown_iff_isSource wellFormed.distinct there
  case nodup =>
    apply ascends.imp
    rintro p q lt rfl
    exact lt_irrefl _ lt
  case ordered =>
    apply ascends.imp
    intro p q lt
    exact walksBefore_iff.mpr lt.le

theorem sourcesAt_root (there : t.get? here = some .directory) : sourcesAt t here [] = none := by
  simp [sourcesAt, there]

theorem sourcesBelow_eq_topDown (wellFormed : t.WellFormed)
    (there : t.get? here = some .directory) : sourcesBelow t here = topDown t here :=
  (listing_sourcesBelow wellFormed.distinct there).unique (listing_topDown wellFormed there)
    (sourcesAt_root there)

/-! ## Walks that come upon paths -/

/-- The path of a place below a root, as a walk that starts at the root spells it. -/
def walkedPath (root : String) (p : Place) : String := p.foldl Files.Path.append root

/-- The names of a relative path. -/
def pathNames (path : String) : List String := (Text.pieces '/' path.toList).map String.ofList

def isRegular : Entry → Bool
  | .file _ => true
  | .directory | .link _ => false

/-- The source files among what a walk from a root comes upon, as paths relative to the root, sorted
by their directories and names. -/
def scan? (root : String) (walked : List (Place × Entry)) : Option (List String) :=
  let files := walked.filter fun (p, e) => isRegular e && Files.isSourceFile (walkedPath root p)
  let paths := files.mapM fun (p, _) => Files.Path.relativeTo? root (walkedPath root p)
  paths.map fun paths => paths.mergeSort fun a b => walksBefore (pathNames a) (pathNames b)

/-- A walk comes upon everything that can be reached without a link, and upon nothing twice. -/
structure IsWalk (t : FileTree) (directory : Place) (walked : List (Place × Entry)) : Prop where
  mem_iff : ∀ p e, (p, e) ∈ walked ↔
    t.get? (directory ++ p) = some e ∧ t.Descends directory p
  nodup : walked.Nodup

section Walked

variable {root : String}

theorem components_walkedPath (some : root ≠ "") (names : ∀ name ∈ p, Files.IsEntryName name) :
    Files.Path.components (walkedPath root p) =
      Files.Path.components root ++ p.map Files.Component.normal := by
  induction p generalizing root with
  | nil => simp [walkedPath]
  | cons name q ih =>
      have entry := names name List.mem_cons_self
      have more := ih (Files.Path.append_ne_empty some entry) fun x member =>
        names x (List.mem_cons_of_mem name member)
      rw [walkedPath, List.foldl_cons, ← walkedPath, more,
        Files.Path.components_append some entry]
      simp

/-- The root is taken off whatever its spelling is. -/
theorem relativeTo?_walkedPath (some : root ≠ "")
    (names : ∀ name ∈ p, Files.IsEntryName name) :
    Files.Path.relativeTo? root (walkedPath root p) = .some (Files.Path.joinSteps p) := by
  have steps : (p.map Files.Component.normal).filterMap Files.Component.step? = p := by
    rw [List.filterMap_map]
    exact List.filterMap_some
  rw [Files.Path.relativeTo?, components_walkedPath some names,
    Files.Path.stripFront?_eq_some_iff.mpr rfl, Option.map_some, Files.Path.normalizeComponents,
    steps]

theorem isSourceFile_walkedPath (some : root ≠ "") (below : p ≠ [])
    (names : ∀ name ∈ p, Files.IsEntryName name) :
    Files.isSourceFile (walkedPath root p) = Files.isSourceFile (p.getLast?.getD "") := by
  have entry := names _ (List.getLast_mem below)
  have last : Files.Path.fileName? (walkedPath root p) =
      Files.Path.fileName? (p.getLast?.getD "") := by
    rw [Files.Path.fileName?, Files.Path.fileName?, components_walkedPath some names,
      List.getLast?_eq_some_getLast below, Option.getD_some,
      Files.Path.components_of_entry entry]
    simp [List.getLast?_eq_some_getLast below]
  unfold Files.isSourceFile Files.Path.extension?
  rw [last]

theorem pathNames_joinSteps (below : p ≠ []) (names : ∀ name ∈ p, Files.IsEntryName name) :
    pathNames (Files.Path.joinSteps p) = p := by
  have clean : ∀ piece ∈ p.map String.toList, '/' ∉ piece := by
    intro piece member
    obtain ⟨name, inside, rfl⟩ := List.mem_map.mp member
    exact (names name inside).noSlash
  rw [pathNames, Files.Path.joinSteps, if_neg (by simpa using below), String.toList_ofList,
    Text.pieces_join (by simpa using below) clean]
  simp

theorem mapM_eq_some_map {α β : Type} {read : α → Option β} {f : α → β} {xs : List α}
    (each : ∀ x ∈ xs, read x = some (f x)) : xs.mapM read = some (xs.map f) := by
  induction xs with
  | nil => rfl
  | cons x xs ih =>
      have rest := ih fun y member => each y (List.mem_cons_of_mem x member)
      rw [List.mapM_cons, each x List.mem_cons_self, rest]
      rfl

variable {directory : Place} {walked : List (Place × Entry)}

/-- The places of the source files that a walk comes upon. -/
def walkedSources (root : String) (walked : List (Place × Entry)) : List Place :=
  (walked.filter fun (p, e) => isRegular e && Files.isSourceFile (walkedPath root p)).map Prod.fst

theorem mem_walkedSources_iff (wellFormed : t.WellFormed)
    (there : t.get? directory = some .directory) (some : root ≠ "")
    (walk : IsWalk t directory walked) :
    p ∈ walkedSources root walked ↔ IsSource t directory p := by
  have extension {e : Entry} (entry : t.get? (directory ++ p) = .some e)
      (regular : isRegular e = true) :
      Files.isSourceFile (walkedPath root p) = Files.isSourceFile (p.getLast?.getD "") := by
    apply isSourceFile_walkedPath some _ (wellFormed.isEntryName entry)
    rintro rfl
    rw [List.append_nil, there, Option.some.injEq] at entry
    rw [← entry] at regular
    cases regular
  simp only [walkedSources, List.mem_map, List.mem_filter, Bool.and_eq_true, Prod.exists,
    exists_and_right, exists_eq_right, walk.mem_iff]
  constructor
  · rintro ⟨e, ⟨entry, reached⟩, regular, source⟩
    rw [extension entry regular] at source
    cases e with
    | file content => exact ⟨⟨content, entry⟩, source, reached⟩
    | directory | link => cases regular
  · rintro ⟨⟨content, entry⟩, source, reached⟩
    rw [← extension entry rfl] at source
    exact ⟨.file content, ⟨entry, reached⟩, rfl, source⟩

theorem nodup_walkedSources (walk : IsWalk t directory walked) :
    (walkedSources root walked).Nodup := by
  have kept := walk.nodup.filter fun (p, e) =>
    isRegular e && Files.isSourceFile (walkedPath root p)
  apply kept.map_on
  rintro ⟨p, e⟩ member ⟨q, e'⟩ member' rfl
  have entry := ((walk.mem_iff p e).mp (List.mem_of_mem_filter member)).1
  have entry' := ((walk.mem_iff p e').mp (List.mem_of_mem_filter member')).1
  rw [entry] at entry'
  rw [Option.some.inj entry']

/-- A walk in any order gives the list of the walk from the top down, with no path that the root
does not begin. -/
theorem scan?_eq (wellFormed : t.WellFormed) (there : t.get? directory = some .directory)
    (some : root ≠ "") (walk : IsWalk t directory walked) :
    scan? root walked = .some ((topDown t directory).map Files.Path.joinSteps) := by
  have source : ∀ q ∈ walkedSources root walked, IsSource t directory q := fun q member =>
    (mem_walkedSources_iff wellFormed there some walk).mp member
  have names : ∀ q ∈ walkedSources root walked, ∀ name ∈ q, Files.IsEntryName name := by
    intro q member
    obtain ⟨content, file⟩ := (source q member).file
    exact wellFormed.isEntryName file
  have below : ∀ q ∈ walkedSources root walked, q ≠ [] := by
    rintro q member rfl
    obtain ⟨content, file⟩ := (source [] member).file
    rw [List.append_nil, there] at file
    cases file
  have relative : (walked.filter fun (p, e) =>
      isRegular e && Files.isSourceFile (walkedPath root p)).mapM
      (fun (p, _) => Files.Path.relativeTo? root (walkedPath root p)) =
      .some ((walkedSources root walked).map Files.Path.joinSteps) := by
    rw [walkedSources, List.map_map]
    apply mapM_eq_some_map
    intro x member
    exact relativeTo?_walkedPath some (names x.1 (List.mem_map_of_mem member))
  have sorted : ((walkedSources root walked).map Files.Path.joinSteps).mergeSort
      (fun a b => walksBefore (pathNames a) (pathNames b)) =
      ((walkedSources root walked).mergeSort walksBefore).map Files.Path.joinSteps := by
    symm
    apply List.map_mergeSort
    intro a member b member'
    rw [pathNames_joinSteps (below a member) (names a member),
      pathNames_joinSteps (below b member') (names b member')]
  have perm := List.mergeSort_perm (walkedSources root walked) walksBefore
  have listing : Listing (sourcesAt t directory)
      ((walkedSources root walked).mergeSort walksBefore) := by
    refine ⟨fun p => ?_, perm.nodup_iff.mpr (nodup_walkedSources walk), ordered_mergeSort _⟩
    rw [perm.mem_iff, mem_walkedSources_iff wellFormed there some walk,
      isSome_sourcesAt_iff_isSource wellFormed.grounded]
  have same := listing.unique (listing_topDown wellFormed there) (sourcesAt_root there)
  simp only [scan?]
  rw [relative, Option.map_some, sorted, same]

end Walked

/-- What there is below a directory, in the order in which the tree has it. -/
def walkBelow (t : FileTree) (directory : Place) : List (Place × Entry) :=
  ([], .directory) :: (t.below directory).filter fun x => reachable t directory x.1

theorem isWalk_walkBelow (wellFormed : t.WellFormed) (there : t.get? here = some .directory) :
    IsWalk t here (walkBelow t here) := by
  constructor
  case mem_iff =>
    intro p e
    rw [walkBelow, List.mem_cons, List.mem_filter, FileTree.mem_below_iff]
    by_cases top : p = []
    · subst top
      rw [List.append_nil, there]
      constructor
      · rintro (same | ⟨⟨below, -⟩, -⟩)
        · exact ⟨congrArg (some ∘ Prod.snd) same.symm, .stay⟩
        · exact absurd rfl below
      · rintro ⟨same, -⟩
        exact .inl (congrArg (Prod.mk []) (Option.some.inj same).symm)
    · have below : here ++ p ≠ [] := List.append_ne_nil_of_right_ne_nil here top
      rw [FileTree.mem_entries_iff wellFormed.distinct below]
      have other : (p, e) ≠ ([], Entry.directory) := fun same => top (congrArg Prod.fst same)
      rw [or_iff_right other, and_iff_right top]
      apply and_congr_right
      intro entry
      exact (descends_iff_reachable wellFormed.grounded (by simp [entry])).symm
  case nodup =>
    apply List.nodup_cons.mpr
    constructor
    · intro member
      exact (FileTree.mem_below_iff.mp (List.mem_of_mem_filter member)).1 rfl
    · have distinct : (t.below here).Nodup := (wellFormed.distinct.below here).imp (by
        rintro x y other rfl
        exact other rfl)
      exact distinct.filter _

theorem IsWalk.perm {walked walked' : List (Place × Entry)} (walk : IsWalk t here walked)
    (same : walked'.Perm walked) : IsWalk t here walked' where
  mem_iff p e := same.mem_iff.trans (walk.mem_iff p e)
  nodup := same.nodup_iff.mpr walk.nodup

/-- **The sources of a package are those of a walk from the top down.** If the root is a directory,
the walk goes through it, and it lists the source files that can be reached without a link, each of
them once. Sorting what any walk comes upon gives the same list, and never fails on a path. A root
that is no directory has no sources. -/
theorem packageSources_eq_topDown (wellFormed : t.WellFormed) (cwd : Place) (root : String) :
    (∀ directory, t.find cwd root = .ok (directory, .directory) →
      packageSources t cwd root = (directory, topDown t directory) ∧
      (∀ p, p ∈ topDown t directory ↔ IsSource t directory p) ∧
      (topDown t directory).Nodup ∧
      ∀ walked, IsWalk t directory walked →
        scan? root walked = some ((topDown t directory).map Files.Path.joinSteps)) ∧
    ((∀ directory, t.find cwd root ≠ .ok (directory, .directory)) →
      (packageSources t cwd root).2 = []) := by
  constructor
  · intro directory found
    obtain ⟨located, there⟩ := FileTree.find_eq_ok_iff.mp found
    obtain ⟨some, -⟩ := FileTree.locate_eq_ok_iff.mp located
    refine ⟨?_, fun p => mem_topDown_iff_isSource wellFormed.distinct there,
      (listing_topDown wellFormed there).nodup,
      fun walked walk => scan?_eq wellFormed there some walk⟩
    simp only [packageSources, foundIn, found]
    exact congrArg (directory, ·) (sourcesBelow_eq_topDown wellFormed there)
  · intro absent
    rcases found : t.find cwd root with e | ⟨directory, _ | _ | _⟩
    all_goals simp only [packageSources, foundIn, found, scan_nil, List.map_nil]
    exact absurd found (absent directory)

/-- A package with directories whose names begin alike, and with a link. -/
def sampleWalk : FileTree :=
  ⟨[(["p"], .directory), (["p", "a-b"], .directory), (["p", "a-b", "b.py"], .file .empty),
    (["p", "a"], .directory), (["p", "a", "inner"], .directory), (["p", "l.py"], .link "a.py"),
    (["p", "a", "inner", "x.py"], .file .empty), (["p", "a", "z.py"], .file .empty),
    (["p", "a.py"], .file .empty)], []⟩

/-- What is in `a` comes before what is in `a-b`, though the slash comes after the hyphen. -/
theorem packageSources_eq_topDown_of_sampleWalk :
    sampleWalk.WellFormed ∧
      topDown sampleWalk ["p"] =
        [["a.py"], ["a", "z.py"], ["a", "inner", "x.py"], ["a-b", "b.py"]] ∧
      IsSource sampleWalk ["p"] ["a", "inner", "x.py"] ∧
      scan? "p" (walkBelow sampleWalk ["p"]).reverse =
        some ["a.py", "a/z.py", "a/inner/x.py", "a-b/b.py"] := by
  have wellFormed : sampleWalk.WellFormed := by
    refine ⟨by unfold FileTree.Distinct; decide, FileTree.grounded_of_entries (by decide), ?_⟩
    intro e member name inside
    have plain : ∀ e ∈ sampleWalk.entries, ∀ name ∈ e.1,
        name ≠ "" ∧ '/' ∉ name.toList ∧ name ≠ "." ∧ name ≠ ".." := by decide
    obtain ⟨nonempty, noSlash, noDot, noDots⟩ := plain e member name inside
    exact ⟨nonempty, noSlash, noDot, noDots⟩
  have found : sampleWalk.find [] "p" = .ok (["p"], .directory) := by cbv
  obtain ⟨sources, isSource, -, scanned⟩ :=
    (packageSources_eq_topDown wellFormed [] "p").1 ["p"] found
  have listed : (packageSources sampleWalk [] "p").2 =
      [["a.py"], ["a", "z.py"], ["a", "inner", "x.py"], ["a-b", "b.py"]] := by cbv
  rw [sources] at listed
  dsimp only at listed
  have there := (FileTree.find_eq_ok_iff.mp found).2
  have walk := (isWalk_walkBelow wellFormed there).perm (List.reverse_perm _)
  refine ⟨wellFormed, listed, (isSource _).mp (by simp [listed]), ?_⟩
  rw [scanned _ walk, listed]
  rfl

end Source

end ApiInventory
