import ApiInventory.Proofs.Files.WellFormed
import ApiInventory.Source.Package
import Mathlib

/-!
# The source files of a package

`sources` says what there is to read in a package: for each place below its root whether a source
file is there, and what it holds if it can be read. A walk lists these places, each of them once
and in its order (`listing_packageSources`). There is only one such list (`Listing.unique`), so the
order in which the entries of a tree are given does not matter.
-/

namespace ApiInventory

open Files (FileTree Place Entry)

namespace Source

/-! ## The order of the walk -/

/-- A place in an ordered type: its directories first, then its name. -/
def walkRank (p : Place) : List String ×ₗ String := toLex (walkKey p)

theorem walksBefore_iff {p q : Place} : walksBefore p q = true ↔ walkRank p ≤ walkRank q := by
  simp [walksBefore, walkRank, Prod.Lex.toLex_le_toLex]

theorem walkRank_inj {p q : Place} (some : p ≠ []) (some' : q ≠ [])
    (same : walkRank p = walkRank q) : p = q := by
  obtain ⟨directories, name⟩ := Prod.mk.inj (toLex.injective same)
  rw [List.getLast?_eq_some_getLast some, List.getLast?_eq_some_getLast some'] at name
  rw [← List.dropLast_append_getLast some, ← List.dropLast_append_getLast some', directories]
  simpa using name

theorem walksBefore_trans {p q r : Place} (before : walksBefore p q = true)
    (after : walksBefore q r = true) : walksBefore p r = true := by
  rw [walksBefore_iff] at before after ⊢
  exact before.trans after

theorem walksBefore_total (p q : Place) : (walksBefore p q || walksBefore q p) = true := by
  rw [Bool.or_eq_true, walksBefore_iff, walksBefore_iff]
  exact le_total _ _

/-- Two places of which neither comes before the other are one. -/
theorem eq_of_walksBefore {p q : Place} (some : p ≠ []) (some' : q ≠ [])
    (before : walksBefore p q = true) (after : walksBefore q p = true) : p = q :=
  walkRank_inj some some' (le_antisymm (walksBefore_iff.mp before) (walksBefore_iff.mp after))

theorem ordered_mergeSort (places : List Place) :
    (places.mergeSort walksBefore).Pairwise fun p q => walksBefore p q = true := by
  apply List.pairwise_mergeSort
  · exact fun _ _ _ => walksBefore_trans
  · exact walksBefore_total

/-! ## Files that were found -/

/-- A file is not at the root if it is a source file. -/
theorem FoundFile.place_ne_nil {f : FoundFile} (source : f.isSource = true) : f.place ≠ [] := by
  intro root
  rw [isSource, root] at source
  cases source

/-- Sorting keeps the files of a place as they were found, and the files of all places come in the
order of the walk. -/
structure Scans (found files : List FoundFile) : Prop where
  ordered : files.Pairwise fun f g => walksBefore f.place g.place = true
  kept : ∀ p, files.filter (·.place = p) = found.filter fun f => f.isSource && f.place = p

@[simp] theorem scan_nil : scan [] = [] := by simp [scan]

theorem perm_scan (found : List FoundFile) : (scan found).Perm (found.filter FoundFile.isSource) :=
  List.mergeSort_perm _ _

theorem mem_scan_iff {found : List FoundFile} {f : FoundFile} :
    f ∈ scan found ↔ f ∈ found ∧ f.isSource = true := by
  rw [(perm_scan found).mem_iff, List.mem_filter]

theorem scans_scan (found : List FoundFile) : Scans found (scan found) := by
  have trans : ∀ f g h : FoundFile, walksBefore f.place g.place = true →
      walksBefore g.place h.place = true → walksBefore f.place h.place = true :=
    fun _ _ _ => walksBefore_trans
  have total : ∀ f g : FoundFile,
      (walksBefore f.place g.place || walksBefore g.place f.place) = true :=
    fun f g => walksBefore_total f.place g.place
  refine ⟨List.pairwise_mergeSort trans total _, fun p => ?_⟩
  have kept : found.filter (fun f => f.isSource && f.place = p) =
      (found.filter FoundFile.isSource).filter (·.place = p) := by
    rw [List.filter_filter]
    simp only [Bool.and_comm]
  rw [kept]
  -- the files of one place are in order already, so sorting leaves them in it
  have stays : ((found.filter FoundFile.isSource).filter (·.place = p)).Sublist (scan found) := by
    apply List.sublist_mergeSort trans total _ List.filter_sublist
    apply List.pairwise_of_forall_mem_list
    intro f member g member'
    have here : f.place = p := by simpa using (List.mem_filter.mp member).2
    have there : g.place = p := by simpa using (List.mem_filter.mp member').2
    rw [here, there]
    simpa using walksBefore_total p p
  have sub := stays.filter (fun f : FoundFile => decide (f.place = p))
  rw [List.filter_filter] at sub
  simp only [Bool.and_self] at sub
  exact (sub.eq_of_length ((perm_scan found).filter _).length_eq.symm).symm

/-! ## What there is to read -/

/-- For each place whether there is a source file, and what it holds if it can be read. -/
abbrev Sources := Place → Option (Option ByteArray)

/-- What a walk finds below a directory. -/
def sourcesAt (t : FileTree) (directory : Place) : Sources := fun p =>
  match t.get? (directory ++ p) with
  | some (.file content) =>
    if Files.isSourceFile (p.getLast?.getD "") && reachable t directory p then
      some (if t.isLocked (directory ++ p) then none else some content)
    else none
  | _ => none

/-- What there is to read in a package. A root that is no directory has nothing. -/
def sources (t : FileTree) (cwd : Place) (root : String) : Sources :=
  match t.find cwd root with
  | .ok (directory, .directory) => sourcesAt t directory
  | _ => fun _ => none

/-- Trees that hold the same have the same to read. -/
theorem sources_of_alike {t t' : FileTree} (h : t.Alike t') (cwd : Place) (root : String) :
    sources t' cwd root = sources t cwd root := by
  have reach : ∀ directory p, reachable t' directory p = reachable t directory p := by
    intro directory p
    simp only [reachable, h.isLocked]
  have below : ∀ directory, sourcesAt t' directory = sourcesAt t directory := by
    intro directory
    funext p
    simp only [sourcesAt, h.get?, h.isLocked, reach]
  simp only [sources, h.find, below]

/-- A list of all source files, each of them once, in the order of the walk. -/
structure Listing (sources : Sources) (files : List Place) : Prop where
  mem_iff : ∀ p, p ∈ files ↔ (sources p).isSome = true
  nodup : files.Nodup
  ordered : files.Pairwise fun p q => walksBefore p q = true

/-- There is only one such list. -/
theorem Listing.unique {sources : Sources} {files files' : List Place} (h : Listing sources files)
    (h' : Listing sources files') (root : sources [] = none) : files = files' := by
  have nonempty : ∀ p, p ∈ files → p ≠ [] := by
    rintro p member rfl
    have some := (h.mem_iff []).mp member
    rw [root] at some
    cases some
  have same : files.Perm files' := by
    apply (List.perm_ext_iff_of_nodup h.nodup h'.nodup).mpr
    intro p
    rw [h.mem_iff, h'.mem_iff]
  apply same.eq_of_pairwise _ h.ordered h'.ordered
  intro p q member member'
  exact eq_of_walksBefore (nonempty p member) (nonempty q (same.mem_iff.mpr member'))

/-! ## What a walk lists -/

/-- What is found of an entry that is a file. -/
theorem found_file_iff {t : FileTree} {directory p : Place} {e : Entry} {f : FoundFile} :
    (match e with
      | .file _ =>
        if reachable t directory p then
          some (FoundFile.mk (p.map Text.encode) (bytesAt? t (directory ++ p)))
        else none
      | _ => none) = some f ↔
      f = ⟨p.map Text.encode, bytesAt? t (directory ++ p)⟩ ∧ reachable t directory p = true ∧
        ∃ content, e = .file content := by
  cases e with
  | directory | link => simp
  | file content =>
      rw [Option.ite_none_right_eq_some, Option.some.injEq]
      constructor
      · rintro ⟨reached, rfl⟩
        exact ⟨rfl, reached, content, rfl⟩
      · rintro ⟨rfl, reached, _⟩
        exact ⟨reached, rfl⟩

/-- A name that is a text is told as it is. -/
theorem FoundFile.place_mk (p : Place) (content : Option ByteArray) :
    (FoundFile.mk (p.map Text.encode) content).place = p := by
  have decoded : Text.decodeLossy ∘ Text.encode = id := by
    funext name
    simp [Text.decodeLossy]
  rw [place, List.map_map, decoded, List.map_id]

/-- What is found below a directory of a tree. -/
theorem mem_foundBelow_iff {t : FileTree} {directory : Place} {f : FoundFile} :
    f ∈ foundBelow t directory ↔ ∃ p, f = ⟨p.map Text.encode, bytesAt? t (directory ++ p)⟩ ∧
      reachable t directory p = true ∧ ∃ content, (p, Entry.file content) ∈ t.below directory := by
  rw [foundBelow, List.mem_filterMap]
  constructor
  · rintro ⟨⟨p, e⟩, member, kept⟩
    obtain ⟨file, reached, content, rfl⟩ := found_file_iff.mp kept
    exact ⟨p, file, reached, content, member⟩
  · rintro ⟨p, file, reached, content, member⟩
    exact ⟨_, member, found_file_iff.mpr ⟨file, reached, content, rfl⟩⟩

theorem isSome_sourcesAt_iff {t : FileTree} {directory p : Place} :
    (sourcesAt t directory p).isSome = true ↔
      ∃ content, t.get? (directory ++ p) = some (.file content) ∧
        (Files.isSourceFile (p.getLast?.getD "") && reachable t directory p) = true := by
  unfold sourcesAt
  split
  · rename_i content entry
    simp [entry]
  · rename_i noFile
    simp only [Option.isSome_none, Bool.false_eq_true, false_iff]
    rintro ⟨content, entry, _⟩
    exact noFile content entry

/-- What is found of a source file is what there is to read. -/
theorem sourcesAt_place {t : FileTree} {directory : Place} {f : FoundFile}
    (member : f ∈ foundBelow t directory) (source : f.isSource = true) :
    sourcesAt t directory f.place = some f.content ∨
      sourcesAt t directory f.place = none ∧ f.content = none := by
  obtain ⟨p, rfl, reached, -⟩ := mem_foundBelow_iff.mp member
  rw [FoundFile.isSource] at source
  rw [FoundFile.place_mk] at source ⊢
  simp only [sourcesAt, bytesAt?, source, reached, Bool.and_self, if_true]
  rcases t.get? (directory ++ p) with _ | (content | _ | target)
  · exact .inr ⟨rfl, rfl⟩
  · exact .inl rfl
  · exact .inr ⟨rfl, rfl⟩
  · exact .inr ⟨rfl, rfl⟩

/-- In a tree there is at a place what is found of it. -/
theorem sourcesAt_eq_some_iff {t : FileTree} (distinct : t.Distinct) {directory p : Place}
    (there : t.get? directory = some .directory) {content : Option ByteArray} :
    sourcesAt t directory p = some content ↔
      ∃ f ∈ foundBelow t directory, f.isSource = true ∧ f.place = p ∧ f.content = content := by
  have entry_iff {p : Place} {e : Entry} : (p, e) ∈ t.below directory ↔
      p ≠ [] ∧ t.get? (directory ++ p) = some e := by
    rw [FileTree.mem_below_iff]
    exact and_congr_right fun below =>
      FileTree.mem_entries_iff distinct (List.append_ne_nil_of_right_ne_nil directory below)
  constructor
  · intro found
    obtain ⟨bytes, entry, kept⟩ := isSome_sourcesAt_iff.mp (found ▸ Option.isSome_some)
    obtain ⟨source, reached⟩ := Bool.and_eq_true_iff.mp kept
    have below : p ≠ [] := by
      rintro rfl
      rw [List.append_nil, there] at entry
      cases entry
    have place := FoundFile.place_mk p (bytesAt? t (directory ++ p))
    refine ⟨_, mem_foundBelow_iff.mpr ⟨p, rfl, reached, bytes, entry_iff.mpr ⟨below, entry⟩⟩,
      by rw [FoundFile.isSource, place, source], place, ?_⟩
    simpa [sourcesAt, bytesAt?, entry, kept] using found
  · rintro ⟨f, member, source, rfl, rfl⟩
    rcases sourcesAt_place member source with reads | ⟨none, -⟩
    · exact reads
    · obtain ⟨p, rfl, reached, bytes, entry⟩ := mem_foundBelow_iff.mp member
      rw [FoundFile.isSource] at source
      rw [FoundFile.place_mk] at source none
      simp [sourcesAt, (entry_iff.mp entry).2, source, reached] at none

theorem nodup_foundBelow {t : FileTree} (distinct : t.Distinct) (directory : Place) :
    ((foundBelow t directory).map FoundFile.place).Nodup := by
  apply List.pairwise_map.mpr
  apply List.pairwise_filterMap.mpr
  apply (distinct.below directory).imp
  rintro ⟨p, e⟩ ⟨p', e'⟩ other f kept g kept' same
  obtain ⟨rfl, _⟩ := found_file_iff.mp kept
  obtain ⟨rfl, _⟩ := found_file_iff.mp kept'
  rw [FoundFile.place_mk, FoundFile.place_mk] at same
  exact other same

/-- The sources below a directory, in the order of the walk. -/
def sourcesBelow (t : FileTree) (directory : Place) : List Place :=
  (scan (foundBelow t directory)).map FoundFile.place

theorem listing_sourcesBelow {t : FileTree} (distinct : t.Distinct) {directory : Place}
    (there : t.get? directory = some .directory) :
    Listing (sourcesAt t directory) (sourcesBelow t directory) := by
  constructor
  case mem_iff =>
    intro p
    simp only [sourcesBelow, List.mem_map, mem_scan_iff, Option.isSome_iff_exists,
      sourcesAt_eq_some_iff distinct there]
    constructor
    · rintro ⟨f, ⟨member, source⟩, place⟩
      exact ⟨f.content, f, member, source, place, rfl⟩
    · rintro ⟨_, f, member, source, place, _⟩
      exact ⟨f, ⟨member, source⟩, place⟩
  case nodup =>
    apply ((perm_scan _).map FoundFile.place).nodup_iff.mpr
    exact (nodup_foundBelow distinct directory).sublist (List.filter_sublist.map _)
  case ordered => exact List.pairwise_map.mpr (scans_scan _).ordered

/-- A walk lists the source files of a package. -/
theorem listing_packageSources {t : FileTree} (distinct : t.Distinct) (cwd : Place)
    (root : String) : Listing (sources t cwd root) (packageSources t cwd root).2 := by
  have nothing : Listing (fun _ => none) [] := ⟨by simp, .nil, .nil⟩
  rcases found : t.find cwd root with e | ⟨directory, _ | _ | _⟩
  all_goals simp only [sources, packageSources, foundIn, found, scan_nil, List.map_nil]
  · exact nothing
  · exact nothing
  · exact listing_sourcesBelow distinct (FileTree.find_eq_ok_iff.mp found).2
  · exact nothing

end Source

end ApiInventory
