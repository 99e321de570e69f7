import ApiInventory.Command.Execute
import ApiInventory.Proofs.Batch.Exits
import ApiInventory.Proofs.Files.WellFormed

/-!
# What an installer delivers

The files of a directory are listed as they are found in it: each regular file and each link to
one, once, in the order of paths, and nothing that lies deeper (`listing_filesIn`). That is what an
installer delivers when its program has ended, whether it has succeeded or not; if the program
could not be started, it delivers nothing.

So an item whose download has failed is skipped for that only if the program has left nothing
behind (`delivered_files`). A file that it had begun to write is delivered like any other
(`not_withheld_of_partial_file`).
-/

namespace ApiInventory

open Files (FileTree Place IsEntryName)

namespace Files.FileTree

variable {t : FileTree} {cwd home : Place} {directory name file : String}

/-- Under a name in a directory there is a regular file, or a link that leads to one. -/
inductive HasFile (t : FileTree) (home : Place) (name : String) : Prop
  | file {content : ByteArray} (entry : t.get? (home ++ [name]) = some (.file content))
  | link {target : String} {p : Place} {content : ByteArray}
      (entry : t.get? (home ++ [name]) = some (.link target)) (nonempty : target ≠ "")
      (leads : t.Leads true (linkLimit - 1) (linkBase home target) (pathSteps target) p)
      (there : t.get? p = some (.file content))

theorem pathSteps_of_entry (entry : IsEntryName name) : pathSteps name = [name] := by
  rw [Path.pathSteps_eq, Path.names_toList entry, Path.hasTrailingSlash_of_entry entry]
  rfl

/-- A name is looked up in the directory itself, and a link is followed from there. -/
theorem isFile_name_iff (entry : IsEntryName name) (unlocked : t.isLocked home = false) :
    t.isFile home name = true ↔ t.HasFile home name := by
  have base : pathBase home name = home := by
    rw [pathBase, Path.isAbsolute_of_entry entry]
    rfl
  rw [isFile_eq_true_iff]
  simp only [locate_eq_ok_iff, base, pathSteps_of_entry entry]
  constructor
  · rintro ⟨p, content, ⟨_, leads⟩, there⟩
    cases leads with
    | current | parent => exact absurd entry.isName (by simp [IsName])
    | directory _ _ directory onward =>
        cases onward
        rw [directory] at there
        cases there
    | last => exact .file there
    | unfollowed _ _ _ stays => cases stays
    | followed _ _ link _ nonempty onward =>
        rw [List.append_nil] at onward
        exact .link link nonempty onward there
  · rintro (⟨there⟩ | ⟨link, nonempty, leads, there⟩)
    · refine ⟨home ++ [name], _, ⟨entry.nonempty, ?_⟩, there⟩
      exact .last entry.isName unlocked (by simp [there]) (by simp [there])
    · refine ⟨_, _, ⟨entry.nonempty, ?_⟩, there⟩
      refine .followed entry.isName unlocked link (.inl rfl) nonempty ?_
      rwa [List.append_nil]

/-- What lies in a directory under a name with a file is an entry of it. -/
theorem HasFile.entry (h : t.HasFile home name) : t.get? (home ++ [name]) ≠ none := by
  cases h with
  | file entry | link entry => simp [entry]

end Files.FileTree

namespace Index.Installer

variable {t : FileTree} {cwd : Place} {directory file : String}

/-- Paths that list the files of a directory. -/
structure Listing (t : FileTree) (cwd : Place) (directory : String) (files : List String) :
    Prop where
  /-- They are the paths of its regular files, and of the links to such files. -/
  mem_iff : ∀ file, file ∈ files ↔
    ∃ home name, t.find cwd directory = .ok (home, .directory) ∧ t.isLocked home = false ∧
      t.HasFile home name ∧ file = Files.Path.append directory name
  /-- None of them leads deeper. -/
  direct : ∀ file ∈ files, ∃ name, Files.Path.components file =
    Files.Path.components directory ++ [.normal name]
  /-- They ascend in the order of paths, so that none comes twice. -/
  ascending : files.Pairwise fun a b => Batch.pathBefore a b = true

theorem pathBefore_append {a b : String} (nonempty : directory ≠ "") (nameA : IsEntryName a)
    (nameB : IsEntryName b) (before : a < b) :
    Batch.pathBefore (Files.Path.append directory a) (Files.Path.append directory b) = true := by
  rw [Batch.pathBefore, List.lex_eq_true_iff_lex, Files.Path.components_append nonempty nameA,
    Files.Path.components_append nonempty nameB]
  refine List.Lex.append_left _ (.rel ?_) _
  simp [Batch.componentBefore, Batch.componentRank, before]

section Found

variable {home : Place} (found : t.find cwd directory = .ok (home, .directory))
include found

theorem filesIn_of_found (unlocked : t.isLocked home = false) :
    filesIn t cwd directory =
      (((t.namesIn home).filter fun n => t.isFile home n).mergeSort
        fun a b => decide (a ≤ b)).map (Files.Path.append directory) := by
  simp [filesIn, found, unlocked]

/-- What lies in a directory that can be listed. -/
theorem mem_filesIn_of_found (wellFormed : t.WellFormed) (unlocked : t.isLocked home = false) :
    file ∈ filesIn t cwd directory ↔
      ∃ name, t.HasFile home name ∧ file = Files.Path.append directory name := by
  rw [filesIn_of_found found unlocked]
  simp only [List.mem_map, List.mem_mergeSort, List.mem_filter]
  constructor
  · rintro ⟨name, ⟨member, isFile⟩, rfl⟩
    have entry := wellFormed.isEntryName_of_mem member
    exact ⟨name, (FileTree.isFile_name_iff entry unlocked).mp isFile, rfl⟩
  · rintro ⟨name, has, rfl⟩
    have member := (FileTree.get?_ne_none_iff wellFormed.distinct).mp has.entry
    have entry := wellFormed.isEntryName_of_mem member
    exact ⟨name, ⟨member, (FileTree.isFile_name_iff entry unlocked).mpr has⟩, rfl⟩

theorem ascending_filesIn_of_found (wellFormed : t.WellFormed)
    (unlocked : t.isLocked home = false) :
    (filesIn t cwd directory).Pairwise fun a b => Batch.pathBefore a b = true := by
  have nonempty : directory ≠ "" :=
    (FileTree.locate_eq_ok_iff.mp (FileTree.find_eq_ok_iff.mp found).1).1
  rw [filesIn_of_found found unlocked, List.pairwise_map]
  generalize kept : (t.namesIn home).filter (fun n => t.isFile home n) = names
  have once : (names.mergeSort fun a b => decide (a ≤ b)).Nodup := by
    rw [(List.mergeSort_perm names _).nodup_iff, ← kept]
    exact (wellFormed.distinct.nodup_namesIn home).filter _
  have entries : ∀ name ∈ names.mergeSort fun a b => decide (a ≤ b), IsEntryName name := by
    intro name member
    rw [List.mem_mergeSort, ← kept] at member
    exact wellFormed.isEntryName_of_mem (List.mem_of_mem_filter member)
  have sorted := List.pairwise_mergeSort' (· ≤ ·) names
  refine (sorted.and once).imp_of_mem fun {a b} memberA memberB order => ?_
  exact pathBefore_append nonempty (entries a memberA) (entries b memberB)
    (lt_of_le_of_ne order.1 order.2)

end Found

/-- Where there is no directory that can be listed, there are no files. -/
theorem filesIn_of_not_found
    (absent : ∀ home, t.find cwd directory = .ok (home, .directory) → t.isLocked home = true) :
    filesIn t cwd directory = [] := by
  unfold filesIn
  split
  · rename_i home found
    rw [if_pos (absent home found)]
  · rfl

theorem listing_filesIn (wellFormed : t.WellFormed) (cwd : Place) (directory : String) :
    Listing t cwd directory (filesIn t cwd directory) := by
  by_cases open' : ∃ home, t.find cwd directory = .ok (home, .directory) ∧ t.isLocked home = false
  · obtain ⟨home, found, unlocked⟩ := open'
    have nonempty : directory ≠ "" :=
      (FileTree.locate_eq_ok_iff.mp (FileTree.find_eq_ok_iff.mp found).1).1
    refine ⟨fun file => ?_, fun file member => ?_, ascending_filesIn_of_found found wellFormed
      unlocked⟩
    · rw [mem_filesIn_of_found found wellFormed unlocked]
      constructor
      · rintro ⟨name, has, same⟩
        exact ⟨home, name, found, unlocked, has, same⟩
      · rintro ⟨home', name, found', _, has, same⟩
        rw [found] at found'
        obtain rfl : home = home' := by simpa using found'
        exact ⟨name, has, same⟩
    · obtain ⟨name, has, rfl⟩ := (mem_filesIn_of_found found wellFormed unlocked).mp member
      have inside := (FileTree.get?_ne_none_iff wellFormed.distinct).mp has.entry
      exact ⟨name, Files.Path.components_append nonempty (wellFormed.isEntryName_of_mem inside)⟩
  · have locked : ∀ home, t.find cwd directory = .ok (home, .directory) →
        t.isLocked home = true := by
      intro home found
      rw [← Bool.not_eq_false]
      exact fun unlocked => open' ⟨home, found, unlocked⟩
    rw [filesIn_of_not_found locked]
    refine ⟨fun file => ?_, by simp, .nil⟩
    simp only [List.not_mem_nil, false_iff]
    rintro ⟨home, name, found, unlocked, -⟩
    exact open' ⟨home, found, unlocked⟩

/-! ## Downloads -/

section Programs

variable {σ : Type} (i : Installer) (programs : Programs σ) (package version directory : String)
variable (t : FileTree) (cwd : Place) (s : σ)

/-- How the program ends that is to download a version. -/
def ending : ProgramExit := (programs i.program (arguments package version directory) t s).1

/-- The files as the program leaves them. -/
def left : FileTree := (programs i.program (arguments package version directory) t s).2.1

/-- What is delivered when the program has ended in some way. -/
inductive Delivery (t : FileTree) (cwd : Place) (directory : String) :
    ProgramExit → List String → Prop
  | nothing : Delivery t cwd directory .notStarted []
  | listed {succeeded : Bool} {files : List String} (listing : Listing t cwd directory files) :
      Delivery t cwd directory (.ended succeeded) files

theorem delivery_fetch (wellFormed : (i.left programs package version directory t s).WellFormed) :
    Delivery (i.left programs package version directory t s) cwd directory
      (i.ending programs package version directory t s)
      (i.fetch programs package version t cwd directory s).1 := by
  unfold left at wellFormed
  unfold ending left fetch
  generalize programs i.program (arguments package version directory) t s = outcome
    at wellFormed ⊢
  obtain ⟨_ | succeeded, t', s'⟩ := outcome
  · exact .nothing
  · exact .listed (listing_filesIn wellFormed cwd directory)

end Programs

/-- Programs that do the same, but never say that they have failed. -/
def neverFailing {σ : Type} (programs : Programs σ) : Programs σ := fun program arguments t s =>
  let (ending, t, s) := programs program arguments t s
  (match ending with
    | .notStarted => .notStarted
    | .ended _ => .ended true, t, s)

theorem fetch_neverFailing {σ : Type} (i : Installer) (programs : Programs σ)
    (package version : String) (t : FileTree) (cwd : Place) (directory : String) (s : σ) :
    i.fetch (neverFailing programs) package version t cwd directory s =
      i.fetch programs package version t cwd directory s := by
  unfold fetch neverFailing
  rcases programs i.program (arguments package version directory) t s with ⟨_ | _, t', s'⟩ <;> rfl

end Index.Installer

namespace Command

open Batch
open Index (Installer)
open Index.Installer (Delivery)

variable {σ : Type}

/-- Whether an item ends with its download or goes on to an archive, given the downloaded files. -/
inductive Onward (s : Services σ) (d : Desk) (S : Place) (package version : String)
    (w : Progress σ) : List String → Prop
  | skipped (ends : Item.Ends s d S package w
      ⟨[.resolve package, .fetch package version], .answer (.skipped .notDownloaded), none⟩) :
      Onward s d S package version w []
  | obtained {files : List String} {archive : String} (foremost : Foremost files archive)
      (obtains : Obtains s d package w version archive) : Onward s d S package version w files

theorem onward_of_seeks {s : Services σ} {d : Desk} {package version : String}
    {w : Progress σ} {files : List String} (S : Place) (seeks : Seeks s d package w version)
    (downloaded : (s.download package version w.outside).1 = .answer files) :
    Onward s d S package version w files := by
  cases least : leastPath? files with
  | none =>
      obtain rfl := leastPath?_eq_none_iff.mp least
      exact .skipped (seeks.ends_of_nothing downloaded)
  | some archive =>
      have foremost := leastPath?_eq_some_iff.mp least
      exact .obtained foremost ⟨seeks, files, downloaded, foremost⟩

/-- What an item is given to work with, as the installer's program leaves it. -/
def RunOptions.areaLeft (o : RunOptions) (x : Surroundings σ) (package version : String)
    (w : Progress σ) : FileTree :=
  (Installer.mk o.installer).left x.programs package version WorkArea.downloads WorkArea.new
    ((o.services x).resolve package w.outside).2

/-- How the installer's program ends for an item. -/
def RunOptions.downloadEnding (o : RunOptions) (x : Surroundings σ) (package version : String)
    (w : Progress σ) : Index.ProgramExit :=
  (Installer.mk o.installer).ending x.programs package version WorkArea.downloads WorkArea.new
    ((o.services x).resolve package w.outside).2

/-- **What an installer delivers.** If its program could not be started it delivers nothing. Once
the program has ended, it delivers the files and the links to files directly in the directory, each
once and in ascending order, whether the program has succeeded or not.

An item is skipped as not downloaded if nothing is delivered, and goes on with the foremost file
otherwise. So no run can tell programs that fail from those that leave the same files and succeed. -/
theorem delivered_files (x : Surroundings σ) (o : RunOptions) (method : o.method = .installer) :
    (∀ (i : Installer) (package version : String) (t : FileTree) (cwd : Place) (directory : String)
      (s : σ), (i.left x.programs package version directory t s).WellFormed →
      Delivery (i.left x.programs package version directory t s) cwd directory
        (i.ending x.programs package version directory t s)
        (i.fetch x.programs package version t cwd directory s).1) ∧
      (∀ (d : Desk) (S : Place) (package version : String) (w : Progress σ),
        Seeks (o.services x) d package w version → (o.areaLeft x package version w).WellFormed →
        ∃ files, Delivery (o.areaLeft x package version w) [] WorkArea.downloads
            (o.downloadEnding x package version w) files ∧
          Onward (o.services x) d S package version w files) ∧
      o.services { x with programs := Index.Installer.neverFailing x.programs } = o.services x := by
  refine ⟨fun i package version t cwd directory s wellFormed =>
    i.delivery_fetch x.programs package version directory t cwd s wellFormed, ?_, ?_⟩
  · intro d S package version w seeks wellFormed
    refine ⟨_, Index.Installer.delivery_fetch _ _ _ _ _ _ [] _ wellFormed,
      onward_of_seeks S seeks ?_⟩
    simp only [Services.download, RunOptions.services, method]
  · simp only [RunOptions.services, Index.Installer.fetch_neverFailing]
    rfl

/-! ## A download that breaks off -/

/-- Surroundings in which each package has a version, and each program fails after it has begun to
write a file. -/
def brokenDownload : Surroundings Unit where
  directory := []
  environment _ := none
  started := 0
  now u := (0, u)
  web _ u := (.answered 200 (Text.encode "[[\"1\"]]") true, u)
  programs _ _ t u := (.ended false, t.set ["download", "six.whl"] (.file .empty), u)
  accepts u := (true, u)

/-- A work area in which there is the file that has been begun. -/
def begunArea : FileTree :=
  ⟨[(["download", "six.whl"], .file .empty), (["download"], .directory),
    (["extracted"], .directory)], []⟩

theorem wellFormed_begunArea : begunArea.WellFormed :=
  FileTree.wellFormed_of_entries (by decide) (by decide) (by decide)

theorem mem_filesIn_begunArea :
    "/download/six.whl" ∈ Installer.filesIn begunArea [] WorkArea.downloads := by
  have steps : Files.FileTree.pathSteps WorkArea.downloads = ["download"] := by decide +kernel
  have base : Files.FileTree.pathBase [] WorkArea.downloads = [] := by decide +kernel
  have found : begunArea.find [] WorkArea.downloads = .ok (["download"], .directory) := by
    refine FileTree.find_eq_ok_iff.mpr ⟨FileTree.locate_eq_ok_iff.mpr ⟨by decide, ?_⟩, rfl⟩
    rw [steps, base]
    exact .directory ⟨by decide, by decide⟩ rfl rfl .here
  have path : "/download/six.whl" = Files.Path.append WorkArea.downloads "six.whl" := by
    decide +kernel
  have there : begunArea.get? ["download", "six.whl"] = some (.file .empty) := rfl
  have has : begunArea.HasFile ["download"] "six.whl" := .file there
  exact (Installer.mem_filesIn_of_found found wellFormed_begunArea rfl).mpr ⟨_, has, path⟩

def installerOptions : RunOptions where
  packages := "list"
  output := "db"
  checkpoint := "at"
  batchSize := none
  timeLimitSecs := none
  method := .installer
  installer := "pip"
  indexUrl := some "http://i"

/-- The item goes on to an archive, though its download has failed. -/
theorem delivered_files_of_brokenDownload :
    installerOptions.method = .installer ∧
      Seeks (installerOptions.services brokenDownload) sampleDesk "six" ⟨sampleTree, (), []⟩ "1" ∧
      (installerOptions.areaLeft brokenDownload "six" "1" ⟨sampleTree, (), []⟩).WellFormed ∧
      installerOptions.downloadEnding brokenDownload "six" "1" ⟨sampleTree, (), []⟩ =
        .ended false ∧
      ∃ archive, Obtains (installerOptions.services brokenDownload) sampleDesk "six"
        ⟨sampleTree, (), []⟩ "1" archive := by
  have resolved :
      ((installerOptions.services brokenDownload).resolve "six" ()).1 = .answer (some "1") := by
    have version :
        ((Index.Client.mk "http://i").resolve brokenDownload.web "six" ()).1 = some "1" := by
      decide +kernel
    exact congrArg Reply.answer version
  have seeks : Seeks (installerOptions.services brokenDownload) sampleDesk "six"
      ⟨sampleTree, (), []⟩ "1" :=
    ⟨by decide +kernel, resolved, has_sampleTree _ _ _ _, by cbv⟩
  have wellFormed :
      (installerOptions.areaLeft brokenDownload "six" "1" ⟨sampleTree, (), []⟩).WellFormed :=
    wellFormed_begunArea
  obtain ⟨-, items, -⟩ := delivered_files brokenDownload installerOptions rfl
  obtain ⟨files, delivery, onward⟩ := items sampleDesk ["db"] "six" "1" _ seeks wellFormed
  refine ⟨rfl, seeks, wellFormed, rfl, ?_⟩
  cases onward with
  | obtained _ obtains => exact ⟨_, obtains⟩
  | skipped =>
      generalize ended : installerOptions.downloadEnding brokenDownload "six" "1"
        ⟨sampleTree, (), []⟩ = ending at delivery
      cases delivery with
      | nothing => cases ended
      | listed listing =>
          have same :=
            (Installer.listing_filesIn wellFormed_begunArea [] WorkArea.downloads).mem_iff
          have there := (same _).mp mem_filesIn_begunArea
          exact absurd ((listing.mem_iff _).mpr there) (by simp)

/-- A program that fails does not keep its files from being delivered. -/
theorem not_withheld_of_partial_file :
    ¬∀ (i : Installer) (programs : Index.Programs Unit) (package version : String) (t : FileTree)
      (cwd : Place) (directory : String),
      i.ending programs package version directory t () = .ended false →
      (i.fetch programs package version t cwd directory ()).1 = [] := by
  intro withheld
  have nothing : Installer.filesIn begunArea [] WorkArea.downloads = [] :=
    withheld ⟨"pip"⟩ brokenDownload.programs "six" "1" WorkArea.new [] WorkArea.downloads rfl
  have delivered := mem_filesIn_begunArea
  rw [nothing] at delivered
  cases delivered
end Command

end ApiInventory
