import ApiInventory.Proofs.Source.DefinitionTexts
import ApiInventory.Proofs.Source.Walk
import ApiInventory.Proofs.Symbols.NameMap
import ApiInventory.Proofs.Text.Decimal

/-!
# The first definition counts

The table of a package has each name as it is defined in the first of its source files that has
it, in the order of the walk (`FirstDefines`). Files that cannot be read or that do not parse are
as good as not there, except that they are counted (`Summarizes`). All of it depends on what there
is to read in the package. The order in which a walk comes upon the files does not matter as long
as no two of them lie at one place (`extraction_spec`). Places are told by names that are texts, and
different names that are no texts may be told alike.
-/

namespace ApiInventory.Source

open Files (FileTree Place Entry)

/-- A file of a list defines a name, and none before it does. -/
def FirstDefines {File : Type} (symbols? : File → Option SymbolTable) (files : List File)
    (name : String) (signature : Signature) : Prop :=
  ∃ before f after table, files = before ++ f :: after ∧ symbols? f = some table ∧
    table.get? name = some signature ∧
    ∀ g ∈ before, ∀ other, symbols? g = some other → other.get? name = none

/-- The symbols of a package and the count of its files, which are in a list. -/
structure Summarizes {File : Type} (symbols? : File → Option SymbolTable) (files : List File)
    (result : SymbolTable × ExtractionCounts) : Prop where
  /-- Each name is as it is defined first. -/
  table : ∀ name signature, result.1.get? name = some signature ↔
    FirstDefines symbols? files name signature
  all : result.2.files = files.length
  /-- The files are counted as parsed that can be read and parse. -/
  parsed : result.2.parsed = files.countP fun f => (symbols? f).isSome
  others : result.2.parsed + result.2.failed = result.2.files

section Files

variable {File File' : Type} {symbols? : File → Option SymbolTable}
variable {symbols?' : File' → Option SymbolTable} {files : List File} {files' : List File'}
variable {name : String} {signature : Signature}

/-- The first table that binds a name is the one of the file that defines it first. -/
theorem findSome?_symbols_iff :
    (files.filterMap symbols?).findSome? (·.get? name) = some signature ↔
      FirstDefines symbols? files name signature := by
  rw [← List.head?_filterMap, List.filterMap_filterMap, List.head?_filterMap,
    List.findSome?_eq_some_iff]
  unfold FirstDefines
  apply exists_congr
  intro before
  constructor
  · rintro ⟨f, after, split, defines, none⟩
    obtain ⟨table, symbols, bound⟩ := Option.bind_eq_some_iff.mp defines
    refine ⟨f, after, table, split, symbols, bound, ?_⟩
    intro g earlier other symbols'
    simpa [symbols'] using none g earlier
  · rintro ⟨f, after, table, split, symbols, bound, none⟩
    refine ⟨f, after, split, Option.bind_eq_some_iff.mpr ⟨table, symbols, bound⟩, ?_⟩
    intro g earlier
    apply Option.bind_eq_none_iff.mpr
    exact none g earlier

/-- Only the symbols of the files matter, one after the other. -/
theorem firstDefines_congr (same : files.map symbols? = files'.map symbols?') :
    FirstDefines symbols? files name signature ↔ FirstDefines symbols?' files' name signature := by
  have tables := congrArg (List.filterMap id) same
  rw [List.filterMap_map, List.filterMap_map, Function.id_comp, Function.id_comp] at tables
  rw [← findSome?_symbols_iff, ← findSome?_symbols_iff, tables]

theorem Summarizes.congr {result : SymbolTable × ExtractionCounts}
    (h : Summarizes symbols? files result) (same : files.map symbols? = files'.map symbols?') :
    Summarizes symbols?' files' result where
  table name signature := (h.table name signature).trans (firstDefines_congr same)
  all := by
    have length := congrArg List.length same
    rw [List.length_map, List.length_map] at length
    rw [h.all, length]
  parsed := by
    have count := congrArg (List.countP Option.isSome) same
    rw [List.countP_map, List.countP_map] at count
    exact h.parsed.trans count
  others := h.others

end Files

/-! ## Files that were found -/

theorem summarizes_summarize (files : List FoundFile) :
    Summarizes FoundFile.symbols? files (summarize files) where
  table name signature := by
    unfold summarize
    dsimp only
    rw [NameMap.get?_mergeAll, findSome?_symbols_iff]
  all := rfl
  parsed := List.length_filterMap_eq_countP
  others := Nat.add_sub_cancel' (List.length_filterMap_le _ _)

/-- What is known of a file: where it lies, and its bytes if it can be read. -/
def FoundFile.reading (f : FoundFile) : Place × Option ByteArray := (f.place, f.content)

/-- Only what is in the files matters, one after the other. -/
theorem summarize_congr {files files' : List FoundFile}
    (same : files.map FoundFile.reading = files'.map FoundFile.reading) :
    summarize files = summarize files' := by
  have symbols : FoundFile.symbols? = (fun r : Place × Option ByteArray =>
      r.2.bind fun bytes => extract (Text.decodeLossy bytes)) ∘ FoundFile.reading := rfl
  have tables : files.filterMap FoundFile.symbols? = files'.filterMap FoundFile.symbols? := by
    rw [symbols, ← List.filterMap_map, ← List.filterMap_map, same]
  have length := congrArg List.length same
  rw [List.length_map, List.length_map] at length
  unfold summarize
  rw [tables, length]

/-- What there is to read in the source files among those that were found. -/
def sourceReadings (found : List FoundFile) : List (Place × Option ByteArray) :=
  (found.filter FoundFile.isSource).map FoundFile.reading

/-- Source files at one place hold the same. -/
def PlacesAgree (found : List FoundFile) : Prop :=
  ∀ r ∈ sourceReadings found, ∀ r' ∈ sourceReadings found, r.1 = r'.1 → r = r'

/-- No two source files lie at one place. -/
def PlacesDiffer (found : List FoundFile) : Prop :=
  ((sourceReadings found).map Prod.fst).Nodup

theorem PlacesDiffer.agree {found : List FoundFile} (h : PlacesDiffer found) :
    PlacesAgree found :=
  fun _ member _ member' same => List.inj_on_of_nodup_map h member member' same

/-- Where source files at one place hold the same, sorting leaves no choice. -/
theorem readings_scan_eq {found found' : List FoundFile} (agree : PlacesAgree found)
    (same : (sourceReadings found').Perm (sourceReadings found)) :
    (scan found').map FoundFile.reading = (scan found).map FoundFile.reading := by
  have perm := ((perm_scan found).map FoundFile.reading)
  have perm' := ((perm_scan found').map FoundFile.reading).trans same
  have ordered : ∀ found, ((scan found).map FoundFile.reading).Pairwise
      fun r r' => walksBefore r.1 r'.1 = true :=
    fun found => List.pairwise_map.mpr (scans_scan found).ordered
  have top : ∀ r ∈ sourceReadings found, r.1 ≠ [] := by
    intro r member
    obtain ⟨f, inside, rfl⟩ := List.mem_map.mp member
    exact FoundFile.place_ne_nil (List.mem_filter.mp inside).2
  apply (perm'.trans perm.symm).eq_of_pairwise _ (ordered found') (ordered found)
  intro r r' member member' before after
  have inside := perm'.mem_iff.mp member
  have inside' := perm.mem_iff.mp member'
  exact agree r inside r' inside' (eq_of_walksBefore (top r inside) (top r' inside') before after)

/-- What is extracted from the files that a walk has found. -/
structure Extraction (found : List FoundFile) (result : SymbolTable × ExtractionCounts) :
    Prop where
  /-- The source files are taken in the order of the walk, those of one place as they were found. -/
  scans : Scans found (scan found)
  summarizes : Summarizes FoundFile.symbols? (scan found) result
  /-- The order in which the files were found does not matter if files of one place hold the
  same. -/
  order : PlacesAgree found → ∀ found', found'.Perm found → summarize (scan found') = result
  /-- Nothing matters but the set of places with what there is to read, if no two source files lie
  at one place. -/
  readings : PlacesDiffer found → ∀ found', PlacesDiffer found' →
    (∀ r, r ∈ sourceReadings found' ↔ r ∈ sourceReadings found) → summarize (scan found') = result

theorem extraction_summarize (found : List FoundFile) :
    Extraction found (summarize (scan found)) where
  scans := scans_scan found
  summarizes := summarizes_summarize _
  order agree found' perm :=
    summarize_congr (readings_scan_eq agree ((perm.filter _).map _))
  readings differ found' differ' same := by
    apply summarize_congr (readings_scan_eq differ.agree _)
    exact (List.perm_ext_iff_of_nodup (.of_map _ differ') (.of_map _ differ)).mpr same

/-! ## Packages in a file tree -/

/-- The symbols of a file, if it can be read and parses. -/
def Sources.symbols? (sources : Sources) (p : Place) : Option SymbolTable :=
  (sources p).bind fun content => content.bind fun bytes => extract (Text.decodeLossy bytes)

/-- There is at a place what is found of it. -/
theorem sources_eq_some_iff {t : FileTree} (distinct : t.Distinct) {cwd : Place} {root : String}
    {p : Place} {content : Option ByteArray} :
    sources t cwd root p = some content ↔
      (p, content) ∈ sourceReadings (foundIn t cwd root).2 := by
  rcases found : t.find cwd root with e | ⟨directory, _ | _ | _⟩
  all_goals simp only [sources, foundIn, found]
  case ok.directory =>
    rw [sourcesAt_eq_some_iff distinct (FileTree.find_eq_ok_iff.mp found).2]
    simp only [sourceReadings, FoundFile.reading, List.mem_map, List.mem_filter, Prod.mk.injEq,
      and_assoc]
  all_goals simp [sourceReadings]

theorem placesDiffer_foundIn {t : FileTree} (distinct : t.Distinct) (cwd : Place)
    (root : String) : PlacesDiffer (foundIn t cwd root).2 := by
  have places (found : List FoundFile) : (sourceReadings found).map Prod.fst =
      (found.filter FoundFile.isSource).map FoundFile.place := by
    rw [sourceReadings, List.map_map]
    rfl
  rw [PlacesDiffer, places]
  rcases found : t.find cwd root with e | ⟨directory, _ | _ | _⟩
  all_goals simp only [foundIn, found]
  case ok.directory =>
    exact (nodup_foundBelow distinct directory).sublist (List.filter_sublist.map _)
  all_goals exact .nil

/-- What is taken from a file that is listed is what there is to read. -/
theorem symbols?_sources {t : FileTree} {cwd : Place} {root : String} {f : FoundFile}
    (listed : f ∈ scan (foundIn t cwd root).2) :
    (sources t cwd root).symbols? f.place = f.symbols? := by
  obtain ⟨inside, source⟩ := mem_scan_iff.mp listed
  rcases found : t.find cwd root with e | ⟨directory, _ | _ | _⟩
  all_goals simp only [foundIn, found] at inside
  · cases inside
  · cases inside
  · simp only [Sources.symbols?, sources, found, FoundFile.symbols?]
    rcases sourcesAt_place inside source with reads | ⟨none, unreadable⟩
    · rw [reads, Option.bind_some]
    · rw [none, unreadable, Option.bind_none, Option.bind_none]
  · cases inside

theorem summarizes_extractDirectory (t : FileTree) (cwd : Place) (root : String) :
    Summarizes (sources t cwd root).symbols? (packageSources t cwd root).2
      (extractDirectory t cwd root) := by
  apply (summarizes_summarize (scan (foundIn t cwd root).2)).congr
  rw [packageSources, List.map_map]
  exact List.map_congr_left fun f listed => (symbols?_sources listed).symm

/-- **The first definition counts.** Whatever a walk has found, its source files are taken in the
order of the walk, each name is as it is defined in the first of them that can be read, parses and
has it, and the files that can be read and parse are counted. None of this depends on anything else
but what there is to read, nor on the order in which the files were found, as long as no two source
files are told to lie at one place. In a tree whose names are texts none do. -/
theorem extraction_spec :
    (∀ found : List FoundFile, Extraction found (summarize (scan found))) ∧
    ∀ (t : FileTree) (cwd : Place) (root : String), t.Distinct →
      Listing (sources t cwd root) (packageSources t cwd root).2 ∧
      Summarizes (sources t cwd root).symbols? (packageSources t cwd root).2
        (extractDirectory t cwd root) ∧
      Extraction (foundIn t cwd root).2 (extractDirectory t cwd root) ∧
      (∀ t' cwd' root', t'.Distinct → sources t' cwd' root' = sources t cwd root →
        extractDirectory t' cwd' root' = extractDirectory t cwd root) ∧
      ∀ t' : FileTree, t'.entries.Perm t.entries → t'.locked = t.locked →
        extractDirectory t' cwd root = extractDirectory t cwd root := by
  refine ⟨extraction_summarize, fun t cwd root distinct => ?_⟩
  have extraction := extraction_summarize (foundIn t cwd root).2
  have depends : ∀ t' cwd' root', t'.Distinct → sources t' cwd' root' = sources t cwd root →
      extractDirectory t' cwd' root' = extractDirectory t cwd root := by
    intro t' cwd' root' distinct' same
    apply extraction.readings (placesDiffer_foundIn distinct cwd root) _
      (placesDiffer_foundIn distinct' cwd' root')
    rintro ⟨p, content⟩
    rw [← sources_eq_some_iff distinct', ← sources_eq_some_iff distinct, same]
  refine ⟨listing_packageSources distinct cwd root, summarizes_extractDirectory t cwd root,
    extraction, depends, ?_⟩
  intro t' order locks
  obtain ⟨distinct', alike⟩ := distinct.alike_of_perm order locks
  exact depends t' cwd root distinct' (sources_of_alike alike cwd root)

/-- The symbols of a text that is read as it was encoded. -/
theorem symbols?_encode (path : List ByteArray) (text : String) :
    FoundFile.symbols? ⟨path, some (Text.encode text)⟩ = extract text := by
  rw [FoundFile.symbols?, Option.bind_some, Text.decodeLossy_encode]

/-- What two files declare that define the same name. -/
theorem extract_class_or_function :
    extract "class X:" = some ((∅ : SymbolTable).insertNew "X" (.classType ∅)) ∧
      extract "def X():" = some ((∅ : SymbolTable).insertNew "X" (.function [])) := by
  have word : Vocabulary.isWord "X" = true := by decide
  have unknown : "X" ∉ grammar.literals := by decide +kernel
  have outer := extract_class word unknown
  have inner := extract_function word unknown
  exact ⟨outer, inner⟩

/-- A package with a directory in it, where one name is defined twice. A file is locked. -/
def samplePackage : FileTree :=
  ⟨[(["p"], .directory), (["p", "s"], .directory),
    (["p", "s", "a.py"], .file (Text.encode "def X():")),
    (["p", "b.py"], .file (Text.encode "class X:")),
    (["p", "a.py"], .file (Text.encode "def X():"))], [["p", "a.py"]]⟩

theorem foundIn_samplePackage : (foundIn samplePackage [] "p").2 =
    [⟨[Text.encode "s", Text.encode "a.py"], some (Text.encode "def X():")⟩,
      ⟨[Text.encode "b.py"], some (Text.encode "class X:")⟩, ⟨[Text.encode "a.py"], none⟩] := by
  cbv

theorem scan_of_names (inner outer : Option ByteArray) :
    scan [⟨[Text.encode "s", Text.encode "a.py"], inner⟩, ⟨[Text.encode "b.py"], outer⟩,
        ⟨[Text.encode "a.py"], none⟩] =
      [⟨[Text.encode "a.py"], none⟩, ⟨[Text.encode "b.py"], outer⟩,
        ⟨[Text.encode "s", Text.encode "a.py"], inner⟩] := by
  cbv

/-- Whichever way its entries are given, the files at the top come first, by name, and the name is
as the first of them has it that can be read. -/
theorem extraction_spec_of_samplePackage :
    samplePackage.Distinct ∧
      (packageSources samplePackage [] "p").2 = [["a.py"], ["b.py"], ["s", "a.py"]] ∧
      Listing (sources samplePackage [] "p") [["a.py"], ["b.py"], ["s", "a.py"]] ∧
      Summarizes (sources samplePackage [] "p").symbols? [["a.py"], ["b.py"], ["s", "a.py"]]
        ((∅ : SymbolTable).insertNew "X" (.classType ∅), ⟨3, 2, 1⟩) ∧
      extractDirectory ⟨samplePackage.entries.reverse, samplePackage.locked⟩ [] "p" =
        ((∅ : SymbolTable).insertNew "X" (.classType ∅), ⟨3, 2, 1⟩) := by
  have distinct : samplePackage.Distinct := by
    unfold FileTree.Distinct
    decide
  have files : (packageSources samplePackage [] "p").2 =
      [["a.py"], ["b.py"], ["s", "a.py"]] := by cbv
  have table : extractDirectory samplePackage [] "p" =
      ((∅ : SymbolTable).insertNew "X" (.classType ∅), ⟨3, 2, 1⟩) := by
    obtain ⟨outer, inner⟩ := extract_class_or_function
    rw [extractDirectory, foundIn_samplePackage, scan_of_names]
    have locked : FoundFile.symbols? ⟨[Text.encode "a.py"], none⟩ = none := rfl
    simp only [summarize, List.filterMap_cons, List.filterMap_nil, symbols?_encode, locked, outer,
      inner]
    rfl
  obtain ⟨listing, summarizes, _, _, order⟩ := extraction_spec.2 samplePackage [] "p" distinct
  have reversed := order ⟨samplePackage.entries.reverse, samplePackage.locked⟩
    (List.reverse_perm _) rfl
  rw [files] at listing summarizes
  rw [table] at summarizes reversed
  exact ⟨distinct, files, listing, summarizes, reversed⟩

/-- Files that are told alike stay as they were found. -/
theorem scan_pair_of_alike {f g : FoundFile} (source : f.isSource = true)
    (alike : g.place = f.place) : scan [f, g] = [f, g] := by
  have source' : g.isSource = true := by
    rw [FoundFile.isSource, alike]
    exact source
  have self : walksBefore f.place f.place = true := by
    simp [walksBefore]
  have kept : [f, g].filter FoundFile.isSource = [f, g] := by
    simp [source, source']
  rw [scan, kept]
  exact List.mergeSort_of_pairwise (by simp [alike, self])

/-- A file at the top whose name ends in the extension, after an `a` and another byte. -/
def fileNamed (byte : UInt8) (text : String) : FoundFile :=
  ⟨[⟨#[97, byte, 46, 112, 121]⟩], some (Text.encode text)⟩

/-- No text has one of these bytes. -/
theorem place_fileNamed : ∀ byte ∈ [254, 255], ∀ text,
    (fileNamed byte text).place = ["a�.py"] := by
  have alike : ∀ byte ∈ [254, 255], Text.decodeLossy ⟨#[97, byte, 46, 112, 121]⟩ = "a�.py" := by
    simp only [List.forall_mem_cons]
    exact ⟨by cbv, by cbv, List.forall_mem_nil _⟩
  intro byte listed text
  rw [FoundFile.place, fileNamed, List.map_singleton, alike byte listed]

theorem summarize_scan_fileNamed {a b : UInt8} (listed : a ∈ [254, 255]) (listed' : b ∈ [254, 255])
    {text text' : String} {first second : SymbolTable} (reads : extract text = some first)
    (reads' : extract text' = some second) :
    summarize (scan [fileNamed a text, fileNamed b text']) =
      (first.mergeNew second, ⟨2, 2, 0⟩) := by
  have place := place_fileNamed a listed text
  have source : (fileNamed a text).isSource = true := by
    rw [FoundFile.isSource, place]
    decide
  rw [scan_pair_of_alike source ((place_fileNamed b listed' text').trans place.symm)]
  simp [summarize, fileNamed, symbols?_encode, reads, reads']

/-- Different names may be told alike, and then the file counts that is found first. -/
theorem not_extraction_of_alike_names :
    ¬∀ found found' : List FoundFile, (found.map FoundFile.path).Nodup → found'.Perm found →
      summarize (scan found') = summarize (scan found) := by
  intro determined
  obtain ⟨outer, inner⟩ := extract_class_or_function
  have same := determined [fileNamed 254 "class X:", fileNamed 255 "def X():"]
    [fileNamed 255 "def X():", fileNamed 254 "class X:"] (by decide) (List.Perm.swap ..)
  rw [summarize_scan_fileNamed (by decide) (by decide) inner outer,
    summarize_scan_fileNamed (by decide) (by decide) outer inner] at same
  have named := congrArg (fun result => result.1.get? "X") same
  simp at named

end ApiInventory.Source
