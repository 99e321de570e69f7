import ApiInventory.Files.Tree
import ApiInventory.Source.Declarations
import ApiInventory.Text.Utf8

/-!
# The sources of a package

The source files of a directory are read from the top down: the files of a directory
by name, then what lies in its subdirectories, by name. Links are not followed. Names
are bytes, but they are compared as texts: files whose names are the same text stay in
the order in which they were found. The symbols of all files make up one table, in which
the first definition of a name stays; a file that cannot be read or does not parse adds
nothing.
-/

namespace ApiInventory.Source

open Files (FileTree Place Entry)

/-- Where a file comes in the walk: its directories first, then its name. -/
def walkKey (p : Place) : List String × String := (p.dropLast, p.getLast?.getD "")

def walksBefore (p q : Place) : Bool :=
  let (a, x) := walkKey p
  let (b, y) := walkKey q
  decide (a < b) || (decide (a = b) && decide (x ≤ y))

/-- A file that a walk has found: the names on the way to it, and its bytes if it can be
read. -/
structure FoundFile where
  path : List ByteArray
  content : Option ByteArray
deriving DecidableEq

namespace FoundFile

/-- The place of a file as it is told, its names as texts. -/
def place (f : FoundFile) : Place := f.path.map Text.decodeLossy

def isSource (f : FoundFile) : Bool := Files.isSourceFile (f.place.getLast?.getD "")

/-- The symbols of a file, unless it cannot be read or does not parse. -/
def symbols? (f : FoundFile) : Option SymbolTable :=
  f.content.bind fun bytes => extract (Text.decodeLossy bytes)

end FoundFile

/-- The source files among those that were found, from the top down. -/
def scan (found : List FoundFile) : List FoundFile :=
  (found.filter FoundFile.isSource).mergeSort fun f g => walksBefore f.place g.place

structure ExtractionCounts where
  files : Nat
  parsed : Nat
  failed : Nat
deriving DecidableEq, Repr

/-- The symbols of some files, one after the other. -/
def summarize (files : List FoundFile) : SymbolTable × ExtractionCounts :=
  let tables := files.filterMap FoundFile.symbols?
  let counts : ExtractionCounts :=
    { files := files.length
      parsed := tables.length
      failed := files.length - tables.length }
  (tables.foldl NameMap.mergeNew ∅, counts)

/-! ## Packages in a file tree -/

/-- Whether the walk gets to what lies at a place below a directory: no directory on the
way is locked. -/
def reachable (t : FileTree) (directory : Place) (p : Place) : Bool :=
  (List.range p.length).all fun n => !t.isLocked (directory ++ p.take n)

/-- The bytes of a file, if it can be read. -/
def bytesAt? (t : FileTree) (p : Place) : Option ByteArray :=
  match t.get? p with
  | some (.file content) => if t.isLocked p then none else some content
  | _ => none

/-- The files that a walk finds below a directory. -/
def foundBelow (t : FileTree) (directory : Place) : List FoundFile :=
  (t.below directory).filterMap fun (p, e) =>
    match e with
    | .file _ =>
      if reachable t directory p then some ⟨p.map Text.encode, bytesAt? t (directory ++ p)⟩
      else none
    | _ => none

/-- The files of a root directory. A root that is no directory has none. -/
def foundIn (t : FileTree) (cwd : Place) (root : String) : Place × List FoundFile :=
  match t.find cwd root with
  | .ok (directory, .directory) => (directory, foundBelow t directory)
  | _ => ([], [])

/-- The source files of a root directory, in the order of the walk. -/
def packageSources (t : FileTree) (cwd : Place) (root : String) : Place × List Place :=
  let (directory, found) := foundIn t cwd root
  (directory, (scan found).map FoundFile.place)

/-- The symbols of a package. -/
def extractDirectory (t : FileTree) (cwd : Place) (root : String) :
    SymbolTable × ExtractionCounts :=
  summarize (scan (foundIn t cwd root).2)

end ApiInventory.Source
