import ApiInventory.Archive.Unpack

/-!
# Services

A batch relies on services outside of it: a clock, the index, the download of files and
the unpacking of archives. They share a state of their own, of any type. A service
either answers or breaks down; a breakdown ends the item that asked, and nothing else.

Each item gets a work area, a tree of files of its own with a directory for what is
downloaded and one for what is unpacked. A service can change files there and nowhere
else.
-/

namespace ApiInventory.Batch

open Files (FileTree)

/-- What a service does when it is asked. -/
inductive Reply (α : Type) where
  | answer (value : α)
  | breakdown (message : Option String)

structure Services (σ : Type) where
  /-- The time. -/
  now : σ → Nat × σ
  /-- The latest version of a package. -/
  resolve : (package : String) → σ → Reply (Option String) × σ
  /-- Download files of a version of a package, and say where they are. -/
  fetch : (package version : String) → FileTree → σ → Reply (List String) × FileTree × σ
  /-- Unpack the archive at a path. -/
  unpack : (archive : String) → FileTree → σ →
    Reply (Except Archive.Failure Unit) × FileTree × σ
  /-- Whether the device takes the next file. -/
  accepts : σ → Bool × σ

namespace WorkArea

def downloads : String := "/download"

def unpacked : String := "/extracted"

def new : FileTree := ⟨[(["download"], .directory), (["extracted"], .directory)], []⟩

end WorkArea

/-! ## The first of several files -/

/-- Components in the order of paths. -/
def componentRank : Files.Component → Nat × String
  | .root => (0, "")
  | .current => (1, "")
  | .parent => (2, "")
  | .normal name => (3, name)

def componentBefore (a b : Files.Component) : Bool :=
  let (i, x) := componentRank a
  let (j, y) := componentRank b
  decide (i < j) || (decide (i = j) && decide (x < y))

/-- Whether a path comes before another: they are compared component by component. -/
def pathBefore (a b : String) : Bool :=
  List.lex (Files.Path.components a) (Files.Path.components b) componentBefore

/-- The first of some paths in their order. -/
def leastPath? : List String → Option String
  | [] => none
  | p :: rest => some (rest.foldl (fun least q => if pathBefore q least then q else least) p)

/-! ## The services of a run -/

/-- Unpack into the directory of the work area that is meant for it. -/
def unpackInArea (archive : String) (area : FileTree) :
    Reply (Except Archive.Failure Unit) × FileTree :=
  let (area, result) := Archive.unpack area [] archive WorkArea.unpacked
  (.answer result, area)

end ApiInventory.Batch
