import ApiInventory.Batch.Checkpoint
import ApiInventory.Batch.Outcome
import ApiInventory.Batch.RecordStore
import ApiInventory.Batch.Services
import ApiInventory.Batch.VersionToken
import ApiInventory.Source.Package

/-!
# Items

An item takes a package through all services: its version is resolved, and unless there
is a record of that version, an archive is downloaded and unpacked, and the symbols found
in it are recorded. `process` goes as far as the services allow; `attempt` turns a
breakdown into a skip.
-/

namespace ApiInventory.Batch

open Files (FileTree Place)

/-- What happens in the course of a run. -/
inductive Event where
  | checkpointWarning (warning : Checkpoint.Warning)
  | resolving (package : String)
  | unsortable (package version token : String)
  | fetching (package version : String)
  | unpacking (package archive : String)
  | finished (package : String) (outcome : Outcome)
  | outOfTime (package : String) (position : Nat)
deriving DecidableEq, Repr

/-- Where a batch keeps its files. -/
structure Desk where
  directory : Place
  store : RecordStore
  checkpoint : String
  /-- The directory below which work areas are made. -/
  temporary : String

/-- How things stand during a run. -/
structure Progress (σ : Type) where
  tree : FileTree
  outside : σ
  events : List Event

namespace Progress

variable {σ : Type}

def note (w : Progress σ) (e : Event) : Progress σ := { w with events := w.events ++ [e] }

@[simp] theorem tree_note (w : Progress σ) (e : Event) : (w.note e).tree = w.tree := rfl

@[simp] theorem outside_note (w : Progress σ) (e : Event) : (w.note e).outside = w.outside := rfl

@[simp] theorem events_note (w : Progress σ) (e : Event) :
    (w.note e).events = w.events ++ [e] := rfl

end Progress

namespace Item

variable {σ : Type} (s : Services σ) (d : Desk) (package : String)

/-- Record the symbols of a package, if there are any. -/
def record (token : String) (table : SymbolTable) (w : Progress σ) : Progress σ × Outcome :=
  if table.isEmpty then (w, .skipped .nothingFound)
  else
    let (accepted, outside) := s.accepts w.outside
    let attempt := d.store.write w.tree d.directory package token table accepted
    let w := { w with tree := attempt.tree, outside := outside }
    match attempt.result with
    | .ok () => (w, .recorded (recordName package token) table.size)
    | .error e => (w, .skipped (.ofFailure e.message []))

/-- Unpack an archive and go on with what was in it. -/
def unpack (token archive : String) (area : FileTree) (w : Progress σ) :
    Progress σ × Reply Outcome :=
  let w := w.note (.unpacking package archive)
  let (reply, area, outside) := s.unpack archive area w.outside
  let w := { w with outside := outside }
  match reply with
  | .breakdown message => (w, .breakdown message)
  | .answer (.error e) => (w, .answer (.skipped (.notUnpacked e.message)))
  | .answer (.ok ()) =>
    let (w, outcome) :=
      record s d package token (Source.extractDirectory area [] WorkArea.unpacked).1 w
    (w, .answer outcome)

/-- Download a version and go on with the first file. -/
def fetch (version token : String) (w : Progress σ) : Progress σ × Reply Outcome :=
  let w := w.note (.fetching package version)
  let (reply, area, outside) := s.fetch package version WorkArea.new w.outside
  let w := { w with outside := outside }
  match reply with
  | .breakdown message => (w, .breakdown message)
  | .answer files =>
    match leastPath? files with
    | none => (w, .answer (.skipped .notDownloaded))
    | some archive => unpack s d package token archive area w

/-- Note it if the token of a version does not sort. -/
def noteUnsortable (version token : String) (w : Progress σ) : Progress σ :=
  if isSortable version then w else w.note (.unsortable package version token)

/-- Go on with a version that was resolved. -/
def version (version : String) (w : Progress σ) : Progress σ × Reply Outcome :=
  let token := versionToken version
  let w := noteUnsortable package version token w
  if d.store.has w.tree d.directory package token then (w, .answer (.known token))
  else if w.tree.isDirectory d.directory d.temporary then fetch s d package version token w
  else (w, .answer (.skipped (.ofFailure Files.FileError.notFound.message ["create work dir"])))

/-- Take a package through all services. -/
def process (w : Progress σ) : Progress σ × Reply Outcome :=
  if isSafePart package then
    let w := w.note (.resolving package)
    let (reply, outside) := s.resolve package w.outside
    let w := { w with outside := outside }
    match reply with
    | .breakdown message => (w, .breakdown message)
    | .answer none => (w, .answer (.skipped .unresolved))
    | .answer (some v) => version s d package v w
  else (w, .answer (.skipped .unsafeName))

/-- Take a package through all services, a breakdown being a reason to skip it. -/
def attempt (w : Progress σ) : Progress σ × Outcome :=
  match process s d package w with
  | (w, .answer outcome) => (w, outcome)
  | (w, .breakdown message) => (w, .skipped (.ofBreakdown message))

end Item

end ApiInventory.Batch
