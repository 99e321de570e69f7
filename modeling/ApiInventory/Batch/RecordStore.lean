import ApiInventory.Batch.RecordName
import ApiInventory.Files.Replace
import ApiInventory.Symbols.Json
import ApiInventory.Text.Utf8

/-!
# The record store

Records lie in one directory. A record says that a package has been dealt with at a
version; it is written once, as pretty JSON with a line break at its end, and never read
back.
-/

namespace ApiInventory.Batch

open Files (FileTree FileError Place Attempt)

/-- A store is its directory. -/
structure RecordStore where
  directory : String
deriving DecidableEq, Repr

namespace RecordStore

/-- The path of the record of a package at a version token. -/
def path (s : RecordStore) (package token : String) : String :=
  Files.Path.append s.directory (recordName package token)

/-- Make the directory of the store, with all above it. -/
def create (s : RecordStore) (t : FileTree) (cwd : Place) : Attempt :=
  (t.openDirectories cwd s.directory).during ("create dir " ++ s.directory)

def has (s : RecordStore) (t : FileTree) (cwd : Place) (package token : String) : Bool :=
  t.isFile cwd (s.path package token)

/-- What a record holds. -/
def body (table : SymbolTable) : ByteArray := Text.encode (table.pretty ++ "\n")

def write (s : RecordStore) (t : FileTree) (cwd : Place) (package token : String)
    (table : SymbolTable) (accepts : Bool) : Attempt :=
  t.replaceFile cwd (s.path package token) (body table) accepts

end RecordStore

end ApiInventory.Batch
