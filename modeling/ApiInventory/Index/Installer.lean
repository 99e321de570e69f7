import ApiInventory.Files.Tree

/-!
# Downloading with an installer

Instead of asking an index itself, a run may leave the download to an installer program,
which writes into a directory. Whatever regular files are in the directory afterwards count
as downloaded, however the program ended; if it could not be started, none do.
-/

namespace ApiInventory.Index

open Files (FileTree Place)

/-- How a program ended that was to be run. -/
inductive ProgramExit where
  | notStarted
  | ended (succeeded : Bool)
deriving DecidableEq, Repr

/-- Programs, with a state of their own. They get arguments and may change files. -/
abbrev Programs (σ : Type) :=
  String → List String → FileTree → σ → ProgramExit × FileTree × σ

structure Installer where
  program : String
deriving DecidableEq, Repr

namespace Installer

variable {σ : Type}

def default : Installer := ⟨"pip"⟩

/-- Download one version of a package alone into a directory. -/
def arguments (package version directory : String) : List String :=
  ["download", package ++ "==" ++ version, "--no-deps", "-d", directory]

/-- The regular files directly in a directory, links to such files included, ascending. -/
def filesIn (t : FileTree) (cwd : Place) (directory : String) : List String :=
  match t.find cwd directory with
  | .ok (p, .directory) =>
    if t.isLocked p then []
    else
      let found := (t.namesIn p).filter fun n => t.isFile p n
      (found.mergeSort fun a b => decide (a ≤ b)).map (Files.Path.append directory)
  | _ => []

def fetch (i : Installer) (programs : Programs σ) (package version : String) (t : FileTree)
    (cwd : Place) (directory : String) (s : σ) : List String × FileTree × σ :=
  match programs i.program (arguments package version directory) t s with
  | (.notStarted, t, s) => ([], t, s)
  | (.ended _, t, s) => (filesIn t cwd directory, t, s)

end Installer

end ApiInventory.Index
