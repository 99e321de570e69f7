import ApiInventory.Batch.RecordName
import ApiInventory.Files.Tree
import ApiInventory.Index.Address
import ApiInventory.Index.Release

/-!
# Asking an index

A client asks an index on the web for the latest version of a package and for the files
of a release, and downloads one of them. Whatever goes wrong on the way, the answer is
that there is no version or no file.
-/

namespace ApiInventory.Index

open Files (FileTree Place)

/-- What comes back from the web: nothing, or a status and a body, which may break off. -/
inductive Response where
  | lost
  | answered (status : Nat) (body : ByteArray) (complete : Bool)

/-- The web, with a state of its own. -/
abbrev Web (σ : Type) := Address → σ → Response × σ

/-- Ask for an address given as text. What is no address is not asked for, and a status
from 400 on is no response. -/
def Web.get? {σ : Type} (web : Web σ) (url : String) (s : σ) :
    Option (ByteArray × Bool) × σ :=
  match Address.parse? url with
  | none => (none, s)
  | some address =>
    match web address s with
    | (.lost, s) => (none, s)
    | (.answered status body complete, s) =>
      (if status < 400 then some (body, complete) else none, s)

structure Client where
  indexUrl : String
deriving DecidableEq, Repr

namespace Client

variable {σ : Type}

/-- The base of all addresses that a client asks for has no slash at its end. -/
def base (c : Client) : String :=
  String.ofList (c.indexUrl.toList.reverse.dropWhile (· = '/')).reverse

/-- Where the index describes a package, or one version of it. -/
def releaseUrl (c : Client) (package : String) (version : Option String) : String :=
  match version with
  | none => c.base ++ "/" ++ package ++ "/json"
  | some v => c.base ++ "/" ++ package ++ "/" ++ v ++ "/json"

/-- What a complete body says about a release. -/
def readRelease? (answer : ByteArray × Bool) : Option Release :=
  if answer.2 then (Json.ofBytes? answer.1).bind Release.ofJson? else none

def release? (web : Web σ) (url : String) (s : σ) : Option Release × σ :=
  let (answer, s) := web.get? url s
  (answer.bind readRelease?, s)

/-- The latest version of a package. -/
def resolve (c : Client) (web : Web σ) (package : String) (s : σ) : Option String × σ :=
  let (release, s) := release? web (c.releaseUrl package none) s
  (release.bind Release.statedVersion?, s)

/-- Where a file of a release is put. -/
def downloadPath (directory : String) (f : ReleaseFile) : String :=
  Files.Path.append directory (Batch.cleaned f.fileName)

/-- Download a file into a directory. What came before a break stays there, but does not
count as downloaded. -/
def download (web : Web σ) (f : ReleaseFile) (t : FileTree) (cwd : Place)
    (directory : String) (s : σ) : List String × FileTree × σ :=
  match web.get? f.url s with
  | (none, s) => ([], t, s)
  | (some (body, complete), s) =>
    match t.writeFile cwd (downloadPath directory f) body with
    | .error _ => ([], t, s)
    | .ok t => (if complete then [downloadPath directory f] else [], t, s)

/-- Download a file of a version of a package, and say where it is. -/
def fetch (c : Client) (web : Web σ) (package version : String) (t : FileTree) (cwd : Place)
    (directory : String) (s : σ) : List String × FileTree × σ :=
  let (release, s) := release? web (c.releaseUrl package (some version)) s
  match release.bind Release.pick? with
  | none => ([], t, s)
  | some f => download web f t cwd directory s

end Client

end ApiInventory.Index
