import ApiInventory.Archive.Format
import ApiInventory.Archive.Tar
import ApiInventory.Archive.Zip
import ApiInventory.Files.Replace

/-!
# Unpacking archives

Members are put below a directory and never outside it. The two kinds of archives differ
in what they make of a name that leads outside: in a zip archive it is an error, in a tape
archive the member is left out, and slashes at the front do not count. A file whose name
tells no format is left alone, whether it exists or not.
-/

namespace ApiInventory.Archive

open Files (FileTree FileError Place Component Path.components)

/-- Why an archive is not unpacked. -/
inductive Failure where
  | unopened (path cause : String)
  | brokenZip (path cause : String)
  | brokenTar (path cause : String)
deriving DecidableEq, Repr

def Failure.message : Failure → String
  | unopened path cause => "open " ++ path ++ ": " ++ cause
  | brokenZip path cause => "zip archive " ++ path ++ ": " ++ cause
  | brokenTar path cause => "tar archive " ++ path ++ ": " ++ cause

/-! ## Where members go -/

/-- The steps of a name below the directory, two dots going one step back. -/
def zipSteps? (steps : List String) : List Component → Option (List String)
  | [] => some steps.reverse
  | .root :: _ => none
  | .current :: rest => zipSteps? steps rest
  | .parent :: rest =>
    match steps with
    | [] => none
    | _ :: before => zipSteps? before rest
  | .normal name :: rest => zipSteps? (name :: steps) rest

/-- The steps of a name below the directory, none if there are two dots in it. -/
def tarSteps? : List Component → Option (List String)
  | [] => some []
  | .root :: rest | .current :: rest => tarSteps? rest
  | .parent :: _ => none
  | .normal name :: rest => (tarSteps? rest).map (name :: ·)

/-- A tree, and a directory in it. -/
structure Position where
  tree : FileTree
  place : Place

/-- Go down from a directory below `root`, and make directories that are missing. A link
may be passed if it stays below `root`. -/
def descend (root : Place) : List String → Position → Option Position
  | [], p => some p
  | s :: rest, p =>
    let next := p.place ++ [s]
    match p.tree.get? next with
    | none => descend root rest ⟨p.tree.set next .directory, next⟩
    | some .directory => descend root rest ⟨p.tree, next⟩
    | some (.file _) => none
    | some (.link _) =>
      match p.tree.walk true Files.FileTree.linkLimit p.place [s] with
      | .error _ => none
      | .ok target =>
        if (Files.Path.stripFront? root target).isSome && p.tree.get? target = some .directory then
          descend root rest ⟨p.tree, target⟩
        else none

/-- Put a member at steps below `root`. Directories stay, anything else gives way. -/
def put (root : Place) (steps : List String) (content : Content) (t : FileTree) :
    Option FileTree :=
  match steps.getLast? with
  | none => if content = .directory then some t else none
  | some name =>
    (descend root steps.dropLast ⟨t, root⟩).bind fun p =>
      let goal := p.place ++ [name]
      let found := p.tree.get? goal
      match content with
      | .directory => (descend root [name] p).map (·.tree)
      | .file bytes =>
        if found = some .directory then none
        else some (p.tree.set goal (.file ⟨bytes.toArray⟩))
      | .link target =>
        if found = some .directory then none else some (p.tree.set goal (.link target))
      | .sameAs other =>
        match (tarSteps? (Path.components other)).bind fun s => p.tree.get? (root ++ s) with
        | some (.file bytes) => if found.isSome then none else some (p.tree.set goal (.file bytes))
        | _ => none

/-! ## Both kinds of archives -/

/-- Put the members of a zip archive below a directory, in their order. -/
def placeZip (root : Place) (members : List Member) (t : FileTree) : Option FileTree :=
  members.foldlM (fun t m =>
    (zipSteps? [] (Path.components m.name)).bind fun steps => put root steps m.content t) t

def placeTarMember (root : Place) (t : FileTree) (m : Member) : Option FileTree :=
  match tarSteps? (Path.components m.name) with
  | none | some [] => some t
  | some steps => put root steps m.content t

/-- Put the members of a tape archive below a directory: files in their order, then
directories, descending by name. -/
def placeTar (root : Place) (members : List Member) (t : FileTree) : Option FileTree :=
  let (directories, files) := members.partition fun m => m.content = .directory
  let ordered := directories.mergeSort fun a b => b.name ≤ a.name
  (files ++ ordered).foldlM (placeTarMember root) t

/-- A directory that is made if it is missing. -/
def openDestination (t : FileTree) (cwd : Place) (path : String) : Option Position :=
  let made := t.openDirectories cwd path
  match made.result, made.tree.find cwd path with
  | .ok (), .ok (place, .directory) => some ⟨made.tree, place⟩
  | _, _ => none

def isNulFree (m : Member) : Bool := !m.name.toList.contains '\x00'

def unpackZip (content : ByteArray) (p : Position) : Option FileTree :=
  (Zip.read? content.toList).bind fun members =>
    if members.all isNulFree then placeZip p.place members p.tree else none

def unpackTar (content : ByteArray) (p : Position) : Option FileTree :=
  (Tar.read? (Gzip.read content.toList)).bind fun members => placeTar p.place members p.tree

def Format.unpackContent : Format → ByteArray → Position → Option FileTree
  | zip => unpackZip
  | gzippedTar => unpackTar

def Format.broken (format : Format) (path : String) : Failure :=
  match format with
  | zip => .brokenZip path "invalid archive"
  | gzippedTar => .brokenTar path "invalid archive"

/-- Unpack the archive at a path into a directory. After an error the tree is as before. -/
def unpack (t : FileTree) (cwd : Place) (archive directory : String) :
    FileTree × Except Failure Unit :=
  match Format.ofPath? archive with
  | none => (t, .ok ())
  | some format =>
    match t.read cwd archive with
    | .error .isDirectory => (t, .error (format.broken archive))
    | .error e => (t, .error (.unopened archive e.message))
    | .ok content =>
      match (openDestination t cwd directory).bind (format.unpackContent content) with
      | some done => (done, .ok ())
      | none => (t, .error (format.broken archive))

end ApiInventory.Archive
