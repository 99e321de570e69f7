import ApiInventory.Files.Tree

/-!
# Replacing files as a whole

`replaceFile` writes a new file beside its goal and then renames it, so that a reader
finds the old content or all of the new one. Missing directories above the goal are
made first, and these stay even if the replacement fails.
-/

namespace ApiInventory.Files

/-- A tree after an attempt, and how the attempt ended. -/
structure Attempt where
  tree : FileTree
  result : Except FileError Unit

/-- An attempt of which it is told what it was for, if it fails. -/
def Attempt.during (step : String) (a : Attempt) : Attempt :=
  ⟨a.tree, a.result.mapError (.during step)⟩

@[simp] theorem Attempt.tree_during (step : String) (a : Attempt) :
    (a.during step).tree = a.tree := rfl

@[simp] theorem Attempt.result_during_eq_ok_iff {step : String} {a : Attempt} :
    (a.during step).result = .ok () ↔ a.result = .ok () := by
  obtain ⟨tree, e | ⟨⟩⟩ := a
  · constructor <;> intro h <;> cases h
  · exact ⟨fun _ => rfl, fun _ => rfl⟩

namespace Path

/-- The path that components spell. -/
def ofComponents : List Component → String
  | .root :: rest => "/" ++ String.ofList (Text.join '/' (rest.map fun c => c.text.toList))
  | components => String.ofList (Text.join '/' (components.map fun c => c.text.toList))

end Path

namespace FileTree

/-- Make the directory that is spelled in some way, and all that are missing above it, which are
spelled by their components. -/
def makeDirectoriesAs (t : FileTree) (cwd : Place) (spelling : String) (path : List Component) :
    Attempt :=
  if path = [] then ⟨t, .ok ()⟩
  else
    match t.makeDirectory cwd spelling with
    | .ok made => ⟨made, .ok ()⟩
    | .error .notFound =>
      match _h : Path.parentComponents? path with
      | none => ⟨t, .error .notFound⟩
      | some parent =>
        let above := makeDirectoriesAs t cwd (Path.ofComponents parent) parent
        match above.result with
        | .error e => ⟨above.tree, .error e⟩
        | .ok () =>
          match above.tree.makeDirectory cwd spelling with
          | .ok made => ⟨made, .ok ()⟩
          | .error e =>
            if above.tree.isDirectory cwd spelling then ⟨above.tree, .ok ()⟩
            else ⟨above.tree, .error e⟩
    | .error e => if t.isDirectory cwd spelling then ⟨t, .ok ()⟩ else ⟨t, .error e⟩
termination_by path.length
decreasing_by exact Path.length_lt_of_parentComponents? (by assumption)

/-- Make a directory and all that are missing above it. -/
def makeDirectories (t : FileTree) (cwd : Place) (path : List Component) : Attempt :=
  t.makeDirectoriesAs cwd (Path.ofComponents path) path

/-- Make the directory of a path that someone has written, with all above it. A point at its end is
a step that is taken, though it is none of its components. -/
def openDirectories (t : FileTree) (cwd : Place) (path : String) : Attempt :=
  t.makeDirectoriesAs cwd path (Path.components path)

/-- The parent directory of a path; for a bare name that is the working directory. -/
def parentOf (path : String) : List Component :=
  (Path.parentComponents? (Path.components path)).getD []

/-- The parent directory of a path as it is opened. -/
def folderOf (path : String) : String :=
  if parentOf path = [] then "." else Path.ofComponents (parentOf path)

/-- A name that nothing in a directory has. -/
def freshName (t : FileTree) (directory : Place) (stem : String) : String :=
  let names := (List.range (t.entries.length + 1)).map fun i => stem ++ toString i
  (names.find? fun n => (t.get? (directory ++ [n])).isNone).getD stem

/-- Move a file over a path. A directory is in the way; anything else gives way. -/
def renameFile (t : FileTree) (cwd : Place) (source : Place) (content : ByteArray)
    (path : String) : Except FileError FileTree :=
  match t.locate cwd path false with
  | .error e => .error e
  | .ok p =>
    match t.get? p with
    | some .directory => .error .isDirectory
    | _ => .ok ((t.erase source).set p (.file content))

/-- Give a path new content, all or nothing. `accepts` says whether the device takes the
new file. -/
def replaceFile (t : FileTree) (cwd : Place) (path : String) (content : ByteArray)
    (accepts : Bool) : Attempt :=
  let above := t.makeDirectories cwd (parentOf path)
  match above.result with
  | .error e => ⟨above.tree, .error (.during ("create dir " ++ folderOf path) e)⟩
  | .ok () =>
    match above.tree.find cwd (folderOf path) with
    | .error e => ⟨above.tree, .error (.during ("create temp file in " ++ folderOf path) e)⟩
    | .ok (place, .directory) =>
      if above.tree.isLocked place then
        ⟨above.tree, .error (.during ("create temp file in " ++ folderOf path) .locked)⟩
      else
        let temporary := place ++ [above.tree.freshName place ".tmp"]
        let written := above.tree.set temporary (.file content)
        if accepts then
          match written.renameFile cwd temporary content path with
          | .ok renamed => ⟨renamed, .ok ()⟩
          | .error e => ⟨written.erase temporary, .error (.during ("rename into " ++ path) e)⟩
        else
          ⟨written.erase temporary, .error (.during ("write temp file for " ++ path) .deviceFailed)⟩
    | .ok _ =>
      ⟨above.tree, .error (.during ("create temp file in " ++ folderOf path) .notDirectory)⟩

end FileTree

end ApiInventory.Files
