import ApiInventory.Files.Path

/-!
# File trees

A file tree maps absolute places, lists of names, to files, directories and symbolic
links. The root is always a directory. `locate` finds the place that a path means,
following links and checking on the way that every step stays inside a directory.

A place may be locked: a locked file cannot be read, a locked directory neither listed
nor passed through.
-/

namespace ApiInventory.Files

/-- Where something lies, from the root down. -/
abbrev Place := List String

/-- Arrays of bytes are equal iff their data are. -/
instance decidableEqBytes : DecidableEq ByteArray := fun a b =>
  if h : a.data = b.data then .isTrue (ByteArray.ext h) else .isFalse fun e => h (congrArg _ e)

inductive Entry where
  | file (content : ByteArray)
  | directory
  | link (target : String)
deriving DecidableEq

/-- Why an operation on files fails, perhaps with what was being done. -/
inductive FileError where
  | notFound
  | notDirectory
  | isDirectory
  | alreadyExists
  | notEmpty
  | tooManyLinks
  | locked
  | deviceFailed
  | during (step : String) (cause : FileError)
deriving DecidableEq, Repr

namespace FileError

def message : FileError → String
  | notFound => "no such file or directory"
  | notDirectory => "not a directory"
  | isDirectory => "is a directory"
  | alreadyExists => "file exists"
  | notEmpty => "directory not empty"
  | tooManyLinks => "too many levels of symbolic links"
  | locked => "permission denied"
  | deviceFailed => "the device failed"
  | during step cause => step ++ ": " ++ cause.message

/-- What was being done, if that is known. -/
def heading : FileError → String
  | during step _ => step
  | e => e.message

end FileError

structure FileTree where
  entries : List (Place × Entry)
  locked : List Place

namespace FileTree

def empty : FileTree := ⟨[], []⟩

instance : EmptyCollection FileTree := ⟨empty⟩

instance : Inhabited FileTree := ⟨empty⟩

/-- What lies at a place. -/
def get? (t : FileTree) (p : Place) : Option Entry :=
  if p = [] then some .directory else t.entries.lookup p

/-- Put an entry at a place, instead of what was there. What is new is not locked. -/
def set (t : FileTree) (p : Place) (e : Entry) : FileTree where
  entries := (p, e) :: t.entries.filter fun x => x.1 ≠ p
  locked := t.locked.filter (· ≠ p)

def erase (t : FileTree) (p : Place) : FileTree :=
  { t with entries := t.entries.filter fun x => x.1 ≠ p }

/-- Only a file or a directory can be locked. -/
def isLocked (t : FileTree) (p : Place) : Bool :=
  match t.get? p with
  | some (.file _) | some .directory => t.locked.contains p
  | some (.link _) | none => false

theorem lookup_cons_if (e : Place × Entry) (es : List (Place × Entry)) (p : Place) :
    (e :: es).lookup p = if p = e.1 then some e.2 else es.lookup p := by
  rw [List.lookup_cons]
  by_cases h : p = e.1
  · simp [h]
  · simp [h, beq_eq_false_iff_ne.2 h]

theorem lookup_filter_ne (es : List (Place × Entry)) (p q : Place) :
    (es.filter fun x => x.1 ≠ p).lookup q = if q = p then none else es.lookup q := by
  induction es with
  | nil => simp
  | cons e es ih =>
    rw [lookup_cons_if]
    by_cases hp : e.1 = p
    · rw [List.filter_cons_of_neg (by simp [hp]), ih, hp]
      by_cases hq : q = p <;> simp [hq]
    · rw [List.filter_cons_of_pos (by simp [hp]), lookup_cons_if, ih]
      by_cases hq : q = e.1
      · simp [hq, hp]
      · simp [hq]

@[simp] theorem get?_set (t : FileTree) (p q : Place) (e : Entry) (hp : p ≠ []) :
    (t.set p e).get? q = if q = p then some e else t.get? q := by
  unfold get? set
  rw [lookup_cons_if, lookup_filter_ne]
  by_cases hq : q = p <;> simp [hq, hp]

@[simp] theorem get?_erase (t : FileTree) (p q : Place) (hp : p ≠ []) :
    (t.erase p).get? q = if q = p then none else t.get? q := by
  unfold get? erase
  rw [lookup_filter_ne]
  by_cases hq : q = p <;> simp [hq, hp]

theorem isLocked_set (t : FileTree) (p q : Place) (e : Entry) (hp : p ≠ []) :
    (t.set p e).isLocked q = if q = p then false else t.isLocked q := by
  unfold isLocked
  rw [get?_set t p q e hp]
  by_cases hq : q = p
  · subst hq
    rw [if_pos rfl, if_pos rfl]
    cases e <;> simp [set]
  · rw [if_neg hq, if_neg hq]
    have contains : (t.set p e).locked.contains q = t.locked.contains q := by
      simp [set, List.contains_eq_mem, hq]
    rw [contains]

/-! ## Finding places -/

/-- The pieces of a path that are walked through, a trailing slash counting as a step to
the directory itself. -/
def pathSteps (path : String) : List String :=
  let steps := (Text.pieces '/' path.toList).filter (· ≠ []) |>.map String.ofList
  if Path.hasTrailingSlash path then steps ++ ["."] else steps

/-- At most this many links are followed. -/
def linkLimit : Nat := 40

/-- Walk from a directory. The last step may lead to nothing; `follow` says whether a
link at the last step is followed. -/
def walk (t : FileTree) (follow : Bool) (links : Nat) (here : Place) (steps : List String) :
    Except FileError Place :=
  match steps with
  | [] => .ok here
  | s :: rest =>
    if s = "." then walk t follow links here rest
    else if s = ".." then walk t follow links here.dropLast rest
    else if t.isLocked here then .error .locked
    else
      let there := here ++ [s]
      match t.get? there with
      | none => if rest = [] then .ok there else .error .notFound
      | some .directory => walk t follow links there rest
      | some (.file _) => if rest = [] then .ok there else .error .notDirectory
      | some (.link target) =>
        if rest = [] && !follow then .ok there
        else
          match links with
          | 0 => .error .tooManyLinks
          | links + 1 =>
            if target = "" then .error .notFound
            else
              let from' := if Path.isAbsolute target then [] else here
              walk t follow links from' (pathSteps target ++ rest)
termination_by (links, steps.length)

/-- The place that a path means, seen from a working directory. -/
def locate (t : FileTree) (cwd : Place) (path : String) (follow : Bool) :
    Except FileError Place :=
  if path = "" then .error .notFound
  else t.walk follow linkLimit (if Path.isAbsolute path then [] else cwd) (pathSteps path)

/-- The entry that a path means, if there is one. -/
def find (t : FileTree) (cwd : Place) (path : String) : Except FileError (Place × Entry) :=
  match t.locate cwd path true with
  | .error e => .error e
  | .ok p =>
    match t.get? p with
    | none => .error .notFound
    | some e => .ok (p, e)

def isFile (t : FileTree) (cwd : Place) (path : String) : Bool :=
  match t.find cwd path with
  | .ok (_, .file _) => true
  | _ => false

def isDirectory (t : FileTree) (cwd : Place) (path : String) : Bool :=
  match t.find cwd path with
  | .ok (_, .directory) => true
  | _ => false

/-! ## Reading and changing -/

def read (t : FileTree) (cwd : Place) (path : String) : Except FileError ByteArray :=
  match t.find cwd path with
  | .error e => .error e
  | .ok (p, .file content) => if t.isLocked p then .error .locked else .ok content
  | .ok (_, .directory) => .error .isDirectory
  | .ok (_, .link _) => .error .tooManyLinks

/-- The names in a directory, in no particular order. -/
def namesIn (t : FileTree) (p : Place) : List String :=
  t.entries.filterMap fun (q, _) =>
    match q.getLast? with
    | some name => if q.dropLast = p then some name else none
    | none => none

/-- Everything below a place, with its place relative to it. -/
def below (t : FileTree) (p : Place) : List (Place × Entry) :=
  t.entries.filterMap fun (q, e) =>
    match Path.stripFront? p q with
    | some [] | none => none
    | some rest => some (rest, e)

/-- Make one directory. -/
def makeDirectory (t : FileTree) (cwd : Place) (path : String) : Except FileError FileTree :=
  let bare := String.ofList (path.toList.reverse.dropWhile (· = '/')).reverse
  if path = "" then .error .notFound
  else if bare = "" then .error .alreadyExists
  else
    match t.locate cwd bare false with
    | .error e => .error e
    | .ok p =>
      match t.get? p with
      | some _ => .error .alreadyExists
      | none => .ok (t.set p .directory)

/-- A file is written in place: a link is followed. -/
def writeFile (t : FileTree) (cwd : Place) (path : String) (content : ByteArray) :
    Except FileError FileTree :=
  match t.locate cwd path true with
  | .error e => .error e
  | .ok p =>
    match t.get? p with
    | some .directory => .error .isDirectory
    | some (.link _) => .error .tooManyLinks
    | some (.file _) | none =>
      if t.isLocked p then .error .locked else .ok (t.set p (.file content))

/-- Remove a file, a link or an empty directory. -/
def remove (t : FileTree) (cwd : Place) (path : String) : Except FileError FileTree :=
  match t.locate cwd path false with
  | .error e => .error e
  | .ok p =>
    match t.get? p with
    | none => .error .notFound
    | some .directory =>
      if p = [] || !(t.namesIn p).isEmpty then .error .notEmpty else .ok (t.erase p)
    | some _ => .ok (t.erase p)

/-- The regular files below a place, links left out, ascending by path. -/
def listing (t : FileTree) (p : Place) : List (String × ByteArray) :=
  let files := (t.below p).filterMap fun (q, e) =>
    match e with
    | .file content => some (Path.joinSteps q, content)
    | _ => none
  files.mergeSort fun a b => decide (a.1 ≤ b.1)

end FileTree

end ApiInventory.Files
