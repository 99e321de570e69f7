import ApiInventory.Text.Split

/-!
# Paths

A path is a text; its components are the names between slashes. Repeated and trailing
slashes do not count, nor does a single dot, except at the front of a relative path.
Two dots stay as they are, since what they mean depends on the files.
-/

namespace ApiInventory.Files

inductive Component where
  | root
  | current
  | parent
  | normal (name : String)
deriving DecidableEq, Repr

namespace Component

/-- How a component is spelled inside a path. -/
def text : Component → String
  | root => "/"
  | current => "."
  | parent => ".."
  | normal name => name

/-- The text of a component that leads somewhere else than its surroundings. -/
def step? : Component → Option String
  | root | current => none
  | parent => some ".."
  | normal name => some name

end Component

namespace Path

/-- The component of a piece inside a path. -/
def inner (piece : List Char) : List Component :=
  if piece = [] || piece = ['.'] then []
  else if piece = ['.', '.'] then [.parent]
  else [.normal (String.ofList piece)]

def componentsOf (text : List Char) : List Component :=
  match Text.pieces '/' text with
  | [] => []
  | first :: rest =>
    let front :=
      if text.head? = some '/' then [.root]
      else if first = ['.'] then [.current]
      else inner first
    front ++ rest.flatMap inner

def components (path : String) : List Component := componentsOf path.toList

def isAbsolute (path : String) : Bool := path.toList.head? = some '/'

def joinSteps (steps : List String) : String :=
  if steps.isEmpty then "." else String.ofList (Text.join '/' (steps.map String.toList))

/-- The steps of a path with single slashes between, or a dot if there are none. -/
def normalizeComponents (components : List Component) : String :=
  joinSteps (components.filterMap Component.step?)

def normalize (path : String) : String := normalizeComponents (components path)

/-- What remains of a list after one that it begins with. -/
def stripFront? {α : Type} [DecidableEq α] : List α → List α → Option (List α)
  | [], rest => some rest
  | _ :: _, [] => none
  | a :: as, b :: bs => if a = b then stripFront? as bs else none

/-- A path relative to one that its components begin with, normalized. -/
def relativeTo? (root path : String) : Option String :=
  (stripFront? (components root) (components path)).map normalizeComponents

/-- Append a path to a directory. An absolute path replaces it. -/
def append (directory path : String) : String :=
  if isAbsolute path || directory = "" then path
  else if directory.toList.getLast? = some '/' then directory ++ path
  else directory ++ "/" ++ path

/-- The name that a path ends in, unless it ends in dots or is the root. -/
def fileName? (path : String) : Option String :=
  match (components path).getLast? with
  | some (.normal name) => some name
  | _ => none

/-- The part of a name after its last dot, if something stands before that dot. -/
def extensionOf (name : List Char) : Option (List Char) :=
  match (Text.pieces '.' name).reverse with
  | last :: before =>
    if before = [] || before = [[]] then none else some last
  | [] => none

def extension? (path : String) : Option String :=
  (fileName? path).bind fun name => (extensionOf name.toList).map String.ofList

/-- The components without the last. Neither the root nor the empty path has a parent. -/
def parentComponents? (path : List Component) : Option (List Component) :=
  match path.getLast? with
  | none | some .root => none
  | some _ => some path.dropLast

theorem length_lt_of_parentComponents? {path parent : List Component}
    (h : parentComponents? path = some parent) : parent.length < path.length := by
  cases path with
  | nil => simp [parentComponents?] at h
  | cons c cs =>
    unfold parentComponents? at h
    split at h
    · simp at h
    · simp at h
    · obtain rfl := Option.some.inj h
      simp

/-- Whether a path asks for a directory by a slash at its end. -/
def hasTrailingSlash (path : String) : Bool := path.toList.getLast? = some '/'

theorem stripFront?_eq_some_iff {α : Type} [DecidableEq α] {front list rest : List α} :
    stripFront? front list = some rest ↔ list = front ++ rest := by
  induction front generalizing list with
  | nil => simp [stripFront?, eq_comm]
  | cons a as ih =>
    cases list with
    | nil => simp [stripFront?]
    | cons b bs =>
      simp only [stripFront?]
      split
      · rename_i eq
        simp [ih, eq]
      · rename_i ne
        simp [Ne.symm ne]

end Path

/-- A source file is recognised by its extension. -/
def isSourceFile (path : String) : Bool := Path.extension? path = some "py"

end ApiInventory.Files
