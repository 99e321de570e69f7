import ApiInventory.Json.Reader
import ApiInventory.Text.Blank

/-!
# What an index says about a release

The index answers with a JSON value that names a version and lists the files of a
release. Each of its records may be an object or an array of the members in their
order. In an object, members that are not known do not count, and those that are known
may not be repeated; in an array, members at the end may be missing.
-/

namespace ApiInventory.Index

/-! ## Records -/

/-- The value of a member that occurs once; no value if it does not occur. -/
def uniqueMember? (name : String) (members : List (Option String × Json)) :
    Option (Option Json) :=
  match members.filter fun m => m.1 = some name with
  | [] => some none
  | [m] => some (some m.2)
  | _ :: _ :: _ => none

/-- The values of the members of a record, in the order of their names. -/
def record? (names : List String) : Json → Option (List (Option Json))
  | .object members =>
    if members.all fun m => m.1.isSome then names.mapM fun n => uniqueMember? n members
    else none
  | .array items =>
    if items.length ≤ names.length then
      some (items.map some ++ List.replicate (names.length - items.length) none)
    else none
  | _ => none

/-- The text of a member that has to be there. -/
def requiredText (member : Option Json) : Option String := member.bind Json.asText?

/-- A member that may be missing, but not be of another type. -/
def defaulted {α : Type} (missing : α) (read? : Json → Option α) : Option Json → Option α
  | none => some missing
  | some v => read? v

/-! ## Releases -/

structure ReleaseFile where
  fileName : String
  url : String
  packageType : String
  isYanked : Bool
deriving DecidableEq, Repr

def ReleaseFile.ofJson? (v : Json) : Option ReleaseFile :=
  match record? ["filename", "url", "packagetype", "yanked"] v with
  | some [name, url, type, yanked] =>
    match requiredText name, requiredText url, requiredText type,
        defaulted false Json.asBool? yanked with
    | some fileName, some url, some packageType, some isYanked =>
      some { fileName, url, packageType, isYanked }
    | _, _, _, _ => none
  | _ => none

structure Release where
  version : String
  files : List ReleaseFile
deriving DecidableEq, Repr

namespace Release

/-- The version in the part of an answer that describes the project. -/
def versionOfJson? (v : Json) : Option String :=
  match record? ["version"] v with
  | some [version] => requiredText version
  | _ => none

def ofJson? (v : Json) : Option Release :=
  match record? ["info", "urls"] v with
  | some [some info, urls] =>
    match versionOfJson? info, defaulted [] (Json.asList? ReleaseFile.ofJson?) urls with
    | some version, some files => some { version, files }
    | _, _ => none
  | _ => none

/-- The version without blanks around it, if anything is left. -/
def statedVersion? (r : Release) : Option String :=
  let version := Text.trimmed r.version
  if version = "" then none else some version

/-- The file to download: the first wheel, or else the first source distribution. Files
that were yanked do not count. -/
def pick? (r : Release) : Option ReleaseFile :=
  let candidates := r.files.filter fun f => !f.isYanked
  (candidates.find? fun f => f.packageType = "bdist_wheel").or
    (candidates.find? fun f => f.packageType = "sdist")

end Release

end ApiInventory.Index
