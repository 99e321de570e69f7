import ApiInventory.Files.Path

/-!
# Archive formats

The format of an archive is told by the end of its file name alone, in either case of
letters.
-/

namespace ApiInventory.Archive

inductive Format where
  | zip
  | gzippedTar
deriving DecidableEq, Repr

namespace Format

/-- The endings of file names that stand for a format. -/
def endings : Format → List String
  | zip => [".whl", ".zip"]
  | gzippedTar => [".tar.gz", ".tgz"]

/-- Whether a name has one of the endings of a format. -/
def isFormatOf (format : Format) (name : List Char) : Bool :=
  format.endings.any fun ending => ending.toList.isSuffixOf (name.map Char.toLower)

/-- The format of the file at a path, if the name of that file tells one. -/
def ofPath? (path : String) : Option Format :=
  (Files.Path.fileName? path).bind fun name =>
    [zip, gzippedTar].find? fun format => isFormatOf format name.toList

end Format

end ApiInventory.Archive
