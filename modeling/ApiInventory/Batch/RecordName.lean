import ApiInventory.Text.Blank

/-!
# Names of records

A record is a file named for a package and a version token. Both parts are cleaned for
use in a file name first: only letters, digits, points, underscores and hyphens of
the ASCII range stay, and a part made of points alone becomes an underscore.
-/

namespace ApiInventory.Batch

def isSafeChar (c : Char) : Bool := c.isAlphanum || c == '.' || c == '_' || c == '-'

/-- Whether a part may stand in a file name as it is. -/
def isSafePart (part : String) : Bool :=
  part ≠ "" && part.toList.all isSafeChar && !part.toList.all (· == '.')

def cleanedChars (part : List Char) : List Char :=
  let kept := (Text.trim part).map fun c => if isSafeChar c then c else '_'
  if kept.all (· == '.') then ['_'] else kept

/-- A part with every other character replaced. -/
def cleaned (part : String) : String := String.ofList (cleanedChars part.toList)

/-- The file name of the record of a package at a version token. -/
def recordName (package token : String) : String :=
  cleaned package ++ "_" ++ cleaned token ++ ".json"

end ApiInventory.Batch
