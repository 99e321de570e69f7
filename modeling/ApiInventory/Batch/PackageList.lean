import ApiInventory.Text.Blank

/-!
# Package lists

A list names one package on each line. White space around a name does not count, and
lines without a name are left out. The position of a name in the list is what a
checkpoint refers to.
-/

namespace ApiInventory.Batch

/-- The names of a list, in order. -/
def packageNames (text : String) : List String :=
  (((Text.pieces '\n' text.toList).map Text.trim).filter (· ≠ [])).map String.ofList

end ApiInventory.Batch
