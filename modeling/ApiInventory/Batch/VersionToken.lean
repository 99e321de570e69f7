import ApiInventory.Text.Split

/-!
# Version tokens

A version becomes a token by padding its first three components to four characters with
zeros; missing components count as zero. Tokens sort as versions do as long as each of
those components is made of at most four digits. Other versions still have a token.
-/

namespace ApiInventory.Batch

def versionComponents : Nat := 3

def componentWidth : Nat := 4

/-- Fill up with zeros in front. -/
def padded (component : List Char) : List Char :=
  List.replicate (componentWidth - component.length) '0' ++ component

/-- The components that count, missing ones filled in. -/
def countedComponents (version : List Char) : List (List Char) :=
  (Text.pieces '.' version ++ List.replicate versionComponents ['0']).take versionComponents

/-- The token of a version. -/
def versionToken (version : String) : String :=
  String.ofList ('v' :: (countedComponents version.toList).flatMap padded)

/-- A component fits if it is a number of at most four digits. -/
def componentFits (component : List Char) : Bool :=
  decide (component.length ≤ componentWidth) && component.all Char.isDigit

/-- Whether the token sorts where the version does. -/
def isSortable (version : String) : Bool :=
  ((Text.pieces '.' version.toList).take versionComponents).all componentFits

theorem length_countedComponents (version : List Char) :
    (countedComponents version).length = versionComponents := by
  simp [countedComponents, versionComponents]

theorem length_padded {component : List Char} (h : component.length ≤ componentWidth) :
    (padded component).length = componentWidth := by
  simp [padded]
  omega

end ApiInventory.Batch
