/-!
# JSON values

A value keeps what its text says: numbers as they are spelled, members of an
object in their order, repeated ones included. A string literal may spell no
text at all, when it names half of a surrogate pair or holds ill-formed bytes; it then has
`none` for its text.
-/

namespace ApiInventory

inductive Json where
  | null
  | bool (value : Bool)
  | number (spelling : String)
  | string (text : Option String)
  | array (items : List Json)
  | object (members : List (Option String × Json))
deriving Inhabited

namespace Json

/-- A string with a text. -/
def text (s : String) : Json := .string (some s)

def natural (n : Nat) : Json := .number (toString n)

/-- An object whose keys have texts. -/
def ofMembers (members : List (String × Json)) : Json :=
  .object (members.map fun (k, v) => (some k, v))

def texts (items : List String) : Json := .array (items.map text)

/-- The text of a string. -/
def asText? : Json → Option String
  | .string t => t
  | _ => none

def asBool? : Json → Option Bool
  | .bool b => some b
  | _ => none

/-- The items of an array, each read the same way. -/
def asList? {α : Type} (item : Json → Option α) : Json → Option (List α)
  | .array items => items.mapM item
  | _ => none

end Json

end ApiInventory
