import ApiInventory.Json.Printer
import ApiInventory.Json.Reader
import ApiInventory.Symbols.Table

/-!
# Tables as JSON

The shape of a value says what it is: an array of texts is a function or method, an
object a class, and null a variable or field. Repeated keys are allowed; all of their
values must have the right shape, and the last one counts.
-/

namespace ApiInventory

namespace Member

def toJson : Member → Json
  | .method parameters => Json.texts parameters
  | .field => .null

def ofJson? : Json → Option Member
  | .null => some .field
  | v => (v.asList? Json.asText?).map .method

end Member

/-- The members of an object, all with texts for keys and read the same way. -/
def NameMap.ofJson? {α : Type} (value : Json → Option α) : Json → Option (NameMap α)
  | .object members =>
    (members.mapM fun m : Option String × Json =>
      match m.1, value m.2 with
      | some k, some x => some (k, x)
      | _, _ => none).map NameMap.ofList
  | _ => none

def NameMap.toJson {α : Type} (value : α → Json) (m : NameMap α) : Json :=
  Json.ofMembers (m.entries.map fun (k, x) => (k, value x))

namespace Signature

def toJson : Signature → Json
  | .function parameters => Json.texts parameters
  | .classType members => members.toJson Member.toJson
  | .variable => .null

def ofJson? : Json → Option Signature
  | .null => some .variable
  | .array items => ((Json.array items).asList? Json.asText?).map .function
  | v => (NameMap.ofJson? Member.ofJson? v).map .classType

end Signature

namespace SymbolTable

def toJson (t : SymbolTable) : Json := NameMap.toJson Signature.toJson t

def ofJson? (v : Json) : Option SymbolTable := NameMap.ofJson? Signature.ofJson? v

def pretty (t : SymbolTable) : String := (toJson t).pretty

def compact (t : SymbolTable) : String := (toJson t).compact

/-- Read a table from its JSON text. -/
def parse? (text : String) : Option SymbolTable := (Json.ofText? text).bind ofJson?

end SymbolTable

end ApiInventory
