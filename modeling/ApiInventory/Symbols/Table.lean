import ApiInventory.Symbols.NameMap

/-!
# Symbol tables

A table records what a package offers: functions and methods with the names of
their positional parameters, classes with their members, and variables. Whatever is
bound first under a name stays.
-/

namespace ApiInventory

inductive Member where
  | method (parameters : List String)
  | field
deriving DecidableEq

inductive Signature where
  | function (parameters : List String)
  | classType (members : NameMap Member)
  | variable
deriving DecidableEq

abbrev SymbolTable := NameMap Signature

namespace SymbolTable

/-- Bind a name unless it is bound, and say whether it was free. -/
def insertIfNew (t : SymbolTable) (name : String) (signature : Signature) :
    SymbolTable × Bool :=
  (t.insertNew name signature, !t.contains name)

@[simp] theorem insertIfNew_fst (t : SymbolTable) (name : String) (signature : Signature) :
    (insertIfNew t name signature).1 = t.insertNew name signature := rfl

@[simp] theorem insertIfNew_snd (t : SymbolTable) (name : String) (signature : Signature) :
    (insertIfNew t name signature).2 = !t.contains name := rfl

end SymbolTable

end ApiInventory
