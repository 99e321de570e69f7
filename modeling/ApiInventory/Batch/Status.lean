import ApiInventory.Json.Value

/-!
# Status

The status tells where the next run starts.
-/

namespace ApiInventory.Batch

structure Status where
  checkpoint : Nat
  total : Nat
  remaining : Nat
  nextPackage : Option String
deriving DecidableEq, Repr

namespace Status

def ofList (packages : List String) (checkpoint : Nat) : Status where
  checkpoint := checkpoint
  total := packages.length
  remaining := packages.length - checkpoint
  nextPackage := packages[checkpoint]?

/-- The status with its members in the order in which it is printed. -/
def toJson (s : Status) : Json :=
  .ofMembers [("checkpoint", .natural s.checkpoint), ("total", .natural s.total),
    ("remaining", .natural s.remaining),
    ("next_package", (s.nextPackage.map Json.text).getD .null)]

end Status

end ApiInventory.Batch
