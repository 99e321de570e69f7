import ApiInventory.Archive.Member

/-!
# Checksums

The cyclic redundancy check of 32 bits that zip and gzip use: the remainder of a
division of polynomials over two elements, with the bits of each byte taken from the
least significant up.
-/

namespace ApiInventory.Archive

/-- The divisor, without its leading term. -/
def divisor : UInt32 := 0xedb88320

/-- Take one bit into a remainder. -/
def remainderStep (r : UInt32) : UInt32 :=
  if r &&& 1 = 1 then (r >>> 1) ^^^ divisor else r >>> 1

/-- Take one byte into a remainder. -/
def remainderByte (r : UInt32) (b : UInt8) : UInt32 :=
  (List.range 8).foldl (fun r _ => remainderStep r) (r ^^^ b.toUInt32)

def checksum (bytes : Bytes) : Nat :=
  (bytes.foldl remainderByte 0xffffffff ^^^ 0xffffffff).toNat

end ApiInventory.Archive
