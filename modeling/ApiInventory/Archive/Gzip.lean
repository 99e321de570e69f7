import ApiInventory.Archive.Checksum
import ApiInventory.Archive.Deflate

/-!
# Gzip streams

A gzip stream is a header, deflated data, and a trailer with the checksum and size of
the data. What can be read of a damaged stream is what comes before the damage.
-/

namespace ApiInventory.Archive

/-- Bytes that were read, and whether the stream came to a proper end after them. -/
structure Stream where
  bytes : Bytes
  ended : Bool

namespace Gzip

/-- Sizes are kept as their remainder by this. -/
def sizeBound : Nat := 4294967296

def magic : Bytes := [0x1f, 0x8b, 8]

/-- What follows a text that a zero byte ends. -/
def skipText? : Bytes → Option Bytes
  | [] => none
  | 0 :: rest => some rest
  | _ :: rest => skipText? rest

def hasFlag (flags : UInt8) (bit : Nat) : Bool := flags.toNat.testBit bit

/-- The optional parts of a header. -/
def skipOptional? (flags : UInt8) (bytes : Bytes) : Option Bytes :=
  let afterExtra :=
    if hasFlag flags 2 then
      (cut? 2 bytes).bind fun (n, rest) => (cut? (ofLittleEndian n) rest).map (·.2)
    else some bytes
  let afterName := if hasFlag flags 3 then afterExtra.bind skipText? else afterExtra
  if hasFlag flags 4 then afterName.bind skipText? else afterName

/-- What follows the header. If there is a checksum of the header, it has to fit. -/
def skipHeader? (bytes : Bytes) : Option Bytes :=
  (cut? 10 bytes).bind fun (fixed, rest) =>
    let flags := fixed[3]?.getD 0
    if fixed.take 3 ≠ magic || 0x20 ≤ flags then none
    else
      (skipOptional? flags rest).bind fun body =>
        if hasFlag flags 1 then
          (cut? 2 body).bind fun (sum, after) =>
            let header := bytes.take (bytes.length - body.length)
            if checksum header % 0x10000 = ofLittleEndian sum then some after else none
        else some body

/-- Whether a trailer fits the data before it. -/
def fits (data trailer : Bytes) : Bool :=
  match cut? 4 trailer with
  | none => false
  | some (sum, rest) =>
    decide (ofLittleEndian sum = checksum data) &&
      decide ((rest.take 4).length = 4) &&
      decide (ofLittleEndian (rest.take 4) = data.length % sizeBound)

/-- What can be read of a stream. -/
def read (bytes : Bytes) : Stream :=
  match skipHeader? bytes with
  | none => ⟨[], false⟩
  | some body =>
    match inflate body with
    | (data, some trailer) => ⟨data, fits data trailer⟩
    | (data, none) => ⟨data, false⟩

/-- A stream that stands for given bytes. -/
def write (bytes : Bytes) : Bytes :=
  magic ++ [0, 0, 0, 0, 0, 0, 0xff] ++ deflate bytes ++
    littleEndian 4 (checksum bytes) ++ littleEndian 4 (bytes.length % sizeBound)

end Gzip

end ApiInventory.Archive
