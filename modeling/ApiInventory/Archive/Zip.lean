import ApiInventory.Archive.Checksum
import ApiInventory.Archive.Deflate
import ApiInventory.Text.Utf8

/-!
# Zip archives

A zip archive holds the data of its members, then a directory of them, then a record
that says where the directory is. The directory counts: a name that it holds
twice means its last entry, at the position of the first.
-/

namespace ApiInventory.Archive.Zip

def localSignature : Nat := 0x04034b50

def directorySignature : Nat := 0x02014b50

def endSignature : Nat := 0x06054b50

/-- The number in a field of a record. -/
def number (record : Bytes) (start width : Nat) : Nat :=
  ofLittleEndian ((record.drop start).take width)

/-- An entry of the directory. -/
structure Entry where
  name : String
  flags : Nat
  method : Nat
  sum : Nat
  packedSize : Nat
  /-- Where the data of the member begins, its own header included. -/
  position : Nat
  system : Nat
  attributes : Nat

/-- The record at the end, looked for from the end on. -/
def endRecord? (bytes : Bytes) : Option (Nat × Bytes) :=
  let size := 22
  if bytes.length < size then none
  else
    ((List.range (bytes.length - size + 1)).reverse.find? fun p =>
      number (bytes.drop p) 0 4 = endSignature).map fun p => (p, bytes.drop p)

/-- The entries of a directory. -/
def entries? : Nat → Bytes → Option (List Entry)
  | 0, _ => some []
  | n + 1, bytes =>
    (cut? 46 bytes).bind fun (fixed, rest) =>
      if number fixed 0 4 ≠ directorySignature then none
      else
        (cut? (number fixed 28 2) rest).bind fun (name, rest) =>
        (cut? (number fixed 30 2 + number fixed 32 2) rest).bind fun (_, rest) =>
          (entries? n rest).map fun later =>
            { name := Text.decodeLossy ⟨name.toArray⟩
              flags := number fixed 8 2
              method := number fixed 10 2
              sum := number fixed 16 4
              packedSize := number fixed 20 4
              position := number fixed 42 4
              system := number fixed 5 1
              attributes := number fixed 38 4 } :: later

/-- Keep the last entry of a name, at the position of its first. -/
def lastEntries (entries : List Entry) : List Entry :=
  entries.foldl (fun kept e =>
    if kept.any fun k => k.name = e.name then kept.map fun k => if k.name = e.name then e else k
    else kept ++ [e]) []

/-- The data of a member. `shift` is what precedes the archive. -/
def data? (bytes : Bytes) (shift : Nat) (e : Entry) : Option Bytes :=
  (cut? 30 (bytes.drop (shift + e.position))).bind fun (fixed, rest) =>
    if number fixed 0 4 ≠ localSignature || e.flags % 2 = 1 then none
    else
      let body := rest.drop (number fixed 26 2 + number fixed 28 2)
      let packed := body.take e.packedSize
      let found :=
        match e.method with
        | 0 => if packed.length = e.packedSize then some packed else none
        | 8 =>
          match inflate packed with
          | (data, some _) => some data
          | (_, none) => none
        | _ => none
      found.filter fun data => checksum data = e.sum

/-- A name that ends in a separator stands for a directory. -/
def namesDirectory (name : String) : Bool :=
  match name.toList.getLast? with
  | some c => c == '/' || c == '\\'
  | none => false

/-- Whether the mode of a member says that it is a link. -/
def isLink (e : Entry) : Bool :=
  e.system == 3 && e.attributes / 0x10000 % 0x10000 / 0x1000 == 0o12

/-- A member, of which the data has to be sound whatever it stands for. -/
def member? (bytes : Bytes) (shift : Nat) (e : Entry) : Option Member :=
  (data? bytes shift e).map fun data =>
    { name := e.name
      content :=
        if isLink e then .link (Text.decodeLossy ⟨data.toArray⟩)
        else if namesDirectory e.name then .directory
        else .file data }

/-- The members of an archive, unless it is damaged. -/
def read? (bytes : Bytes) : Option (List Member) :=
  (endRecord? bytes).bind fun (position, last) =>
    let size := number last 12 4
    let start := number last 16 4
    if position < size + start then none
    else
      let shift := position - (size + start)
      (entries? (number last 10 2) (bytes.drop (shift + start))).bind fun entries =>
        (lastEntries entries).mapM (member? bytes shift)

/-! ## Writing -/

/-- What a member keeps in its own header and in the directory alike. -/
def commonFields (m : Member) (data packed : Bytes) : Bytes :=
  let name := m.name.toUTF8.toList
  littleEndian 2 20 ++ littleEndian 2 0x800 ++ littleEndian 2 8 ++ littleEndian 4 0 ++
    littleEndian 4 (checksum data) ++ littleEndian 4 packed.length ++
    littleEndian 4 data.length ++ littleEndian 2 name.length ++ littleEndian 2 0

def linkMode : Nat := 0o120777

def fileMode : Nat := 0o100644

/-- The data and mode of a member. -/
def stored (m : Member) : Bytes × Nat :=
  match m.content with
  | .file data => (data, fileMode)
  | .directory => ([], fileMode)
  | .link target => (target.toUTF8.toList, linkMode)
  | .sameAs _ => ([], fileMode)

def localRecord (m : Member) : Bytes :=
  let (data, _) := stored m
  let packed := deflate data
  littleEndian 4 localSignature ++ commonFields m data packed ++ m.name.toUTF8.toList ++ packed

def directoryRecord (m : Member) (position : Nat) : Bytes :=
  let (data, mode) := stored m
  littleEndian 4 directorySignature ++ [20, 3] ++ commonFields m data (deflate data) ++
    littleEndian 2 0 ++ littleEndian 2 0 ++ littleEndian 2 0 ++
    littleEndian 4 (mode * 0x10000) ++ littleEndian 4 position ++ m.name.toUTF8.toList

/-- The records of members one after the other, and the directory for them. -/
def writeRecords (position : Nat) : List Member → Bytes × Bytes
  | [] => ([], [])
  | m :: rest =>
    let own := localRecord m
    let (records, directory) := writeRecords (position + own.length) rest
    (own ++ records, directoryRecord m position ++ directory)

/-- An archive of given members, whose names have to differ. -/
def write? (members : List Member) : Option Bytes :=
  if (members.map Member.name).Nodup then
    let (records, directory) := writeRecords 0 members
    some (records ++ directory ++ littleEndian 4 endSignature ++ littleEndian 4 0 ++
      littleEndian 2 members.length ++ littleEndian 2 members.length ++
      littleEndian 4 directory.length ++ littleEndian 4 records.length ++ littleEndian 2 0)
  else none

end ApiInventory.Archive.Zip
