import ApiInventory.Archive.Gzip
import ApiInventory.Text.Blank
import ApiInventory.Text.Counter
import ApiInventory.Text.Utf8

/-!
# Tape archives

A tape archive is a sequence of blocks. A member is a header block and the blocks of its
data; a block of zeros ends the archive, and so does the end of the stream. Names that
do not fit their field stand in a member of their own before the one they belong to.
-/

namespace ApiInventory.Archive.Tar

def blockSize : Nat := 512

/-- The bytes of a field up to a zero byte. -/
def untilZero (field : Bytes) : Bytes := field.takeWhile (· ≠ 0)

def nameText (bytes : Bytes) : String := Text.decodeLossy ⟨bytes.toArray⟩

def slice (header : Bytes) (start length : Nat) : Bytes := (header.drop start).take length

/-- The value of octal digits. -/
def octal? (digits : List Char) : Option Nat :=
  if digits = [] then none
  else digits.foldl (fun n c =>
    n.bind fun n =>
      if '0' ≤ c && c ≤ '7' then some (8 * n + (c.toNat - '0'.toNat)) else none) (some 0)

/-- The number in a field: octal digits with blanks around them, or bytes, the most
significant first, after one with its top bit set. -/
def number? (field : Bytes) : Option Nat :=
  match field with
  | [] => none
  | b :: _ =>
    if 0x80 ≤ b then
      some (field.tail.foldl (fun n b => 256 * n + b.toNat) (b.toNat % 128) % Text.counterBound)
    else octal? (Text.trim (nameText (untilZero field)).toList)

/-- The sum of the bytes of a header, its own field counted as blanks. -/
def headerSum (header : Bytes) : Nat :=
  let total := fun bytes : Bytes => bytes.foldl (fun sum b => sum + b.toNat) 0
  total (header.take 148) + 8 * 32 + total (header.drop 156)

/-- How a member's data is meant. -/
inductive Kind where
  | file
  | directory
  | link
  | sameAs
  | longName
  | longTarget
  | attributes
  | sharedAttributes
deriving DecidableEq

def Kind.ofByte (b : UInt8) : Kind :=
  match Char.ofNat b.toNat with
  | '1' => sameAs
  | '2' => link
  | '5' => directory
  | 'L' => longName
  | 'K' => longTarget
  | 'x' => attributes
  | 'g' => sharedAttributes
  | _ => file

structure Header where
  name : Bytes
  target : Bytes
  kind : Kind
  size : Nat

def portableMagic : Bytes := "ustar".toList.map (fun c => UInt8.ofNat c.toNat) ++ [0]

/-- A name and the directory part that the portable format keeps apart from it. -/
def fullName (header : Bytes) : Bytes :=
  let name := untilZero (slice header 0 100)
  let front := untilZero (slice header 345 155)
  if slice header 257 6 = portableMagic && front ≠ [] then front ++ [0x2f] ++ name else name

/-- The header in a block that is not all zeros. -/
def header? (block : Bytes) : Option Header :=
  match number? (slice block 148 8), number? (slice block 124 12) with
  | some sum, some size =>
    if sum = headerSum block then
      some { name := fullName block
             target := untilZero (slice block 157 100)
             kind := .ofByte (block[156]?.getD 0)
             size := size }
    else none
  | _, _ => none

/-! ## Attributes -/

/-- The value of an attribute in records of the form `length key=value`. The last one
counts. -/
def attribute? (key : List Char) : Nat → Bytes → Option Bytes
  | 0, _ => none
  | fuel + 1, data =>
    let digits := data.takeWhile (· ≠ 0x20)
    match ((nameText digits).toNat?).bind fun n => cut? n data with
    | none => none
    | some (record, rest) =>
      let body := (record.drop (digits.length + 1)).dropLast
      let found := body.takeWhile (· ≠ 0x3d)
      let later := if rest = [] then none else attribute? key fuel rest
      if later.isSome then later
      else if (nameText found).toList = key then some (body.drop (found.length + 1))
      else none

/-- What members before the present one say about it. -/
structure Pending where
  name : Option Bytes
  target : Option Bytes
  attributes : Bytes

def Pending.none : Pending := ⟨.none, .none, []⟩

def Pending.attribute? (p : Pending) (key : String) : Option Bytes :=
  Tar.attribute? key.toList (p.attributes.length + 1) p.attributes

/-- The name that counts: a long name first, then the attribute, then the header. -/
def memberName (h : Header) (p : Pending) : String :=
  nameText ((p.name.or (p.attribute? "path")).getD h.name)

def memberTarget (h : Header) (p : Pending) : String :=
  nameText ((p.target.or (p.attribute? "linkpath")).getD h.target)

/-- Room for data in whole blocks. -/
def padding (size : Nat) : Nat := (blockSize - size % blockSize) % blockSize

/-- The members of a stream, unless it is damaged. -/
def members? (ended : Bool) : Nat → Pending → Bytes → Option (List Member)
  | 0, _, _ => none
  | fuel + 1, pending, bytes =>
    if bytes = [] then if ended then some [] else none
    else
      (cut? blockSize bytes).bind fun (block, rest) =>
        if block.all (· = 0) then some []
        else
          (header? block).bind fun h =>
          (cut? h.size rest).bind fun (data, rest) =>
            let rest := rest.drop (padding h.size)
            let next := members? ended fuel
            let member := fun content =>
              (next .none rest).map (⟨memberName h pending, content⟩ :: ·)
            match h.kind with
            | .file => member (.file data)
            | .directory => member .directory
            | .link => member (.link (memberTarget h pending))
            | .sameAs => member (.sameAs (memberTarget h pending))
            | .longName => next { pending with name := some (untilZero data) } rest
            | .longTarget => next { pending with target := some (untilZero data) } rest
            | .attributes => next { pending with attributes := data } rest
            | .sharedAttributes => next pending rest

def read? (stream : Stream) : Option (List Member) :=
  members? stream.ended (stream.bytes.length + 1) .none stream.bytes

/-! ## Writing -/

def asciiBytes (s : String) : Bytes := s.toList.map fun c => UInt8.ofNat c.toNat

def field (width : Nat) (content : Bytes) : Bytes :=
  content.take width ++ List.replicate (width - content.length) 0

/-- A number as octal digits, with zeros in front and a zero byte behind. -/
def octalField (width n : Nat) : Bytes :=
  let digits := (Nat.toDigits 8 n).map fun c => UInt8.ofNat c.toNat
  List.replicate (width - 1 - digits.length) 0x30 ++ digits ++ [0]

/-- A header block with a given sum field. -/
def headerWith (sum name : Bytes) (kind : Char) (target : Bytes) (size : Nat) : Bytes :=
  field 100 name ++ octalField 8 0o644 ++ octalField 8 0 ++ octalField 8 0 ++
    octalField 12 size ++ octalField 12 0 ++ field 8 sum ++ [UInt8.ofNat kind.toNat] ++
    field 100 target ++ field 8 (asciiBytes "ustar  ") ++ List.replicate 247 0

def header (name : Bytes) (kind : Char) (target : Bytes) (size : Nat) : Bytes :=
  let blank := headerWith (List.replicate 8 0x20) name kind target size
  headerWith (octalField 7 (headerSum blank) ++ [0x20]) name kind target size

def padded (data : Bytes) : Bytes := data ++ List.replicate (padding data.length) 0

/-- A text that does not fit its field goes into a member before. -/
def overflow (kind : Char) (text : Bytes) : Bytes :=
  if text.length ≤ 100 then []
  else
    let data := text ++ [0]
    header (asciiBytes "././@LongLink") kind [] data.length ++ padded data

def memberBytes (m : Member) : Bytes :=
  let name := m.name.toUTF8.toList
  let write := fun kind (target : Bytes) (data : Bytes) =>
    overflow 'K' target ++ overflow 'L' name ++ header name kind target data.length ++ padded data
  match m.content with
  | .file data => write '0' [] data
  | .directory => write '5' [] []
  | .link target => write '2' target.toUTF8.toList []
  | .sameAs other => write '1' other.toUTF8.toList []

/-- An archive of given members. -/
def write (members : List Member) : Bytes :=
  members.flatMap memberBytes ++ List.replicate (2 * blockSize) 0

end ApiInventory.Archive.Tar
