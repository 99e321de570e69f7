import ApiInventory.Archive.Member

/-!
# Deflated data

Deflated data is a sequence of blocks of bits. A block is stored as it is, or made of
symbols under two codes, which are fixed or stand at its front. A symbol is a
byte or refers back to bytes that came before.

`inflate` reads any deflated data and `deflate` writes stored blocks.
-/

namespace ApiInventory.Archive

/-- Bits in the order in which they are read. -/
abbrev Bits := List Bool

/-- The bits of bytes, of each byte from the least significant up. -/
def bitsOf (bytes : Bytes) : Bits :=
  bytes.flatMap fun b => (List.range 8).map fun i => b.toNat.testBit i

/-- The number that bits stand for, the least significant first. -/
def ofBits : Bits → Nat
  | [] => 0
  | b :: rest => b.toNat + 2 * ofBits rest

/-- A number of `n` bits, and what follows it. -/
def takeBits? (n : Nat) (bits : Bits) : Option (Nat × Bits) :=
  let front := bits.take n
  if front.length = n then some (ofBits front, bits.drop n) else none

/-- Go on to the next whole byte. -/
def skipToByte (bits : Bits) : Bits := bits.drop (bits.length % 8)

/-- The bytes of bits from a byte boundary on, at most `n` of them. -/
def takeBytes : Nat → Bits → Bytes × Bits
  | 0, bits => ([], bits)
  | n + 1, bits =>
    match takeBits? 8 bits with
    | none => ([], [])
    | some (b, rest) =>
      let (bytes, after) := takeBytes n rest
      (UInt8.ofNat b :: bytes, after)

/-! ## Codes -/

/-- A code without a word that begins another: the words are the paths to symbols. -/
inductive Code where
  | unused
  | symbol (n : Nat)
  | fork (zero one : Code)

namespace Code

/-- A symbol, and what follows its word. -/
def read? : Code → Bits → Option (Nat × Bits)
  | symbol n, bits => some (n, bits)
  | fork zero one, b :: bits => if b then one.read? bits else zero.read? bits
  | _, _ => none

/-- Give a symbol a word that is still free. -/
def insert? (n : Nat) : Bits → Code → Option Code
  | [], unused => some (symbol n)
  | false :: word, unused => (insert? n word unused).map fun c => fork c unused
  | true :: word, unused => (insert? n word unused).map fun c => fork unused c
  | false :: word, fork zero one => (insert? n word zero).map fun c => fork c one
  | true :: word, fork zero one => (insert? n word one).map fun c => fork zero c
  | _, _ => none

/-- A word of some length, the most significant bit first. -/
def word (length value : Nat) : Bits :=
  (List.range length).map fun i => value.testBit (length - 1 - i)

/-- Give words to symbols, the shortest first: each is the next one of its length. -/
def assign? : Nat → Nat → List (Nat × Nat) → Code → Option Code
  | _, _, [], code => some code
  | length, next, (l, n) :: rest, code =>
    let value := next <<< (l - length)
    if 1 <<< l ≤ value then none
    else (insert? n (word l value) code).bind (assign? l (value + 1) rest)

/-- The code in which symbol `n` has a word of the `n`th length; zero means no word. -/
def ofLengths? (lengths : List Nat) : Option Code :=
  let used := lengths.zipIdx.filter fun x => x.1 ≠ 0
  assign? 0 0 (used.mergeSort fun a b => a.1 ≤ b.1) unused

end Code

/-- The codes of a block: one for bytes and lengths, one for distances. -/
structure Codes where
  literals : Code
  distances : Code

def fixedLengths : List Nat :=
  List.replicate 144 8 ++ List.replicate 112 9 ++ List.replicate 24 7 ++ List.replicate 8 8

def fixedCodes? : Option Codes :=
  match Code.ofLengths? fixedLengths, Code.ofLengths? (List.replicate 30 5) with
  | some literals, some distances => some { literals, distances }
  | _, _ => none

/-! ### Codes that stand in a block -/

/-- The order in which the lengths of the code for lengths are written. -/
def lengthOrder : List Nat := [16, 17, 18, 0, 8, 7, 9, 6, 10, 5, 11, 4, 12, 3, 13, 2, 14, 1, 15]

def takeLengths? : Nat → Bits → Option (List Nat × Bits)
  | 0, bits => some ([], bits)
  | n + 1, bits =>
    (takeBits? 3 bits).bind fun (l, bits) =>
      (takeLengths? n bits).map fun (ls, bits) => (l :: ls, bits)

/-- The repetition that a symbol above fifteen stands for: what is repeated, how many bits
the count has, and its least value. -/
def repetition? (symbol : Nat) (last : Option Nat) : Option (Nat × Nat × Nat) :=
  match symbol with
  | 16 => last.map fun l => (l, 2, 3)
  | 17 => some (0, 3, 3)
  | 18 => some (0, 7, 11)
  | _ => none

/-- Lengths written under a code until there are `wanted` of them, in reverse. -/
def expandLengths? (code : Code) (wanted : Nat) : Nat → List Nat → Bits →
    Option (List Nat × Bits)
  | 0, _, _ => none
  | fuel + 1, done, bits =>
    if done.length = wanted then some (done, bits)
    else if wanted < done.length then none
    else
      (code.read? bits).bind fun (symbol, bits) =>
        if symbol < 16 then expandLengths? code wanted fuel (symbol :: done) bits
        else
          (repetition? symbol done.head?).bind fun (value, width, least) =>
            (takeBits? width bits).bind fun (extra, bits) =>
              expandLengths? code wanted fuel (List.replicate (least + extra) value ++ done) bits

/-- The codes at the front of a block, and what follows them. -/
def codes? (bits : Bits) : Option (Codes × Bits) :=
  (takeBits? 5 bits).bind fun (literalCount, bits) =>
  (takeBits? 5 bits).bind fun (distanceCount, bits) =>
  (takeBits? 4 bits).bind fun (lengthCount, bits) =>
  (takeLengths? (lengthCount + 4) bits).bind fun (lengths, bits) =>
    let known := lengthOrder.zip lengths
    let ordered := (List.range 19).map fun symbol => (known.lookup symbol).getD 0
    let literals := literalCount + 257
    let wanted := literals + distanceCount + 1
    (Code.ofLengths? ordered).bind fun code =>
    (expandLengths? code wanted (wanted + 1) [] bits).bind fun (reversed, bits) =>
      let all := reversed.reverse
      match Code.ofLengths? (all.take literals), Code.ofLengths? (all.drop literals) with
      | some literals, some distances => some ({ literals, distances }, bits)
      | _, _ => none

/-! ## Blocks -/

/-- What came out so far, and the bits to go on with unless the data is broken. -/
structure Inflated where
  bytes : Array UInt8
  rest : Option Bits

/-- The base values of a sequence of ranges whose widths in bits are given. -/
def bases (first : Nat) (widths : List Nat) : List (Nat × Nat) :=
  match widths with
  | [] => []
  | w :: rest => (first, w) :: bases (first + (1 <<< w)) rest

/-- For the symbols from 257 on, the least length and the number of bits added to it. -/
def lengthRanges : List (Nat × Nat) :=
  bases 3 ([0, 0, 0, 0, 0, 0, 0, 0, 1, 1, 1, 1, 2, 2, 2, 2, 3, 3, 3, 3, 4, 4, 4, 4, 5, 5, 5, 5]) ++
    [(258, 0)]

/-- For each distance symbol, the least distance and the number of bits added to it. -/
def distanceRanges : List (Nat × Nat) :=
  bases 1 ([0, 0, 0, 0] ++ (List.range 13).flatMap fun i => [i + 1, i + 1])

/-- A value of a range. -/
def takeRange? (ranges : List (Nat × Nat)) (symbol : Nat) (bits : Bits) : Option (Nat × Bits) :=
  ranges[symbol]?.bind fun (least, width) =>
    (takeBits? width bits).map fun (extra, bits) => (least + extra, bits)

/-- Repeat bytes from `distance` back. -/
def copyBack (distance : Nat) : Nat → Array UInt8 → Array UInt8
  | 0, out => out
  | n + 1, out => copyBack distance n (out.push (out[out.size - distance]?.getD 0))

/-- The symbols of a block up to its end. -/
def inflateSymbols (codes : Codes) : Nat → Array UInt8 → Bits → Inflated
  | 0, out, _ => ⟨out, none⟩
  | fuel + 1, out, bits =>
    match codes.literals.read? bits with
    | none => ⟨out, none⟩
    | some (symbol, bits) =>
      if symbol < 256 then inflateSymbols codes fuel (out.push (UInt8.ofNat symbol)) bits
      else if symbol = 256 then ⟨out, some bits⟩
      else
        match takeRange? lengthRanges (symbol - 257) bits with
        | none => ⟨out, none⟩
        | some (length, bits) =>
          match (codes.distances.read? bits).bind fun (s, bits) =>
              takeRange? distanceRanges s bits with
          | none => ⟨out, none⟩
          | some (distance, bits) =>
            if out.size < distance then ⟨out, none⟩
            else inflateSymbols codes fuel (copyBack distance length out) bits

/-- A block that is stored as it is: its length, the complement of that, and the bytes. -/
def inflateStored (out : Array UInt8) (bits : Bits) : Inflated :=
  match (takeBits? 16 (skipToByte bits)).bind fun (n, bits) =>
      (takeBits? 16 bits).map fun (complement, bits) => (n, complement, bits) with
  | none => ⟨out, none⟩
  | some (n, complement, bits) =>
    if n + complement ≠ 0xffff then ⟨out, none⟩
    else
      let (bytes, rest) := takeBytes n bits
      ⟨out ++ bytes, if bytes.length = n then some rest else none⟩

def inflateBlock (kind : Nat) (fuel : Nat) (out : Array UInt8) (bits : Bits) : Inflated :=
  match kind with
  | 0 => inflateStored out bits
  | 1 =>
    match fixedCodes? with
    | some codes => inflateSymbols codes fuel out bits
    | none => ⟨out, none⟩
  | 2 =>
    match codes? bits with
    | some (codes, bits) => inflateSymbols codes fuel out bits
    | none => ⟨out, none⟩
  | _ => ⟨out, none⟩

def inflateBlocks : Nat → Array UInt8 → Bits → Inflated
  | 0, out, _ => ⟨out, none⟩
  | fuel + 1, out, bits =>
    match takeBits? 3 bits with
    | none => ⟨out, none⟩
    | some (header, bits) =>
      let block := inflateBlock (header / 2) (bits.length + 1) out bits
      if header % 2 = 1 then block
      else
        match block.rest with
        | none => block
        | some rest => inflateBlocks fuel block.bytes rest

/-- The bytes that deflated data stands for, and the bytes that follow the last block.
Every symbol and every block takes at least one bit. -/
def inflate (bytes : Bytes) : Bytes × Option Bytes :=
  let bits := bitsOf bytes
  let inflated := inflateBlocks (bits.length + 1) #[] bits
  (inflated.bytes.toList, inflated.rest.map fun rest =>
    bytes.drop (bytes.length - rest.length / 8))

/-! ## Writing -/

/-- The most bytes that one stored block holds. -/
def storedLimit : Nat := 0xffff

def storedBlock (isLast : Bool) (bytes : Bytes) : Bytes :=
  (if isLast then 1 else 0) :: (littleEndian 2 bytes.length ++
    littleEndian 2 (0xffff - bytes.length) ++ bytes)

/-- Deflated data that stands for given bytes. -/
def deflate (bytes : Bytes) : Bytes :=
  if bytes.length ≤ storedLimit then storedBlock true bytes
  else storedBlock false (bytes.take storedLimit) ++ deflate (bytes.drop storedLimit)
termination_by bytes.length
decreasing_by
  simp only [List.length_drop, storedLimit] at *
  omega

end ApiInventory.Archive
