import ApiInventory.Archive.Gzip
import Mathlib

/-!
# Deflated data reads back

Stored blocks lie on byte boundaries but for their first three bits, so the bits of a block can be
read byte by byte (`takeBits?_bitsOf`). What `deflate` writes is inflated to the same bytes,
whatever follows it (`inflate_deflate`), and so a gzip stream is read as what was written
(`Gzip.read_write`).
-/

namespace ApiInventory.Archive

variable {bytes front : Bytes} {rest : Bits} {out : Array UInt8}

/-! ## Bits and bytes -/

/-- A number that fits is read back. -/
theorem ofLittleEndian_littleEndian {width n : Nat} (fits : n < 256 ^ width) :
    ofLittleEndian (littleEndian width n) = n := by
  induction width generalizing n with
  | zero =>
    rw [Nat.pow_zero] at fits
    simp [littleEndian, ofLittleEndian]
    omega
  | succ width ih =>
    have high : n / 256 < 256 ^ width := by
      rw [Nat.pow_succ] at fits
      omega
    have low : (UInt8.ofNat (n % 256)).toNat = n % 256 := by
      simp
    rw [littleEndian, ofLittleEndian, ih high, low]
    omega

/-- The bits of one byte. -/
def byteBits (b : UInt8) : Bits := (List.range 8).map fun i => b.toNat.testBit i

theorem bitsOf_cons (b : UInt8) (bytes : Bytes) :
    bitsOf (b :: bytes) = byteBits b ++ bitsOf bytes := rfl

theorem bitsOf_append (a b : Bytes) : bitsOf (a ++ b) = bitsOf a ++ bitsOf b :=
  List.flatMap_append

@[simp] theorem length_byteBits (b : UInt8) : (byteBits b).length = 8 := by
  simp [byteBits]

@[simp] theorem length_bitsOf (bytes : Bytes) : (bitsOf bytes).length = 8 * bytes.length := by
  induction bytes with
  | nil => rfl
  | cons b bytes ih =>
      rw [bitsOf_cons, List.length_append, length_byteBits, ih, List.length_cons]
      omega

theorem ofBits_append (a b : Bits) : ofBits (a ++ b) = ofBits a + 2 ^ a.length * ofBits b := by
  induction a with
  | nil => simp [ofBits]
  | cons x a ih =>
      rw [List.cons_append, ofBits, ofBits, ih, List.length_cons]
      ring

theorem ofBits_testBit (width n : Nat) :
    ofBits ((List.range width).map fun i => n.testBit i) = n % 2 ^ width := by
  induction width generalizing n with
  | zero => simp [ofBits, Nat.mod_one]
  | succ width ih =>
      have later := ih (n / 2)
      simp only [Nat.testBit_div_two] at later
      rw [List.range_succ_eq_map, List.map_cons, List.map_map, ofBits]
      simp only [Function.comp_def, Nat.succ_eq_add_one, later]
      rw [Nat.testBit_zero, Nat.pow_succ', Nat.mod_mul]
      rcases Nat.mod_two_eq_zero_or_one n with even | odd
      · simp [even]
      · simp [odd]

theorem ofBits_byteBits (b : UInt8) : ofBits (byteBits b) = b.toNat := by
  rw [byteBits, ofBits_testBit, Nat.mod_eq_of_lt b.toNat_lt]

theorem ofBits_bitsOf (bytes : Bytes) : ofBits (bitsOf bytes) = ofLittleEndian bytes := by
  induction bytes with
  | nil => rfl
  | cons b bytes ih =>
      rw [bitsOf_cons, ofBits_append, ofBits_byteBits, ih, length_byteBits]
      rfl

theorem takeBits?_append {bits : Bits} {n : Nat} (length : bits.length = n) :
    takeBits? n (bits ++ rest) = some (ofBits bits, rest) := by
  rw [takeBits?, List.take_left' length, List.drop_left' length]
  exact if_pos length

/-- Bits that are whole bytes are read as these. -/
theorem takeBits?_bitsOf {n : Nat} (length : 8 * front.length = n) :
    takeBits? n (bitsOf front ++ rest) = some (ofLittleEndian front, rest) := by
  rw [takeBits?_append (by rw [length_bitsOf, length]), ofBits_bitsOf]

theorem takeBytes_bitsOf (bytes : Bytes) (rest : Bits) :
    takeBytes bytes.length (bitsOf bytes ++ rest) = (bytes, rest) := by
  induction bytes with
  | nil => rfl
  | cons b bytes ih =>
      rw [List.length_cons, takeBytes, bitsOf_cons, List.append_assoc,
        takeBits?_append (length_byteBits b), ofBits_byteBits]
      dsimp only
      rw [ih, UInt8.ofNat_toNat]

/-! ## Stored blocks -/

/-- The bits of a stored block after the three that tell its kind. -/
def storedBits (bytes : Bytes) : Bits :=
  List.replicate 5 false ++ (bitsOf (littleEndian 2 bytes.length) ++
    (bitsOf (littleEndian 2 (0xffff - bytes.length)) ++ bitsOf bytes))

theorem bitsOf_storedBlock (isLast : Bool) (bytes : Bytes) :
    bitsOf (storedBlock isLast bytes) = [isLast, false, false] ++ storedBits bytes := by
  have header : byteBits (if isLast then 1 else 0) =
      [isLast, false, false] ++ List.replicate 5 false := by
    cases isLast <;> decide
  rw [storedBlock, bitsOf_cons, header, bitsOf_append, bitsOf_append, storedBits]
  simp only [List.append_assoc]

/-- The bytes of a stored block that lies before whole bytes. -/
theorem inflateStored_storedBits (fits : bytes.length ≤ storedLimit) (whole : rest.length % 8 = 0) :
    inflateStored out (storedBits bytes ++ rest) = ⟨out ++ bytes, some rest⟩ := by
  have limit : bytes.length ≤ 0xffff := fits
  have skipped : skipToByte (storedBits bytes ++ rest) =
      bitsOf (littleEndian 2 bytes.length) ++
        (bitsOf (littleEndian 2 (0xffff - bytes.length)) ++ (bitsOf bytes ++ rest)) := by
    have five : (storedBits bytes ++ rest).length % 8 = 5 := by
      simp only [storedBits, List.length_append, List.length_replicate, length_bitsOf]
      omega
    rw [skipToByte, five, storedBits]
    simp only [List.append_assoc]
    exact List.drop_left' List.length_replicate
  have number {n : Nat} (small : n ≤ 0xffff) : ofLittleEndian (littleEndian 2 n) = n :=
    ofLittleEndian_littleEndian (by omega)
  unfold inflateStored
  rw [skipped, takeBits?_bitsOf (by rw [length_littleEndian]), Option.bind_some, number limit]
  dsimp only
  rw [takeBits?_bitsOf (by rw [length_littleEndian]), Option.map_some, number (by omega)]
  dsimp only
  rw [if_neg (by omega), takeBytes_bitsOf]
  dsimp only
  rw [if_pos rfl]

theorem inflateBlocks_storedBlock {isLast : Bool} {fuel : Nat}
    (fits : bytes.length ≤ storedLimit) (whole : rest.length % 8 = 0) :
    inflateBlocks (fuel + 1) out (bitsOf (storedBlock isLast bytes) ++ rest) =
      if isLast then ⟨out ++ bytes, some rest⟩ else inflateBlocks fuel (out ++ bytes) rest := by
  rw [bitsOf_storedBlock, List.append_assoc, inflateBlocks, takeBits?_append (n := 3) rfl]
  cases isLast <;> simp [ofBits, inflateBlock, inflateStored_storedBits fits whole]

/-! ## Deflated data -/

theorem length_le_deflate (bytes : Bytes) : bytes.length ≤ (deflate bytes).length := by
  fun_induction deflate bytes with
  | case1 bytes small => simp [storedBlock]; omega
  | case2 bytes large ih =>
      simp only [storedBlock, List.length_append, List.length_cons, List.length_drop] at ih ⊢
      simp only [List.length_take, storedLimit] at *
      omega

/-- What is deflated inflates to the same bytes, and what follows is left. -/
theorem inflateBlocks_deflate {fuel : Nat} (enough : bytes.length < fuel)
    (whole : rest.length % 8 = 0) :
    inflateBlocks fuel out (bitsOf (deflate bytes) ++ rest) = ⟨out ++ bytes, some rest⟩ := by
  obtain ⟨fuel, rfl⟩ := Nat.exists_eq_succ_of_ne_zero (Nat.ne_of_gt (Nat.zero_lt_of_lt enough))
  fun_induction deflate bytes generalizing fuel out with
  | case1 bytes small => simp [inflateBlocks_storedBlock small whole]
  | case2 bytes large ih =>
      have full : (bytes.take storedLimit).length ≤ storedLimit := List.length_take_le _ _
      have positive : 0 < storedLimit := by decide
      have shorter : (bytes.drop storedLimit).length < fuel := by
        rw [List.length_drop]
        omega
      obtain ⟨fuel, rfl⟩ := Nat.exists_eq_succ_of_ne_zero
        (Nat.ne_of_gt (Nat.zero_lt_of_lt shorter))
      have whole' : (bitsOf (deflate (bytes.drop storedLimit)) ++ rest).length % 8 = 0 := by
        rw [List.length_append, length_bitsOf]
        omega
      rw [bitsOf_append, List.append_assoc, Nat.succ_eq_add_one,
        inflateBlocks_storedBlock full whole', if_neg Bool.false_ne_true, ih fuel shorter]
      have parts : out ++ bytes.take storedLimit ++ bytes.drop storedLimit = out ++ bytes := by
        apply Array.ext'
        simp
      rw [parts]

theorem inflate_deflate (bytes tail : Bytes) :
    inflate (deflate bytes ++ tail) = (bytes, some tail) := by
  have enough : bytes.length < (bitsOf (deflate bytes ++ tail)).length + 1 := by
    have grown := length_le_deflate bytes
    rw [length_bitsOf, List.length_append]
    omega
  have whole : (bitsOf tail).length % 8 = 0 := by
    rw [length_bitsOf]
    omega
  have inflated : inflateBlocks _ #[] _ = _ := inflateBlocks_deflate enough whole
  rw [← bitsOf_append] at inflated
  have left : (deflate bytes ++ tail).length - (bitsOf tail).length / 8 =
      (deflate bytes).length := by
    rw [List.length_append, length_bitsOf]
    omega
  rw [inflate, inflated]
  dsimp only [Option.map_some]
  rw [left, List.drop_left]
  simp

namespace Gzip

/-- The header that is written has no optional parts. -/
theorem skipHeader?_append (tail : Bytes) :
    skipHeader? (magic ++ [0, 0, 0, 0, 0, 0, 0xff] ++ tail) = some tail := by
  have fixed : cut? 10 (magic ++ [0, 0, 0, 0, 0, 0, 0xff] ++ tail) =
      some (magic ++ [0, 0, 0, 0, 0, 0, 0xff], tail) := cut?_eq_some_iff.mpr ⟨rfl, rfl⟩
  rw [skipHeader?, fixed]
  rfl

theorem fits_trailer (data : Bytes) :
    fits data (littleEndian 4 (checksum data) ++ littleEndian 4 (data.length % sizeBound)) =
      true := by
  have sum : checksum data < 256 ^ 4 := UInt32.toNat_lt _
  have size : data.length % sizeBound < 256 ^ 4 := Nat.mod_lt _ (by decide)
  have front : cut? 4 (littleEndian 4 (checksum data) ++
      littleEndian 4 (data.length % sizeBound)) =
      some (littleEndian 4 (checksum data), littleEndian 4 (data.length % sizeBound)) :=
    cut?_eq_some_iff.mpr ⟨length_littleEndian _ _, rfl⟩
  have whole : (littleEndian 4 (data.length % sizeBound)).take 4 =
      littleEndian 4 (data.length % sizeBound) :=
    List.take_of_length_le (length_littleEndian _ _).le
  rw [fits, front]
  simp [whole, ofLittleEndian_littleEndian sum, ofLittleEndian_littleEndian size,
    length_littleEndian]

/-- A stream is read as the bytes that were written, and comes to a proper end. -/
theorem read_write (bytes : Bytes) : read (write bytes) = ⟨bytes, true⟩ := by
  rw [read, write, List.append_assoc, List.append_assoc, skipHeader?_append]
  dsimp only
  rw [inflate_deflate]
  dsimp only
  rw [fits_trailer]

end Gzip

end ApiInventory.Archive
