/-!
# Bytes as text

`decode?` reads well-formed UTF-8 only. `marked` reads any bytes: where they are
ill-formed, each longest beginning of a character, or else a single byte, gives one
mark. `decodeLossy` puts a replacement character for each mark.
-/

namespace ApiInventory.Text

def encode (s : String) : ByteArray := s.toUTF8

def decode? (bytes : ByteArray) : Option String := String.fromUTF8? bytes

def replacement : Char := '\ufffd'

def isContinuation (b : UInt8) : Bool := 0x80 ≤ b && b ≤ 0xbf

/-- What may follow a leading byte: the range of the second byte, and how many
continuation bytes come after it. -/
def leading? (b : UInt8) : Option (UInt8 × UInt8 × Nat) :=
  if 0xc2 ≤ b && b ≤ 0xdf then some (0x80, 0xbf, 0)
  else if b = 0xe0 then some (0xa0, 0xbf, 1)
  else if b = 0xed then some (0x80, 0x9f, 1)
  else if 0xe1 ≤ b && b ≤ 0xef then some (0x80, 0xbf, 1)
  else if b = 0xf0 then some (0x90, 0xbf, 2)
  else if 0xf1 ≤ b && b ≤ 0xf3 then some (0x80, 0xbf, 2)
  else if b = 0xf4 then some (0x80, 0x8f, 2)
  else none

def payload (b : UInt8) : Nat := b.toNat % 64

/-- The payload of a leading byte that `count` continuation bytes follow. -/
def leadingPayload (b : UInt8) (count : Nat) : Nat :=
  b.toNat % (64 >>> count)

/-- Take up to `count` continuation bytes, with the payload so far. The flag says
whether all of them were there. -/
def continuations : Nat → Nat → List UInt8 → Bool × Nat × List UInt8
  | 0, value, rest => (true, value, rest)
  | _ + 1, value, [] => (false, value, [])
  | count + 1, value, b :: rest =>
    if isContinuation b then continuations count (64 * value + payload b) rest
    else (false, value, b :: rest)

theorem continuations_length_le (count value : Nat) (bytes : List UInt8) :
    (continuations count value bytes).2.2.length ≤ bytes.length := by
  induction count generalizing value bytes with
  | zero => simp [continuations]
  | succ count ih =>
    cases bytes with
    | nil => simp [continuations]
    | cons b rest =>
      simp only [continuations]
      split
      · exact Nat.le_succ_of_le (ih _ _)
      · simp

/-- The character at the front of some bytes, or a mark, and what follows. -/
def decodeOne (b : UInt8) (rest : List UInt8) : Option Char × List UInt8 :=
  if b < 0x80 then (some (Char.ofNat b.toNat), rest)
  else
    match leading? b, rest with
    | some (low, high, more), second :: tail =>
      if low ≤ second && second ≤ high then
        let (complete, value, after) :=
          continuations more (64 * leadingPayload b (more + 1) + payload second) tail
        (if complete then some (Char.ofNat value) else none, after)
      else (none, rest)
    | _, _ => (none, rest)

theorem decodeOne_length_le (b : UInt8) (rest : List UInt8) :
    (decodeOne b rest).2.length ≤ rest.length := by
  unfold decodeOne
  split
  · simp
  · split
    · split
      · exact Nat.le_succ_of_le (continuations_length_le _ _ _)
      · simp
    · simp

/-- The characters of any bytes, with `none` where they are ill-formed. -/
def marked : List UInt8 → List (Option Char)
  | [] => []
  | b :: rest =>
    let one := decodeOne b rest
    one.1 :: marked one.2
termination_by bytes => bytes.length
decreasing_by
  simp only [List.length_cons]
  exact Nat.lt_succ_of_le (decodeOne_length_le b rest)

/-- The text of any bytes. -/
def decodeLossy (bytes : ByteArray) : String :=
  match decode? bytes with
  | some s => s
  | none => String.ofList ((marked bytes.toList).map fun c => c.getD replacement)

end ApiInventory.Text
