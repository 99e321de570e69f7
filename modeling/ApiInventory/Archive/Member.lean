/-!
# Members of archives

An archive is a list of named members. Bytes are lists here, since archives are read
from front to back.
-/

namespace ApiInventory.Archive

abbrev Bytes := List UInt8

inductive Content where
  | file (bytes : Bytes)
  | directory
  /-- A symbolic link. -/
  | link (target : String)
  /-- A second name for a member that came before. -/
  | sameAs (other : String)
deriving DecidableEq

structure Member where
  name : String
  content : Content
deriving DecidableEq

/-- The first `n` bytes and what follows them, if there are so many. -/
def cut? (n : Nat) (bytes : Bytes) : Option (Bytes × Bytes) :=
  let front := bytes.take n
  if front.length = n then some (front, bytes.drop n) else none

theorem cut?_eq_some_iff {n : Nat} {bytes front rest : Bytes} :
    cut? n bytes = some (front, rest) ↔ front.length = n ∧ bytes = front ++ rest := by
  simp only [cut?]
  constructor
  · intro h
    split at h
    · rename_i len
      obtain ⟨rfl, rfl⟩ := Prod.mk.inj (Option.some.inj h)
      exact ⟨len, (List.take_append_drop n bytes).symm⟩
    · simp at h
  · rintro ⟨rfl, rfl⟩
    simp

/-- A number in `width` bytes, the least significant first. -/
def littleEndian : Nat → Nat → Bytes
  | 0, _ => []
  | width + 1, n => UInt8.ofNat (n % 256) :: littleEndian width (n / 256)

/-- The number that bytes stand for, the least significant first. -/
def ofLittleEndian : Bytes → Nat
  | [] => 0
  | b :: rest => b.toNat + 256 * ofLittleEndian rest

theorem length_littleEndian (width n : Nat) : (littleEndian width n).length = width := by
  induction width generalizing n with
  | zero => rfl
  | succ width ih => simp [littleEndian, ih]

end ApiInventory.Archive
