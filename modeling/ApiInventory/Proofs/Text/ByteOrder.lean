import ApiInventory.Text.Utf8
import Mathlib.Data.String.Basic
import Mathlib.Tactic.SplitIfs

/-!
# The order of texts is the order of their bytes

Texts compare by their characters. UTF-8 spells a character in up to four bytes, the leading one
higher the more there are, and the rest of the code point digit by digit to the base 64. So the
first byte in which two characters differ decides as the code points do, whatever is behind them
(`utf8EncodeChar_append_lt`), and with characters texts compare as their bytes (`bytes_lt_bytes`).
-/

namespace ApiInventory.Text

/-- The bytes of a text. -/
def bytes (s : String) : List UInt8 := (encode s).data.toList

theorem bytes_eq_flatMap (s : String) : bytes s = s.toList.flatMap String.utf8EncodeChar := by
  have encoded : encode s = s.toList.utf8Encode := String.utf8Encode_toList.symm
  rw [bytes, encoded, List.utf8Encode, List.data_toByteArray]

theorem ofNat_lt_ofNat {m n : Nat} (hm : m < 256) (hn : n < 256) :
    UInt8.ofNat m < UInt8.ofNat n ↔ m < n := by
  rw [UInt8.lt_iff_toNat_lt, UInt8.toNat_ofNat_of_lt' hm, UInt8.toNat_ofNat_of_lt' hn]

theorem ofNat_eq_ofNat {m n : Nat} (hm : m < 256) (hn : n < 256) :
    UInt8.ofNat m = UInt8.ofNat n ↔ m = n := by
  rw [← UInt8.toNat_inj, UInt8.toNat_ofNat_of_lt' hm, UInt8.toNat_ofNat_of_lt' hn]

theorem utf8EncodeChar_append_lt {a b : Char} (lt : a < b) (x y : List UInt8) :
    String.utf8EncodeChar a ++ x < String.utf8EncodeChar b ++ y := by
  have lt : a.val.toNat < b.val.toNat := UInt32.lt_iff_toNat_lt.mp (Char.lt_def.mp lt)
  have highest : b.val.toNat < 0x110000 := by
    rcases b.valid with low | high
    · simp only [UInt32.toNat] at low ⊢
      omega
    · simp only [UInt32.toNat] at high ⊢
      omega
  unfold String.utf8EncodeChar
  generalize a.val.toNat = m at lt
  generalize b.val.toNat = n at lt highest
  have digits (k : Nat) : k / 4096 = k / 64 / 64 ∧ k / 262144 = k / 64 / 64 / 64 := by
    simp only [Nat.div_div_eq_div_mul, Nat.reduceMul, and_self]
  -- one case for each pair of lengths; the higher character has no fewer bytes
  dsimp only
  split_ifs
  all_goals
    first
    | omega
    | simp (disch := omega) only [List.cons_append, List.nil_append, List.cons_lt_cons_iff,
        ofNat_lt_ofNat, ofNat_eq_ofNat, digits]
      omega

theorem bytes_lt_bytes {s t : String} (lt : s < t) : bytes s < bytes t := by
  have lt : s.toList < t.toList := String.lt_iff.mp lt
  rw [bytes_eq_flatMap, bytes_eq_flatMap]
  generalize s.toList = u at lt
  generalize t.toList = v at lt
  induction lt with
  | @nil c rest =>
      have spelled : String.utf8EncodeChar c ≠ [] := by simp
      obtain ⟨b, more, split⟩ := List.exists_cons_of_ne_nil spelled
      rw [List.flatMap_nil, List.flatMap_cons, split]
      exact .nil
  | rel first => exact utf8EncodeChar_append_lt first _ _
  | cons rest ih => exact List.append_left_lt ih

theorem bytes_lt_bytes_iff {s t : String} : bytes s < bytes t ↔ s < t := by
  refine ⟨fun lt => ?_, bytes_lt_bytes⟩
  rcases lt_trichotomy s t with before | rfl | after
  · exact before
  · exact absurd lt (List.lt_irrefl _)
  · exact absurd lt (List.lt_asymm (bytes_lt_bytes after))

end ApiInventory.Text
