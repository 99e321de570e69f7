import ApiInventory.Proofs.Text.ByteOrder

/-!
# Texts that are decoded again

The bytes of a text are decoded without marks, and give its characters again (`marked_encode`).
-/

namespace ApiInventory.Text

theorem toList_loop (b : ByteArray) (i : Nat) (front : List UInt8) :
    ByteArray.toList.loop b i front = front.reverse ++ b.data.toList.drop i := by
  fun_induction ByteArray.toList.loop b i front with
  | case1 i front inside ih =>
      have here : b.data.toList.drop i = b.get! i :: b.data.toList.drop (i + 1) := by
        simpa [ByteArray.get!, inside] using List.drop_eq_getElem_cons (l := b.data.toList) inside
      rw [ih, here, List.reverse_cons, List.append_assoc, List.singleton_append]
  | case2 i front outside =>
      have nothing : b.data.toList.drop i = [] :=
        List.drop_eq_nil_iff.mpr (Nat.le_of_not_lt outside)
      rw [nothing, List.append_nil]

theorem toList_encode (s : String) : (encode s).toList = bytes s := by
  rw [ByteArray.toList, toList_loop]
  rfl

theorem leading?_ofNat {n : Nat} (small : n < 256) :
    leading? (UInt8.ofNat n) =
      if 0xc2 ≤ n ∧ n ≤ 0xdf then some (0x80, 0xbf, 0)
      else if n = 0xe0 then some (0xa0, 0xbf, 1)
      else if n = 0xed then some (0x80, 0x9f, 1)
      else if 0xe1 ≤ n ∧ n ≤ 0xef then some (0x80, 0xbf, 1)
      else if n = 0xf0 then some (0x90, 0xbf, 2)
      else if 0xf1 ≤ n ∧ n ≤ 0xf3 then some (0x80, 0xbf, 2)
      else if n = 0xf4 then some (0x80, 0x8f, 2)
      else none := by
  simp only [leading?, UInt8.le_iff_toNat_le, ← UInt8.toNat_inj, UInt8.toNat_ofNat_of_lt' small,
    Bool.and_eq_true, decide_eq_true_eq]
  rfl

theorem ofNat_between {n : Nat} (low high : Nat) (h : low ≤ n ∧ n ≤ high ∧ high < 256) :
    UInt8.ofNat low ≤ UInt8.ofNat n ∧ UInt8.ofNat n ≤ UInt8.ofNat high := by
  have first : low < 256 := by omega
  have second : n < 256 := by omega
  simp only [UInt8.le_iff_toNat_le, UInt8.toNat_ofNat_of_lt' first,
    UInt8.toNat_ofNat_of_lt' second, UInt8.toNat_ofNat_of_lt' h.2.2]
  exact ⟨h.1, h.2.1⟩

theorem not_ofNat_lt_ascii {n : Nat} (h : 128 ≤ n ∧ n < 256) : ¬UInt8.ofNat n < 0x80 :=
  (ofNat_lt_ofNat h.2 (by decide : 128 < 256)).not.mpr (Nat.not_lt_of_le h.1)

/-- A digit to the base 64 is carried by a continuation byte. -/
theorem payload_ofNat {n : Nat} (digit : n < 64) : payload (UInt8.ofNat (n + 128)) = n := by
  have bound : n + 128 < 256 := by omega
  rw [payload, UInt8.toNat_ofNat_of_lt' bound]
  omega

theorem continuations_cons {n : Nat} (digit : n < 64) (count value : Nat) (rest : List UInt8) :
    continuations (count + 1) value (UInt8.ofNat (n + 128) :: rest) =
      continuations count (64 * value + n) rest := by
  have continues : isContinuation (UInt8.ofNat (n + 128)) = true := by
    simp only [isContinuation, Bool.and_eq_true, decide_eq_true_eq]
    exact ofNat_between 0x80 0xbf (by omega)
  rw [continuations, if_pos continues, payload_ofNat digit]

/-! ## Leading bytes -/

/-- A leading byte lets a second byte follow it, and so many after that one. -/
def Leads (b second : UInt8) (more : Nat) : Prop :=
  ¬b < 0x80 ∧ ∃ low high, leading? b = some (low, high, more) ∧ low ≤ second ∧ second ≤ high

theorem Leads.decodeOne {b second : UInt8} {more value : Nat} {tail rest : List UInt8}
    (leads : Leads b second more)
    (onward : continuations more (64 * leadingPayload b (more + 1) + payload second) tail =
      (true, value, rest)) :
    decodeOne b (second :: tail) = (some (Char.ofNat value), rest) := by
  obtain ⟨wide, low, high, lead, above, below⟩ := leads
  unfold Text.decodeOne
  simp only [wide, if_false, lead, above, below, decide_true, Bool.and_true, if_true, onward]

section Leading

variable {m s : Nat} (digit : s < 64)
include digit

theorem leads_two (small : 2 ≤ m ∧ m < 32) :
    Leads (UInt8.ofNat (m + 192)) (UInt8.ofNat (s + 128)) 0 := by
  have bound : m + 192 < 256 := by omega
  refine ⟨not_ofNat_lt_ascii (by omega), 0x80, 0xbf, ?_, ofNat_between 0x80 0xbf (by omega)⟩
  rw [leading?_ofNat bound, if_pos (by omega)]

/-- Three bytes are not used for what fits in two, nor for halves of surrogate pairs. -/
theorem leads_three (small : m < 16) (long : m = 0 → 32 ≤ s) (noSurrogate : m = 13 → s < 32) :
    Leads (UInt8.ofNat (m + 224)) (UInt8.ofNat (s + 128)) 1 := by
  have bound : m + 224 < 256 := by omega
  have lead := leading?_ofNat bound
  refine ⟨not_ofNat_lt_ascii (by omega), ?_⟩
  split_ifs at lead
  case pos => omega
  case pos => exact ⟨_, _, lead, ofNat_between 0xa0 0xbf (by omega)⟩
  case pos => exact ⟨_, _, lead, ofNat_between 0x80 0x9f (by omega)⟩
  case pos => exact ⟨_, _, lead, ofNat_between 0x80 0xbf (by omega)⟩
  all_goals omega

/-- Four bytes are not used for what fits in three, nor for what is no code point. -/
theorem leads_four (small : m < 5) (long : m = 0 → 16 ≤ s) (bounded : m = 4 → s < 16) :
    Leads (UInt8.ofNat (m + 240)) (UInt8.ofNat (s + 128)) 2 := by
  have bound : m + 240 < 256 := by omega
  have lead := leading?_ofNat bound
  refine ⟨not_ofNat_lt_ascii (by omega), ?_⟩
  split_ifs at lead
  case pos => omega
  case pos => omega
  case pos => omega
  case pos => omega
  case pos => exact ⟨_, _, lead, ofNat_between 0x90 0xbf (by omega)⟩
  case pos => exact ⟨_, _, lead, ofNat_between 0x80 0xbf (by omega)⟩
  case pos => exact ⟨_, _, lead, ofNat_between 0x80 0x8f (by omega)⟩
  all_goals omega

end Leading

/-! ## Characters -/

/-- A character is decoded from the bytes that spell it, whatever comes behind them. -/
theorem decodeOne_utf8EncodeChar (c : Char) :
    ∃ b tail, String.utf8EncodeChar c = b :: tail ∧
      ∀ rest, decodeOne b (tail ++ rest) = (some c, rest) := by
  have valid : c.val.toNat < 0xd800 ∨ 0xdfff < c.val.toNat ∧ c.val.toNat < 0x110000 := c.valid
  have back : Char.ofNat c.val.toNat = c := c.ofNat_toNat
  unfold String.utf8EncodeChar
  generalize c.val.toNat = n at back valid
  have digits : n / 4096 = n / 64 / 64 ∧ n / 262144 = n / 64 / 64 / 64 := by
    simp only [Nat.div_div_eq_div_mul, Nat.reduceMul, and_self]
  simp only [← back, digits]
  have digit : n % 64 < 64 := Nat.mod_lt n (by decide)
  have digit' : n / 64 % 64 < 64 := Nat.mod_lt _ (by decide)
  have digit'' : n / 64 / 64 % 64 < 64 := Nat.mod_lt _ (by decide)
  split_ifs with one two three
  · refine ⟨_, _, rfl, fun rest => ?_⟩
    have bound : n < 256 := by omega
    have ascii : UInt8.ofNat n < 0x80 :=
      (ofNat_lt_ofNat bound (by decide : 128 < 256)).mpr (by omega)
    unfold decodeOne
    rw [if_pos ascii, UInt8.toNat_ofNat_of_lt' bound]
    rfl
  · refine ⟨_, _, rfl, fun rest => ?_⟩
    have bound : n / 64 % 32 + 192 < 256 := by omega
    apply (leads_two digit (by omega)).decodeOne
    rw [leadingPayload, UInt8.toNat_ofNat_of_lt' bound, payload_ofNat digit]
    show (true, 64 * ((n / 64 % 32 + 192) % 32) + n % 64, rest) = (true, n, rest)
    congr 2
    omega
  · refine ⟨_, _, rfl, fun rest => ?_⟩
    have bound : n / 64 / 64 % 16 + 224 < 256 := by omega
    apply (leads_three digit' (by omega) (by omega) (by omega)).decodeOne
    show continuations 1 _ (UInt8.ofNat (n % 64 + 128) :: rest) = _
    rw [continuations_cons digit, leadingPayload, UInt8.toNat_ofNat_of_lt' bound,
      payload_ofNat digit']
    show (true, 64 * (64 * ((n / 64 / 64 % 16 + 224) % 16) + n / 64 % 64) + n % 64, rest) =
      (true, n, rest)
    congr 2
    omega
  · refine ⟨_, _, rfl, fun rest => ?_⟩
    have bound : n / 64 / 64 / 64 % 8 + 240 < 256 := by omega
    apply (leads_four digit'' (by omega) (by omega) (by omega)).decodeOne
    show continuations 2 _
      (UInt8.ofNat (n / 64 % 64 + 128) :: UInt8.ofNat (n % 64 + 128) :: rest) = _
    rw [continuations_cons digit', continuations_cons digit, leadingPayload,
      UInt8.toNat_ofNat_of_lt' bound, payload_ofNat digit'']
    show (true, 64 * (64 * (64 * ((n / 64 / 64 / 64 % 8 + 240) % 8) + n / 64 / 64 % 64) +
      n / 64 % 64) + n % 64, rest) = (true, n, rest)
    congr 2
    omega

theorem marked_utf8 (cs : List Char) : marked (cs.flatMap String.utf8EncodeChar) = cs.map some := by
  induction cs with
  | nil => rw [List.flatMap_nil, marked, List.map_nil]
  | cons c cs ih =>
      obtain ⟨b, tail, spelled, decoded⟩ := decodeOne_utf8EncodeChar c
      rw [List.flatMap_cons, spelled, List.cons_append, marked, decoded, ih, List.map_cons]

theorem marked_encode (s : String) : marked (encode s).toList = s.toList.map some := by
  rw [toList_encode, bytes_eq_flatMap, marked_utf8]

end ApiInventory.Text
