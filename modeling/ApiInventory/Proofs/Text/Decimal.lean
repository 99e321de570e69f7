import ApiInventory.Proofs.Text.Trimming
import ApiInventory.Text.Counter
import ApiInventory.Text.Utf8

/-!
# Counters written and read

A counter that is written in decimal is read back, also as bytes and with white space trimmed. Texts
that were not written so may read as counters, too: `counter?_trim_eq_some_iff` says which.
-/

namespace ApiInventory.Text

@[simp] theorem decode?_encode (s : String) : decode? (encode s) = some s := by
  have valid : ByteArray.IsValidUTF8 s.toUTF8 := s.isValidUTF8
  unfold decode? encode String.fromUTF8?
  rw [dif_pos valid]
  rfl

@[simp] theorem decodeLossy_encode (s : String) : decodeLossy (encode s) = s := by
  rw [decodeLossy, decode?_encode]

theorem encode_injective {s s' : String} (h : encode s = encode s') : s = s' := by
  have same := congrArg decode? h
  simpa using same

theorem toList_toString (n : Nat) : (toString n).toList = Nat.toDigits 10 n := by
  rw [Nat.toString_eq_ofList_toDigits, String.toList_ofList]

theorem toList_toString_ne_nil (n : Nat) : (toString n).toList ≠ [] := by
  rw [toList_toString]
  exact Nat.toDigits_ne_nil

theorem isDigit_of_mem_toString {n : Nat} {c : Char} (h : c ∈ (toString n).toList) :
    c.isDigit = true := by
  rw [toList_toString] at h
  exact Nat.isDigit_of_mem_toDigits (by decide) (by decide) h

theorem digitsValue_toString (n : Nat) : digitsValue (toString n).toList = n := by
  have value := Nat.ofDigitChars_toDigits (b := 10) (n := n) (by decide) (by decide)
  rw [Nat.ofDigitChars_eq_foldl] at value
  rw [toList_toString]
  exact value

theorem toString_injective {m n : Nat} (h : toString m = toString n) : m = n := by
  rw [← digitsValue_toString m, h, digitsValue_toString]

theorem isBlank_eq_false_of_isDigit {c : Char} (h : c.isDigit = true) : isBlank c = false := by
  obtain ⟨low, high⟩ := Char.isDigit_iff_toNat.mp h
  have digits : ∀ k < 58, 48 ≤ k → isBlank (Char.ofNat k) = false := by decide
  have blank := digits c.toNat (Nat.lt_succ_of_le high) low
  rwa [Char.ofNat_toNat] at blank

theorem trim_toString (n : Nat) : trim (toString n).toList = (toString n).toList := by
  have noBlank : ∀ c ∈ (toString n).toList, isBlank c = false := fun c member =>
    isBlank_eq_false_of_isDigit (isDigit_of_mem_toString member)
  unfold trim
  rw [trimStart_eq_self fun c first => noBlank c (List.mem_of_head? first),
    trimEnd_eq_self fun c last => noBlank c (List.mem_of_getLast? last)]

theorem unsigned?_toString {n : Nat} (h : n < counterBound) :
    unsigned? (toString n).toList = some n := by
  have digits : (toString n).toList.all Char.isDigit = true := by
    rw [List.all_eq_true]
    exact fun c member => isDigit_of_mem_toString member
  have some : (toString n).toList.isEmpty = false := by
    rw [List.isEmpty_eq_false_iff]
    exact toList_toString_ne_nil n
  unfold unsigned?
  rw [digits, some, digitsValue_toString]
  simp [h]

theorem counter?_toString {n : Nat} (h : n < counterBound) :
    counter? (toString n).toList = some n := by
  unfold counter?
  split
  · rename_i rest plus
    have digit : '+'.isDigit = true := isDigit_of_mem_toString (n := n) (by rw [plus]; simp)
    cases digit
  · exact unsigned?_toString h

theorem trimEnd_cons {c : Char} (noBlank : isBlank c = false) (text : List Char) :
    ∃ more, trimEnd (c :: text) = c :: more := by
  have front : trimEnd (c :: text) <+: c :: text :=
    List.rdropWhile_prefix isBlank _
  have kept : trimEnd (c :: text) ≠ [] := by
    intro empty
    have blank := List.rdropWhile_eq_nil_iff.mp empty c List.mem_cons_self
    rw [noBlank] at blank
    cases blank
  obtain ⟨c', more, split⟩ := List.exists_cons_of_ne_nil kept
  rw [split, List.cons_prefix_cons] at front
  exact ⟨more, by rw [split, front.1]⟩

/-- A text that begins with something else is no counter. -/
theorem counter?_trim_eq_none {c : Char} (noBlank : isBlank c = false) (noDigit : c.isDigit = false)
    (noPlus : c ≠ '+') (text : List Char) : counter? (trim (c :: text)) = none := by
  have front : trimStart (c :: text) = c :: text := by
    refine trimStart_eq_self fun x first => ?_
    obtain rfl : c = x := by simpa using first
    exact noBlank
  obtain ⟨more, split⟩ := trimEnd_cons noBlank text
  rw [trim, front, split]
  unfold counter?
  split
  · rename_i plus
    exact absurd (List.cons.inj plus).1 noPlus
  · simp [unsigned?, noDigit]

/-! ## What reads as a counter -/

/-- A text spells a counter: decimal digits with or without a plus sign, between blanks. -/
inductive Spells : List Char → Nat → Prop
  | intro {before sign digits after : List Char} (blank : ∀ c ∈ before ++ after, isBlank c = true)
      (plus : sign = [] ∨ sign = ['+']) (some : digits ≠ []) (plain : ∀ c ∈ digits, c.isDigit = true)
      (small : Nat.ofDigitChars 10 digits 0 < counterBound) :
      Spells (before ++ (sign ++ digits) ++ after) (Nat.ofDigitChars 10 digits 0)

theorem unsigned?_eq_some_iff {digits : List Char} {n : Nat} :
    unsigned? digits = some n ↔
      digits ≠ [] ∧ (∀ c ∈ digits, c.isDigit = true) ∧ Nat.ofDigitChars 10 digits 0 = n ∧
        n < counterBound := by
  have value : digitsValue digits = Nat.ofDigitChars 10 digits 0 :=
    (Nat.ofDigitChars_eq_foldl ..).symm
  unfold unsigned?
  rw [value]
  constructor
  · intro h
    split at h
    · cases h
    · rename_i plain
      simp only [Bool.or_eq_true, List.isEmpty_iff, Bool.not_eq_true', List.all_eq_false,
        not_or, not_exists, not_and, Bool.not_eq_true, Bool.not_eq_false] at plain
      dsimp only at h
      split at h
      · cases h
        exact ⟨plain.1, plain.2, rfl, by assumption⟩
      · cases h
  · rintro ⟨nonempty, plain, rfl, small⟩
    have all : digits.all Char.isDigit = true := List.all_eq_true.mpr plain
    have some : digits.isEmpty = false := List.isEmpty_eq_false_iff.mpr nonempty
    simp [all, some, small]

/-- A numeral is a counter without blanks around it. -/
inductive Numeral : List Char → Nat → Prop
  | intro {sign digits : List Char} (plus : sign = [] ∨ sign = ['+']) (some : digits ≠ [])
      (plain : ∀ c ∈ digits, c.isDigit = true)
      (small : Nat.ofDigitChars 10 digits 0 < counterBound) :
      Numeral (sign ++ digits) (Nat.ofDigitChars 10 digits 0)

theorem counter?_eq_some_iff {text : List Char} {n : Nat} :
    counter? text = some n ↔ Numeral text n := by
  constructor
  · intro h
    unfold counter? at h
    split at h
    · obtain ⟨nonempty, plain, rfl, small⟩ := unsigned?_eq_some_iff.mp h
      exact .intro (.inr rfl : ['+'] = [] ∨ ['+'] = ['+']) nonempty plain small
    · obtain ⟨nonempty, plain, rfl, small⟩ := unsigned?_eq_some_iff.mp h
      exact @Numeral.intro [] _ (.inl rfl) nonempty plain small
  · rintro ⟨rfl | rfl, nonempty, plain, small⟩
    all_goals
      rename_i digits
      have read : unsigned? digits = some (Nat.ofDigitChars 10 digits 0) :=
        unsigned?_eq_some_iff.mpr ⟨nonempty, plain, rfl, small⟩
      unfold counter?
    · split
      · rename_i rest signed
        have digit := plain '+' (by simp at signed; simp [signed])
        cases digit
      · exact read
    · exact read

theorem counter?_trim_eq_some_iff {text : List Char} {n : Nat} :
    counter? (trim text) = some n ↔ Spells text n := by
  constructor
  · intro h
    obtain ⟨before, after, split, blank⟩ := exists_trim text
    have numeral := counter?_eq_some_iff.mp h
    rw [split]
    generalize trim text = core at numeral
    obtain ⟨plus, nonempty, plain, small⟩ := numeral
    exact .intro blank plus nonempty plain small
  · rintro ⟨blank, plus, nonempty, plain, small⟩
    rename_i before sign digits after
    have noBlank : ∀ c ∈ sign ++ digits, isBlank c = false := by
      intro c member
      rcases List.mem_append.mp member with inside | inside
      · obtain ⟨rfl, rfl⟩ : sign = ['+'] ∧ c = '+' := by grind
        decide
      · exact isBlank_eq_false_of_isDigit (plain c inside)
    rw [trim_append blank (fun c first => noBlank c (List.mem_of_head? first))
      (fun c last => noBlank c (List.mem_of_getLast? last)) (by simp [nonempty])]
    exact counter?_eq_some_iff.mpr (.intro plus nonempty plain small)

theorem decode?_eq_some_iff {bytes : ByteArray} {s : String} :
    decode? bytes = some s ↔ bytes = encode s := by
  constructor
  · intro h
    unfold decode? String.fromUTF8? at h
    split at h
    · cases h
      rfl
    · cases h
  · rintro rfl
    exact decode?_encode s

end ApiInventory.Text
