/-!
# Counters in decimal

A counter is a number below two to the sixty-fourth power. It is written in plain
decimal. It may be read with a plus sign and with zeros in front, but with nothing
else around the digits.
-/

namespace ApiInventory.Text

/-- Counters are below this bound. -/
def counterBound : Nat := 18446744073709551616

def digitValue (c : Char) : Nat := c.toNat - '0'.toNat

def digitsValue (digits : List Char) : Nat :=
  digits.foldl (fun n c => 10 * n + digitValue c) 0

/-- The value of one or more decimal digits. -/
def unsigned? (text : List Char) : Option Nat :=
  if text.isEmpty || !text.all Char.isDigit then none
  else
    let n := digitsValue text
    if n < counterBound then some n else none

/-- Read a counter, with or without a plus sign. -/
def counter? (text : List Char) : Option Nat :=
  match text with
  | '+' :: digits => unsigned? digits
  | digits => unsigned? digits

theorem lt_of_unsigned? {text : List Char} {n : Nat} (h : unsigned? text = some n) :
    n < counterBound := by
  unfold unsigned? at h
  split at h
  · simp at h
  · simp only at h
    split at h <;> simp_all

theorem lt_of_counter? {text : List Char} {n : Nat} (h : counter? text = some n) :
    n < counterBound := by
  unfold counter? at h
  split at h <;> exact lt_of_unsigned? h

end ApiInventory.Text
