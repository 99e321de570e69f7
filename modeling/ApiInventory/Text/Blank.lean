import ApiInventory.Text.Split

/-!
# White space

White space is what Unicode calls so: the controls from tab to carriage return, the
space, the next line control, the no-break space and the spaces of other scripts.
-/

namespace ApiInventory.Text

def isBlank (c : Char) : Bool :=
  ('\t' ≤ c && c ≤ '\r') || c == ' ' || c == '\u0085' || c == '\u00a0' || c == '\u1680' ||
    ('\u2000' ≤ c && c ≤ '\u200a') || c == '\u2028' || c == '\u2029' || c == '\u202f' ||
    c == '\u205f' || c == '\u3000'

def trimStart (text : List Char) : List Char := text.dropWhile isBlank

def trimEnd (text : List Char) : List Char := (text.reverse.dropWhile isBlank).reverse

/-- A text without the white space around it. -/
def trim (text : List Char) : List Char := trimEnd (trimStart text)

def trimmed (s : String) : String := String.ofList (trim s.toList)

@[simp] theorem trim_nil : trim [] = [] := rfl

theorem trimStart_eq_self {text : List Char} (h : ∀ c, text.head? = some c → isBlank c = false) :
    trimStart text = text := by
  cases text with
  | nil => rfl
  | cons c cs => simp [trimStart, h c rfl]

theorem trimEnd_eq_self {text : List Char}
    (h : ∀ c, text.getLast? = some c → isBlank c = false) : trimEnd text = text := by
  unfold trimEnd
  rw [← List.head?_reverse] at h
  cases e : text.reverse with
  | nil => simp [List.reverse_eq_nil_iff.1 e]
  | cons c cs =>
    rw [e] at h
    rw [List.dropWhile_cons_of_neg (by simp [h c rfl]), ← e, List.reverse_reverse]

end ApiInventory.Text
