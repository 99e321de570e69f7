/-!
# Splitting at a character

A text of `n` separators has `n + 1` pieces, some of which may be empty. Joining the
pieces gives the text back.
-/

namespace ApiInventory.Text

variable {α : Type} [DecidableEq α]

/-- The pieces between separators. -/
def pieces (separator : α) : List α → List (List α)
  | [] => [[]]
  | c :: cs =>
    if c = separator then [] :: pieces separator cs
    else
      match pieces separator cs with
      | [] => [[c]]
      | p :: ps => (c :: p) :: ps

theorem pieces_ne_nil (separator : α) (text : List α) : pieces separator text ≠ [] := by
  cases text with
  | nil => simp [pieces]
  | cons c cs =>
    simp only [pieces]
    split
    · simp
    · split <;> simp

@[simp] theorem pieces_separator (separator : α) (text : List α) :
    pieces separator (separator :: text) = [] :: pieces separator text := by
  simp [pieces]

theorem not_mem_of_mem_pieces {separator : α} {text p : List α}
    (h : p ∈ pieces separator text) : separator ∉ p := by
  induction text generalizing p with
  | nil => simp_all [pieces]
  | cons c cs ih =>
    simp only [pieces] at h
    split at h
    · rcases List.mem_cons.1 h with rfl | h
      · simp
      · exact ih h
    · rename_i ne
      split at h
      · simp_all [Ne.symm]
      · rename_i q qs eq
        rcases List.mem_cons.1 h with rfl | h
        · have := ih (p := q) (by simp [eq])
          simp only [List.mem_cons, not_or]
          exact ⟨fun e => ne e.symm, this⟩
        · exact ih (by simp [eq, h])

/-- Splitting at a separator splits the text in two parts that are split on their own. -/
theorem pieces_append (separator : α) (a b : List α) :
    pieces separator (a ++ separator :: b) = pieces separator a ++ pieces separator b := by
  induction a with
  | nil => simp [pieces]
  | cons c cs ih =>
    simp only [List.cons_append, pieces]
    split
    · simp [ih]
    · rw [ih]
      cases h : pieces separator cs with
      | nil => exact absurd h (pieces_ne_nil _ _)
      | cons p ps => simp

theorem pieces_of_not_mem {separator : α} {text : List α} (h : separator ∉ text) :
    pieces separator text = [text] := by
  induction text with
  | nil => rfl
  | cons c cs ih =>
    simp only [List.mem_cons, not_or] at h
    simp [pieces, Ne.symm h.1, ih h.2]

/-- Put a separator between pieces. -/
def join (separator : α) : List (List α) → List α
  | [] => []
  | [p] => p
  | p :: ps => p ++ separator :: join separator ps

theorem join_pieces (separator : α) (text : List α) :
    join separator (pieces separator text) = text := by
  induction text with
  | nil => rfl
  | cons c cs ih =>
    simp only [pieces]
    cases h : pieces separator cs with
    | nil => exact absurd h (pieces_ne_nil _ _)
    | cons p ps =>
      rw [h] at ih
      split
      · rename_i eq
        simp [join, ih, eq]
      · cases ps <;> simp_all [join]

end ApiInventory.Text
