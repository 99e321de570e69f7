import ApiInventory.Text.Split

/-!
# Pieces and lines

The pieces of a text that is joined are the ones that it was joined from. A text is cut into lines
at its line feeds, too, though lines are more than pieces: a carriage return in front of a line feed
belongs to the end of the line, and what stands behind the last line feed is a line only if there is
anything (`lines`).
-/

namespace ApiInventory.Text

theorem join_cons {α : Type} (separator : α) (p : List α) {ps : List (List α)}
    (more : ps ≠ []) : join separator (p :: ps) = p ++ separator :: join separator ps := by
  cases ps with
  | nil => exact absurd rfl more
  | cons => rfl

theorem pieces_join {α : Type} [DecidableEq α] {separator : α} {ps : List (List α)}
    (some : ps ≠ [])
    (clean : ∀ p ∈ ps, separator ∉ p) : pieces separator (join separator ps) = ps := by
  induction ps with
  | nil => exact absurd rfl some
  | cons p ps ih =>
      have first : separator ∉ p := clean p (by simp)
      cases ps with
      | nil => exact pieces_of_not_mem first
      | cons q qs =>
          rw [join_cons separator p (by simp), pieces_append, pieces_of_not_mem first,
            ih (by simp) fun r member => clean r (List.mem_cons_of_mem p member)]
          rfl

theorem join_eq_intercalate {α : Type} (separator : α) (ps : List (List α)) :
    join separator ps = [separator].intercalate ps := by
  induction ps with
  | nil => rfl
  | cons p ps ih =>
      cases ps with
      | nil => simp [join]
      | cons q qs =>
          rw [join_cons separator p (by simp), ih, List.intercalate_cons_cons]
          simp

/-! ## Lines -/

/-- A line without a carriage return at its end. -/
def withoutReturn (line : List Char) : List Char :=
  if line.getLast? = some '\r' then line.dropLast else line

/-- The lines that pieces between line feeds are. -/
def linesOf : List (List Char) → List (List Char)
  | [] => []
  | [last] => if last = [] then [] else [last]
  | line :: more => withoutReturn line :: linesOf more

/-- The lines of a text. Each ends with a line feed and maybe a carriage return in front of it, but
the last one may end without. -/
def lines (text : List Char) : List (List Char) := linesOf (pieces '\n' text)

/-- A text with a carriage return put in front of each line feed. -/
def withReturns (text : List Char) : List Char :=
  text.flatMap fun c => if c = '\n' then ['\r', '\n'] else [c]

theorem withReturns_of_not_mem {text : List Char} (none : '\n' ∉ text) :
    withReturns text = text := by
  induction text with
  | nil => rfl
  | cons c cs ih =>
      rw [List.mem_cons, not_or] at none
      have other : c ≠ '\n' := Ne.symm none.1
      have rest : (cs.flatMap fun c => if c = '\n' then ['\r', '\n'] else [c]) = cs := ih none.2
      rw [withReturns, List.flatMap_cons, if_neg other, rest, List.singleton_append]

theorem withReturns_append (a b : List Char) :
    withReturns (a ++ '\n' :: b) = withReturns a ++ '\r' :: '\n' :: withReturns b := by
  simp [withReturns]

/-- Each piece but the last gets a carriage return. -/
theorem pieces_withReturns (line text : List Char) (single : '\n' ∉ line) :
    pieces '\n' (withReturns (line ++ '\n' :: text)) =
      (line ++ ['\r']) :: pieces '\n' (withReturns text) := by
  have plain : '\n' ∉ line ++ ['\r'] := by simpa using single
  rw [withReturns_append, withReturns_of_not_mem single, List.append_cons line '\r',
    pieces_append, pieces_of_not_mem plain, List.singleton_append]

end ApiInventory.Text
