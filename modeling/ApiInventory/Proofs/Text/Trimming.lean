import ApiInventory.Text.Blank
import Mathlib.Data.List.DropRight

/-!
# White space around a text

What is trimmed is said without a word about the way it is done: a text is blanks, a core that
neither begins nor ends with one, and blanks again, and this core is what is left of it
(`trim_eq_iff`). So it does not matter how much white space there is around a text, or whether there
is any (`trim_around`).
-/

namespace ApiInventory.Text

/-- A text without white space at its ends. -/
structure IsTight (core : List Char) : Prop where
  front : ∀ c, core.head? = some c → isBlank c = false
  back : ∀ c, core.getLast? = some c → isBlank c = false

/-- A text is some core with nothing but blanks around it. -/
inductive Trims : List Char → List Char → Prop
  | intro {before core after : List Char} (blank : ∀ c ∈ before ++ after, isBlank c = true)
      (tight : IsTight core) : Trims (before ++ core ++ after) core

variable {text core before after : List Char}

/-- White space around a text that has none at its ends is trimmed. -/
theorem trim_append (blank : ∀ c ∈ before ++ after, isBlank c = true)
    (first : ∀ c, core.head? = some c → isBlank c = false)
    (last : ∀ c, core.getLast? = some c → isBlank c = false) (nonempty : core ≠ []) :
    trim (before ++ core ++ after) = core := by
  have front : trimStart (before ++ core ++ after) = core ++ after := by
    rw [trimStart, List.append_assoc, List.dropWhile_append_of_pos fun c member =>
      blank c (List.mem_append_left _ member)]
    refine trimStart_eq_self fun c head => first c ?_
    obtain ⟨x, core, rfl⟩ := List.exists_cons_of_ne_nil nonempty
    exact head
  have back : trimEnd (core ++ after) = trimEnd core := by
    rw [trimEnd, trimEnd, List.reverse_append, List.dropWhile_append_of_pos fun c member =>
      blank c (List.mem_append_right _ (List.mem_reverse.mp member))]
  rw [trim, front, back, trimEnd_eq_self last]

/-- A text is what is left of it after trimming, between blanks. -/
theorem exists_trim (text : List Char) :
    ∃ before after, text = before ++ trim text ++ after ∧
      ∀ c ∈ before ++ after, isBlank c = true := by
  refine ⟨text.takeWhile isBlank, (trimStart text).rtakeWhile isBlank, ?_, ?_⟩
  · have back : trim text ++ (trimStart text).rtakeWhile isBlank = trimStart text :=
      List.rdropWhile_append_rtakeWhile ..
    rw [List.append_assoc, back]
    exact List.takeWhile_append_dropWhile.symm
  · intro c member
    rcases List.mem_append.mp member with inside | inside
    · exact List.mem_takeWhile_imp inside
    · exact List.mem_rtakeWhile_imp inside

theorem trim_of_blank (blank : ∀ c ∈ text, isBlank c = true) : trim text = [] := by
  have start : trimStart text = [] := List.dropWhile_eq_nil_iff.mpr blank
  rw [trim, start]
  rfl

/-- What is left has no white space at its ends. -/
theorem isTight_trim (text : List Char) : IsTight (trim text) where
  front c head := by
    have start : trim text <+: trimStart text := List.rdropWhile_prefix isBlank _
    obtain ⟨rest, whole⟩ := start
    have same : (trimStart text).head? = some c := by
      rw [← whole, List.head?_append, head, Option.some_or]
    have notBlank := List.head?_dropWhile_not isBlank text
    rw [show text.dropWhile isBlank = trimStart text from rfl, same] at notBlank
    exact notBlank
  back c last := by
    have nonempty : trim text ≠ [] := by
      rintro empty
      rw [empty] at last
      cases last
    have notBlank := List.rdropWhile_last_not isBlank (trimStart text) nonempty
    rw [List.getLast?_eq_some_getLast nonempty] at last
    rw [← Option.some.inj last]
    exact Bool.eq_false_iff.mpr notBlank

theorem trim_eq_iff : trim text = core ↔ Trims text core := by
  constructor
  · rintro rfl
    obtain ⟨before, after, split, blank⟩ := exists_trim text
    have trims : Trims (before ++ trim text ++ after) (trim text) :=
      .intro blank (isTight_trim text)
    rwa [← split] at trims
  · rintro ⟨blank, tight⟩
    by_cases empty : core = []
    · subst empty
      exact trim_of_blank fun c member => blank c (by simpa using member)
    · exact trim_append blank tight.front tight.back empty

/-- White space more or less around a text does not matter. -/
theorem trim_around (blank : ∀ c ∈ before ++ after, isBlank c = true) (text : List Char) :
    trim (before ++ text ++ after) = trim text := by
  obtain ⟨before', after', split, blank'⟩ := exists_trim text
  rw [trim_eq_iff]
  have whole : before ++ text ++ after = (before ++ before') ++ trim text ++ (after' ++ after) := by
    conv_lhs => rw [split]
    simp only [List.append_assoc]
  rw [whole]
  refine .intro (fun c member => ?_) (isTight_trim text)
  simp only [List.mem_append] at member
  rcases member with (outer | inner) | inner | outer
  · exact blank c (List.mem_append_left _ outer)
  · exact blank' c (List.mem_append_left _ inner)
  · exact blank' c (List.mem_append_right _ inner)
  · exact blank c (List.mem_append_right _ outer)

theorem trim_eq_nil_iff : trim text = [] ↔ ∀ c ∈ text, isBlank c = true := by
  constructor
  · intro nothing c member
    obtain ⟨before, after, split, blank⟩ := exists_trim text
    rw [nothing, List.append_nil] at split
    exact blank c (split ▸ member)
  · exact trim_of_blank

/-- Trimming takes characters away and adds none. -/
theorem mem_of_mem_trim {c : Char} (member : c ∈ trim text) : c ∈ text := by
  obtain ⟨before, after, split, -⟩ := exists_trim text
  rw [split]
  exact List.mem_append_left _ (List.mem_append_right _ member)

theorem trim_of_tight (tight : IsTight core) : trim core = core := by
  rw [trim, trimStart_eq_self tight.front, trimEnd_eq_self tight.back]

end ApiInventory.Text
