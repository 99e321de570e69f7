import ApiInventory.Proofs.Json.Literals

/-!
# The grammar of JSON

`Spells` says which texts stand for a value, one rule for each form that a value can have, and
`SpellsPadded` allows blanks around it. What the rules leave open is left to the writer: blanks,
how a character is escaped, and how often a key is repeated. The value keeps all members in their
order.

The reader takes these texts and gives their values (`ofText?_iff_spellsPadded`). A string literal
that names half of a surrogate pair has no text, and the grammar has no rule for it, while the
reader leaves it to those who ask for the text. So what is said here is about values all of whose
strings have texts.

Reading takes no more than two steps for each character. An opening bracket pays for the step from
a value to its items.
-/

namespace ApiInventory.Json

/-! ## Blanks -/

/-- Characters that stand between values. -/
def Blanks (text : List Char) : Prop := ∀ c ∈ text, isSpace (some c) = true

theorem blanks_nil : Blanks [] := nofun

theorem skipSpace_blanks {blanks : List Char} (h : Blanks blanks) (input : Input) :
    skipSpace (marks blanks ++ input) = skipSpace input := by
  induction blanks with
  | nil => rfl
  | cons c blanks ih =>
      have space := h c (by simp)
      have ih := ih fun x member => h x (List.mem_cons_of_mem c member)
      rw [marks_cons, List.cons_append, skipSpace, List.dropWhile_cons_of_pos space]
      exact ih

theorem skipSpace_cons {c : Char} (h : isSpace (some c) = false) (input : Input) :
    skipSpace (some c :: input) = some c :: input := by
  rw [skipSpace, List.dropWhile_cons_of_neg (by simp [h])]

theorem skipSpace_blanks_cons {blanks : List Char} (h : Blanks blanks) {c : Char}
    (notSpace : isSpace (some c) = false) (input : Input) :
    skipSpace (marks blanks ++ some c :: input) = some c :: input :=
  (skipSpace_blanks h _).trans (skipSpace_cons notSpace input)

theorem skipSpace_skipSpace (input : Input) : skipSpace (skipSpace input) = skipSpace input := by
  unfold skipSpace
  induction input with
  | nil => rfl
  | cons c input ih =>
      by_cases space : isSpace c = true
      · rw [List.dropWhile_cons_of_pos space, ih]
      · rw [List.dropWhile_cons_of_neg space, List.dropWhile_cons_of_neg space]

/-- The blanks in front of a text. -/
theorem exists_blanks (text : List Char) :
    ∃ b r, text = b ++ r ∧ Blanks b ∧ skipSpace (marks text) = marks r := by
  refine ⟨text.takeWhile fun c => isSpace (some c), text.dropWhile fun c => isSpace (some c),
    List.takeWhile_append_dropWhile.symm, List.all_eq_true.mp List.all_takeWhile, ?_⟩
  rw [skipSpace, marks, List.dropWhile_map]
  rfl

theorem value?_skipSpace (fuel : Nat) (input : Input) :
    value? fuel (skipSpace input) = value? fuel input := by
  cases fuel with
  | zero => rw [value?, value?]
  | succ fuel => rw [value?, value?, skipSpace_skipSpace]

theorem items?_skipSpace (fuel : Nat) (input : Input) :
    items? fuel (skipSpace input) = items? fuel input := by
  cases fuel with
  | zero => rw [items?, items?]
  | succ fuel => rw [items?, items?, value?_skipSpace]

theorem members?_skipSpace (fuel : Nat) (input : Input) :
    members? fuel (skipSpace input) = members? fuel input := by
  cases fuel with
  | zero => rw [members?, members?]
  | succ fuel => rw [members?, members?, skipSpace_skipSpace]

theorem value?_blanks {blanks : List Char} (h : Blanks blanks) (fuel : Nat) (input : Input) :
    value? fuel (marks blanks ++ input) = value? fuel input := by
  rw [← value?_skipSpace, skipSpace_blanks h, value?_skipSpace]

/-! ## The rules -/

mutual

/-- A text that stands for a value, with nothing around it. -/
inductive Spells : List Char → Json → Prop
  | null : Spells "null".toList .null
  | yes : Spells "true".toList (.bool true)
  | no : Spells "false".toList (.bool false)
  | number {s : List Char} (number : IsNumber s) : Spells s (.number (String.ofList s))
  | string {s t : List Char} (text : SpellsText s t) :
      Spells ('\x22' :: (s ++ ['\x22'])) (.string (some (String.ofList t)))
  | emptyArray {b : List Char} (blanks : Blanks b) : Spells ('[' :: (b ++ [']'])) (.array [])
  | array {s : List Char} {vs : List Json} (items : SpellsItems s vs) :
      Spells ('[' :: (s ++ [']'])) (.array vs)
  | emptyObject {b : List Char} (blanks : Blanks b) :
      Spells ('\x7b' :: (b ++ ['\x7d'])) (.object [])
  | object {s : List Char} {ms : List (Option String × Json)} (members : SpellsMembers s ms) :
      Spells ('\x7b' :: (s ++ ['\x7d'])) (.object ms)

/-- A value with blanks around it. -/
inductive SpellsPadded : List Char → Json → Prop
  | intro {a s b : List Char} {v : Json} (before : Blanks a) (value : Spells s v)
      (behind : Blanks b) : SpellsPadded (a ++ (s ++ b)) v

/-- The items of an array, with commas between them. -/
inductive SpellsItems : List Char → List Json → Prop
  | one {s : List Char} {v : Json} (value : SpellsPadded s v) : SpellsItems s [v]
  | more {s r : List Char} {v : Json} {vs : List Json} (value : SpellsPadded s v)
      (rest : SpellsItems r vs) : SpellsItems (s ++ ',' :: r) (v :: vs)

/-- A member of an object: a key, a colon and a value. -/
inductive SpellsMember : List Char → Option String × Json → Prop
  | intro {a k t b s : List Char} {v : Json} (before : Blanks a) (key : SpellsText k t)
      (between : Blanks b) (value : SpellsPadded s v) :
      SpellsMember (a ++ '\x22' :: (k ++ '\x22' :: (b ++ ':' :: s))) (some (String.ofList t), v)

/-- The members of an object, with commas between them. -/
inductive SpellsMembers : List Char → List (Option String × Json) → Prop
  | one {s : List Char} {m : Option String × Json} (member : SpellsMember s m) :
      SpellsMembers s [m]
  | more {s r : List Char} {m : Option String × Json} {ms : List (Option String × Json)}
      (member : SpellsMember s m) (rest : SpellsMembers r ms) :
      SpellsMembers (s ++ ',' :: r) (m :: ms)

end

/-- Values all of whose strings have texts. -/
inductive Texted : Json → Prop
  | null : Texted .null
  | bool (value : Bool) : Texted (.bool value)
  | number (spelling : String) : Texted (.number spelling)
  | string (text : String) : Texted (.string (some text))
  | array {items : List Json} (each : ∀ v ∈ items, Texted v) : Texted (.array items)
  | object {members : List (Option String × Json)} (keys : ∀ m ∈ members, m.1.isSome)
      (each : ∀ m ∈ members, Texted m.2) : Texted (.object members)

/-! ## What is read is spelled -/

theorem afterWord?_sound {word text : List Char} {rest : Input}
    (read : afterWord? word (marks text) = some rest) :
    ∃ r, text = word ++ r ∧ rest = marks r := by
  induction word generalizing text with
  | nil =>
      cases read
      exact ⟨text, rfl, rfl⟩
  | cons c word ih =>
      cases text with
      | nil => cases read
      | cons d text =>
          rw [marks_cons, afterWord?, Option.ite_none_right_eq_some] at read
          obtain ⟨rfl, read⟩ := read
          obtain ⟨r, rfl, behind⟩ := ih read
          exact ⟨r, rfl, behind⟩

/-- What is left of a word that stands for a value. -/
theorem map_afterWord?_sound {word text : List Char} {v w : Json} {rest : Input}
    (read : (afterWord? word (marks text)).map (fun rest => (v, rest)) = some (w, rest)) :
    ∃ r, text = word ++ r ∧ w = v ∧ rest = marks r := by
  obtain ⟨left, found, same⟩ := Option.map_eq_some_iff.mp read
  cases same
  obtain ⟨r, split, behind⟩ := afterWord?_sound found
  exact ⟨r, split, rfl, behind⟩

/-- What the reader takes from a text at a number of steps is spelled there: a value with the
blanks around it, or items or members up to the closing bracket. -/
structure Sound (fuel : Nat) : Prop where
  value : ∀ text v rest, value? fuel (marks text) = some (v, rest) → Texted v →
    ∃ s r, text = s ++ r ∧ SpellsPadded s v ∧ skipSpace rest = marks r
  items : ∀ text vs rest, items? fuel (marks text) = some (vs, rest) → (∀ v ∈ vs, Texted v) →
    ∃ s r, text = s ++ ']' :: r ∧ SpellsItems s vs ∧ rest = marks r
  members : ∀ text ms rest, members? fuel (marks text) = some (ms, rest) →
    (∀ m ∈ ms, m.1.isSome) → (∀ m ∈ ms, Texted m.2) →
    ∃ s r, text = s ++ '\x7d' :: r ∧ SpellsMembers s ms ∧ rest = marks r

variable {fuel : Nat} {text : List Char} {v : Json} {rest : Input}

/-- A value that no blanks stand in front of. -/
theorem Sound.bare (sound : Sound fuel) (starts : skipSpace (marks text) = marks text)
    (read : value? (fuel + 1) (marks text) = some (v, rest)) (texted : Texted v) :
    ∃ s r, text = s ++ r ∧ Spells s v ∧ rest = marks r := by
  rw [value?, starts] at read
  split at read
  · rename_i inside quote
    obtain ⟨cs, rfl, rfl⟩ := marks_eq_some_cons_iff.mp quote
    obtain ⟨⟨t, left⟩, found, same⟩ := Option.map_eq_some_iff.mp read
    cases same
    cases texted with
    | string t =>
        obtain ⟨s, r, rfl, behind, spells⟩ := literal?_eq_some_iff.mp found
        have spelled := Spells.string spells
        rw [String.ofList_toList] at spelled
        exact ⟨_, r, by simp, spelled, behind⟩
  · rename_i inside bracket
    obtain ⟨cs, rfl, rfl⟩ := marks_eq_some_cons_iff.mp bracket
    split at read
    · rename_i behind closed
      cases read
      obtain ⟨b, r, rfl, blanks, skipped⟩ := exists_blanks cs
      obtain ⟨r, rfl, rfl⟩ := marks_eq_some_cons_iff.mp (skipped.symm.trans closed)
      exact ⟨'[' :: (b ++ [']']), r, by simp, .emptyArray blanks, rfl⟩
    · obtain ⟨⟨vs, left⟩, found, same⟩ := Option.map_eq_some_iff.mp read
      cases same
      cases texted with
      | array each =>
          rw [items?_skipSpace] at found
          obtain ⟨s, r, rfl, spells, behind⟩ := sound.items cs vs rest found each
          exact ⟨'[' :: (s ++ [']']), r, by simp, .array spells, behind⟩
  · rename_i inside brace
    obtain ⟨cs, rfl, rfl⟩ := marks_eq_some_cons_iff.mp brace
    split at read
    · rename_i behind closed
      cases read
      obtain ⟨b, r, rfl, blanks, skipped⟩ := exists_blanks cs
      obtain ⟨r, rfl, rfl⟩ := marks_eq_some_cons_iff.mp (skipped.symm.trans closed)
      exact ⟨'\x7b' :: (b ++ ['\x7d']), r, by simp, .emptyObject blanks, rfl⟩
    · obtain ⟨⟨ms, left⟩, found, same⟩ := Option.map_eq_some_iff.mp read
      cases same
      cases texted with
      | object keys each =>
          rw [members?_skipSpace] at found
          obtain ⟨s, r, rfl, spells, behind⟩ := sound.members cs ms rest found keys each
          exact ⟨'\x7b' :: (s ++ ['\x7d']), r, by simp, .object spells, behind⟩
  · rename_i inside letter
    obtain ⟨cs, rfl, rfl⟩ := marks_eq_some_cons_iff.mp letter
    obtain ⟨r, rfl, rfl, behind⟩ := map_afterWord?_sound read
    exact ⟨_, r, rfl, .null, behind⟩
  · rename_i inside letter
    obtain ⟨cs, rfl, rfl⟩ := marks_eq_some_cons_iff.mp letter
    obtain ⟨r, rfl, rfl, behind⟩ := map_afterWord?_sound read
    exact ⟨_, r, rfl, .yes, behind⟩
  · rename_i inside letter
    obtain ⟨cs, rfl, rfl⟩ := marks_eq_some_cons_iff.mp letter
    obtain ⟨r, rfl, rfl, behind⟩ := map_afterWord?_sound read
    exact ⟨_, r, rfl, .no, behind⟩
  · obtain ⟨⟨spelling, left⟩, found, same⟩ := Option.map_eq_some_iff.mp read
    cases same
    obtain ⟨s, split, rfl, isNumber⟩ := number?_sound found
    obtain ⟨r, rfl, behind⟩ := marks_eq_append_iff.mp split
    exact ⟨s, r, rfl, .number isNumber, behind⟩

/-- Blanks in front of a value and behind it are passed over. -/
theorem Sound.padded (sound : Sound fuel)
    (read : value? (fuel + 1) (marks text) = some (v, rest)) (texted : Texted v) :
    ∃ s r, text = s ++ r ∧ SpellsPadded s v ∧ skipSpace rest = marks r := by
  obtain ⟨a, inside, rfl, before, skipped⟩ := exists_blanks text
  rw [← value?_skipSpace, skipped] at read
  have starts : skipSpace (marks inside) = marks inside := by
    rw [← skipped, skipSpace_skipSpace]
  obtain ⟨s, left, rfl, spells, rfl⟩ := sound.bare starts read texted
  obtain ⟨b, r, rfl, behind, skipped⟩ := exists_blanks left
  exact ⟨a ++ (s ++ b), r, by simp, .intro before spells behind, skipped⟩

theorem Sound.item {vs : List Json} (sound : Sound fuel)
    (read : items? (fuel + 1) (marks text) = some (vs, rest)) (texted : ∀ v ∈ vs, Texted v) :
    ∃ s r, text = s ++ ']' :: r ∧ SpellsItems s vs ∧ rest = marks r := by
  rw [items?] at read
  split at read
  · cases read
  · rename_i v left found
    split at read
    · rename_i more comma
      obtain ⟨⟨ws, left⟩, onward, same⟩ := Option.map_eq_some_iff.mp read
      cases same
      obtain ⟨s, r, rfl, spells, skipped⟩ :=
        sound.value text v _ found (texted v List.mem_cons_self)
      obtain ⟨r, rfl, rfl⟩ := marks_eq_some_cons_iff.mp (skipped.symm.trans comma)
      obtain ⟨s', r, rfl, items, behind⟩ :=
        sound.items r ws rest onward fun w member => texted w (List.mem_cons_of_mem v member)
      exact ⟨s ++ ',' :: s', r, by simp, .more spells items, behind⟩
    · rename_i more closed
      cases read
      obtain ⟨s, r, rfl, spells, skipped⟩ :=
        sound.value text v _ found (texted v List.mem_cons_self)
      obtain ⟨r, rfl, rfl⟩ := marks_eq_some_cons_iff.mp (skipped.symm.trans closed)
      exact ⟨s, r, rfl, .one spells, rfl⟩
    · cases read

/-- One member, whatever it is that comes behind its value. -/
theorem Sound.member (sound : Sound fuel) {inside left after : Input} {key : Option String}
    (quote : skipSpace (marks text) = some '\x22' :: inside)
    (literal : literal? inside = some (key, left)) (colon : skipSpace left = some ':' :: after)
    (value : value? fuel after = some (v, rest)) (named : key.isSome) (texted : Texted v) :
    ∃ s r, text = s ++ r ∧ SpellsMember s (key, v) ∧ skipSpace rest = marks r := by
  obtain ⟨t, rfl⟩ := Option.isSome_iff_exists.mp named
  obtain ⟨a, r, rfl, before, skipped⟩ := exists_blanks text
  obtain ⟨r, rfl, rfl⟩ := marks_eq_some_cons_iff.mp (skipped.symm.trans quote)
  obtain ⟨k, r, rfl, rfl, spells⟩ := literal?_eq_some_iff.mp literal
  obtain ⟨b, r, rfl, between, skipped⟩ := exists_blanks r
  obtain ⟨r, rfl, rfl⟩ := marks_eq_some_cons_iff.mp (skipped.symm.trans colon)
  obtain ⟨s, r, rfl, padded, behind⟩ := sound.value r v rest value texted
  have member := SpellsMember.intro before spells between padded
  rw [String.ofList_toList] at member
  exact ⟨_, r, by simp, member, behind⟩

theorem Sound.memberList {ms : List (Option String × Json)} (sound : Sound fuel)
    (read : members? (fuel + 1) (marks text) = some (ms, rest)) (named : ∀ m ∈ ms, m.1.isSome)
    (texted : ∀ m ∈ ms, Texted m.2) :
    ∃ s r, text = s ++ '\x7d' :: r ∧ SpellsMembers s ms ∧ rest = marks r := by
  rw [members?] at read
  split at read
  · rename_i inside quote
    split at read
    · cases read
    · rename_i key left literal
      split at read
      · rename_i after colon
        split at read
        · cases read
        · rename_i v left value
          split at read
          · rename_i more comma
            obtain ⟨⟨ns, left⟩, onward, same⟩ := Option.map_eq_some_iff.mp read
            cases same
            obtain ⟨s, r, rfl, member, skipped⟩ := sound.member quote literal colon value
              (named _ List.mem_cons_self) (texted _ List.mem_cons_self)
            obtain ⟨r, rfl, rfl⟩ := marks_eq_some_cons_iff.mp (skipped.symm.trans comma)
            obtain ⟨s', r, rfl, members, behind⟩ := sound.members r ns rest onward
              (fun n inside => named n (List.mem_cons_of_mem _ inside))
              (fun n inside => texted n (List.mem_cons_of_mem _ inside))
            exact ⟨s ++ ',' :: s', r, by simp, .more member members, behind⟩
          · rename_i more closed
            cases read
            obtain ⟨s, r, rfl, member, skipped⟩ := sound.member quote literal colon value
              (named _ List.mem_cons_self) (texted _ List.mem_cons_self)
            obtain ⟨r, rfl, rfl⟩ := marks_eq_some_cons_iff.mp (skipped.symm.trans closed)
            exact ⟨s, r, rfl, .one member, rfl⟩
          · cases read
      · cases read
  · cases read

theorem sound (fuel : Nat) : Sound fuel := by
  induction fuel with
  | zero =>
      constructor
      case value => intro text v rest read; rw [value?] at read; cases read
      case items => intro text vs rest read; rw [items?] at read; cases read
      case members => intro text ms rest read; rw [members?] at read; cases read
  | succ fuel ih =>
      constructor
      case value => exact fun _ _ _ => ih.padded
      case items => exact fun _ _ _ => ih.item
      case members => exact fun _ _ _ => ih.memberList

/-! ## What is spelled is read -/

theorem beginsNot_blanks {blanks : List Char} (h : Blanks blanks) {more : Input}
    (ends : BeginsNot continuesNumber more) : BeginsNot continuesNumber (marks blanks ++ more) := by
  cases blanks with
  | nil => exact ends
  | cons c blanks =>
      have space := h c List.mem_cons_self
      rw [marks_cons, List.cons_append, beginsNot_cons]
      simp only [isSpace, Bool.or_eq_true, beq_iff_eq, Option.some.injEq] at space
      obtain ((rfl | rfl) | rfl) | rfl := space
      all_goals rfl

theorem IsNumber.exists_head {s : List Char} (h : IsNumber s) :
    ∃ c r, s = c :: r ∧ (c = '-' ∨ c.isDigit = true) := by
  obtain ⟨sign, whole, fraction, exponent, rfl, signs, isWhole, -, -⟩ := h
  obtain ⟨d, ds, rfl, digit⟩ := isWhole.exists_digit
  rcases signs with rfl | rfl
  · exact ⟨d, _, rfl, .inr digit⟩
  · exact ⟨'-', _, rfl, .inl rfl⟩

/-- What stands for a value begins with a character that is no blank and closes nothing. -/
theorem Spells.exists_head {s : List Char} (h : Spells s v) :
    ∃ c r, s = c :: r ∧ isSpace (some c) = false ∧ c ≠ ']' := by
  cases h with
  | null => exact ⟨'n', _, rfl, by decide, by decide⟩
  | yes => exact ⟨'t', _, rfl, by decide, by decide⟩
  | no => exact ⟨'f', _, rfl, by decide, by decide⟩
  | string => exact ⟨'\x22', _, rfl, by decide, by decide⟩
  | emptyArray => exact ⟨'[', _, rfl, by decide, by decide⟩
  | array => exact ⟨'[', _, rfl, by decide, by decide⟩
  | emptyObject => exact ⟨'\x7b', _, rfl, by decide, by decide⟩
  | object => exact ⟨'\x7b', _, rfl, by decide, by decide⟩
  | number isNumber =>
      obtain ⟨c, r, rfl, starts⟩ := isNumber.exists_head
      refine ⟨c, r, rfl, ?_, ?_⟩
      · by_contra space
        simp only [isSpace, Bool.not_eq_false, Bool.or_eq_true, beq_iff_eq,
          Option.some.injEq] at space
        obtain ((rfl | rfl) | rfl) | rfl := space
        all_goals simp at starts
      · rintro rfl
        simp at starts

theorem value?_number {s : List Char} (h : IsNumber s) {more : Input}
    (ends : BeginsNot continuesNumber more) (fuel : Nat) :
    value? (fuel + 1) (marks s ++ more) = some (.number (String.ofList s), more) := by
  obtain ⟨c, r, rfl, starts⟩ := h.exists_head
  obtain ⟨_, _, same, noSpace, -⟩ := (Spells.number h).exists_head
  cases same
  have read := number?_complete h ends
  rw [marks_cons, List.cons_append] at read ⊢
  rw [value?, skipSpace_cons noSpace]
  split
  case h_7 => rw [read, Option.map_some]
  -- No number begins with the first character of another value.
  all_goals
    rename_i same
    cases same
    simp at starts

theorem opened_of_start {input more : Input} {c d : Char} (start : skipSpace input = some c :: more)
    (opens : c ≠ d) : ∀ more, skipSpace input ≠ some d :: more := by
  intro more closed
  cases start.symm.trans closed
  exact opens rfl

theorem value?_emptyArray {rest behind : Input} (closed : skipSpace rest = some ']' :: behind)
    (fuel : Nat) : value? (fuel + 1) (some '[' :: rest) = some (.array [], behind) := by
  rw [value?, skipSpace_cons (by decide)]
  simp only [closed]

theorem value?_emptyObject {rest behind : Input}
    (closed : skipSpace rest = some '\x7d' :: behind) (fuel : Nat) :
    value? (fuel + 1) (some '\x7b' :: rest) = some (.object [], behind) := by
  rw [value?, skipSpace_cons (by decide)]
  simp only [closed]

/-- Reading an array goes on to its items unless the bracket is closed at once. -/
theorem value?_array {rest : Input} (opened : ∀ more, skipSpace rest ≠ some ']' :: more)
    (fuel : Nat) :
    value? (fuel + 1) (some '[' :: rest) =
      (items? fuel rest).map fun (items, rest) => (.array items, rest) := by
  -- The rule for a bracket that is closed at once is excluded by `opened`.
  rw [value?, ← items?_skipSpace fuel rest]
  simp only [skipSpace_cons (c := '[') (by decide)]

theorem value?_object {rest : Input} (opened : ∀ more, skipSpace rest ≠ some '\x7d' :: more)
    (fuel : Nat) :
    value? (fuel + 1) (some '\x7b' :: rest) =
      (members? fuel rest).map fun (members, rest) => (.object members, rest) := by
  rw [value?, ← members?_skipSpace fuel rest]
  simp only [skipSpace_cons (c := '\x7b') (by decide)]

/-- What is spelled is read at a number of steps, with what stands behind it left. -/
structure Complete (fuel : Nat) : Prop where
  value : ∀ s v more, Spells s v → 2 * s.length ≤ fuel → BeginsNot continuesNumber more →
    value? fuel (marks s ++ more) = some (v, more)
  items : ∀ s vs more, SpellsItems s vs → 2 * s.length < fuel →
    items? fuel (marks s ++ some ']' :: more) = some (vs, more)
  members : ∀ s ms more, SpellsMembers s ms → 2 * s.length < fuel →
    members? fuel (marks s ++ some '\x7d' :: more) = some (ms, more)

section Complete

variable {s : List Char} {more : Input}

/-- The blanks behind a value are left to whatever comes next. -/
theorem Complete.padded (complete : Complete fuel) (spells : SpellsPadded s v)
    (enough : 2 * s.length ≤ fuel) (ends : BeginsNot continuesNumber more) :
    ∃ left, value? fuel (marks s ++ more) = some (v, left) ∧ skipSpace left = skipSpace more := by
  cases spells with
  | @intro a s b _ before value behind =>
      simp only [List.length_append] at enough
      refine ⟨marks b ++ more, ?_, skipSpace_blanks behind more⟩
      rw [marks_append, List.append_assoc, value?_blanks before, marks_append, List.append_assoc]
      exact complete.value s v _ value (by omega) (beginsNot_blanks behind ends)

theorem SpellsPadded.exists_head (h : SpellsPadded s v) (more : Input) :
    ∃ c r, skipSpace (marks s ++ more) = some c :: r ∧ c ≠ ']' := by
  cases h with
  | intro before value behind =>
      obtain ⟨c, r, rfl, noSpace, opens⟩ := value.exists_head
      rw [marks_append, List.append_assoc, skipSpace_blanks before]
      exact ⟨c, _, skipSpace_cons noSpace _, opens⟩

theorem SpellsItems.exists_head {vs : List Json} (h : SpellsItems s vs) (more : Input) :
    ∃ c r, skipSpace (marks s ++ more) = some c :: r ∧ c ≠ ']' := by
  cases h with
  | one value => exact value.exists_head more
  | more value rest =>
      rw [marks_append, List.append_assoc]
      exact value.exists_head _

theorem SpellsMember.exists_head {m : Option String × Json} (h : SpellsMember s m) (more : Input) :
    ∃ r, skipSpace (marks s ++ more) = some '\x22' :: r := by
  cases h with
  | intro before key between value =>
      rw [marks_append, List.append_assoc, skipSpace_blanks before]
      exact ⟨_, skipSpace_cons (by decide) _⟩

theorem SpellsMembers.exists_head {ms : List (Option String × Json)} (h : SpellsMembers s ms)
    (more : Input) : ∃ r, skipSpace (marks s ++ more) = some '\x22' :: r := by
  cases h with
  | one member => exact member.exists_head more
  | more member rest =>
      rw [marks_append, List.append_assoc]
      exact member.exists_head _

theorem Complete.bare (complete : Complete fuel) (spells : Spells s v)
    (enough : 2 * s.length ≤ fuel + 1) (ends : BeginsNot continuesNumber more) :
    value? (fuel + 1) (marks s ++ more) = some (v, more) := by
  cases spells with
  | null => rw [value?]; rfl
  | yes => rw [value?]; rfl
  | no => rw [value?]; rfl
  | number isNumber => exact value?_number isNumber ends fuel
  | string text =>
      have read := literal?_of_spellsText text more
      rw [marks_cons, List.cons_append, value?, skipSpace_cons (by decide)]
      simp [read]
  | @emptyArray b blanks =>
      have input : marks ('[' :: (b ++ [']'])) ++ more =
          some '[' :: (marks b ++ some ']' :: more) := by simp
      have closed := skipSpace_blanks_cons blanks (c := ']') (by decide) more
      rw [input, value?_emptyArray closed]
  | @emptyObject b blanks =>
      have input : marks ('\x7b' :: (b ++ ['\x7d'])) ++ more =
          some '\x7b' :: (marks b ++ some '\x7d' :: more) := by simp
      have closed := skipSpace_blanks_cons blanks (c := '\x7d') (by decide) more
      rw [input, value?_emptyObject closed]
  | @array s vs items =>
      -- The brackets pay for the step from the array to its items.
      simp only [List.length_cons, List.length_append, List.length_nil] at enough
      have read := complete.items s vs more items (by omega)
      obtain ⟨c, r, start, opens⟩ := items.exists_head (some ']' :: more)
      have input : marks ('[' :: (s ++ [']'])) ++ more =
          some '[' :: (marks s ++ some ']' :: more) := by simp
      rw [input, value?_array (opened_of_start start opens), read, Option.map_some]
  | @object s ms members =>
      simp only [List.length_cons, List.length_append, List.length_nil] at enough
      have read := complete.members s ms more members (by omega)
      obtain ⟨r, start⟩ := members.exists_head (some '\x7d' :: more)
      have input : marks ('\x7b' :: (s ++ ['\x7d'])) ++ more =
          some '\x7b' :: (marks s ++ some '\x7d' :: more) := by simp
      rw [input, value?_object (opened_of_start start (by decide)), read, Option.map_some]

theorem Complete.item {vs : List Json} (complete : Complete fuel) (spells : SpellsItems s vs)
    (enough : 2 * s.length < fuel + 1) :
    items? (fuel + 1) (marks s ++ some ']' :: more) = some (vs, more) := by
  cases spells with
  | one value =>
      have ends : BeginsNot continuesNumber (some ']' :: more) := beginsNot_cons.mpr rfl
      obtain ⟨left, read, behind⟩ := complete.padded value (by omega) ends
      rw [items?, read]
      simp only [behind, skipSpace_cons (c := ']') (by decide)]
  | @more s r v vs value rest =>
      simp only [List.length_append, List.length_cons] at enough
      have ends : BeginsNot continuesNumber (some ',' :: (marks r ++ some ']' :: more)) :=
        beginsNot_cons.mpr rfl
      obtain ⟨left, read, behind⟩ := complete.padded value (by omega) ends
      have onward := complete.items r vs more rest (by omega)
      rw [marks_append, List.append_assoc, marks_cons, List.cons_append, items?, read]
      simp only [behind, skipSpace_cons (c := ',') (by decide), onward, Option.map_some]

/-- A member is read up to what stands behind its value, which says whether more come. -/
theorem Complete.member {m : Option String × Json} (complete : Complete fuel)
    (spells : SpellsMember s m) (enough : 2 * s.length ≤ fuel)
    (ends : BeginsNot continuesNumber more) {rest : Input} :
    (skipSpace more = some ',' :: rest → members? (fuel + 1) (marks s ++ more) =
      (members? fuel rest).map fun (ms, rest) => (m :: ms, rest)) ∧
    (skipSpace more = some '\x7d' :: rest →
      members? (fuel + 1) (marks s ++ more) = some ([m], rest)) := by
  cases spells with
  | @intro a k t b s v before key between value =>
      simp only [List.length_append, List.length_cons] at enough
      obtain ⟨left, read, behind⟩ := complete.padded value (by omega) ends
      have literal := literal?_of_spellsText key (marks b ++ some ':' :: (marks s ++ more))
      have colon : skipSpace (marks b ++ some ':' :: (marks s ++ more)) =
          some ':' :: (marks s ++ more) := skipSpace_blanks_cons between (by decide) _
      have input : marks (a ++ '\x22' :: (k ++ '\x22' :: (b ++ ':' :: s))) ++ more =
          marks a ++ some '\x22' ::
            (marks k ++ some '\x22' :: (marks b ++ some ':' :: (marks s ++ more))) := by
        simp
      rw [input, members?, skipSpace_blanks_cons before (by decide)]
      simp only [literal, colon, read, behind]
      constructor
      · intro onward
        simp only [onward]
      · intro done
        simp only [done]

theorem Complete.memberList {ms : List (Option String × Json)} (complete : Complete fuel)
    (spells : SpellsMembers s ms) (enough : 2 * s.length < fuel + 1) :
    members? (fuel + 1) (marks s ++ some '\x7d' :: more) = some (ms, more) := by
  cases spells with
  | one member =>
      have ends : BeginsNot continuesNumber (some '\x7d' :: more) := beginsNot_cons.mpr rfl
      exact (complete.member member (by omega) ends).2 (skipSpace_cons (by decide) more)
  | @more s r m ms member rest =>
      simp only [List.length_append, List.length_cons] at enough
      have ends : BeginsNot continuesNumber (some ',' :: (marks r ++ some '\x7d' :: more)) :=
        beginsNot_cons.mpr rfl
      have onward := complete.members r ms more rest (by omega)
      rw [marks_append, List.append_assoc, marks_cons, List.cons_append,
        (complete.member member (by omega) ends).1 (skipSpace_cons (by decide) _), onward,
        Option.map_some]

end Complete

theorem complete (fuel : Nat) : Complete fuel := by
  induction fuel with
  | zero =>
      constructor
      case value =>
          intro s v more spells enough
          obtain ⟨c, r, rfl, -, -⟩ := spells.exists_head
          simp at enough
      case items => intro s vs more _ enough; omega
      case members => intro s ms more _ enough; omega
  | succ fuel ih =>
      constructor
      case value => exact fun _ _ _ => ih.bare
      case items => exact fun _ _ _ => ih.item
      case members => exact fun _ _ _ => ih.memberList

mutual

/-- What stands for a value has texts in all of its strings. -/
theorem Spells.texted {s : List Char} {v : Json} : Spells s v → Texted v
  | .null => .null
  | .yes => .bool true
  | .no => .bool false
  | .number _ => .number _
  | .string _ => .string _
  | .emptyArray _ => .array nofun
  | .array items => .array items.texted
  | .emptyObject _ => .object nofun nofun
  | .object members => .object (fun m inside => (members.texted m inside).1)
      fun m inside => (members.texted m inside).2

theorem SpellsPadded.texted {s : List Char} {v : Json} : SpellsPadded s v → Texted v
  | .intro _ value _ => value.texted

theorem SpellsItems.texted {s : List Char} {vs : List Json} :
    SpellsItems s vs → ∀ v ∈ vs, Texted v
  | .one value => List.forall_mem_singleton.mpr value.texted
  | .more value rest => List.forall_mem_cons.mpr ⟨value.texted, rest.texted⟩

theorem SpellsMember.texted {s : List Char} {m : Option String × Json} :
    SpellsMember s m → m.1.isSome ∧ Texted m.2
  | .intro _ _ _ value => ⟨rfl, value.texted⟩

theorem SpellsMembers.texted {s : List Char} {ms : List (Option String × Json)} :
    SpellsMembers s ms → ∀ m ∈ ms, m.1.isSome ∧ Texted m.2
  | .one member => List.forall_mem_singleton.mpr member.texted
  | .more member rest => List.forall_mem_cons.mpr ⟨member.texted, rest.texted⟩

end

/-! ## Documents -/

/-- One document is read where a value is spelled, and nothing else is read as one. -/
theorem read?_marks_iff {text : List Char} {v : Json} :
    read? (marks text) = some v ∧ Texted v ↔ SpellsPadded text v := by
  constructor
  · rintro ⟨read, texted⟩
    unfold read? at read
    split at read
    · cases read
    · rename_i w rest found
      rw [Option.ite_none_right_eq_some] at read
      obtain ⟨nothing, same⟩ := read
      cases same
      obtain ⟨s, r, rfl, spells, behind⟩ := (sound _).value text v rest found texted
      have last : r = [] := List.map_eq_nil_iff.mp (behind.symm.trans nothing)
      rw [last, List.append_nil]
      exact spells
  · intro spells
    have ends : BeginsNot continuesNumber [] := nofun
    have enough : 2 * text.length ≤ fuelFor (marks text) := by
      rw [fuelFor, marks, List.length_map]
      omega
    obtain ⟨left, found, behind⟩ := (complete _).padded spells enough ends
    rw [List.append_nil] at found
    constructor
    · rw [read?, found]
      exact if_pos behind
    · exact spells.texted

/-- One document is read where a value is spelled, and nothing else is read as one. -/
theorem ofText?_iff_spellsPadded {text : String} {v : Json} :
    ofText? text = some v ∧ Texted v ↔ SpellsPadded text.toList v :=
  read?_marks_iff

end ApiInventory.Json
