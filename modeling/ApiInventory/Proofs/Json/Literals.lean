import ApiInventory.Json.Reader
import Mathlib.Tactic.IntervalCases

/-!
# String literals and numbers

What may stand between the quotes of a string literal, and for which text, is said by
`SpellsText`: characters that stand for themselves, letters that stand for others behind a
backslash, and code units in hexadecimal, of which the two of a surrogate pair belong together.
`IsNumber` says what a number looks like. The reader takes these and nothing else
(`literal?_eq_some_iff`, `number?_sound` and `number?_complete`).

A number ends only where something else begins, so that it is complete with what stands behind it
in mind.
-/

namespace ApiInventory.Json

/-- Characters that are not ill-formed. -/
def marks (text : List Char) : Input := text.map some

@[simp] theorem marks_nil : marks [] = [] := rfl

@[simp] theorem marks_cons (c : Char) (text : List Char) :
    marks (c :: text) = some c :: marks text := rfl

@[simp] theorem marks_append (a b : List Char) : marks (a ++ b) = marks a ++ marks b :=
  List.map_append

theorem marks_eq_cons_iff {text : List Char} {mark : Option Char} {rest : Input} :
    marks text = mark :: rest ↔ ∃ c cs, text = c :: cs ∧ mark = some c ∧ rest = marks cs := by
  rw [marks, List.map_eq_cons_iff]
  simp only [marks, eq_comm]

theorem marks_eq_some_cons_iff {text : List Char} {c : Char} {rest : Input} :
    marks text = some c :: rest ↔ ∃ cs, text = c :: cs ∧ rest = marks cs := by
  rw [marks_eq_cons_iff]
  simp only [Option.some.injEq]
  constructor
  · rintro ⟨d, cs, rfl, rfl, rfl⟩
    exact ⟨cs, rfl, rfl⟩
  · rintro ⟨cs, rfl, rfl⟩
    exact ⟨c, cs, rfl, rfl, rfl⟩

theorem marks_eq_append_iff {text front : List Char} {rest : Input} :
    marks text = marks front ++ rest ↔ ∃ r, text = front ++ r ∧ rest = marks r := by
  induction front generalizing text with
  | nil => simp [eq_comm]
  | cons c front ih =>
      rw [marks_cons, List.cons_append, marks_eq_some_cons_iff]
      constructor
      · rintro ⟨cs, rfl, same⟩
        obtain ⟨r, rfl, behind⟩ := ih.mp same.symm
        exact ⟨r, rfl, behind⟩
      · rintro ⟨r, rfl, behind⟩
        exact ⟨front ++ r, rfl, (ih.mpr ⟨r, rfl, behind⟩).symm⟩

/-! ## Code units -/

/-- A hexadecimal digit, in lower or upper case. -/
def IsHexDigit (c : Char) (n : Nat) : Prop :=
  "0123456789abcdef".toList[n]? = some c ∨ "0123456789ABCDEF".toList[n]? = some c

instance (c : Char) (n : Nat) : Decidable (IsHexDigit c n) :=
  inferInstanceAs (Decidable (_ ∨ _))

theorem toNat_lt_of_hexValue {c : Char} {n : Nat} (h : hexValue c = some n) : c.toNat < 128 := by
  have digit : '9'.val.toNat = 57 := rfl
  have lower : 'f'.val.toNat = 102 := rfl
  have upper : 'F'.val.toNat = 70 := rfl
  simp only [hexValue, Char.isDigit, Char.le_def, Bool.and_eq_true, decide_eq_true_eq,
    UInt32.le_iff_toNat_le] at h
  have value : c.toNat = c.val.toNat := rfl
  split_ifs at h
  all_goals omega

theorem hexValue_eq_some_iff {c : Char} {n : Nat} : hexValue c = some n ↔ IsHexDigit c n := by
  constructor
  · intro digit
    have table : ∀ k < 128, ∀ m ∈ hexValue (Char.ofNat k), IsHexDigit (Char.ofNat k) m := by
      decide +kernel
    have found := table c.toNat (toNat_lt_of_hexValue digit) n
    rw [Char.ofNat_toNat] at found
    exact found digit
  · intro digit
    have few : n < 16 := by
      rcases digit with lower | upper
      · simpa using (List.getElem?_eq_some_iff.mp lower).1
      · simpa using (List.getElem?_eq_some_iff.mp upper).1
    interval_cases n
    all_goals
      rcases digit with lower | upper
      · obtain rfl := Option.some.inj lower
        decide
      · obtain rfl := Option.some.inj upper
        decide

/-- Four hexadecimal digits. -/
inductive IsUnit : List Char → Nat → Prop
  | intro {a b c d : Char} {w x y z : Nat} (first : IsHexDigit a w) (second : IsHexDigit b x)
      (third : IsHexDigit c y) (fourth : IsHexDigit d z) :
      IsUnit [a, b, c, d] (((w * 16 + x) * 16 + y) * 16 + z)

theorem unit?_eq_some_iff {a b c d : Char} {u : Nat} {rest : Input} :
    unit? [some a, some b, some c, some d] = some (u, rest) ↔
      IsUnit [a, b, c, d] u ∧ rest = [] := by
  constructor
  · intro read
    simp only [unit?] at read
    split at read
    · rename_i w x y z first second third fourth
      cases read
      exact ⟨.intro (hexValue_eq_some_iff.mp first) (hexValue_eq_some_iff.mp second)
        (hexValue_eq_some_iff.mp third) (hexValue_eq_some_iff.mp fourth), rfl⟩
    · cases read
  · rintro ⟨⟨first, second, third, fourth⟩, rfl⟩
    simp only [unit?, hexValue_eq_some_iff.mpr first, hexValue_eq_some_iff.mpr second,
      hexValue_eq_some_iff.mpr third, hexValue_eq_some_iff.mpr fourth]

/-! ## What a string literal spells -/

/-- The letters that may stand behind a backslash, with what they stand for. -/
def shortEscapes : List (Char × Char) :=
  [('\x22', '\x22'), ('\\', '\\'), ('/', '/'), ('b', '\x08'), ('f', '\x0c'), ('n', '\n'),
    ('r', '\r'), ('t', '\t')]

theorem simpleEscape_eq_some_iff {e c : Char} :
    simpleEscape e = some c ↔ (e, c) ∈ shortEscapes := by
  constructor
  · intro escape
    unfold simpleEscape at escape
    split at escape
    all_goals cases escape <;> decide
  · intro member
    have table : ∀ pair ∈ shortEscapes, simpleEscape pair.1 = some pair.2 := by decide
    exact table (e, c) member

/-- The first code unit of a surrogate pair. -/
def IsHigh (u : Nat) : Prop := 0xd800 ≤ u ∧ u ≤ 0xdbff

/-- The second code unit of a surrogate pair. -/
def IsLow (u : Nat) : Prop := 0xdc00 ≤ u ∧ u ≤ 0xdfff

/-- How one character may be spelled inside a string literal. -/
inductive SpellsChar : List Char → Char → Prop
  | plain {c : Char} (noQuote : c ≠ '\x22') (noBackslash : c ≠ '\\') (noControl : 0x20 ≤ c.toNat) :
      SpellsChar [c] c
  | short {e c : Char} (escape : (e, c) ∈ shortEscapes) : SpellsChar ['\\', e] c
  | unit {digits : List Char} {u : Nat} (named : IsUnit digits u) (whole : ¬IsHigh u ∧ ¬IsLow u) :
      SpellsChar ('\\' :: 'u' :: digits) (Char.ofNat u)
  | pair {digits digits' : List Char} {u v : Nat} (first : IsUnit digits u) (high : IsHigh u)
      (second : IsUnit digits' v) (low : IsLow v) :
      SpellsChar ('\\' :: 'u' :: (digits ++ '\\' :: 'u' :: digits'))
        (Char.ofNat (0x10000 + (u - 0xd800) * 0x400 + (v - 0xdc00)))

/-- What may stand between the quotes of a string literal for a text. -/
inductive SpellsText : List Char → List Char → Prop
  | nil : SpellsText [] []
  | cons {s r t : List Char} {c : Char} (first : SpellsChar s c) (rest : SpellsText r t) :
      SpellsText (s ++ r) (c :: t)

/-! ## Pieces -/

/-- How one piece of a string literal is written. -/
inductive WritesPiece : List Char → Piece → Prop
  | plain {c : Char} (noQuote : c ≠ '\x22') (noBackslash : c ≠ '\\') (noControl : 0x20 ≤ c.toNat) :
      WritesPiece [c] (.char c)
  | short {e c : Char} (escape : (e, c) ∈ shortEscapes) : WritesPiece ['\\', e] (.char c)
  | unit {digits : List Char} {u : Nat} (named : IsUnit digits u) :
      WritesPiece ('\\' :: 'u' :: digits) (.unit u)

inductive WritesPieces : List Char → List Piece → Prop
  | nil : WritesPieces [] []
  | cons {s r : List Char} {p : Piece} {ps : List Piece} (first : WritesPiece s p)
      (rest : WritesPieces r ps) : WritesPieces (s ++ r) (p :: ps)

theorem pieces?_of_writesPiece {s : List Char} {p : Piece} (h : WritesPiece s p)
    (done : List Piece) (more : Input) :
    pieces? done (marks s ++ more) = pieces? (p :: done) more := by
  cases h with
  | plain noQuote noBackslash noControl =>
      simp [pieces?, noBackslash, Nat.not_lt.mpr noControl]
  | @short e c escape =>
      have noUnit : e ≠ 'u' := by
        rintro rfl
        simp [shortEscapes] at escape
      simp [pieces?, noUnit, simpleEscape_eq_some_iff.mpr escape]
  | unit named =>
      cases named with
      | intro first second third fourth =>
          have read := unit?_eq_some_iff.mpr ⟨IsUnit.intro first second third fourth, rfl⟩
          simp [pieces?, read]

theorem pieces?_of_writesPieces {s : List Char} {ps : List Piece} (h : WritesPieces s ps)
    (done : List Piece) (more : Input) :
    pieces? done (marks s ++ some '\x22' :: more) = some (ps.reverse ++ done, more) := by
  induction h generalizing done with
  | nil => simp [pieces?]
  | cons first _ ih =>
      rw [marks_append, List.append_assoc, pieces?_of_writesPiece first, ih]
      simp

/-- A text begins with pieces and the quote behind them. The pieces come on top of those that were
read before. -/
def Closes (text : List Char) (done ps : List Piece) (rest : Input) : Prop :=
  ∃ s r qs, text = s ++ '\x22' :: r ∧ rest = marks r ∧ ps = qs.reverse ++ done ∧ WritesPieces s qs

theorem Closes.cons {s text : List Char} {p : Piece} {done ps : List Piece} {rest : Input}
    (first : WritesPiece s p) (closes : Closes text (p :: done) ps rest) :
    Closes (s ++ text) done ps rest := by
  obtain ⟨more, r, qs, rfl, behind, rfl, writes⟩ := closes
  exact ⟨s ++ more, r, p :: qs, by simp, behind, by simp, .cons first writes⟩

theorem closes_of_pieces? {text : List Char} {done ps : List Piece} {rest : Input}
    (read : pieces? done (marks text) = some (ps, rest)) : Closes text done ps rest := by
  -- The cases are those of the reader; the ones that give nothing are closed by `read`.
  generalize input : marks text = all at read
  fun_induction pieces? done all generalizing text with
  | case1 => cases read
  | case2 =>
      obtain ⟨c, cs, -, mark, -⟩ := marks_eq_cons_iff.mp input
      cases mark
  | case3 done rest' =>
      obtain ⟨cs, rfl, rfl⟩ := marks_eq_some_cons_iff.mp input
      cases read
      exact ⟨[], cs, [], rfl, rfl, rfl, .nil⟩
  | case4 done a b c d rest' u left unit ih =>
      obtain ⟨s, rfl, slash⟩ := marks_eq_some_cons_iff.mp input
      obtain ⟨s, rfl, letter⟩ := marks_eq_some_cons_iff.mp slash.symm
      obtain ⟨s, rfl, first⟩ := marks_eq_some_cons_iff.mp letter.symm
      obtain ⟨s, rfl, second⟩ := marks_eq_some_cons_iff.mp first.symm
      obtain ⟨s, rfl, third⟩ := marks_eq_some_cons_iff.mp second.symm
      obtain ⟨s, rfl, fourth⟩ := marks_eq_some_cons_iff.mp third.symm
      exact .cons (.unit (unit?_eq_some_iff.mp unit).1) (ih fourth.symm read)
  | case6 done e rest' _ c escape ih =>
      obtain ⟨s, rfl, slash⟩ := marks_eq_some_cons_iff.mp input
      obtain ⟨s, rfl, letter⟩ := marks_eq_some_cons_iff.mp slash.symm
      exact .cons (.short (simpleEscape_eq_some_iff.mp escape)) (ih letter.symm read)
  | case5 | case7 | case8 => cases read
  | case9 done c rest' noQuote _ _ plain ih =>
      obtain ⟨s, rfl, behind⟩ := marks_eq_some_cons_iff.mp input
      obtain ⟨noBackslash, noControl⟩ : c ≠ '\\' ∧ 0x20 ≤ c.toNat := by simpa using plain
      exact .cons (.plain noQuote noBackslash noControl) (ih behind.symm read)

/-! ## What pieces spell -/

theorem spell_unit {u : Nat} (whole : ¬IsHigh u ∧ ¬IsLow u) (ps : List Piece) :
    spell (.unit u :: ps) = (spell ps).map (Char.ofNat u :: ·) := by
  obtain ⟨high, low⟩ := whole
  rw [spell.eq_def]
  simp only [IsHigh, IsLow] at high low
  simp [high, low]

theorem spell_pair {u v : Nat} (high : IsHigh u) (low : IsLow v) (ps : List Piece) :
    spell (.unit u :: .unit v :: ps) =
      (spell ps).map (Char.ofNat (0x10000 + (u - 0xd800) * 0x400 + (v - 0xdc00)) :: ·) := by
  obtain ⟨least, most⟩ := high
  have noLow : ¬(0xdc00 ≤ u ∧ u ≤ 0xdfff) := by omega
  rw [spell.eq_def]
  simp [noLow, least, most, low.1, low.2]

theorem exists_pieces_of_spellsText {s t : List Char} (h : SpellsText s t) :
    ∃ ps, WritesPieces s ps ∧ spell ps = some t := by
  induction h with
  | nil => exact ⟨[], .nil, rfl⟩
  | cons first _ ih =>
      obtain ⟨ps, writes, spelled⟩ := ih
      cases first with
      | plain noQuote noBackslash noControl =>
          exact ⟨_, .cons (.plain noQuote noBackslash noControl) writes, by simp [spell, spelled]⟩
      | short escape => exact ⟨_, .cons (.short escape) writes, by simp [spell, spelled]⟩
      | unit named whole =>
          exact ⟨_, .cons (.unit named) writes, by rw [spell_unit whole, spelled]; rfl⟩
      | pair named high named' low =>
          have both := WritesPieces.cons (.unit named) (.cons (.unit named') writes)
          exact ⟨_, by simpa using both, by rw [spell_pair high low, spelled]; rfl⟩

theorem spellsText_of_pieces {s t : List Char} {ps : List Piece} (writes : WritesPieces s ps)
    (spelled : spell ps = some t) : SpellsText s t := by
  fun_induction spell ps generalizing s t with
  | case1 =>
      cases writes
      cases spelled
      exact .nil
  | case2 c ps ih =>
      obtain ⟨text, behind, rfl⟩ := Option.map_eq_some_iff.mp spelled
      cases writes with
      | cons first rest =>
          cases first with
          | plain noQuote noBackslash noControl =>
              exact .cons (.plain noQuote noBackslash noControl) (ih rest behind)
          | short escape => exact .cons (.short escape) (ih rest behind)
  | case3 | case4 | case6 | case7 => cases spelled
  | case5 u noLow high v ps low ih =>
      obtain ⟨text, behind, rfl⟩ := Option.map_eq_some_iff.mp spelled
      have high : IsHigh u := by simpa [IsHigh] using high
      have low : IsLow v := by simpa [IsLow] using low
      cases writes with
      | cons first rest =>
          cases rest with
          | cons second rest =>
              cases first with
              | unit named =>
                  cases second with
                  | unit named' =>
                      have both := SpellsText.cons (.pair named high named' low) (ih rest behind)
                      simpa using both
  | case8 u ps noLow noHigh ih =>
      obtain ⟨text, behind, rfl⟩ := Option.map_eq_some_iff.mp spelled
      have whole : ¬IsHigh u ∧ ¬IsLow u :=
        ⟨fun ⟨least, most⟩ => noHigh (by simp [least, most]),
          fun ⟨least, most⟩ => noLow (by simp [least, most])⟩
      cases writes with
      | cons first rest =>
          cases first with
          | unit named => exact .cons (.unit named whole) (ih rest behind)

/-- The reader takes from a string literal the text that is spelled up to the closing quote. -/
theorem literal?_eq_some_iff {text : List Char} {t : String} {rest : Input} :
    literal? (marks text) = some (some t, rest) ↔
      ∃ s r, text = s ++ '\x22' :: r ∧ rest = marks r ∧ SpellsText s t.toList := by
  unfold literal?
  rw [Option.map_eq_some_iff]
  constructor
  · rintro ⟨⟨ps, left⟩, read, same⟩
    obtain ⟨spelled, rfl⟩ := Prod.mk.inj same
    obtain ⟨u, inside, rfl⟩ := Option.map_eq_some_iff.mp spelled
    obtain ⟨s, r, qs, rfl, behind, rfl, writes⟩ := closes_of_pieces? read
    rw [List.append_nil, List.reverse_reverse] at inside
    refine ⟨s, r, rfl, behind, ?_⟩
    rw [String.toList_ofList]
    exact spellsText_of_pieces writes inside
  · rintro ⟨s, r, rfl, rfl, spells⟩
    obtain ⟨ps, writes, spelled⟩ := exists_pieces_of_spellsText spells
    refine ⟨(ps.reverse, marks r), ?_, ?_⟩
    · rw [marks_append, marks_cons, pieces?_of_writesPieces writes, List.append_nil]
    · simp [spelled]

/-- A literal is read whatever stands behind its closing quote. -/
theorem literal?_of_spellsText {s : List Char} {t : List Char} (spells : SpellsText s t)
    (more : Input) :
    literal? (marks s ++ some '\x22' :: more) = some (some (String.ofList t), more) := by
  obtain ⟨ps, writes, spelled⟩ := exists_pieces_of_spellsText spells
  rw [literal?, pieces?_of_writesPieces writes]
  simp [spelled]

/-! ## What numbers look like -/

def IsDigits (text : List Char) : Prop := text ≠ [] ∧ ∀ c ∈ text, c.isDigit = true

/-- Digits with no zero in front, or a zero alone. -/
def IsWhole (text : List Char) : Prop :=
  text = ['0'] ∨ IsDigits text ∧ text.head? ≠ some '0'

def IsFraction (text : List Char) : Prop :=
  text = [] ∨ ∃ digits, text = '.' :: digits ∧ IsDigits digits

def IsExponent (text : List Char) : Prop :=
  text = [] ∨ ∃ e sign digits, text = e :: (sign ++ digits) ∧ (e = 'e' ∨ e = 'E') ∧
    (sign = [] ∨ sign = ['+'] ∨ sign = ['-']) ∧ IsDigits digits

def IsNumber (text : List Char) : Prop :=
  ∃ sign whole fraction exponent, text = sign ++ (whole ++ (fraction ++ exponent)) ∧
    (sign = [] ∨ sign = ['-']) ∧ IsWhole whole ∧ IsFraction fraction ∧ IsExponent exponent

/-- What stands there does not begin with a character of a kind. -/
def BeginsNot (kind : Char → Bool) (input : Input) : Prop :=
  ∀ c, input.head? = some (some c) → kind c = false

theorem beginsNot_cons {kind : Char → Bool} {c : Char} {input : Input} :
    BeginsNot kind (some c :: input) ↔ kind c = false := by
  simp [BeginsNot]

theorem BeginsNot.mono {kind kind' : Char → Bool} {input : Input} (h : BeginsNot kind input)
    (narrower : ∀ c, kind c = false → kind' c = false) : BeginsNot kind' input :=
  fun c first => narrower c (h c first)

/-- A character that a number could go on with. -/
def continuesNumber (c : Char) : Bool := c.isDigit || c == '.' || c == 'e' || c == 'E'

/-! ### Digits -/

theorem marks_filterMap_id {input : Input} (whole : ∀ x ∈ input, x.isSome) :
    marks (input.filterMap id) = input := by
  induction input with
  | nil => rfl
  | cons x input ih =>
      obtain ⟨c, rfl⟩ := Option.isSome_iff_exists.mp (whole x List.mem_cons_self)
      have ih := ih fun y member => whole y (List.mem_cons_of_mem _ member)
      exact congrArg (some c :: ·) ih

theorem digits?_sound {input rest : Input} {digits : List Char}
    (read : digits? input = some (digits, rest)) :
    input = marks digits ++ rest ∧ IsDigits digits := by
  have digit : ∀ x ∈ input.takeWhile isDigit, isDigit x = true :=
    List.all_eq_true.mp List.all_takeWhile
  have whole : ∀ x ∈ input.takeWhile isDigit, x.isSome := by
    intro x member
    have isDigit := digit x member
    cases x with
    | none => cases isDigit
    | some c => rfl
  unfold digits? spanDigits at read
  split at read
  · cases read
  · rename_i none
    cases read
    refine ⟨?_, ?_, ?_⟩
    · rw [marks_filterMap_id whole, List.takeWhile_append_dropWhile]
    · intro empty
      exact none (input.dropWhile isDigit) (by rw [empty])
    · intro c member
      obtain ⟨x, inside, rfl⟩ := List.mem_filterMap.mp member
      exact digit (some c) inside

theorem digits?_complete {digits : List Char} {more : Input} (h : IsDigits digits)
    (ends : BeginsNot Char.isDigit more) :
    digits? (marks digits ++ more) = some (digits, more) := by
  obtain ⟨nonempty, each⟩ := h
  have stops : more.takeWhile isDigit = [] ∧ more.dropWhile isDigit = more := by
    rcases more with _ | ⟨_ | c, more⟩
    · simp
    · simp [isDigit]
    · have other := beginsNot_cons.mp ends
      simp [isDigit, other]
  have all : ∀ x ∈ marks digits, isDigit x = true := by
    intro x member
    obtain ⟨c, inside, rfl⟩ := List.mem_map.mp member
    exact each c inside
  have taken : spanDigits (marks digits ++ more) = (digits, more) := by
    rw [spanDigits, List.takeWhile_append_of_pos all, List.dropWhile_append_of_pos all, stops.1,
      stops.2]
    simp [marks]
  unfold digits?
  rw [taken]
  split
  · rename_i empty
    exact absurd (congrArg Prod.fst empty) nonempty
  · rfl

/-! ### The parts of a number -/

theorem whole?_sound {input rest : Input} {whole : List Char}
    (read : whole? input = some (whole, rest)) : input = marks whole ++ rest ∧ IsWhole whole := by
  unfold whole? at read
  split at read
  · split at read
    · cases read
    · cases read
      exact ⟨rfl, .inl rfl⟩
  · rename_i noZero
    obtain ⟨rfl, digits⟩ := digits?_sound read
    refine ⟨rfl, .inr ⟨digits, ?_⟩⟩
    intro zero
    obtain ⟨ds, rfl⟩ := List.head?_eq_some_iff.mp zero
    exact noZero (marks ds ++ rest) rfl

theorem whole?_complete {whole : List Char} {more : Input} (h : IsWhole whole)
    (ends : BeginsNot Char.isDigit more) :
    whole? (marks whole ++ more) = some (whole, more) := by
  rcases h with rfl | ⟨digits, noZero⟩
  · have stops : (more.head?.map isDigit).getD false = false := by
      rcases more with _ | ⟨_ | c, more⟩
      · rfl
      · rfl
      · simpa [isDigit] using beginsNot_cons.mp ends
    simp [whole?, stops]
  · unfold whole?
    split
    · rename_i rest zero
      obtain ⟨c, cs, rfl⟩ := List.exists_cons_of_ne_nil digits.1
      simp at zero noZero
      exact absurd zero.1 noZero
    · exact digits?_complete digits ends

theorem fraction?_sound {input rest : Input} {fraction : List Char}
    (read : fraction? input = some (fraction, rest)) :
    input = marks fraction ++ rest ∧ IsFraction fraction := by
  unfold fraction? at read
  split at read
  · obtain ⟨⟨digits, left⟩, found, same⟩ := Option.map_eq_some_iff.mp read
    cases same
    obtain ⟨rfl, isDigits⟩ := digits?_sound found
    exact ⟨rfl, .inr ⟨digits, rfl, isDigits⟩⟩
  · cases read
    exact ⟨rfl, .inl rfl⟩

theorem fraction?_complete {fraction : List Char} {more : Input} (h : IsFraction fraction)
    (ends : BeginsNot (fun c => c.isDigit || c == '.') more) :
    fraction? (marks fraction ++ more) = some (fraction, more) := by
  rcases h with rfl | ⟨digits, rfl, isDigits⟩
  · unfold fraction?
    split
    · rename_i rest point
      rw [marks_nil, List.nil_append] at point
      rw [point, beginsNot_cons] at ends
      cases ends
    · rfl
  · have stops : BeginsNot Char.isDigit more :=
      ends.mono fun c no => (Bool.or_eq_false_iff.mp no).1
    simp [fraction?, digits?_complete isDigits stops]

theorem exponent?_sound {input rest : Input} {exponent : List Char}
    (read : exponent? input = some (exponent, rest)) :
    input = marks exponent ++ rest ∧ IsExponent exponent := by
  unfold exponent? at read
  split at read
  · rename_i e more
    split at read
    · rename_i letter
      have letter : e = 'e' ∨ e = 'E' := by simpa using letter
      split at read
      · rename_i s more
        split at read
        · rename_i sign
          have sign : s = '+' ∨ s = '-' := by simpa using sign
          obtain ⟨⟨digits, left⟩, found, same⟩ := Option.map_eq_some_iff.mp read
          cases same
          obtain ⟨rfl, isDigits⟩ := digits?_sound found
          refine ⟨rfl, .inr ⟨e, [s], digits, rfl, letter, .inr ?_, isDigits⟩⟩
          simpa using sign
        · obtain ⟨⟨digits, left⟩, found, same⟩ := Option.map_eq_some_iff.mp read
          cases same
          obtain ⟨whole, isDigits⟩ := digits?_sound found
          exact ⟨by rw [whole]; rfl, .inr ⟨e, [], digits, rfl, letter, .inl rfl, isDigits⟩⟩
      · cases read
    · cases read
      exact ⟨rfl, .inl rfl⟩
  · cases read
    exact ⟨rfl, .inl rfl⟩

theorem exponent?_complete {exponent : List Char} {more : Input} (h : IsExponent exponent)
    (ends : BeginsNot (fun c => c.isDigit || c == 'e' || c == 'E') more) :
    exponent? (marks exponent ++ more) = some (exponent, more) := by
  rcases h with rfl | ⟨e, sign, digits, rfl, letter, signs, isDigits⟩
  · rcases more with _ | ⟨_ | c, more⟩
    · rfl
    · rfl
    · have other := beginsNot_cons.mp ends
      have noLetter : ¬(c = 'e' ∨ c = 'E') := by
        rintro (rfl | rfl)
        all_goals cases other
      simp [exponent?, noLetter]
  · have stops : BeginsNot Char.isDigit more := ends.mono fun c no => by
      rw [Bool.or_assoc] at no
      exact (Bool.or_eq_false_iff.mp no).1
    have read := digits?_complete isDigits stops
    obtain ⟨d, ds, rfl⟩ := List.exists_cons_of_ne_nil isDigits.1
    have noSign : ¬(d = '+' ∨ d = '-') := by
      have digit := isDigits.2 d List.mem_cons_self
      rintro (rfl | rfl)
      all_goals cases digit
    rw [marks_cons, List.cons_append] at read
    rcases signs with rfl | rfl | rfl
    · simp [exponent?, letter, noSign, read]
    · simp [exponent?, letter, read]
    · simp [exponent?, letter, read]

/-! ### Numbers -/

/-- What the reader makes of the part of a number behind its sign. -/
def afterSign? (sign : List Char) (body : Input) : Option (String × Input) :=
  (whole? body).bind fun (w, rest) =>
    (fraction? rest).bind fun (f, rest) =>
      (exponent? rest).map fun (e, rest) => (String.ofList (sign ++ w ++ f ++ e), rest)

/-- A sign, and what stands behind it. -/
def splitSign (input : Input) : List Char × Input :=
  match input with
  | some '-' :: rest => (['-'], rest)
  | _ => ([], input)

theorem number?_eq (input : Input) :
    number? input = afterSign? (splitSign input).1 (splitSign input).2 := by
  unfold number?
  split
  · rename_i sign body same
    have signed : splitSign input = (sign, body) := same
    rw [signed, afterSign?]
    cases first : whole? body with
    | none => rfl
    | some found =>
        obtain ⟨w, rest⟩ := found
        dsimp only [Option.bind_some]
        cases second : fraction? rest <;> rfl

theorem afterSign?_sound {sign : List Char} {spelling : String} {input rest : Input}
    (signs : sign = [] ∨ sign = ['-']) (read : afterSign? sign input = some (spelling, rest)) :
    ∃ s, input = marks s ++ rest ∧ spelling = String.ofList (sign ++ s) ∧ IsNumber (sign ++ s) := by
  obtain ⟨⟨whole, rest₁⟩, found₁, more₁⟩ := Option.bind_eq_some_iff.mp read
  obtain ⟨rfl, isWhole⟩ := whole?_sound found₁
  obtain ⟨⟨fraction, rest₂⟩, found₂, more₂⟩ := Option.bind_eq_some_iff.mp more₁
  obtain ⟨rfl, isFraction⟩ := fraction?_sound found₂
  obtain ⟨⟨exponent, rest₃⟩, found₃, same⟩ := Option.map_eq_some_iff.mp more₂
  obtain ⟨rfl, isExponent⟩ := exponent?_sound found₃
  cases same
  exact ⟨whole ++ (fraction ++ exponent), by simp, by simp, sign, whole, fraction, exponent, rfl,
    signs, isWhole, isFraction, isExponent⟩

theorem afterSign?_complete {whole fraction exponent : List Char} {more : Input}
    (isWhole : IsWhole whole) (isFraction : IsFraction fraction) (isExponent : IsExponent exponent)
    (ends : BeginsNot continuesNumber more) (sign : List Char) :
    afterSign? sign (marks (whole ++ (fraction ++ exponent)) ++ more) =
      some (String.ofList (sign ++ (whole ++ (fraction ++ exponent))), more) := by
  -- A part is read to its end only if the next part cannot go on with it, hence the last one first.
  have noLetter : BeginsNot (fun c => c.isDigit || c == 'e' || c == 'E') more :=
    ends.mono fun c no => by
      simp only [continuesNumber, Bool.or_eq_false_iff] at no ⊢
      exact ⟨⟨no.1.1.1, no.1.2⟩, no.2⟩
  have noPoint : BeginsNot (fun c => c.isDigit || c == '.') (marks exponent ++ more) := by
    rcases isExponent with rfl | ⟨e, sign, digits, rfl, rfl | rfl, _⟩
    · exact ends.mono fun c no => by
        simp only [continuesNumber, Bool.or_eq_false_iff] at no ⊢
        exact no.1.1
    all_goals exact beginsNot_cons.mpr rfl
  have noDigit : BeginsNot Char.isDigit (marks fraction ++ (marks exponent ++ more)) := by
    rcases isFraction with rfl | ⟨digits, rfl, _⟩
    · exact noPoint.mono fun c no => (Bool.or_eq_false_iff.mp no).1
    · exact beginsNot_cons.mpr rfl
  simp only [afterSign?, marks_append, List.append_assoc, whole?_complete isWhole noDigit,
    fraction?_complete isFraction noPoint, exponent?_complete isExponent noLetter,
    Option.bind_some, Option.map_some]

theorem number?_sound {spelling : String} {input rest : Input}
    (read : number? input = some (spelling, rest)) :
    ∃ s, input = marks s ++ rest ∧ spelling = String.ofList s ∧ IsNumber s := by
  rw [number?_eq, splitSign.eq_def] at read
  split at read
  · obtain ⟨s, rfl, spelled, isNumber⟩ := afterSign?_sound (.inr rfl) read
    exact ⟨'-' :: s, rfl, spelled, isNumber⟩
  · exact afterSign?_sound (.inl rfl) read

theorem IsWhole.exists_digit {whole : List Char} (h : IsWhole whole) :
    ∃ d ds, whole = d :: ds ∧ d.isDigit = true := by
  rcases h with rfl | ⟨⟨nonempty, each⟩, _⟩
  · exact ⟨'0', [], rfl, rfl⟩
  · obtain ⟨d, ds, rfl⟩ := List.exists_cons_of_ne_nil nonempty
    exact ⟨d, ds, rfl, each d List.mem_cons_self⟩

theorem number?_complete {s : List Char} {more : Input} (h : IsNumber s)
    (ends : BeginsNot continuesNumber more) :
    number? (marks s ++ more) = some (String.ofList s, more) := by
  obtain ⟨sign, whole, fraction, exponent, rfl, signs, isWhole, isFraction, isExponent⟩ := h
  have read := afterSign?_complete isWhole isFraction isExponent ends
  rw [number?_eq, splitSign.eq_def]
  rcases signs with rfl | rfl
  · obtain ⟨d, ds, rfl, digit⟩ := isWhole.exists_digit
    split
    · rename_i body minus
      simp only [List.nil_append, List.cons_append, marks_cons, List.cons.injEq,
        Option.some.injEq] at minus
      obtain ⟨rfl, -⟩ := minus
      cases digit
    · exact read []
  · exact read ['-']

end ApiInventory.Json
