import ApiInventory.Proofs.Json.Grammar
import ApiInventory.Proofs.Text.Decoding

/-!
# Tokens

What is read as JSON is made of tokens: punctuation, string literals and words. Blanks between
tokens keep words apart and do nothing else, so that two inputs that are laid out differently have
the same tokens. The reader makes the same of both (`read?_congr`), whether it takes them or not.

The induction is on the steps of the reader (`Carries`). Since the two inputs may differ in length,
it has to say for the second one how many steps are enough. A word ends where something else begins;
that the reader has come to its end is known only from what it goes on with (`Ended`).
-/

namespace ApiInventory.Json

/-! ## Cutting an input -/

/-- A character that is a token of its own. -/
def isPunctuation (c : Option Char) : Bool :=
  c == some '[' || c == some ']' || c == some '\x7b' || c == some '\x7d' || c == some ':' ||
    c == some ','

/-- A character that may stand in a word. -/
def isBare (c : Option Char) : Bool := !(isSpace c || isPunctuation c || c == some '\x22')

/-- The rest of a string literal up to its closing quote, and what stands behind it. -/
def cutLiteral : Input → Input × Input
  | [] => ([], [])
  | some '\x22' :: rest => ([some '\x22'], rest)
  | some '\\' :: c :: rest => (some '\\' :: c :: (cutLiteral rest).1, (cutLiteral rest).2)
  | c :: rest => (c :: (cutLiteral rest).1, (cutLiteral rest).2)

/-- The token that begins with a character that is no blank, and what stands behind it. -/
def cutToken (c : Option Char) (rest : Input) : Input × Input :=
  if isPunctuation c then ([c], rest)
  else if c = some '\x22' then (c :: (cutLiteral rest).1, (cutLiteral rest).2)
  else (c :: rest.takeWhile isBare, rest.dropWhile isBare)

theorem cutLiteral_append (input : Input) :
    (cutLiteral input).1 ++ (cutLiteral input).2 = input := by
  fun_induction cutLiteral input with
  | case1 => rfl
  | case2 rest => rfl
  | case3 c rest ih => simpa using ih
  | case4 c rest _ _ ih => simpa using ih

theorem cutToken_append (c : Option Char) (rest : Input) :
    (cutToken c rest).1 ++ (cutToken c rest).2 = c :: rest := by
  unfold cutToken
  split
  · rfl
  · split
    · exact congrArg (c :: ·) (cutLiteral_append rest)
    · exact congrArg (c :: ·) List.takeWhile_append_dropWhile

theorem cutToken_head (c : Option Char) (rest : Input) :
    (cutToken c rest).1.head? = some c := by
  unfold cutToken
  split
  · rfl
  · split <;> rfl

theorem length_cutToken_lt (c : Option Char) (rest : Input) :
    (cutToken c rest).2.length < (c :: rest).length := by
  have whole := congrArg List.length (cutToken_append c rest)
  rw [List.length_append] at whole
  have front : 0 < (cutToken c rest).1.length := by
    apply List.length_pos_iff.mpr
    intro empty
    have head := cutToken_head c rest
    rw [empty] at head
    cases head
  omega

theorem length_skipSpace_le (input : Input) : (skipSpace input).length ≤ input.length :=
  (List.dropWhile_suffix isSpace).length_le

theorem length_lt_of_skipSpace {input rest : Input} {c : Option Char}
    (start : skipSpace input = c :: rest) : rest.length < input.length := by
  have skipped := length_skipSpace_le input
  rwa [start, List.length_cons] at skipped

/-- The tokens of an input, without the blanks around them. -/
def tokens (input : Input) : List Input :=
  match _start : skipSpace input with
  | [] => []
  | c :: rest => (cutToken c rest).1 :: tokens (cutToken c rest).2
termination_by input.length
decreasing_by
  have shorter := length_cutToken_lt c rest
  have skipped := length_skipSpace_le input
  rw [_start] at skipped
  omega

theorem tokens_of_nil {input : Input} (nothing : skipSpace input = []) : tokens input = [] := by
  rw [tokens]
  split
  · rfl
  · rename_i start
    cases nothing.symm.trans start

theorem tokens_of_cons {input rest : Input} {c : Option Char}
    (start : skipSpace input = c :: rest) :
    tokens input = (cutToken c rest).1 :: tokens (cutToken c rest).2 := by
  rw [tokens]
  split
  · rename_i nothing
    cases nothing.symm.trans start
  · rename_i start'
    cases start.symm.trans start'
    rfl

section Same

variable {a b rest : Input} {c : Option Char} (same : tokens a = tokens b)
include same

/-- Inputs with the same tokens begin with the same character, and go on with the same tokens
behind the first. -/
theorem exists_start (start : skipSpace a = c :: rest) :
    ∃ rest', skipSpace b = c :: rest' ∧ (cutToken c rest).1 = (cutToken c rest').1 ∧
      tokens (cutToken c rest).2 = tokens (cutToken c rest').2 := by
  rw [tokens_of_cons start] at same
  rcases start' : skipSpace b with _ | ⟨d, rest'⟩
  · rw [tokens_of_nil start'] at same
    cases same
  · rw [tokens_of_cons start'] at same
    obtain ⟨first, others⟩ := List.cons.inj same
    have heads := congrArg List.head? first
    rw [cutToken_head, cutToken_head] at heads
    obtain rfl := Option.some.inj heads
    exact ⟨rest', rfl, first, others⟩

theorem skipSpace_eq_nil (nothing : skipSpace a = []) : skipSpace b = [] := by
  rw [tokens_of_nil nothing] at same
  rcases start' : skipSpace b with _ | ⟨d, rest'⟩
  · rfl
  · rw [tokens_of_cons start'] at same
    cases same

theorem exists_punctuation (start : skipSpace a = c :: rest) (mark : isPunctuation c = true) :
    ∃ rest', skipSpace b = c :: rest' ∧ tokens rest = tokens rest' := by
  obtain ⟨rest', start', -, others⟩ := exists_start same start
  simp only [cutToken, mark, if_true] at others
  exact ⟨rest', start', others⟩

theorem exists_literal (start : skipSpace a = some '\x22' :: rest) :
    ∃ rest', skipSpace b = some '\x22' :: rest' ∧ (cutLiteral rest).1 = (cutLiteral rest').1 ∧
      tokens (cutLiteral rest).2 = tokens (cutLiteral rest').2 := by
  obtain ⟨rest', start', first, others⟩ := exists_start same start
  exact ⟨rest', start', (List.cons.inj first).2, others⟩

theorem exists_word (start : skipSpace a = c :: rest) (bare : isBare c = true) :
    ∃ rest', skipSpace b = c :: rest' ∧ rest.takeWhile isBare = rest'.takeWhile isBare ∧
      tokens (rest.dropWhile isBare) = tokens (rest'.dropWhile isBare) := by
  obtain ⟨rest', start', first, others⟩ := exists_start same start
  simp only [isBare, Bool.not_eq_true', Bool.or_eq_false_iff, beq_eq_false_iff_ne, ne_eq] at bare
  simp only [cutToken, bare.1.2, bare.2, if_false, Bool.false_eq_true] at first others
  exact ⟨rest', start', (List.cons.inj first).2, others⟩

end Same

/-! ## Ends of words -/

/-- No word goes on here. -/
def Ended (input : Input) : Prop := ∀ c, input.head? = some c → isBare c = false

theorem ended_of_start {input rest : Input} {c : Option Char} (start : skipSpace input = c :: rest)
    (stops : isBare c = false) : Ended input := by
  cases input with
  | nil => exact nofun
  | cons d input =>
      intro e head
      obtain rfl := Option.some.inj head
      by_cases space : isSpace d = true
      · simp [isBare, space]
      · rw [skipSpace, List.dropWhile_cons_of_neg space] at start
        obtain ⟨rfl, -⟩ := List.cons.inj start
        exact stops

theorem ended_of_nothing {input : Input} (nothing : skipSpace input = []) : Ended input := by
  intro c head
  obtain ⟨rest, rfl⟩ := List.head?_eq_some_iff.mp head
  by_cases space : isSpace c = true
  · simp [isBare, space]
  · rw [skipSpace, List.dropWhile_cons_of_neg space] at nothing
    cases nothing

theorem ended_dropWhile (input : Input) : Ended (input.dropWhile isBare) := by
  intro c head
  have stops := List.head?_dropWhile_not isBare input
  rw [head] at stops
  simpa using stops

/-- A word is what stands in front of the place where it has ended. -/
theorem takeWhile_word {word rest : Input} (bare : ∀ c ∈ word, isBare c = true)
    (ended : Ended rest) :
    (word ++ rest).takeWhile isBare = word ∧ (word ++ rest).dropWhile isBare = rest := by
  have stops : rest.takeWhile isBare = [] ∧ rest.dropWhile isBare = rest := by
    cases rest with
    | nil => exact ⟨rfl, rfl⟩
    | cons c rest => simp [ended c rfl]
  rw [List.takeWhile_append_of_pos bare, List.dropWhile_append_of_pos bare, stops.1, stops.2]
  exact ⟨List.append_nil word, rfl⟩

theorem beginsNot_of_ended {input : Input} {kind : Char → Bool} (ended : Ended input)
    (bare : ∀ c, kind c = true → isBare (some c) = true) : BeginsNot kind input := by
  intro c head
  by_contra other
  rw [Bool.not_eq_false] at other
  have stops := ended (some c) head
  rw [bare c other] at stops
  cases stops

/-! ## Words -/

theorem isBare_of_isDigit {c : Char} (digit : c.isDigit = true) : isBare (some c) = true := by
  by_contra other
  simp only [isBare, isSpace, isPunctuation, Bool.not_eq_true', Bool.not_eq_false, Bool.or_eq_true,
    beq_iff_eq, Option.some.injEq] at other
  obtain (space | mark) | rfl := other
  · obtain ((rfl | rfl) | rfl) | rfl := space <;> cases digit
  · obtain ((((rfl | rfl) | rfl) | rfl) | rfl) | rfl := mark <;> cases digit
  · cases digit

theorem isBare_of_continuesNumber {c : Char} (kind : continuesNumber c = true) :
    isBare (some c) = true := by
  simp only [continuesNumber, Bool.or_eq_true, beq_iff_eq] at kind
  obtain ((digit | rfl) | rfl) | rfl := kind
  · exact isBare_of_isDigit digit
  all_goals rfl

theorem IsNumber.isBare {s : List Char} (h : IsNumber s) : ∀ c ∈ marks s, isBare c = true := by
  obtain ⟨sign, whole, fraction, exponent, rfl, signs, isWhole, isFraction, isExponent⟩ := h
  have digits : ∀ {ds : List Char}, IsDigits ds → ∀ c ∈ marks ds, Json.isBare c = true := by
    intro ds isDigits x member
    obtain ⟨c, inside, rfl⟩ := List.mem_map.mp member
    exact isBare_of_isDigit (isDigits.2 c inside)
  simp only [marks_append, List.mem_append]
  rintro c (first | second | third | fourth)
  · obtain rfl | rfl := signs
    · cases first
    · obtain rfl := List.mem_singleton.mp first
      rfl
  · obtain rfl | ⟨isDigits, -⟩ := isWhole
    · obtain rfl := List.mem_singleton.mp second
      rfl
    · exact digits isDigits c second
  · obtain rfl | ⟨ds, rfl, isDigits⟩ := isFraction
    · cases third
    · obtain rfl | inside := List.mem_cons.mp third
      · rfl
      · exact digits isDigits c inside
  · obtain rfl | ⟨e, sign, ds, rfl, letter, signs, isDigits⟩ := isExponent
    · cases fourth
    · rw [marks_cons, marks_append, List.mem_cons, List.mem_append] at fourth
      obtain rfl | inside | inside := fourth
      · obtain rfl | rfl := letter <;> rfl
      · obtain rfl | rfl | rfl := signs
        · cases inside
        all_goals
          obtain rfl := List.mem_singleton.mp inside
          rfl
      · exact digits isDigits c inside

theorem afterWord?_eq_some_iff {word : List Char} {input rest : Input} :
    afterWord? word input = some rest ↔ input = marks word ++ rest := by
  induction word generalizing input with
  | nil => simp [afterWord?]
  | cons c word ih =>
      rw [marks_cons, List.cons_append]
      rcases input with _ | ⟨_ | d, input⟩
      · simp [afterWord?]
      · simp [afterWord?]
      · rw [afterWord?, Option.ite_none_right_eq_some, ih]
        simp [eq_comm]

/-! ## Literals -/

theorem cutLiteral_cons {c : Option Char} (noQuote : c ≠ some '\x22') (noBackslash : c ≠ some '\\')
    (rest : Input) : cutLiteral (c :: rest) = (c :: (cutLiteral rest).1, (cutLiteral rest).2) := by
  rw [cutLiteral]
  · exact noQuote
  · intro _ _ backslash
    exact absurd backslash noBackslash

theorem IsHexDigit.plain {c : Char} {n : Nat} (digit : IsHexDigit c n) :
    some c ≠ some '\x22' ∧ some c ≠ some '\\' := by
  have value := hexValue_eq_some_iff.mpr digit
  constructor
  all_goals
    intro special
    obtain rfl := Option.some.inj special
    cases value

/-- No piece of a literal ends it. -/
theorem cutLiteral_of_writesPiece {s : List Char} {p : Piece} (writes : WritesPiece s p)
    (rest : Input) :
    cutLiteral (marks s ++ rest) = (marks s ++ (cutLiteral rest).1, (cutLiteral rest).2) := by
  cases writes with
  | plain noQuote noBackslash _ => exact cutLiteral_cons (by simpa) (by simpa) rest
  | short escape => rfl
  | unit named =>
      cases named with
      | intro first second third fourth =>
          simp only [marks_cons, marks_nil, List.cons_append, List.nil_append, cutLiteral,
            cutLiteral_cons first.plain.1 first.plain.2,
            cutLiteral_cons second.plain.1 second.plain.2,
            cutLiteral_cons third.plain.1 third.plain.2,
            cutLiteral_cons fourth.plain.1 fourth.plain.2]

/-- A literal is read from what stands up to its closing quote, whatever comes behind it. -/
def ReadsLiteral (done ps : List Piece) (input rest : Input) : Prop :=
  rest = (cutLiteral input).2 ∧
    ∀ more, pieces? done ((cutLiteral input).1 ++ more) = some (ps, more)

theorem ReadsLiteral.cons {s : List Char} {p : Piece} {done ps : List Piece} {input rest : Input}
    (first : WritesPiece s p) (onward : ReadsLiteral (p :: done) ps input rest) :
    ReadsLiteral done ps (marks s ++ input) rest := by
  unfold ReadsLiteral
  rw [cutLiteral_of_writesPiece first]
  refine ⟨onward.1, fun more => ?_⟩
  rw [List.append_assoc, pieces?_of_writesPiece first]
  exact onward.2 more

theorem readsLiteral_of_pieces? {done ps : List Piece} {input rest : Input}
    (read : pieces? done input = some (ps, rest)) : ReadsLiteral done ps input rest := by
  fun_induction pieces? done input with
  | case1 => cases read
  | case2 done behind ih =>
      obtain ⟨left, again⟩ := ih read
      have cut := cutLiteral_cons (c := none) (by simp) (by simp) behind
      unfold ReadsLiteral
      rw [cut]
      refine ⟨left, fun more => ?_⟩
      rw [List.cons_append, pieces?]
      exact again more
  | case3 done behind =>
      cases read
      exact ⟨rfl, fun more => rfl⟩
  | case4 done a b c d behind u left unit ih =>
      exact ReadsLiteral.cons (.unit (unit?_eq_some_iff.mp unit).1) (ih read)
  | case6 done e behind _ c escape ih =>
      exact ReadsLiteral.cons (.short (simpleEscape_eq_some_iff.mp escape)) (ih read)
  | case5 | case7 | case8 => cases read
  | case9 done c behind noQuote _ _ plain ih =>
      obtain ⟨noBackslash, noControl⟩ : c ≠ '\\' ∧ 0x20 ≤ c.toNat := by simpa using plain
      exact ReadsLiteral.cons (.plain noQuote noBackslash noControl) (ih read)

theorem literal?_of_cutLiteral {input input' rest : Input} {t : Option String}
    (same : (cutLiteral input).1 = (cutLiteral input').1)
    (read : literal? input = some (t, rest)) :
    rest = (cutLiteral input).2 ∧ literal? input' = some (t, (cutLiteral input').2) := by
  obtain ⟨⟨ps, left⟩, found, spelled⟩ := Option.map_eq_some_iff.mp read
  obtain ⟨rfl, rfl⟩ := Prod.mk.inj spelled
  obtain ⟨behind, again⟩ := readsLiteral_of_pieces? found
  have found' := again (cutLiteral input').2
  rw [same, cutLiteral_append] at found'
  exact ⟨behind, by rw [literal?, found']; rfl⟩

/-! ## Readers -/

/-- A reader takes something from an input in so many steps as the characters that it takes can pay
for. -/
def Takes {α : Type} (read? : Nat → Input → Option (α × Input)) (credit : Nat) (input : Input)
    (x : α) (rest : Input) : Prop :=
  rest.length < input.length ∧
    ∀ fuel, 2 * input.length ≤ fuel + 2 * rest.length + credit → read? fuel input = some (x, rest)

/-- What readers take from an input at a number of steps they take from any other that has the same
tokens. -/
structure Carries (fuel : Nat) : Prop where
  value : ∀ a b v rest, tokens a = tokens b → value? fuel a = some (v, rest) → Ended rest →
    ∃ rest', tokens rest = tokens rest' ∧ Takes value? 0 b v rest'
  items : ∀ a b vs rest, tokens a = tokens b → items? fuel a = some (vs, rest) →
    ∃ rest', tokens rest = tokens rest' ∧ Takes items? 1 b vs rest'
  members : ∀ a b ms rest, tokens a = tokens b → members? fuel a = some (ms, rest) →
    ∃ rest', tokens rest = tokens rest' ∧ Takes members? 1 b ms rest'

section Step

variable {fuel : Nat} {a b rest : Input} {v : Json}

/-- A value takes its first character at one step. -/
theorem takes_of_start {c : Option Char} {inside : Input} (start : skipSpace b = c :: inside)
    (shorter : rest.length ≤ inside.length)
    (read : ∀ fuel, 2 * inside.length < fuel + 2 * rest.length →
      value? (fuel + 1) b = some (v, rest)) : Takes value? 0 b v rest := by
  have skipped := length_lt_of_skipSpace start
  refine ⟨by omega, fun fuel enough => ?_⟩
  cases fuel with
  | zero => omega
  | succ fuel => exact read fuel (by omega)

/-- A word is read where it stands again. -/
theorem carries_word (same : tokens a = tokens b) {s : List Char} (spells : Spells s v)
    (bare : ∀ c ∈ marks s, isBare c = true) (start : skipSpace a = marks s ++ rest)
    (ended : Ended rest) : ∃ rest', tokens rest = tokens rest' ∧ Takes value? 0 b v rest' := by
  obtain ⟨c, more, rfl, -, -⟩ := spells.exists_head
  have first : isBare (some c) = true := bare (some c) List.mem_cons_self
  have others : ∀ x ∈ marks more, isBare x = true := fun x member =>
    bare x (List.mem_cons_of_mem _ member)
  have starts : skipSpace a = some c :: (marks more ++ rest) := start
  obtain ⟨inside, start', word, behind⟩ := exists_word same starts first
  rw [(takeWhile_word others ended).1] at word
  rw [(takeWhile_word others ended).2] at behind
  have split : inside = marks more ++ inside.dropWhile isBare := by
    rw [word, List.takeWhile_append_dropWhile]
  have stops : BeginsNot continuesNumber (inside.dropWhile isBare) :=
    beginsNot_of_ended (ended_dropWhile inside) fun _ => isBare_of_continuesNumber
  refine ⟨inside.dropWhile isBare, behind, ?_⟩
  have length := congrArg List.length split
  rw [List.length_append, marks, List.length_map] at length
  apply takes_of_start start' (by omega)
  intro fuel enough
  have again : skipSpace b = marks (c :: more) ++ inside.dropWhile isBare :=
    start'.trans (congrArg (some c :: ·) split)
  rw [← value?_skipSpace, again]
  apply (complete (fuel + 1)).value (c :: more) v _ spells _ stops
  rw [List.length_cons]
  omega

theorem carries_afterWord {c : Char} {word : List Char} {w : Json} {inside : Input}
    (same : tokens a = tokens b) (spells : Spells (c :: word) w)
    (bare : ∀ x ∈ marks (c :: word), isBare x = true) (start : skipSpace a = some c :: inside)
    (read : (afterWord? word inside).map (fun rest => (w, rest)) = some (v, rest))
    (ended : Ended rest) : ∃ rest', tokens rest = tokens rest' ∧ Takes value? 0 b v rest' := by
  obtain ⟨left, found, made⟩ := Option.map_eq_some_iff.mp read
  cases made
  obtain rfl := afterWord?_eq_some_iff.mp found
  exact carries_word same spells bare start ended

/-- A text is read where its literal stands again. -/
theorem carries_literal {inside : Input} {t : Option String} (same : tokens a = tokens b)
    (start : skipSpace a = some '\x22' :: inside) (found : literal? inside = some (t, rest)) :
    ∃ rest', tokens rest = tokens rest' ∧ Takes value? 0 b (.string t) rest' := by
  obtain ⟨inside', start', cut, behind⟩ := exists_literal same start
  obtain ⟨rfl, found'⟩ := literal?_of_cutLiteral cut found
  refine ⟨_, behind, takes_of_start start' ?_ fun fuel _ => ?_⟩
  · have length := congrArg List.length (cutLiteral_append inside')
    rw [List.length_append] at length
    omega
  · rw [value?, start']
    simp only [found', Option.map_some]

theorem Carries.onArray (carries : Carries fuel) {inside : Input} (same : tokens a = tokens b)
    (start : skipSpace a = some '[' :: inside) (read : value? (fuel + 1) a = some (v, rest)) :
    ∃ rest', tokens rest = tokens rest' ∧ Takes value? 0 b v rest' := by
  obtain ⟨inside', start', within⟩ := exists_punctuation same start rfl
  rw [← value?_skipSpace, start] at read
  by_cases closes : ∃ behind, skipSpace inside = some ']' :: behind
  · obtain ⟨behind, closed⟩ := closes
    rw [value?_emptyArray closed] at read
    cases read
    obtain ⟨rest', closed', others⟩ := exists_punctuation within closed rfl
    have skipped := length_lt_of_skipSpace closed'
    refine ⟨rest', others, takes_of_start start' (by omega) fun fuel _ => ?_⟩
    rw [← value?_skipSpace, start', value?_emptyArray closed']
  · have opened : ∀ more, skipSpace inside ≠ some ']' :: more :=
      fun more closed => closes ⟨more, closed⟩
    have opened' : ∀ more, skipSpace inside' ≠ some ']' :: more := by
      intro more closed'
      obtain ⟨more, closed, -⟩ := exists_punctuation within.symm closed' rfl
      exact opened more closed
    rw [value?_array opened] at read
    obtain ⟨⟨vs, left⟩, found, made⟩ := Option.map_eq_some_iff.mp read
    cases made
    obtain ⟨rest', others, shorter, takes⟩ := carries.items inside inside' vs rest within found
    refine ⟨rest', others, takes_of_start start' (by omega) fun fuel enough => ?_⟩
    rw [← value?_skipSpace, start', value?_array opened', takes fuel (by omega), Option.map_some]

theorem Carries.onObject (carries : Carries fuel) {inside : Input} (same : tokens a = tokens b)
    (start : skipSpace a = some '\x7b' :: inside) (read : value? (fuel + 1) a = some (v, rest)) :
    ∃ rest', tokens rest = tokens rest' ∧ Takes value? 0 b v rest' := by
  obtain ⟨inside', start', within⟩ := exists_punctuation same start rfl
  rw [← value?_skipSpace, start] at read
  by_cases closes : ∃ behind, skipSpace inside = some '\x7d' :: behind
  · obtain ⟨behind, closed⟩ := closes
    rw [value?_emptyObject closed] at read
    cases read
    obtain ⟨rest', closed', others⟩ := exists_punctuation within closed rfl
    have skipped := length_lt_of_skipSpace closed'
    refine ⟨rest', others, takes_of_start start' (by omega) fun fuel _ => ?_⟩
    rw [← value?_skipSpace, start', value?_emptyObject closed']
  · have opened : ∀ more, skipSpace inside ≠ some '\x7d' :: more :=
      fun more closed => closes ⟨more, closed⟩
    have opened' : ∀ more, skipSpace inside' ≠ some '\x7d' :: more := by
      intro more closed'
      obtain ⟨more, closed, -⟩ := exists_punctuation within.symm closed' rfl
      exact opened more closed
    rw [value?_object opened] at read
    obtain ⟨⟨ms, left⟩, found, made⟩ := Option.map_eq_some_iff.mp read
    cases made
    obtain ⟨rest', others, shorter, takes⟩ := carries.members inside inside' ms rest within found
    refine ⟨rest', others, takes_of_start start' (by omega) fun fuel enough => ?_⟩
    rw [← value?_skipSpace, start', value?_object opened', takes fuel (by omega), Option.map_some]

theorem Carries.onValue (carries : Carries fuel) (same : tokens a = tokens b)
    (read : value? (fuel + 1) a = some (v, rest)) (ended : Ended rest) :
    ∃ rest', tokens rest = tokens rest' ∧ Takes value? 0 b v rest' := by
  have whole := read
  rw [value?] at read
  split at read
  · rename_i inside start
    obtain ⟨⟨t, left⟩, found, made⟩ := Option.map_eq_some_iff.mp read
    cases made
    exact carries_literal same start found
  · rename_i inside start
    exact carries.onArray same start whole
  · rename_i inside start
    exact carries.onObject same start whole
  · rename_i inside start
    exact carries_afterWord same .null (by decide) start read ended
  · rename_i inside start
    exact carries_afterWord same .yes (by decide) start read ended
  · rename_i inside start
    exact carries_afterWord same .no (by decide) start read ended
  · obtain ⟨⟨spelling, left⟩, found, made⟩ := Option.map_eq_some_iff.mp read
    cases made
    obtain ⟨s, start, rfl, isNumber⟩ := number?_sound found
    exact carries_word same (.number isNumber) isNumber.isBare start ended

theorem Carries.onItems (carries : Carries fuel) (same : tokens a = tokens b) {vs : List Json}
    (read : items? (fuel + 1) a = some (vs, rest)) :
    ∃ rest', tokens rest = tokens rest' ∧ Takes items? 1 b vs rest' := by
  rw [items?] at read
  split at read
  · cases read
  · rename_i w left found
    split at read
    · rename_i more comma
      obtain ⟨⟨ws, _⟩, onward, made⟩ := Option.map_eq_some_iff.mp read
      cases made
      obtain ⟨left', behind, shorter, takes⟩ :=
        carries.value a b w left same found (ended_of_start comma rfl)
      obtain ⟨more', comma', further⟩ := exists_punctuation behind comma rfl
      obtain ⟨rest', others, shorter', takes'⟩ := carries.items more more' ws rest further onward
      have skipped := length_lt_of_skipSpace comma'
      refine ⟨rest', others, by omega, fun fuel enough => ?_⟩
      cases fuel with
      | zero => omega
      | succ fuel =>
          rw [items?, takes fuel (by omega)]
          simp only [comma', takes' fuel (by omega), Option.map_some]
    · rename_i closed
      cases read
      obtain ⟨left', behind, shorter, takes⟩ :=
        carries.value a b w left same found (ended_of_start closed rfl)
      obtain ⟨rest', closed', others⟩ := exists_punctuation behind closed rfl
      have skipped := length_lt_of_skipSpace closed'
      refine ⟨rest', others, by omega, fun fuel enough => ?_⟩
      cases fuel with
      | zero => omega
      | succ fuel =>
          rw [items?, takes fuel (by omega)]
          simp only [closed']
    · cases read

/-- One member is read up to what stands behind its value, which says whether more come. -/
theorem Carries.onMember (carries : Carries fuel) (same : tokens a = tokens b)
    {inside left after behind : Input} {key : Option String}
    (quote : skipSpace a = some '\x22' :: inside) (literal : literal? inside = some (key, left))
    (colon : skipSpace left = some ':' :: after) (value : value? fuel after = some (v, behind))
    (ended : Ended behind) :
    ∃ behind', tokens behind = tokens behind' ∧ behind'.length + 2 < b.length ∧
      ∀ fuel more, 2 * b.length ≤ fuel + 2 * behind'.length + 4 →
        (skipSpace behind' = some ',' :: more → members? (fuel + 1) b =
          (members? fuel more).map fun (ms, rest) => ((key, v) :: ms, rest)) ∧
        (skipSpace behind' = some '\x7d' :: more →
          members? (fuel + 1) b = some ([(key, v)], more)) := by
  obtain ⟨inside', quote', cut, within⟩ := exists_literal same quote
  obtain ⟨rfl, literal'⟩ := literal?_of_cutLiteral cut literal
  obtain ⟨after', colon', further⟩ := exists_punctuation within colon rfl
  obtain ⟨behind', others, shorter, takes⟩ :=
    carries.value after after' v behind further value ended
  have skipped := length_lt_of_skipSpace quote'
  have skipped' := length_lt_of_skipSpace colon'
  have length := congrArg List.length (cutLiteral_append inside')
  rw [List.length_append] at length
  refine ⟨behind', others, by omega, fun fuel more enough => ?_⟩
  rw [members?, quote']
  simp only [literal', colon', takes fuel (by omega)]
  constructor
  · intro comma
    simp only [comma]
  · intro closed
    simp only [closed]

theorem Carries.onMembers (carries : Carries fuel) (same : tokens a = tokens b)
    {ms : List (Option String × Json)} (read : members? (fuel + 1) a = some (ms, rest)) :
    ∃ rest', tokens rest = tokens rest' ∧ Takes members? 1 b ms rest' := by
  rw [members?] at read
  split at read
  · rename_i inside quote
    split at read
    · cases read
    · rename_i key left literal
      split at read
      · rename_i after colon
        split at read
        · cases read
        · rename_i v behind value
          split at read
          · rename_i more comma
            obtain ⟨⟨ns, _⟩, onward, made⟩ := Option.map_eq_some_iff.mp read
            cases made
            obtain ⟨behind', others, shorter, member⟩ := carries.onMember same quote literal colon
              value (ended_of_start comma rfl)
            obtain ⟨more', comma', further⟩ := exists_punctuation others comma rfl
            obtain ⟨rest', last, shorter', takes⟩ :=
              carries.members more more' ns rest further onward
            have skipped := length_lt_of_skipSpace comma'
            refine ⟨rest', last, by omega, fun fuel enough => ?_⟩
            cases fuel with
            | zero => omega
            | succ fuel =>
                rw [(member fuel more' (by omega)).1 comma', takes fuel (by omega), Option.map_some]
          · rename_i more closed
            cases read
            obtain ⟨behind', others, shorter, member⟩ := carries.onMember same quote literal colon
              value (ended_of_start closed rfl)
            obtain ⟨rest', closed', last⟩ := exists_punctuation others closed rfl
            have skipped := length_lt_of_skipSpace closed'
            refine ⟨rest', last, by omega, fun fuel enough => ?_⟩
            cases fuel with
            | zero => omega
            | succ fuel => exact (member fuel rest' (by omega)).2 closed'
          · cases read
      · cases read
  · cases read

end Step

theorem carries (fuel : Nat) : Carries fuel := by
  induction fuel with
  | zero =>
      constructor
      case value => intro a b v rest _ read; simp [value?] at read
      case items => intro a b vs rest _ read; simp [items?] at read
      case members => intro a b ms rest _ read; simp [members?] at read
  | succ fuel ih =>
      constructor
      case value => exact fun _ _ _ _ => ih.onValue
      case items => exact fun _ _ _ _ same => ih.onItems same
      case members => exact fun _ _ _ _ same => ih.onMembers same

/-! ## Documents -/

theorem read?_of_tokens {a b : Input} {v : Json} (same : tokens a = tokens b)
    (read : read? a = some v) : read? b = some v := by
  unfold read? at read
  split at read
  · cases read
  · rename_i w rest found
    rw [Option.ite_none_right_eq_some] at read
    obtain ⟨nothing, made⟩ := read
    cases made
    obtain ⟨rest', others, shorter, takes⟩ :=
      (carries _).value a b v rest same found (ended_of_nothing nothing)
    have found' : value? (fuelFor b) b = some (v, rest') := takes _ (by rw [fuelFor]; omega)
    rw [read?, found']
    exact if_pos (skipSpace_eq_nil others nothing)

/-- The layout of an input makes no difference: what is read depends on its tokens alone. -/
theorem read?_congr {a b : Input} (same : tokens a = tokens b) : read? a = read? b := by
  ext v
  constructor
  · exact read?_of_tokens same
  · exact read?_of_tokens same.symm

example : tokens (marks " [1 ,\n2]".toList) = tokens (marks "[1,2]".toList) := by cbv

/-- Bytes that spell a text are read as the text is. -/
theorem ofBytes?_encode (s : String) : ofBytes? (Text.encode s) = ofText? s := by
  rw [ofBytes?, Text.marked_encode, ofText?]

end ApiInventory.Json
