import ApiInventory.Source.Parse
import ApiInventory.Proofs.Syntax.Numbering
import Mathlib

/-!
# What the lexer finds

At the front of a text stands a word (`Vocabulary.plain_word`), a mark (`Vocabulary.plain_mark`) or
the end, where the line ends first if it may (`Layout.scan_end`). Words and marks are looked up by
their spelling, so the lexer knows a terminal by the number that it has in the grammar
(`terminal_spelling`).
-/

namespace ApiInventory.Syntax.Grammar

variable {g : Grammar} {x : Symbol}

/-- A spelling leads to the number of its terminal. -/
theorem terminal_spelling (separate : ∀ x ∈ g.terminals, x ∉ g.nonterminals)
    (distinct : ("" :: g.terminals.map spelling).Nodup) (terminal : x ∈ g.terminals) :
    g.numbered.terminal (spelling x) = g.number x := by
  obtain ⟨i, number, place⟩ := exists_number (List.mem_append_left _ terminal : x ∈ g.symbols)
  have small : i < g.terminals.length := by
    by_contra large
    rw [symbols, List.getElem?_append_right (by omega)] at place
    exact separate x terminal (List.mem_of_getElem? place)
  rw [symbols, List.getElem?_append_left small] at place
  have terminals : g.numbered.terminals = ("" :: g.terminals.map spelling).toArray := rfl
  have here : ("" :: g.terminals.map spelling)[i + 1]? = some (spelling x) := by
    rw [List.getElem?_cons_succ, List.getElem?_map, place, Option.map_some]
  have found : ("" :: g.terminals.map spelling).findIdx? (· == spelling x) = some (i + 1) := by
    obtain ⟨inside, same⟩ := List.getElem?_eq_some_iff.mp here
    refine List.findIdx?_eq_some_iff_getElem.mpr ⟨inside, by simp [same], fun j earlier => ?_⟩
    intro equal
    have other := (List.nodup_iff_injective_get.mp distinct)
    have index := congrArg Fin.val (@other ⟨j, by omega⟩ ⟨i + 1, inside⟩
      ((beq_iff_eq.mp equal).trans same.symm))
    dsimp only at index
    omega
  rw [Numbered.terminal, terminals, List.findIdx?_toArray, found, number]
  rfl

end ApiInventory.Syntax.Grammar

namespace ApiInventory.Source

/-! ## The layout -/

namespace Layout

variable {e : Expected} {c : Char} {cs front text : List Char}

/-- No quote stands at the front, and no letters that lead to one. -/
theorem opening_eq_none (plain : ∀ c ∈ text, isMark c = false) : opening text = none := by
  have left (q : Quote) (n : Nat) : ∀ c ∈ (flags q n text).2.2, isMark c = false := by
    induction text generalizing q n with
    | nil => exact List.forall_mem_nil _
    | cons c cs ih =>
        obtain ⟨-, later⟩ := List.forall_mem_cons.mp plain
        rw [flags]
        split
        · exact ih later _ _
        · split
          · exact ih later _ _
          · split
            · exact ih later _ _
            · split
              · exact ih later _ _
              · exact plain
  have here := left ⟨zero, false, false, false, false⟩ 0
  unfold opening
  split
  · rfl
  · rename_i q taken c cs found
    rw [found] at here
    have noMark : isMark c = false := here c List.mem_cons_self
    have noQuote : c ≠ '\x60' := by
      rintro rfl
      cases noMark
    rw [if_neg noQuote, noMark, if_neg Bool.false_ne_true]

/-- What blanks are passed in front of, and nothing else. -/
def EndsBlanks (c : Char) : Prop :=
  c ∉ ['\n', ' ', '\r', '\x0c', '\t', '#', '\\']

instance (c : Char) : Decidable (EndsBlanks c) := inferInstanceAs (Decidable (c ∉ _))

theorem passBlank_of_endsBlanks (ends : EndsBlanks c) (comments : Bool) (b : Blank) (n : Nat) :
    passBlank comments false b n (c :: cs) = some (b, n, c :: cs) := by
  simp only [EndsBlanks, List.mem_cons, List.not_mem_nil, or_false, not_or] at ends
  unfold passBlank
  simp [ends]

/-- No token of the layout stands in front of a token in a line, if that is no string. -/
theorem scan_eq_none (blank : ∀ c ∈ front, c = ' ') (ends : EndsBlanks c)
    (plain : ∀ d ∈ c :: cs, isMark d = false) : scan e initial (front ++ c :: cs) = none := by
  have passed (comments : Bool) (column n : Nat) : ∃ column' n',
      passBlank comments false ⟨false, column, none⟩ n (front ++ c :: cs) =
        some (⟨false, column', none⟩, n', c :: cs) := by
    induction front generalizing column n with
    | nil => exact ⟨column, n, passBlank_of_endsBlanks ends ..⟩
    | cons d front ih =>
        obtain ⟨rfl, later⟩ := List.forall_mem_cons.mp blank
        obtain ⟨column', n', passed⟩ := ih later (column + 1) (n + 1)
        refine ⟨column', n', ?_⟩
        rw [List.cons_append]
        unfold passBlank
        simpa using passed
  obtain ⟨column', n', passed⟩ := passed (e.indent || e.dedent || e.newline || e.handler) 0 0
  change scanBlank e initial 0 (front ++ c :: cs) = none
  unfold scanBlank
  dsimp only
  rw [passed]
  simp [opening_eq_none plain]

/-- At the end of the text the line ends, if it may. -/
theorem scan_end : scan e initial [] =
    if e.newline then some ⟨.newline, 0, [], initial⟩ else none := by
  have nothing : opening [] = none := rfl
  simp [scan, scanBlank, initial, passBlank, column, nothing]

end Layout

/-! ## Words and marks -/

namespace Vocabulary

variable {g : Syntax.Numbered} {literals : List String} {allowed : Nat → Bool} {layout : Layout}
variable {l name : String} {c : Char} {cs text rest : List Char} {passed : Nat}

/-- The numbers of the literals, as the lexer looks them up. -/
theorem lookup_numbers {p : String → Bool} (known : l ∈ literals) (kept : p l = true) :
    ((literals.map fun l => (l, g.terminal l)).filter fun l => p l.1).lookup l =
      some (g.terminal l) := by
  induction literals with
  | nil => cases known
  | cons first literals ih =>
      rw [List.map_cons, List.filter_cons]
      by_cases same : l = first
      · subst same
        simp [kept]
      · have later := ih ((List.mem_cons.mp known).resolve_left same)
        have other : (l == first) = false := by simpa using same
        split
        · rw [List.lookup_cons, other]
          exact later
        · exact later

theorem lookup_words (known : l ∈ literals) (word : isWord l = true) :
    (ofGrammar g literals).words.lookup l = some (g.terminal l) := lookup_numbers known word

theorem lookup_words_eq_none (unknown : l ∉ literals) :
    (ofGrammar g literals).words.lookup l = none := by
  rw [List.lookup_eq_none_iff]
  rintro ⟨l', n⟩ member
  obtain ⟨l'', inside, same⟩ := List.mem_map.mp (List.mem_filter.mp member).1
  obtain ⟨rfl, rfl⟩ := Prod.mk.inj same
  rw [bne_iff_ne]
  rintro rfl
  exact unknown inside

/-- A keyword that is reserved is never a name. -/
theorem word_of_reserved (known : l ∈ literals) (word : isWord l = true)
    (keyword : reserved.contains l = true) :
    (ofGrammar g literals).word allowed l = g.terminal l := by
  rw [Vocabulary.word, lookup_words known word]
  dsimp only
  rw [keyword, Bool.or_true, if_pos rfl]

/-- A word that is no keyword is a name. -/
theorem word_of_unknown (unknown : l ∉ literals) :
    (ofGrammar g literals).word allowed l = g.terminal "identifier" := by
  rw [Vocabulary.word, lookup_words_eq_none unknown]
  rfl

theorem not_isBlank_of_isStart (start : Identifier.isStart c = true) : isBlank c = false := by
  have unlisted : ∀ n ∈ [0x200b, 0x2060, 0xfeff],
      (Identifier.startRanges.toList.any fun r => r.1 ≤ n && n ≤ r.2) = false := by
    decide +kernel
  have far (d : Char) (large : ¬d.toNat < 128) (listed : d.toNat ∈ [0x200b, 0x2060, 0xfeff]) :
      Identifier.isStart d = false := by
    rw [Identifier.isStart, if_neg large, Identifier.inRanges, ← Array.any_toList]
    exact unlisted d.toNat listed
  have others : ∀ d ∈ [' ', '\u200b', '\u2060', '\ufeff'], Identifier.isStart d = false := by
    simp only [List.forall_mem_cons]
    exact ⟨by decide, far '\u200b' (by decide) (by decide), far '\u2060' (by decide) (by decide),
      far '\ufeff' (by decide) (by decide), List.forall_mem_nil _⟩
  rw [← Bool.not_eq_true]
  intro blank
  simp only [isBlank, Bool.or_eq_true, Bool.and_eq_true, decide_eq_true_eq, beq_iff_eq,
    or_assoc] at blank
  rcases blank with ⟨-, le⟩ | other
  · have small : c.toNat ≤ 13 := le
    have letter : c.isAlpha = false := by
      rw [← Bool.not_eq_true]
      intro letter
      simp only [Char.isAlpha, Char.isUpper, Char.isLower, Bool.or_eq_true, Bool.and_eq_true,
        decide_eq_true_eq, UInt32.le_iff_toNat_le] at letter
      have value : c.val.toNat = c.toNat := rfl
      rw [value] at letter
      rcases letter with ⟨lower, -⟩ | ⟨lower, -⟩
      · have bound : 65 ≤ c.toNat := lower
        omega
      · have bound : 97 ≤ c.toNat := lower
        omega
    have under : c ≠ '_' := by
      rintro rfl
      exact absurd small (by decide)
    rw [Identifier.isStart, if_pos (by omega), letter] at start
    simp [under] at start
  · rw [others c (by simpa using other)] at start
    cases start

/-- A word at the front, with nothing behind it that would go on with it. -/
theorem plain_word (v : Vocabulary) (word : isWord name = true)
    (format : allowed v.formatText = false)
    (ends : ∀ d ∈ rest.head?, Identifier.isContinue d = false) :
    v.plain allowed layout passed (name.toList ++ rest) =
      some ⟨.terminal (v.word allowed name), name, passed + name.toList.length, rest, layout⟩ := by
  unfold isWord at word
  split at word
  · cases word
  · rename_i c cs spelled
    obtain ⟨start, later⟩ := Bool.and_eq_true_iff.mp word
    have whole : (cs ++ rest).takeWhile Identifier.isContinue = cs := by
      rw [List.takeWhile_append_of_pos (by simpa using later)]
      cases rest with
      | nil => simp
      | cons d rest => simp [ends d (by simp)]
    have text : String.ofList (c :: cs) = name := by
      rw [← spelled, String.ofList_toList]
    rw [spelled, List.cons_append, plain, format, not_isBlank_of_isStart start]
    simp only [Bool.false_and, Bool.false_eq_true, if_false]
    rw [candidates, if_pos start]
    simp [longest, whole, text]

/-- Blanks in front of a token are passed. -/
theorem plain_blank (v : Vocabulary) (format : allowed v.formatText = false) (text : List Char) :
    v.plain allowed layout passed (' ' :: text) = v.plain allowed layout (passed + 1) text := by
  have blank : isBlank ' ' = true := by decide
  rw [plain, format, blank]
  simp

theorem find?_eq_some_of_unique {α : Type} {p : α → Bool} {l : List α} {x : α} (member : x ∈ l)
    (holds : p x = true) (unique : ∀ y ∈ l, p y = true → y = x) : l.find? p = some x := by
  cases found : l.find? p with
  | none => exact absurd holds (by simpa using List.find?_eq_none.mp found x member)
  | some y => rw [unique y (List.mem_of_find?_eq_some found) (List.find?_some found)]

theorem mem_marks_iff {m : List Char × Nat} : m ∈ (ofGrammar g literals).marks ↔
    ∃ l ∈ literals, isWord l = false ∧ m = (l.toList, g.terminal l) := by
  have marks : (ofGrammar g literals).marks =
      (((literals.map fun l => (l, g.terminal l)).filter fun l => !isWord l.1).map
        fun p => (p.1.toList, p.2)).mergeSort fun a b => b.1.length ≤ a.1.length := rfl
  rw [marks, (List.mergeSort_perm ..).mem_iff]
  constructor
  · intro member
    obtain ⟨⟨l, n⟩, inside, rfl⟩ := List.mem_map.mp member
    obtain ⟨inside, kept⟩ := List.mem_filter.mp inside
    obtain ⟨l', known, same⟩ := List.mem_map.mp inside
    obtain ⟨rfl, rfl⟩ := Prod.mk.inj same
    exact ⟨l', known, by simpa using kept, rfl⟩
  · rintro ⟨l, known, word, rfl⟩
    exact List.mem_map.mpr ⟨(l, g.terminal l), List.mem_filter.mpr
      ⟨List.mem_map.mpr ⟨l, known, rfl⟩, by simpa using word⟩, rfl⟩

/-- At the front of the text nothing but a mark of one character can be read. -/
structure MarkedBy (literals : List String) (c : Char) (cs : List Char) : Prop where
  known : String.singleton c ∈ literals
  noWord : Identifier.isStart c = false
  noBlank : isBlank c = false
  ends : Layout.EndsBlanks c
  noConversion : c ≠ '!'
  quiet : (c :: cs).any Layout.isMark = false
  unique : ∀ l ∈ literals, isWord l = false → startsWith l.toList (c :: cs) = true →
    l = String.singleton c
  noInteger : Number.integer (c :: cs) = none
  noFloat : Number.float (c :: cs) = none

instance (literals : List String) (c : Char) (cs : List Char) :
    Decidable (MarkedBy literals c cs) :=
  decidable_of_iff (_ ∧ _ ∧ _ ∧ _ ∧ _ ∧ _ ∧ _ ∧ _ ∧ _)
    ⟨fun ⟨a, b, c, d, e, f, g, h, i⟩ => ⟨a, b, c, d, e, f, g, h, i⟩,
      fun ⟨a, b, c, d, e, f, g, h, i⟩ => ⟨a, b, c, d, e, f, g, h, i⟩⟩

theorem plain_mark (marked : MarkedBy literals c cs)
    (format : allowed (ofGrammar g literals).formatText = false)
    (may : allowed (g.terminal (String.singleton c)) = true) :
    (ofGrammar g literals).plain allowed layout passed (c :: cs) =
      some ⟨.terminal (g.terminal (String.singleton c)), String.singleton c, passed + 1, cs,
        layout⟩ := by
  have spelled : (String.singleton c).toList = [c] := String.toList_singleton c
  have noWord : isWord (String.singleton c) = false := by
    rw [isWord, spelled]
    simp [marked.noWord]
  have found : (ofGrammar g literals).marks.find?
      (fun p => startsWith p.1 (c :: cs) && allowed p.2) =
        some ([c], g.terminal (String.singleton c)) := by
    refine find?_eq_some_of_unique
      (mem_marks_iff.mpr ⟨_, marked.known, noWord, by rw [spelled]⟩) ?_ ?_
    · simp [startsWith, may]
    · intro m member holds
      obtain ⟨l, known, word, rfl⟩ := mem_marks_iff.mp member
      obtain rfl := marked.unique l known word (Bool.and_eq_true_iff.mp holds).1
      rw [spelled]
  have comment : c ≠ '#' := fun same => marked.ends (by simp [same])
  have backslash : c ≠ '\\' := fun same => marked.ends (by simp [same])
  have escape : Escape.length (c :: cs) = none := by
    unfold Escape.length
    split
    · rename_i same
      exact absurd (List.cons.inj same).1 backslash
    · rfl
  have join : lineJoin (c :: cs) = none := by
    unfold lineJoin
    split <;> first | rfl | (rename_i same; exact absurd (List.cons.inj same).1 backslash)
  rw [plain, format, marked.noBlank]
  simp only [Bool.false_and, Bool.false_eq_true, if_false]
  rw [candidates, marked.noWord, if_neg Bool.false_ne_true, found]
  simp [comment, backslash, marked.noConversion, escape, join, marked.noInteger, marked.noFloat,
    longest]

/-! ## The next token -/

theorem isStart_or_isContinue_of_isWord (word : isWord name = true) :
    ∃ c cs, name.toList = c :: cs ∧ Identifier.isStart c = true ∧
      ∀ d ∈ cs, Identifier.isContinue d = true := by
  unfold isWord at word
  split at word
  · cases word
  · rename_i c cs spelled
    obtain ⟨start, later⟩ := Bool.and_eq_true_iff.mp word
    exact ⟨c, cs, spelled, start, List.all_eq_true.mp later⟩

theorem ne_of_isStart {d : Char} (start : Identifier.isStart c = true)
    (other : Identifier.isStart d = false) : c ≠ d := by
  rintro rfl
  rw [start] at other
  cases other

theorem ne_of_isContinue {d : Char} (continues : Identifier.isContinue c = true)
    (other : Identifier.isContinue d = false) : c ≠ d := by
  rintro rfl
  rw [continues] at other
  cases other

/-- No quote stands in a word. -/
theorem isMark_eq_false_of_isWord (word : isWord name = true) :
    ∀ d ∈ name.toList, Layout.isMark d = false := by
  obtain ⟨c, cs, spelled, start, later⟩ := isStart_or_isContinue_of_isWord word
  rw [spelled]
  refine List.forall_mem_cons.mpr ⟨?_, fun d inside => ?_⟩
  · simp [Layout.isMark, ne_of_isStart (d := '\x22') start (by decide),
      ne_of_isStart (d := '\x27') start (by decide), ne_of_isStart (d := '\x60') start (by decide)]
  · have continues := later d inside
    simp [Layout.isMark, ne_of_isContinue (d := '\x22') continues (by decide),
      ne_of_isContinue (d := '\x27') continues (by decide),
      ne_of_isContinue (d := '\x60') continues (by decide)]

theorem endsBlanks_of_isStart (start : Identifier.isStart c = true) : Layout.EndsBlanks c := by
  have others : ∀ d ∈ ['\n', ' ', '\r', '\x0c', '\t', '#', '\\'], Identifier.isStart d = false := by
    simp only [List.forall_mem_cons]
    exact ⟨by decide, by decide, by decide, by decide, by decide, by decide, by decide,
      List.forall_mem_nil _⟩
  intro inside
  exact ne_of_isStart start (others c inside) rfl

/-- A word is read, with blanks in front of it. -/
theorem next_word (v : Vocabulary) (word : isWord name = true)
    (format : allowed v.formatText = false) (blank : ∀ d ∈ front, d = ' ')
    (ends : ∀ d ∈ rest.head?, Identifier.isContinue d = false)
    (quiet : ∀ d ∈ rest, Layout.isMark d = false) :
    v.next allowed .initial (front ++ (name.toList ++ rest)) =
      some ⟨.terminal (v.word allowed name), name, front.length + name.toList.length, rest,
        .initial⟩ := by
  have silent : Layout.scan (v.expected allowed) .initial (front ++ (name.toList ++ rest)) =
      none := by
    obtain ⟨c, cs, spelled, start, -⟩ := isStart_or_isContinue_of_isWord word
    have none := isMark_eq_false_of_isWord word
    rw [spelled] at none ⊢
    refine Layout.scan_eq_none blank (endsBlanks_of_isStart start) fun d inside => ?_
    have parts : d ∈ (c :: cs) ++ rest := inside
    rcases List.mem_append.mp parts with here | later
    · exact none d here
    · exact quiet d later
  have passed (n : Nat) : v.plain allowed .initial n (front ++ (name.toList ++ rest)) =
      some ⟨.terminal (v.word allowed name), name, n + front.length + name.toList.length, rest,
        .initial⟩ := by
    clear silent
    induction front generalizing n with
    | nil => exact plain_word v word format ends
    | cons d front ih =>
        obtain ⟨rfl, later⟩ := List.forall_mem_cons.mp blank
        rw [List.cons_append, plain_blank v format, ih later, List.length_cons, Nat.add_assoc n 1,
          Nat.add_comm 1]
  rw [next, silent]
  dsimp only
  rw [passed, Nat.zero_add]

/-- A mark is read. -/
theorem next_mark (marked : MarkedBy literals c cs)
    (format : allowed (ofGrammar g literals).formatText = false)
    (may : allowed (g.terminal (String.singleton c)) = true) :
    (ofGrammar g literals).next allowed .initial (c :: cs) =
      some ⟨.terminal (g.terminal (String.singleton c)), String.singleton c, 1, cs, .initial⟩ := by
  have silent : Layout.scan ((ofGrammar g literals).expected allowed) .initial (c :: cs) = none :=
    Layout.scan_eq_none (List.forall_mem_nil _) marked.ends (by simpa using marked.quiet)
  rw [next, silent]
  exact plain_mark marked format may

/-- The line ends, if it may, before the text does. -/
theorem next_end (v : Vocabulary) (allowed : Nat → Bool) :
    v.next allowed .initial [] =
      if allowed v.newline then some ⟨.terminal v.newline, "", 0, [], .initial⟩
      else if allowed 0 then some ⟨.terminal 0, "", 0, [], .initial⟩ else none := by
  rw [next, Layout.scan_end]
  have newline : (v.expected allowed).newline = allowed v.newline := rfl
  rw [newline]
  by_cases line : allowed v.newline = true
  · rw [if_pos line, if_pos line]
    rfl
  · rw [if_neg line, if_neg line]
    rfl

end Vocabulary

end ApiInventory.Source
