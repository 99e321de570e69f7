import ApiInventory.Json.Printer
import ApiInventory.Proofs.Json.Grammar
import ApiInventory.Proofs.Text.Decimal

/-!
# JSON that is read as it was written

What is written for a value stands for it in the sense of the grammar, as long as all its strings
have texts and its numbers are spelled as numbers (`Plain.spells`), and so it is read back
(`read?_write`), in the compact form and in the pretty one. A value keeps the spelling of a number,
whatever that is; the decimal digits of a natural number are such a spelling (`Plain.natural`).
-/

namespace ApiInventory.Json

/-- A style that sets items apart by blanks. -/
structure Style.IsBlank (style : Style) : Prop where
  gap : ∀ depth, Blanks (style.gap depth)
  colon : ∃ blanks, style.colon = ':' :: blanks ∧ Blanks blanks

theorem compactStyle_isBlank : compactStyle.IsBlank where
  gap _ := nofun
  colon := ⟨[], rfl, nofun⟩

theorem prettyStyle_isBlank : prettyStyle.IsBlank where
  gap depth := by
    intro c member
    rcases List.mem_cons.mp member with rfl | member
    · rfl
    · obtain rfl := List.eq_of_mem_replicate member
      rfl
  colon := ⟨[' '], rfl, by simp [Blanks, isSpace]⟩

/-! ## Strings -/

theorem unit?_control : ∀ n < 0x20,
    unit? [some '0', some '0', some (hexDigit (n / 16)), some (hexDigit (n % 16))] =
      some (n, []) := by
  decide

/-- A character is written in one of the ways to spell it. -/
theorem spellsChar_escaped (c : Char) : SpellsChar (escaped c) c := by
  by_cases named :
      c = '\x22' ∨ c = '\\' ∨ c = '\x08' ∨ c = '\t' ∨ c = '\n' ∨ c = '\x0c' ∨ c = '\r'
  · rcases named with rfl | rfl | rfl | rfl | rfl | rfl | rfl
    all_goals exact .short (by decide)
  · obtain ⟨noQuote, noBackslash, noBackspace, noTab, noLine, noForm, noReturn⟩ :
        c ≠ '\x22' ∧ c ≠ '\\' ∧ c ≠ '\x08' ∧ c ≠ '\t' ∧ c ≠ '\n' ∧ c ≠ '\x0c' ∧ c ≠ '\r' := by
      simpa using named
    unfold escaped
    rw [if_neg noQuote, if_neg noBackslash, if_neg noBackspace, if_neg noTab, if_neg noLine,
      if_neg noForm, if_neg noReturn]
    by_cases control : c.toNat < 0x20
    · obtain ⟨digits, -⟩ := unit?_eq_some_iff.mp (unit?_control c.toNat control)
      have whole : ¬IsHigh c.toNat ∧ ¬IsLow c.toNat := by
        rw [IsHigh, IsLow]
        omega
      have spells := SpellsChar.unit digits whole
      rw [if_pos control]
      rwa [Char.ofNat_toNat] at spells
    · rw [if_neg control]
      exact .plain noQuote noBackslash (Nat.le_of_not_lt control)

theorem spellsText_escaped (text : List Char) : SpellsText (text.flatMap escaped) text := by
  induction text with
  | nil => exact .nil
  | cons c text ih => exact .cons (spellsChar_escaped c) ih

/-! ## Values -/

/-- Values all of whose strings have texts and all of whose numbers are spelled as numbers. -/
inductive Plain : Json → Prop
  | null : Plain .null
  | bool (value : Bool) : Plain (.bool value)
  | number {spelling : String} (number : IsNumber spelling.toList) : Plain (.number spelling)
  | string (text : String) : Plain (.string (some text))
  | array {items : List Json} (plain : ∀ v ∈ items, Plain v) : Plain (.array items)
  | object {members : List (Option String × Json)} (keys : ∀ m ∈ members, m.1.isSome)
      (plain : ∀ m ∈ members, Plain m.2) : Plain (.object members)

/-- Only zero begins with a zero. -/
theorem head?_toDigits_ne {n : Nat} (positive : 0 < n) : (Nat.toDigits 10 n).head? ≠ some '0' := by
  induction n using Nat.strongRecOn with
  | ind n ih =>
      by_cases small : n < 10
      · rw [Nat.toDigits_of_lt_base small]
        simpa using positive.ne'
      · have front := ih (n / 10) (by omega) (by omega)
        rw [Nat.toDigits_of_base_le (by omega) (by omega), List.head?_append]
        rcases first : (Nat.toDigits 10 (n / 10)).head? with _ | c
        · exact absurd (List.head?_eq_none_iff.mp first) Nat.toDigits_ne_nil
        · rwa [first] at front

/-- The digits of a number are a number. -/
theorem isNumber_toString (n : Nat) : IsNumber (toString n).toList := by
  have whole : IsWhole (toString n).toList := by
    by_cases zero : n = 0
    · subst zero
      exact .inl (Text.toList_toString 0)
    · refine .inr ⟨⟨Text.toList_toString_ne_nil n, fun c => Text.isDigit_of_mem_toString⟩, ?_⟩
      rw [Text.toList_toString]
      exact head?_toDigits_ne (by omega)
  exact ⟨[], _, [], [], by simp, .inl rfl, whole, .inl rfl, .inl rfl⟩

theorem Plain.natural (n : Nat) : Plain (.natural n) := .number (isNumber_toString n)

variable {style : Style} {depth : Nat}

/-- What is written behind the first item between brackets. -/
def following (style : Style) (depth : Nat) (closing : Char) (items : List (List Char)) :
    List Char :=
  (items.flatMap fun i => ',' :: (style.gap (depth + 1) ++ i)) ++ (style.gap depth ++ [closing])

theorem following_nil (closing : Char) :
    following style depth closing [] = style.gap depth ++ [closing] := rfl

theorem following_cons (closing : Char) (item : List Char) (items : List (List Char)) :
    following style depth closing (item :: items) =
      ',' :: (style.gap (depth + 1) ++ (item ++ following style depth closing items)) := by
  simp [following]

theorem bracketed_cons (opening closing : Char) (item : List Char) (items : List (List Char)) :
    bracketed style depth opening closing (item :: items) =
      opening :: (style.gap (depth + 1) ++ (item ++ following style depth closing items)) := by
  simp [bracketed, following]

theorem spellsItems_written (blank : style.IsBlank) {v : Json} {vs : List Json}
    (spells : ∀ w ∈ v :: vs, Spells (write style (depth + 1) w) w) :
    ∃ s, style.gap (depth + 1) ++ (write style (depth + 1) v ++
        following style depth ']' (writeItems style (depth + 1) vs)) = s ++ [']'] ∧
      SpellsItems s (v :: vs) := by
  have first := spells v List.mem_cons_self
  induction vs generalizing v with
  | nil =>
      refine ⟨_, ?_, .one (.intro (blank.gap (depth + 1)) first (blank.gap depth))⟩
      rw [writeItems, following_nil]
      simp
  | cons w ws ih =>
      obtain ⟨s, written, items⟩ := ih (fun x member => spells x (List.mem_cons_of_mem v member))
        (spells w (by simp))
      refine ⟨_, ?_, .more (.intro (blank.gap (depth + 1)) first blanks_nil) items⟩
      rw [writeItems, following_cons, written]
      simp

/-- What is written for a member of an object. -/
def writeMember (style : Style) (depth : Nat) (m : Option String × Json) : List Char :=
  keyText m.1 ++ style.colon ++ write style depth m.2

theorem writeMembers_cons (m : Option String × Json) (ms : List (Option String × Json)) :
    writeMembers style depth (m :: ms) =
      writeMember style depth m :: writeMembers style depth ms := by
  rw [writeMembers, writeMember]

/-- A member is written behind blanks and before blanks. -/
theorem spellsMember_written (blank : style.IsBlank) {m : Option String × Json}
    (named : m.1.isSome) (spells : Spells (write style depth m.2) m.2) {a b : List Char}
    (before : Blanks a) (behind : Blanks b) :
    SpellsMember (a ++ (writeMember style depth m ++ b)) m := by
  obtain ⟨_ | key, v⟩ := m
  · cases named
  obtain ⟨blanks, colon, between⟩ := blank.colon
  have member := SpellsMember.intro before (spellsText_escaped key.toList) blanks_nil
    (.intro between spells behind)
  rw [String.ofList_toList] at member
  simpa [writeMember, keyText, quotedText, quoted, colon] using member

theorem spellsMembers_written (blank : style.IsBlank) {m : Option String × Json}
    {ms : List (Option String × Json)} (keys : ∀ n ∈ m :: ms, n.1.isSome)
    (spells : ∀ n ∈ m :: ms, Spells (write style (depth + 1) n.2) n.2) :
    ∃ s, style.gap (depth + 1) ++ (writeMember style (depth + 1) m ++
        following style depth '\x7d' (writeMembers style (depth + 1) ms)) = s ++ ['\x7d'] ∧
      SpellsMembers s (m :: ms) := by
  have first {b : List Char} (behind : Blanks b) :=
    spellsMember_written blank (keys m List.mem_cons_self) (spells m List.mem_cons_self)
      (blank.gap (depth + 1)) behind
  induction ms generalizing m with
  | nil =>
      refine ⟨_, ?_, .one (first (blank.gap depth))⟩
      rw [writeMembers, following_nil]
      simp
  | cons n ns ih =>
      have keys' := fun x member => keys x (List.mem_cons_of_mem m member)
      have spells' := fun x member => spells x (List.mem_cons_of_mem m member)
      obtain ⟨s, written, members⟩ := ih keys' spells' fun {b} behind =>
        spellsMember_written blank (keys' n List.mem_cons_self) (spells' n List.mem_cons_self)
          (blank.gap (depth + 1)) behind
      refine ⟨_, ?_, .more (first blanks_nil) members⟩
      rw [writeMembers_cons, following_cons, written]
      simp

/-- What is written for a value stands for it. -/
theorem Plain.spells (blank : style.IsBlank) {v : Json} (plain : Plain v) (depth : Nat) :
    Spells (write style depth v) v := by
  induction plain generalizing depth with
  | null => rw [write]; exact .null
  | bool value =>
      cases value
      · rw [write]; exact .no
      · rw [write]; exact .yes
  | @number spelling number =>
      have spells := Spells.number number
      rw [String.ofList_toList] at spells
      rw [write]
      exact spells
  | string text =>
      have spells := Spells.string (spellsText_escaped text.toList)
      rw [String.ofList_toList] at spells
      rw [write, keyText, quotedText, quoted]
      exact spells
  | @array items plain ih =>
      rw [write]
      cases items with
      | nil => exact .emptyArray blanks_nil
      | cons v vs =>
          obtain ⟨s, written, spells⟩ :=
            spellsItems_written blank fun w member => ih w member (depth + 1)
          rw [writeItems, bracketed_cons, written]
          exact .array spells
  | @object members keys plain ih =>
      rw [write]
      cases members with
      | nil => exact .emptyObject blanks_nil
      | cons m ms =>
          obtain ⟨s, written, spells⟩ :=
            spellsMembers_written blank keys fun n member => ih n member (depth + 1)
          rw [writeMembers_cons, bracketed_cons, written]
          exact .object spells

theorem read?_write (blank : style.IsBlank) {v : Json} (plain : Plain v) {last : List Char}
    (behind : Blanks last) : read? (marks (write style depth v ++ last)) = some v := by
  have padded : SpellsPadded (write style depth v ++ last) v :=
    .intro blanks_nil (plain.spells blank depth) behind
  exact (read?_marks_iff.mpr padded).1

theorem ofText?_compact {v : Json} (plain : Plain v) : ofText? v.compact = some v := by
  have read : read? (marks (write compactStyle 0 v ++ [])) = some v :=
    read?_write compactStyle_isBlank plain (by simp [Blanks])
  rw [List.append_nil] at read
  rw [ofText?, compact, String.toList_ofList]
  exact read

/-- A text is read back with blanks behind it. -/
theorem ofText?_pretty {v : Json} (plain : Plain v) {last : String} (behind : Blanks last.toList) :
    ofText? (v.pretty ++ last) = some v := by
  rw [ofText?, pretty, String.toList_append, String.toList_ofList]
  exact read?_write prettyStyle_isBlank plain behind

end ApiInventory.Json
