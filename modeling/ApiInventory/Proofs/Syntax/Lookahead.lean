import ApiInventory.Proofs.Syntax.Productions
import Mathlib

/-!
# What may come next

The construction of the automaton works out by rounds which symbols may stand for no text, which
terminals a symbol may begin with, and which symbols may begin where another one does. Here it is
said what comes of the rounds in a grammar of which only the start symbol may stand for no text,
and only at the start (`Grammar.Solid`): a state holds no items but those of its kernel and those
of symbols that may begin there (`Grammar.mem_closure`), with no other lookahead than what may
follow them (`Grammar.Ahead`); and it holds the items that it should
(`Grammar.Passes.begins_in_closure`).
-/

namespace ApiInventory.Syntax

/-! ## Rounds -/

namespace Numbered

variable {α : Type} [BEq α] {step : α → α}

/-- What a round keeps is kept. -/
theorem saturate_keeps {P : α → Prop} (keeps : ∀ x, P x → P (step x)) (fuel : Nat) {x : α}
    (h : P x) : P (saturate step fuel x) := by
  induction fuel generalizing x with
  | zero => exact h
  | succ fuel ih =>
      rw [saturate]
      split
      · exact h
      · exact ih (keeps x h)

/-- What is reached by some rounds is reached, also if the rounds end early. -/
theorem saturate_reaches [LawfulBEq α] {P : Nat → α → Prop}
    (onward : ∀ n x, P n x → P (n + 1) (step x)) (fuel : Nat) {n : Nat} {x : α} (h : P n x) :
    P (n + fuel) (saturate step fuel x) := by
  induction fuel generalizing n x with
  | zero => exact h
  | succ fuel ih =>
      rw [saturate]
      split
      · rename_i same
        have still : step x = x := beq_iff_eq.mp same
        have reached : ∀ m, P (n + m) x := by
          intro m
          induction m with
          | zero => exact h
          | succ m ih =>
              have next := onward _ _ ih
              rwa [still] at next
        exact reached (fuel + 1)
      · have next := ih (onward n x h)
        rwa [Nat.add_right_comm] at next

end Numbered

namespace Grammar

/-- Only the start symbol may stand for no text, and it stands nowhere but at the start. -/
structure Solid (g : Grammar) : Prop where
  closed : g.Closed
  separate : g.Separate
  empty : ∀ e ∈ g.productionList, e.2.steps = [] → e.1 = .named g.start
  unused : ∀ e ∈ g.productionList, ∀ s ∈ e.2.steps, s.symbol ≠ .named g.start

variable {g : Grammar} {k : List Item} {x y : Symbol} {b : Body} {s : Step} {n : Nat}

theorem Solid.mem_symbols (h : g.Solid) (member : (x, b) ∈ g.productionList)
    (step : s ∈ b.steps) : s.symbol ∈ g.symbols := by
  obtain ⟨nonterminal, production⟩ := mem_productionList_iff.mp member
  exact h.closed.mem_symbols nonterminal production step

theorem Solid.start_mem (h : g.Solid) : .named g.start ∈ g.nonterminals :=
  named_mem_nonterminals_iff.mpr h.closed.start

/-! ## Symbols that may stand for no text -/

/-- Only the start symbol is found to stand for no text. -/
theorem Solid.eq_number_of_vanishing (h : g.Solid)
    (vanishes : g.numbered.analysis.vanishing.getD n false = true) :
    n = g.number (.named g.start) := by
  let only (known : Array Bool) : Prop :=
    ∀ n, known.getD n false = true → n = g.number (.named g.start)
  have nothing : only (Array.replicate g.numbered.symbolCount false) := by
    intro n known
    rw [Array.getD_eq_getD_getElem?, Array.getElem?_replicate] at known
    split at known <;> simp at known
  refine Numbered.saturate_keeps (P := only) (fun known only => ?_) _ nothing n vanishes
  rw [Numbered.vanishingRound, ← Array.foldl_toList, productions_eq, List.toList_toArray,
    List.foldl_map]
  refine List.foldlRecOn _ _ only fun known only e member => ?_
  split
  · rename_i vanish
    -- a production with a step has one that does not vanish
    have steps : e.2.steps = [] := by
      by_contra some
      obtain ⟨s, later, steps⟩ := List.exists_cons_of_ne_nil some
      have inside : s ∈ e.2.steps := steps ▸ List.mem_cons_self
      have found : known.getD (g.number s.symbol) false = true := by
        rw [Array.all_eq_true_iff_forall_mem] at vanish
        exact vanish (g.slot s) (List.mem_toArray.mpr (List.mem_map_of_mem inside))
      have start := List.mem_append_right g.terminals h.start_mem
      have same := number_inj (h.mem_symbols member inside) start (only _ found)
      exact h.unused e member s inside same
    intro n found
    rw [Array.getD_eq_getD_getElem?, Array.getElem?_setIfInBounds] at found
    split at found
    · rename_i here
      rw [← here]
      exact congrArg g.number (h.empty e member steps)
    · exact only n (by rwa [Array.getD_eq_getD_getElem?])
  · exact only

/-- The terminals that the first of some steps begins with. Nothing can be passed over. -/
def leadOf (g : Grammar) (first : Array TerminalSet) : List Step → TerminalSet × Bool
  | [] => (0, true)
  | s :: _ => (first.getD (g.number s.symbol) 0, false)

/-- The terminals that steps are found to begin with are those of the first one. -/
theorem Solid.firstOf_eq (h : g.Solid) (first : Array TerminalSet) {steps : List Step}
    (known : ∀ s ∈ steps, ∃ e ∈ g.productionList, s ∈ e.2.steps) :
    Numbered.firstOf g.numbered.analysis.vanishing first (steps.map g.slot) =
      g.leadOf first steps := by
  cases steps with
  | nil => rfl
  | cons s later =>
      obtain ⟨e, member, step⟩ := known s List.mem_cons_self
      have stays : g.numbered.analysis.vanishing.getD (g.slot s).symbol false = false := by
        rw [← Bool.not_eq_true]
        intro vanishes
        have start := List.mem_append_right g.terminals h.start_mem
        have same := number_inj (h.mem_symbols member step) start
          (h.eq_number_of_vanishing vanishes)
        exact h.unused e member s step same
      rw [List.map_cons, Numbered.firstOf, stays]
      rfl

/-! ## Terminals to begin with -/

/-- A text of the symbol may begin with the terminal. -/
inductive Begins (g : Grammar) : Symbol → Symbol → Prop
  | here {x : Symbol} (terminal : x ∈ g.terminals) : Begins g x x
  | lead {x y : Symbol} {b : Body} {s : Step} {later : List Step}
      (member : (x, b) ∈ g.productionList) (steps : b.steps = s :: later)
      (begins : Begins g s.symbol y) : Begins g x y

theorem Begins.mem_terminals (h : g.Begins x y) : y ∈ g.terminals := by
  induction h with
  | here terminal => exact terminal
  | lead _ _ _ ih => exact ih

/-- Of a terminal only the terminal itself is found, and of each it is found. -/
theorem first_start (g : Grammar) (n : Nat) :
    ((List.range g.numbered.symbolCount).map fun n =>
        if g.numbered.isTerminal n then TerminalSet.single n else 0).toArray.getD n 0 =
      if n < g.numbered.symbolCount ∧ g.numbered.isTerminal n then TerminalSet.single n else 0 := by
  rw [Array.getD_eq_getD_getElem?, List.getElem?_toArray, List.getElem?_map]
  by_cases small : n < g.numbered.symbolCount
  · simp [small]
  · simp [small]

theorem testBit_single (t n : Nat) : (TerminalSet.single t).testBit n = decide (n = t) := by
  rw [TerminalSet.single, Nat.shiftLeft_eq, Nat.one_mul, Nat.testBit_two_pow]
  simp only [eq_comm]

theorem first_eq (g : Grammar) : g.numbered.analysis.first =
    Numbered.saturate (g.numbered.firstRound g.numbered.analysis.vanishing)
      (g.numbered.symbolCount * g.numbered.symbolCount)
      ((List.range g.numbered.symbolCount).map fun n =>
        if g.numbered.isTerminal n then TerminalSet.single n else 0).toArray := rfl

theorem firstRound_eq (g : Grammar) (vanishing : Array Bool) (first : Array TerminalSet) :
    g.numbered.firstRound vanishing first = g.productionList.foldl
      (fun first e => first.modify (g.number e.1)
        ((Numbered.firstOf vanishing first (e.2.steps.map g.slot)).1 ||| ·)) first := by
  rw [Numbered.firstRound, ← Array.foldl_toList, productions_eq, List.toList_toArray,
    List.foldl_map]
  rfl

theorem Solid.begins_of_first (h : g.Solid) (known : x ∈ g.symbols)
    (found : (g.numbered.analysis.first.getD (g.number x) 0).testBit n = true) :
    ∃ y, g.number y = n ∧ g.Begins x y := by
  let sound (first : Array TerminalSet) : Prop := ∀ x ∈ g.symbols, ∀ n,
    (first.getD (g.number x) 0).testBit n = true → ∃ y, g.number y = n ∧ g.Begins x y
  rw [first_eq] at found
  refine Numbered.saturate_keeps (P := sound) (fun first sound => ?_) _ ?_ x known n found
  · rw [firstRound_eq]
    refine List.foldlRecOn _ _ sound fun first sound e member x known n found => ?_
    rw [Array.getD_eq_getD_getElem?, Array.getElem?_modify] at found
    split at found
    · rename_i same
      obtain rfl : e.1 = x := number_inj
        (List.mem_append_right _ (mem_productionList_iff.mp member).1) known same
      have steps : ∀ s ∈ e.2.steps, ∃ e ∈ g.productionList, s ∈ e.2.steps :=
        fun s step => ⟨e, member, step⟩
      rw [h.firstOf_eq first steps] at found
      cases place : first[g.number e.1]? with
      | none => simp [place] at found
      | some old =>
          rw [place, Option.map_some, Option.getD_some, Nat.testBit_or, Bool.or_eq_true] at found
          rcases found with new | earlier
          · cases front : e.2.steps with
            | nil => simp [front, leadOf] at new
            | cons s later =>
                have step : s ∈ e.2.steps := front ▸ List.mem_cons_self
                rw [front] at new
                obtain ⟨y, number, begins⟩ := sound s.symbol (h.mem_symbols member step) n new
                exact ⟨y, number, .lead member front begins⟩
          · exact sound e.1 known n (by rwa [Array.getD_eq_getD_getElem?, place])
    · exact sound x known n (by rwa [Array.getD_eq_getD_getElem?])
  · intro x known n found
    rw [first_start] at found
    split at found
    · rename_i terminal
      rw [testBit_single, decide_eq_true_eq] at found
      exact ⟨x, found.symm, .here (mem_terminals_of_isTerminal known terminal.2)⟩
    · simp at found

/-- A terminal begins with itself. -/
theorem Solid.first_of_terminal (h : g.Solid) (terminal : x ∈ g.terminals) :
    (g.numbered.analysis.first.getD (g.number x) 0).testBit (g.number x) = true := by
  let has (first : Array TerminalSet) : Prop :=
    (first.getD (g.number x) 0).testBit (g.number x) = true
  have known : x ∈ g.symbols := List.mem_append_left _ terminal
  rw [first_eq]
  refine Numbered.saturate_keeps (P := has) (fun first start => ?_) _ ?_
  · rw [firstRound_eq]
    refine List.foldlRecOn (motive := has) _ _ start fun first before e member => ?_
    unfold has at before ⊢
    rw [Array.getD_eq_getD_getElem?] at before ⊢
    rw [Array.getElem?_modify]
    split
    · cases place : first[g.number x]? with
      | none => simp [place] at before
      | some old =>
          rw [place, Option.getD_some] at before
          rw [Option.map_some, Option.getD_some, Nat.testBit_or, before, Bool.or_true]
    · exact before
  · unfold has
    rw [first_start,
      if_pos ⟨number_lt known, (isTerminal_number_iff h.separate known).mpr terminal⟩,
      testBit_single, decide_eq_true_eq]

/-! ## Symbols that may begin where another one does -/

end Grammar

namespace Numbered

/-- What a round does with a choice of a symbol that may begin. -/
def openingStep (g : Numbered) (vanishing : Array Bool) (first : Array TerminalSet)
    (known : TerminalSet × Bool) (reached : Array (Option (TerminalSet × Bool))) (p : Nat) :
    Array (Option (TerminalSet × Bool)) :=
  match (g.slots p).toList with
  | [] => reached
  | s :: rest =>
    if g.isTerminal s.symbol then reached
    else
      let (next, passed) := firstOf vanishing first rest
      let ahead := if passed then next ||| known.1 else next
      reached.modify s.symbol fun old =>
        match old with
        | none => some (ahead, known.2 && passed)
        | some (a, t) => some (a ||| ahead, t || (known.2 && passed))

theorem openingRound_eq (g : Numbered) (vanishing : Array Bool) (first : Array TerminalSet)
    (reached : Array (Option (TerminalSet × Bool))) :
    g.openingRound vanishing first reached = (List.range g.symbolCount).foldl
      (fun reached n =>
        match reached.getD n none with
        | none => reached
        | some known =>
          (g.choicesOf n).foldl (g.openingStep vanishing first known) reached) reached := by
  unfold openingRound
  congr 1
  funext reached n
  rcases reached.getD n none with _ | ⟨ahead, through⟩
  · rfl
  · rfl

end Numbered

/-- Folding over a list with some entry comes to what the entry leads to. -/
theorem foldl_gets {α β : Type} {f : β → α → β} {Q R : β → Prop} {i : α}
    (keeps : ∀ b a, Q b → Q (f b a)) (stays : ∀ b a, R b → R (f b a))
    (gets : ∀ b, Q b → R (f b i)) {l : List α} (member : i ∈ l) {b : β} (h : Q b) :
    R (l.foldl f b) := by
  induction l generalizing b with
  | nil => cases member
  | cons a l ih =>
      rw [List.foldl_cons]
      rcases List.mem_cons.mp member with rfl | later
      · exact List.foldlRecOn l f (gets b h) fun b r a _ => stays b a r
      · exact ih later (keeps b a h)

/-- An entry of a table when one of its entries has changed. -/
theorem getD_modify (table : Array TerminalSet) (i m : Nat) (f : TerminalSet → TerminalSet) :
    (table.modify i f).getD m 0 =
      if i = m ∧ m < table.size then f (table.getD m 0) else table.getD m 0 := by
  rw [Array.getD_eq_getD_getElem?, Array.getD_eq_getD_getElem?, Array.getElem?_modify]
  by_cases here : i = m
  · by_cases inside : m < table.size
    · simp [here, inside]
    · simp [here, inside]
  · simp [here]

namespace Grammar

variable {g : Grammar} {k : List Item} {x y : Symbol} {b : Body} {s : Step} {n : Nat}

/-- A symbol whose number is no terminal's is none. -/
theorem mem_nonterminals_of_number (solid : g.Solid) (known : x ∈ g.symbols)
    (other : ¬g.numbered.isTerminal (g.number x) = true) : x ∈ g.nonterminals :=
  (List.mem_append.mp known).resolve_left fun terminal =>
    other ((isTerminal_number_iff solid.separate known).mpr terminal)

/-- Claims about symbols that may begin: that they may, which terminals follow them, and that
whatever follows may follow them too. -/
structure Claims where
  opened : Symbol → Prop
  ahead : Symbol → Nat → Prop
  through : Symbol → Prop

namespace Claims

/-- If they are made of a symbol, they are made of the symbols that lead its productions. -/
structure Led (c : Claims) (g : Grammar) : Prop where
  opened : ∀ {y b s rest}, c.opened y → (y, b) ∈ g.productionList → b.steps = s :: rest →
    s.symbol ∈ g.nonterminals → c.opened s.symbol
  ahead : ∀ {y b s next rest z}, c.opened y → (y, b) ∈ g.productionList →
    b.steps = s :: next :: rest → s.symbol ∈ g.nonterminals → g.Begins next.symbol z →
    c.ahead s.symbol (g.number z)
  last : ∀ {y b s n}, c.opened y → (y, b) ∈ g.productionList → b.steps = [s] →
    s.symbol ∈ g.nonterminals → c.ahead y n → c.ahead s.symbol n
  through : ∀ {y b s}, c.opened y → (y, b) ∈ g.productionList → b.steps = [s] →
    s.symbol ∈ g.nonterminals → c.through y → c.through s.symbol

/-- What has been found is claimed. -/
structure Cover (c : Claims) (y : Symbol) (found : TerminalSet × Bool) : Prop where
  opened : c.opened y
  ahead : ∀ n, found.1.testBit n = true → c.ahead y n
  through : found.2 = true → c.through y

def CoverAll (c : Claims) (g : Grammar) (reached : Array (Option (TerminalSet × Bool))) : Prop :=
  ∀ n found, reached[n]? = some (some found) →
    ∃ y ∈ g.nonterminals, g.number y = n ∧ c.Cover y found

variable {c : Claims} {reached : Array (Option (TerminalSet × Bool))}
variable {known : TerminalSet × Bool} {p : Nat}

/-- What is found for the first step of a production is claimed. -/
theorem Led.cover_first (solid : g.Solid) (led : c.Led g) (cover : c.Cover y known)
    (member : (y, b) ∈ g.productionList) {rest : List Step} (steps : b.steps = s :: rest)
    (nonterminal : s.symbol ∈ g.nonterminals) :
    c.Cover s.symbol
      (if (g.leadOf g.numbered.analysis.first rest).2 then
        (g.leadOf g.numbered.analysis.first rest).1 ||| known.1
      else (g.leadOf g.numbered.analysis.first rest).1,
        known.2 && (g.leadOf g.numbered.analysis.first rest).2) := by
  have opened := led.opened cover.opened member steps nonterminal
  cases rest with
  | nil =>
      refine ⟨opened, fun n bit => ?_, fun through => ?_⟩
      · have bit : known.1.testBit n = true := by simpa [leadOf] using bit
        exact led.last cover.opened member steps nonterminal (cover.ahead n bit)
      · have through : known.2 = true := by simpa [leadOf] using through
        exact led.through cover.opened member steps nonterminal (cover.through through)
  | cons next later =>
      have step : next ∈ b.steps := by simp [steps]
      refine ⟨opened, fun n bit => ?_, fun through => ?_⟩
      · obtain ⟨z, rfl, begins⟩ := solid.begins_of_first (solid.mem_symbols member step) bit
        exact led.ahead cover.opened member steps nonterminal begins
      · simp [leadOf] at through

/-- What is added for a symbol is claimed together with what has been found before. -/
theorem CoverAll.modify (h : c.CoverAll g reached) (nonterminal : x ∈ g.nonterminals)
    {new : TerminalSet × Bool} (added : c.Cover x new)
    {f : Option (TerminalSet × Bool) → Option (TerminalSet × Bool)} (first : f none = some new)
    (again : ∀ old, f (some old) = some (old.1 ||| new.1, old.2 || new.2)) :
    c.CoverAll g (reached.modify (g.number x) f) := by
  intro i found place
  rw [Array.getElem?_modify] at place
  split at place
  · rename_i here
    refine ⟨x, nonterminal, here, ?_⟩
    obtain ⟨old, before, same⟩ := Option.map_eq_some_iff.mp place
    cases old with
    | none =>
        obtain rfl := Option.some.inj (first.symm.trans same)
        exact added
    | some old =>
        obtain rfl := Option.some.inj ((again old).symm.trans same)
        obtain ⟨z, nonterminal', number, earlier⟩ := h i old before
        obtain rfl : z = x := number_inj (List.mem_append_right _ nonterminal')
          (List.mem_append_right _ nonterminal) (number.trans here.symm)
        refine ⟨added.opened, fun n bit => ?_, fun through => ?_⟩
        · rw [Nat.testBit_or, Bool.or_eq_true] at bit
          exact bit.elim (earlier.ahead n) (added.ahead n)
        · rw [Bool.or_eq_true] at through
          exact through.elim earlier.through added.through
  · exact h i found place

theorem CoverAll.step (solid : g.Solid) (led : c.Led g) (h : c.CoverAll g reached)
    (cover : c.Cover y known) (place : g.productionList[p]? = some (y, b)) :
    c.CoverAll g (g.numbered.openingStep g.numbered.analysis.vanishing g.numbered.analysis.first
      known reached p) := by
  have member : (y, b) ∈ g.productionList := List.mem_of_getElem? place
  unfold Numbered.openingStep
  rw [slots_of_getElem? place, List.toList_toArray]
  rcases steps : b.steps with _ | ⟨s, rest⟩
  · exact h
  · rw [List.map_cons]
    dsimp only
    have symbol := solid.mem_symbols member (steps ▸ List.mem_cons_self)
    split
    · exact h
    · rename_i nonterminal
      have nonterminal := mem_nonterminals_of_number solid symbol nonterminal
      have listed : ∀ s' ∈ rest, ∃ e ∈ g.productionList, s' ∈ e.2.steps := fun s' later =>
        ⟨(y, b), member, by rw [steps]; exact List.mem_cons_of_mem _ later⟩
      rw [solid.firstOf_eq g.numbered.analysis.first listed]
      exact h.modify nonterminal (led.cover_first solid cover member steps nonterminal) rfl
        fun _ => rfl

theorem CoverAll.round (solid : g.Solid) (led : c.Led g) (h : c.CoverAll g reached) :
    c.CoverAll g (g.numbered.openingRound g.numbered.analysis.vanishing
      g.numbered.analysis.first reached) := by
  rw [Numbered.openingRound_eq]
  refine List.foldlRecOn _ _ h fun reached h n _ => ?_
  split
  · exact h
  · rename_i known found
    rw [Array.getD_eq_getD_getElem?] at found
    have place := (Option.getD_eq_iff.mp found).resolve_right (by simp)
    obtain ⟨y, nonterminal, rfl, cover⟩ := h n known place
    refine List.foldlRecOn _ _ h fun reached h p choice => ?_
    obtain ⟨b, place⟩ := (mem_choicesOf_iff nonterminal).mp choice
    exact h.step solid led cover place

end Claims

/-- What is found to begin where a symbol does. -/
def openingsFrom (g : Grammar) (x : Symbol) : Array (Option (TerminalSet × Bool)) :=
  Numbered.saturate
    (g.numbered.openingRound g.numbered.analysis.vanishing g.numbered.analysis.first)
    (g.numbered.symbolCount * g.numbered.symbolCount)
    ((Array.replicate g.numbered.symbolCount none).setIfInBounds (g.number x) (some (0, true)))

theorem mem_openings_iff (separate : g.Separate) (nonterminal : x ∈ g.nonterminals)
    {o : Opening} : o ∈ g.numbered.analysis.openings.getD (g.number x) [] ↔
      (g.openingsFrom x)[o.symbol]? = some (some (o.ahead, o.through)) := by
  have openings : g.numbered.analysis.openings =
      ((List.range g.numbered.symbolCount).map fun n =>
        if g.numbered.isTerminal n then []
        else g.numbered.openingsOf g.numbered.analysis.vanishing g.numbered.analysis.first
          n).toArray := rfl
  have small := number_lt (List.mem_append_right _ nonterminal : x ∈ g.symbols)
  rw [openings, Array.getD_eq_getD_getElem?, List.getElem?_toArray, List.getElem?_map,
    List.getElem?_range small, Option.map_some, Option.getD_some,
    isTerminal_of_nonterminal separate nonterminal, if_neg Bool.false_ne_true]
  have listed : g.numbered.openingsOf g.numbered.analysis.vanishing g.numbered.analysis.first
      (g.number x) = (g.openingsFrom x).toList.zipIdx.filterMap
        fun e => e.1.map fun found => ⟨e.2, found.1, found.2⟩ := rfl
  rw [listed, List.mem_filterMap]
  constructor
  · rintro ⟨⟨r, i⟩, member, opens⟩
    rw [List.mk_mem_zipIdx_iff_getElem?, Array.getElem?_toList] at member
    obtain ⟨found, rfl, rfl⟩ := Option.map_eq_some_iff.mp opens
    exact member
  · intro place
    refine ⟨(some (o.ahead, o.through), o.symbol), ?_, rfl⟩
    rw [List.mk_mem_zipIdx_iff_getElem?, Array.getElem?_toList, place]

/-- What is found to begin where a symbol does is claimed, if it is claimed of the symbol. -/
theorem Claims.Led.cover_openings {c : Claims} (led : c.Led g) (solid : g.Solid)
    (nonterminal : x ∈ g.nonterminals) (opened : c.opened x) (through : c.through x)
    {o : Opening} (member : o ∈ g.numbered.analysis.openings.getD (g.number x) []) :
    ∃ y ∈ g.nonterminals, g.number y = o.symbol ∧ c.Cover y (o.ahead, o.through) := by
  have start : c.CoverAll g ((Array.replicate g.numbered.symbolCount none).setIfInBounds
      (g.number x) (some (0, true))) := by
    intro n found place
    rw [Array.getElem?_setIfInBounds] at place
    split at place
    · rename_i here
      split at place
      · obtain rfl := Option.some.inj (Option.some.inj place)
        exact ⟨x, nonterminal, here, opened, by simp, fun _ => through⟩
      · cases place
    · rw [Array.getElem?_replicate] at place
      split at place <;> cases place
  have all := Numbered.saturate_keeps (P := c.CoverAll g) (fun _ h => h.round solid led)
    (g.numbered.symbolCount * g.numbered.symbolCount) start
  exact all _ _ ((mem_openings_iff solid.separate nonterminal).mp member)

/-- Whatever follows a symbol follows another one that it passes on to, in so many steps. -/
inductive Passes (g : Grammar) (x : Symbol) : Nat → Symbol → Prop
  | here : Passes g x 0 x
  | last {count : Nat} {y : Symbol} {b : Body} {s : Step} (passes : Passes g x count y)
      (member : (y, b) ∈ g.productionList) (steps : b.steps = [s])
      (nonterminal : s.symbol ∈ g.nonterminals) : Passes g x (count + 1) s.symbol

theorem Passes.mem_nonterminals {count : Nat} (h : g.Passes x count y)
    (nonterminal : x ∈ g.nonterminals) : y ∈ g.nonterminals := by
  cases h with
  | here => exact nonterminal
  | last _ _ _ nonterminal => exact nonterminal

/-- It is found that what follows may follow a symbol. -/
def FoundThrough (g : Grammar) (y : Symbol)
    (reached : Array (Option (TerminalSet × Bool))) : Prop :=
  ∃ ahead, reached[g.number y]? = some (some (ahead, true))

section Through

variable {reached : Array (Option (TerminalSet × Bool))} {known : TerminalSet × Bool} {p : Nat}

theorem FoundThrough.step (h : g.FoundThrough y reached) :
    g.FoundThrough y (g.numbered.openingStep g.numbered.analysis.vanishing
      g.numbered.analysis.first known reached p) := by
  obtain ⟨ahead, found⟩ := h
  unfold Numbered.openingStep
  split
  · exact ⟨ahead, found⟩
  · split
    · exact ⟨ahead, found⟩
    · dsimp only
      unfold FoundThrough
      rw [Array.getElem?_modify]
      split
      · rw [found]
        exact ⟨_, rfl⟩
      · exact ⟨ahead, found⟩

theorem FoundThrough.steps (h : g.FoundThrough y reached) (choices : List Nat) :
    g.FoundThrough y (choices.foldl (g.numbered.openingStep g.numbered.analysis.vanishing
      g.numbered.analysis.first known) reached) :=
  List.foldlRecOn choices _ h fun _ h _ _ => h.step

/-- What a symbol passes on is found when its choices are looked at. -/
theorem foundThrough_of_last (solid : g.Solid) (ahead : TerminalSet)
    (place : g.productionList[p]? = some (y, b))
    (steps : b.steps = [s]) (nonterminal : s.symbol ∈ g.nonterminals)
    (size : g.number s.symbol < reached.size) :
    g.FoundThrough s.symbol (g.numbered.openingStep g.numbered.analysis.vanishing
      g.numbered.analysis.first (ahead, true) reached p) := by
  unfold Numbered.openingStep FoundThrough
  rw [slots_of_getElem? place, List.toList_toArray, steps, List.map_singleton]
  dsimp only [slot]
  rw [isTerminal_of_nonterminal solid.separate nonterminal, if_neg Bool.false_ne_true]
  simp only [Numbered.firstOf, if_true, Bool.and_self, Array.getElem?_modify,
    Array.getElem?_eq_getElem size]
  rcases reached[g.number s.symbol] with _ | ⟨a, t⟩
  · exact ⟨_, rfl⟩
  · simp

theorem size_openingStep : (g.numbered.openingStep g.numbered.analysis.vanishing
    g.numbered.analysis.first known reached p).size = reached.size := by
  unfold Numbered.openingStep
  split
  · rfl
  · split
    · rfl
    · exact Array.size_modify

theorem size_openingSteps (choices : List Nat) :
    (choices.foldl (g.numbered.openingStep g.numbered.analysis.vanishing
      g.numbered.analysis.first known) reached).size = reached.size := by
  induction choices generalizing reached with
  | nil => rfl
  | cons p choices ih => rw [List.foldl_cons, ih, size_openingStep]

/-- Some rounds find what is passed on in so many steps. -/
def FoundAll (g : Grammar) (x : Symbol) (count : Nat)
    (reached : Array (Option (TerminalSet × Bool))) : Prop :=
  reached.size = g.numbered.symbolCount ∧
    ∀ n ≤ count, ∀ y, g.Passes x n y → g.FoundThrough y reached

theorem FoundAll.round {count : Nat} (solid : g.Solid) (nonterminal : x ∈ g.nonterminals)
    (h : g.FoundAll x count reached) :
    g.FoundAll x (count + 1) (g.numbered.openingRound g.numbered.analysis.vanishing
      g.numbered.analysis.first reached) := by
  let Sized (reached : Array (Option (TerminalSet × Bool))) : Prop :=
    reached.size = g.numbered.symbolCount
  -- one symbol after the other is looked at, and nothing is lost
  have keeps {P : Array (Option (TerminalSet × Bool)) → Prop}
      (steps : ∀ reached known n, P reached → P ((g.numbered.choicesOf n).foldl
        (g.numbered.openingStep g.numbered.analysis.vanishing g.numbered.analysis.first known)
        reached)) (reached : Array (Option (TerminalSet × Bool))) (n : Nat) (h : P reached) :
      P (match reached.getD n none with
        | none => reached
        | some known => (g.numbered.choicesOf n).foldl
          (g.numbered.openingStep g.numbered.analysis.vanishing g.numbered.analysis.first known)
          reached) := by
    split
    · exact h
    · exact steps _ _ _ h
  have sized := keeps (P := Sized) fun reached known n h => (size_openingSteps _).trans h
  have found (y : Symbol) := keeps (P := g.FoundThrough y) fun reached known n h => h.steps _
  rw [Numbered.openingRound_eq]
  refine ⟨List.foldlRecOn (motive := Sized) _ _ h.1 fun r h n _ => sized r n h, ?_⟩
  intro n le z passes
  rcases Nat.lt_or_ge n (count + 1) with earlier | now
  · exact List.foldlRecOn _ _ (h.2 n (by omega) z passes) fun r h n _ => found z r n h
  · cases passes with
    | here => exact absurd now (by omega)
    | @last n y b s passes member steps nonterminal' =>
        obtain ⟨p, place⟩ := List.getElem?_of_mem member
        have known := passes.mem_nonterminals nonterminal
        have inside : g.number y ∈ List.range g.numbered.symbolCount :=
          List.mem_range.mpr (number_lt (List.mem_append_right _ known))
        have size := number_lt (List.mem_append_right _ nonterminal' : s.symbol ∈ g.symbols)
        refine foldl_gets (Q := fun r => Sized r ∧ g.FoundThrough y r)
          (R := g.FoundThrough s.symbol) (fun r n h => ⟨sized r n h.1, found y r n h.2⟩)
          (fun r n h => found s.symbol r n h) ?_ inside ⟨h.1, h.2 n (by omega) y passes⟩
        rintro r ⟨sized, ahead, there⟩
        rw [Array.getD_eq_getD_getElem?, there, Option.getD_some]
        refine foldl_gets (Q := Sized) (R := g.FoundThrough s.symbol)
          (fun r p h => size_openingStep.trans h) (fun r p h => h.step) ?_
          ((mem_choicesOf_iff known).mpr ⟨b, place⟩) sized
        intro r sized
        exact foundThrough_of_last solid ahead place steps nonterminal' (size.trans_eq sized.symm)

end Through

/-- What is passed on is found, if the rounds suffice. -/
theorem Passes.exists_opening {count : Nat} (passes : g.Passes x count y) (solid : g.Solid)
    (nonterminal : x ∈ g.nonterminals)
    (enough : count ≤ g.numbered.symbolCount * g.numbered.symbolCount) :
    ∃ o ∈ g.numbered.analysis.openings.getD (g.number x) [],
      o.symbol = g.number y ∧ o.through = true := by
  have small := number_lt (List.mem_append_right _ nonterminal : x ∈ g.symbols)
  have start : g.FoundAll x 0 ((Array.replicate g.numbered.symbolCount none).setIfInBounds
      (g.number x) (some (0, true))) := by
    refine ⟨by simp, fun n le y passes => ?_⟩
    obtain rfl : n = 0 := by omega
    cases passes with
    | here => exact ⟨0, by simp [small]⟩
  have all := Numbered.saturate_reaches (P := g.FoundAll x)
    (fun _ _ h => h.round solid nonterminal)
    (g.numbered.symbolCount * g.numbered.symbolCount) start
  obtain ⟨ahead, found⟩ := all.2 count (by omega) y passes
  exact ⟨⟨g.number y, ahead, true⟩, (mem_openings_iff solid.separate nonterminal).mpr found,
    rfl, rfl⟩

/-! ## The items of a state -/

/-- An item of some production, or of the start alone. -/
def Known (g : Grammar) (item : Item) : Prop :=
  (∃ x b, g.Stands item x b) ∨ item.production = g.numbered.root

/-- The steps after the one behind the dot. -/
def stepsAfter (g : Grammar) (item : Item) : List Step :=
  (g.stepsAt item.production).drop (item.dot + 1)

/-- A terminal that may come after the step behind the dot of an item, by its number. -/
inductive FollowsDot (g : Grammar) (item : Item) : Nat → Prop
  | ahead {n : Nat} (last : g.stepsAfter item = []) (bit : item.ahead.testBit n = true) :
      FollowsDot g item n
  | next {s : Step} {later : List Step} {z : Symbol} (steps : g.stepsAfter item = s :: later)
      (begins : g.Begins s.symbol z) : FollowsDot g item (g.number z)

theorem Known.mem_stepsAfter {item : Item} (known : g.Known item) :
    ∀ s ∈ g.stepsAfter item, ∃ e ∈ g.productionList, s ∈ e.2.steps := by
  intro s step
  rcases known with ⟨x, b, stands⟩ | root
  · rw [stepsAfter, stepsAt_of_getElem? stands] at step
    exact ⟨(x, b), List.mem_of_getElem? stands, List.mem_of_mem_drop step⟩
  · rw [stepsAfter, stepsAt, if_pos root] at step
    simp at step

theorem aheadAfter_eq (solid : g.Solid) {item : Item} (known : g.Known item) :
    g.numbered.analysis.aheadAfter item =
      let lead := g.leadOf g.numbered.analysis.first (g.stepsAfter item)
      if lead.2 then lead.1 ||| item.ahead else lead.1 := by
  have slots : (g.numbered.slots item.production).toList.drop (item.dot + 1) =
      (g.stepsAfter item).map g.slot := by
    rw [slots_eq, stepsAfter, List.map_drop]
  have grammar : g.numbered.analysis.grammar = g.numbered := rfl
  rw [Analysis.aheadAfter, grammar, slots, solid.firstOf_eq _ known.mem_stepsAfter]

theorem followsDot_of_aheadAfter (solid : g.Solid) {item : Item} (known : g.Known item)
    (bit : (g.numbered.analysis.aheadAfter item).testBit n = true) : g.FollowsDot item n := by
  rw [aheadAfter_eq solid known] at bit
  rcases steps : g.stepsAfter item with _ | ⟨s, later⟩
  · rw [steps] at bit
    exact .ahead steps (by simpa [leadOf] using bit)
  · rw [steps] at bit
    obtain ⟨e, member, step⟩ := known.mem_stepsAfter s (steps ▸ List.mem_cons_self)
    obtain ⟨z, rfl, begins⟩ := solid.begins_of_first (solid.mem_symbols member step) bit
    exact .next steps begins

theorem aheadAfter_of_last (solid : g.Solid) {item : Item} (known : g.Known item)
    (last : g.stepsAfter item = []) (bit : item.ahead.testBit n = true) :
    (g.numbered.analysis.aheadAfter item).testBit n = true := by
  rw [aheadAfter_eq solid known, last]
  simpa [leadOf] using bit

theorem aheadAfter_of_terminal (solid : g.Solid) {item : Item} (known : g.Known item)
    {later : List Step} (steps : g.stepsAfter item = s :: later)
    (terminal : s.symbol ∈ g.terminals) :
    (g.numbered.analysis.aheadAfter item).testBit (g.number s.symbol) = true := by
  rw [aheadAfter_eq solid known, steps]
  exact solid.first_of_terminal terminal

/-- A symbol that may begin in a state. -/
inductive Opened (g : Grammar) (k : List Item) : Symbol → Prop
  | next {item : Item} {s : Step} (inside : item ∈ k) (next : g.nextStep item = some s)
      (nonterminal : s.symbol ∈ g.nonterminals) : Opened g k s.symbol
  | lead {x : Symbol} {b : Body} {s : Step} {later : List Step} (opened : Opened g k x)
      (member : (x, b) ∈ g.productionList) (steps : b.steps = s :: later)
      (nonterminal : s.symbol ∈ g.nonterminals) : Opened g k s.symbol

/-- A terminal that may follow a symbol that begins in a state, by its number. -/
inductive Ahead (g : Grammar) (k : List Item) : Symbol → Nat → Prop
  | next {item : Item} {s : Step} {n : Nat} (inside : item ∈ k)
      (next : g.nextStep item = some s) (nonterminal : s.symbol ∈ g.nonterminals)
      (follows : g.FollowsDot item n) : Ahead g k s.symbol n
  | lead {x z : Symbol} {b : Body} {s next : Step} {later : List Step} (opened : g.Opened k x)
      (member : (x, b) ∈ g.productionList) (steps : b.steps = s :: next :: later)
      (nonterminal : s.symbol ∈ g.nonterminals) (begins : g.Begins next.symbol z) :
      Ahead g k s.symbol (g.number z)
  | last {x : Symbol} {b : Body} {s : Step} {n : Nat} (ahead : Ahead g k x n)
      (member : (x, b) ∈ g.productionList) (steps : b.steps = [s])
      (nonterminal : s.symbol ∈ g.nonterminals) : Ahead g k s.symbol n

theorem Ahead.opened (h : g.Ahead k x n) : g.Opened k x := by
  induction h with
  | next inside next nonterminal _ => exact .next inside next nonterminal
  | lead opened member steps nonterminal _ => exact .lead opened member steps nonterminal
  | last _ member steps nonterminal ih => exact .lead ih member steps nonterminal

theorem nextStep_of_nextSlot {item : Item} {slot : Slot}
    (next : g.numbered.analysis.nextSlot item = some slot) :
    ∃ s, g.nextStep item = some s ∧ g.slot s = slot := by
  rw [nextSlot_eq] at next
  exact Option.map_eq_some_iff.mp next

theorem Known.mem_symbols (solid : g.Solid) {item : Item} (known : g.Known item)
    (next : g.nextStep item = some s) : s.symbol ∈ g.symbols := by
  rcases known with ⟨x, b, stands⟩ | root
  · rw [stands.nextStep_eq] at next
    exact solid.mem_symbols (List.mem_of_getElem? stands) (List.mem_of_getElem? next)
  · rw [nextStep, stepsAt, if_pos root, List.getElem?_singleton] at next
    split at next
    · obtain rfl := Option.some.inj next
      exact List.mem_append_right _ solid.start_mem
    · cases next

/-- What the state is found to let follow a symbol may follow it. -/
theorem ahead_of_reached (solid : g.Solid) (known : ∀ item ∈ k, g.Known item) {m : Nat}
    (bit : ((g.numbered.analysis.reached k).getD m 0).testBit n = true) :
    ∃ y ∈ g.nonterminals, g.number y = m ∧ g.Ahead k y n := by
  let sound (table : Array TerminalSet) : Prop := ∀ m n, (table.getD m 0).testBit n = true →
    ∃ y ∈ g.nonterminals, g.number y = m ∧ g.Ahead k y n
  have nothing : sound (Array.replicate g.numbered.symbolCount 0) := by
    intro m n bit
    rw [Array.getD_eq_getD_getElem?, Array.getElem?_replicate] at bit
    split at bit <;> simp at bit
  refine List.foldlRecOn (motive := sound) k _ nothing (fun table h item inside => ?_) m n bit
  split
  · exact h
  · rename_i slot next
    obtain ⟨s, step, rfl⟩ := nextStep_of_nextSlot next
    have symbol := (known item inside).mem_symbols solid step
    split
    · exact h
    · rename_i nonterminal
      have nonterminal := mem_nonterminals_of_number solid symbol nonterminal
      let claims : Claims := ⟨g.Opened k, g.Ahead k, fun y => ∀ n, g.FollowsDot item n →
        g.Ahead k y n⟩
      have led : claims.Led g :=
        ⟨fun opened member steps nonterminal => .lead opened member steps nonterminal,
          fun opened member steps nonterminal begins =>
            .lead opened member steps nonterminal begins,
          fun _ member steps nonterminal ahead => .last ahead member steps nonterminal,
          fun _ member steps nonterminal through n follows =>
            .last (through n follows) member steps nonterminal⟩
      refine List.foldlRecOn (motive := sound) _ _ h fun table h o member m n bit => ?_
      obtain ⟨y, nonterminal', number, cover⟩ := led.cover_openings solid nonterminal
        (.next inside step nonterminal) (fun n follows => .next inside step nonterminal follows)
        member
      rw [getD_modify] at bit
      split at bit
      · rename_i here
        have opening : o.ahead.testBit n = true → ∃ y ∈ g.nonterminals, g.number y = m ∧
            g.Ahead k y n :=
          fun bit => ⟨y, nonterminal', number.trans here.1, cover.ahead n bit⟩
        split at bit
        · rename_i through
          rw [Nat.testBit_or, Nat.testBit_or, Bool.or_eq_true, Bool.or_eq_true] at bit
          rcases bit with (bit | bit) | bit
          · exact h m n bit
          · exact opening bit
          · exact ⟨y, nonterminal', number.trans here.1, cover.through through n
              (followsDot_of_aheadAfter solid (known item inside) bit)⟩
        · rw [Nat.testBit_or, Bool.or_eq_true] at bit
          exact bit.elim (h m n) opening
      · exact h m n bit

/-- What may follow a symbol in a state is found for all symbols that it passes on to. -/
theorem Passes.testBit_reached {count : Nat} (passes : g.Passes s.symbol count y)
    (solid : g.Solid) {item : Item} (inside : item ∈ k) (next : g.nextStep item = some s)
    (nonterminal : s.symbol ∈ g.nonterminals)
    (enough : count ≤ g.numbered.symbolCount * g.numbered.symbolCount)
    (bit : (g.numbered.analysis.aheadAfter item).testBit n = true) :
    ((g.numbered.analysis.reached k).getD (g.number y) 0).testBit n = true := by
  let Sized (table : Array TerminalSet) : Prop := table.size = g.numbered.symbolCount
  let Has (table : Array TerminalSet) : Prop := (table.getD (g.number y) 0).testBit n = true
  obtain ⟨o, opens, symbol, through⟩ := passes.exists_opening solid nonterminal enough
  have small := number_lt (List.mem_append_right _ (passes.mem_nonterminals nonterminal) :
    y ∈ g.symbols)
  -- whatever is opened, sizes are kept and nothing is lost
  have sized (table : Array TerminalSet) (o : Opening) (after : TerminalSet) (h : Sized table) :
      Sized (table.modify o.symbol fun old =>
        if o.through then old ||| o.ahead ||| after else old ||| o.ahead) :=
    Array.size_modify.trans h
  have has (table : Array TerminalSet) (o : Opening) (after : TerminalSet) (h : Has table) :
      Has (table.modify o.symbol fun old =>
        if o.through then old ||| o.ahead ||| after else old ||| o.ahead) := by
    unfold Has at h ⊢
    rw [getD_modify]
    split
    · split
      · rw [Nat.testBit_or, Nat.testBit_or, h, Bool.true_or, Bool.true_or]
      · rw [Nat.testBit_or, h, Bool.true_or]
    · exact h
  have start : Sized (Array.replicate g.numbered.symbolCount 0) := Array.size_replicate
  refine foldl_gets (Q := Sized) (R := Has) (fun table item h => ?_) (fun table item h => ?_)
    (fun table sizes => ?_) inside start
  · split
    · exact h
    · split
      · exact h
      · exact List.foldlRecOn _ _ h fun table h o _ => sized table o _ h
  · split
    · exact h
    · split
      · exact h
      · exact List.foldlRecOn _ _ h fun table h o _ => has table o _ h
  rw [nextSlot_eq, next, Option.map_some]
  dsimp only [slot]
  have group : g.numbered.analysis.grammar.isTerminal (g.number s.symbol) = false :=
    isTerminal_of_nonterminal solid.separate nonterminal
  rw [group, if_neg Bool.false_ne_true]
  refine foldl_gets (Q := Sized) (R := Has) (fun table o => sized table o _)
    (fun table o => has table o _) (fun table sizes => ?_) opens sizes
  have room : g.number y < table.size := small.trans_eq sizes.symm
  unfold Has
  rw [getD_modify, if_pos ⟨symbol, room⟩, if_pos through]
  simp [Nat.testBit_or, bit]

/-- A state holds its kernel and productions of symbols that may begin there. -/
theorem mem_closure (solid : g.Solid) (known : ∀ item ∈ k, g.Known item) {item : Item}
    (member : item ∈ g.numbered.analysis.closure k) :
    item ∈ k ∨ ∃ x b, g.Stands item x b ∧ item.dot = 0 ∧ g.Opened k x ∧
      ∀ n, item.ahead.testBit n = true → g.Ahead k x n := by
  refine (List.mem_append.mp member).imp_right fun begins => ?_
  obtain ⟨m, -, begins⟩ := List.mem_flatMap.mp begins
  dsimp only at begins
  split at begins
  · cases begins
  · rename_i some
    obtain ⟨p, choice, rfl⟩ := List.mem_map.mp begins
    obtain ⟨n, bit⟩ := Nat.exists_testBit_of_ne_zero some
    obtain ⟨x, nonterminal, rfl, first⟩ := ahead_of_reached solid known bit
    obtain ⟨b, place⟩ := (mem_choicesOf_iff nonterminal).mp choice
    refine ⟨x, b, place, rfl, first.opened, fun n bit => ?_⟩
    obtain ⟨y, nonterminal', same, ahead⟩ := ahead_of_reached solid known bit
    obtain rfl := number_inj (List.mem_append_right _ nonterminal')
      (List.mem_append_right _ nonterminal) same
    exact ahead

theorem subset_closure (k : List Item) : k ⊆ g.numbered.analysis.closure k :=
  fun _ member => List.mem_append_left _ member

/-- All productions of the symbols that a step passes on to begin in the state, and what may
follow the step may follow them. -/
theorem Passes.begins_in_closure {count : Nat} (passes : g.Passes s.symbol count y)
    (solid : g.Solid) {item : Item} (inside : item ∈ k) (next : g.nextStep item = some s)
    (nonterminal : s.symbol ∈ g.nonterminals)
    (enough : count ≤ g.numbered.symbolCount * g.numbered.symbolCount)
    (bit : (g.numbered.analysis.aheadAfter item).testBit n = true)
    (member : (y, b) ∈ g.productionList) :
    ∃ begun ∈ g.numbered.analysis.closure k, g.Stands begun y b ∧ begun.dot = 0 ∧
      begun.ahead.testBit n = true := by
  have found := passes.testBit_reached solid inside next nonterminal enough bit
  have nonterminal' := passes.mem_nonterminals nonterminal
  obtain ⟨p, place⟩ := List.getElem?_of_mem member
  refine ⟨⟨p, 0, (g.numbered.analysis.reached k).getD (g.number y) 0⟩, ?_, place, rfl, found⟩
  refine List.mem_append_right _ (List.mem_flatMap.mpr ⟨g.number y, ?_, ?_⟩)
  · exact List.mem_range.mpr (number_lt (List.mem_append_right _ nonterminal'))
  · dsimp only
    have some : (g.numbered.analysis.reached k).getD (g.number y) 0 ≠ 0 := by
      intro none
      simp [none] at found
    rw [if_neg some]
    exact List.mem_map.mpr ⟨p, (mem_choicesOf_iff nonterminal').mpr ⟨b, place⟩, rfl⟩

end Grammar

end ApiInventory.Syntax
