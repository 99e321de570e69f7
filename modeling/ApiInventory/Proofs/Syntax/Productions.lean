import ApiInventory.Proofs.Syntax.Numbering
import Mathlib

/-!
# The productions of a numbered grammar

A numbered production stands for a production of the grammar, and each one has a number
(`Grammar.getElem?_productions`). So what is said of items by numbers can be said by symbols: the
dot of an item stands in front of a step (`Grammar.nextSlot_eq`), and the choices of a symbol are
its productions (`Grammar.mem_choicesOf_iff`).
-/

namespace ApiInventory.Syntax

/-- What is put into the lists of a table one after the other is found there. -/
theorem mem_foldl_modify {α β : Type} {key : β → Nat} {value : β → α} {l : List β}
    {table : Array (List α)} {k : Nat} {x : α} (inside : k < table.size) :
    x ∈ (l.foldl (fun table b => table.modify (key b) (value b :: ·)) table).getD k [] ↔
      x ∈ table.getD k [] ∨ ∃ b ∈ l, key b = k ∧ value b = x := by
  induction l generalizing table with
  | nil => simp
  | cons b l ih =>
      rw [List.foldl_cons, ih (by simpa using inside)]
      have here : x ∈ (table.modify (key b) (value b :: ·)).getD k [] ↔
          x ∈ table.getD k [] ∨ key b = k ∧ value b = x := by
        simp only [Array.getD_eq_getD_getElem?, Array.getElem?_modify,
          Array.getElem?_eq_getElem inside]
        split
        · rename_i same
          simp [same, or_comm, eq_comm]
        · rename_i other
          simp [other]
      rw [here, or_assoc]
      apply or_congr_right
      simp only [List.exists_mem_cons_iff]

namespace Grammar

variable {g : Grammar} {x : Symbol} {b : Body} {p n : Nat}

/-- All productions of a grammar, each with its symbol. -/
def productionList (g : Grammar) : List (Symbol × Body) :=
  g.nonterminals.flatMap fun x => (g.productionsOf x).map (x, ·)

theorem mem_productionList_iff :
    (x, b) ∈ g.productionList ↔ x ∈ g.nonterminals ∧ b ∈ g.productionsOf x := by
  simp only [productionList, List.mem_flatMap, List.mem_map, Prod.mk.injEq]
  constructor
  · rintro ⟨x', nonterminal, b', production, rfl, rfl⟩
    exact ⟨nonterminal, production⟩
  · rintro ⟨nonterminal, production⟩
    exact ⟨x, nonterminal, b, production, rfl, rfl⟩

/-- What holds of the productions of the rules, and of those of the repetitions in them, holds of
all productions. -/
theorem forall_productionList {P : Symbol → Body → Prop}
    (rules : ∀ r ∈ g.rules, r.1 ∉ g.spliced →
      ∀ b ∈ r.2.expand {} true, ∀ made ∈ g.splice b, P (.named r.1) made)
    (repetitions : ∀ r ∈ g.rules, ∀ body ∈ r.2.repeated, ∀ b ∈ body.repetitionBodies,
      ∀ made ∈ g.splice b, P (.repetition body) made) :
    ∀ e ∈ g.productionList, P e.1 e.2 := by
  rintro ⟨x, made⟩ member
  obtain ⟨nonterminal, production⟩ := mem_productionList_iff.mp member
  cases x with
  | literal => cases production
  | named n =>
      rw [productionsOf, List.mem_eraseDups] at production
      obtain ⟨b, body, splices⟩ := List.mem_flatMap.mp production
      unfold bodiesOf rule? at body
      cases found : g.rules.lookup n with
      | none => simp [found] at body
      | some r =>
          obtain ⟨before, after, split, -⟩ := List.lookup_eq_some_iff.mp found
          simp only [found, Option.map_some, Option.getD_some, Rule.bodies, List.mem_eraseDups]
            at body
          exact rules (n, r) (by simp [split]) (named_mem_nonterminals_iff.mp nonterminal).2 b body
            made splices
  | repetition body =>
      rw [productionsOf, List.mem_eraseDups] at production
      obtain ⟨b, inside, splices⟩ := List.mem_flatMap.mp production
      obtain ⟨r, rule, repeated⟩ := repetition_mem_nonterminals_iff.mp nonterminal
      exact repetitions r rule body repeated b inside made splices

/-- A production with numbers for its symbols. -/
def production (g : Grammar) (e : Symbol × Body) : Production :=
  ⟨g.number e.1, (e.2.steps.map g.slot).toArray, e.2.weight⟩

theorem map_productionList (g : Grammar) :
    g.productionList.map g.production = g.nonterminals.flatMap fun x =>
      (g.productionsOf x).map fun b =>
        ⟨g.number x, (b.steps.map g.slot).toArray, b.weight⟩ := by
  rw [productionList, List.map_flatMap]
  simp only [List.map_map]
  rfl

theorem productions_eq (g : Grammar) :
    g.numbered.productions = (g.productionList.map g.production).toArray := by
  rw [map_productionList]
  rfl

theorem getElem?_productions (p : Nat) :
    g.numbered.productions[p]? = g.productionList[p]?.map g.production := by
  rw [productions_eq, List.getElem?_toArray, List.getElem?_map]

theorem root_eq (g : Grammar) : g.numbered.root = g.productionList.length := by
  rw [Numbered.root, productions_eq, List.size_toArray, List.length_map]

/-- The steps of a production, by its number. After all others comes the start symbol alone. -/
def stepsAt (g : Grammar) (p : Nat) : List Step :=
  if p = g.numbered.root then [⟨.named g.start, {}⟩]
  else (g.productionList[p]?.map fun e => e.2.steps).getD []

theorem slots_eq (p : Nat) : (g.numbered.slots p).toList = (g.stepsAt p).map g.slot := by
  unfold Numbered.slots stepsAt
  split
  · rfl
  · rw [getElem?_productions]
    cases g.productionList[p]? <;> rfl

theorem stepsAt_of_getElem? (place : g.productionList[p]? = some (x, b)) :
    g.stepsAt p = b.steps := by
  have small := (List.getElem?_eq_some_iff.mp place).1
  rw [stepsAt, if_neg (by rw [root_eq]; omega), place]
  rfl

theorem slots_of_getElem? (place : g.productionList[p]? = some (x, b)) :
    g.numbered.slots p = (b.steps.map g.slot).toArray := by
  rw [← stepsAt_of_getElem? place, ← slots_eq]

/-- The step behind the dot of an item. -/
def nextStep (g : Grammar) (item : Item) : Option Step := (g.stepsAt item.production)[item.dot]?

theorem nextSlot_eq (item : Item) :
    g.numbered.analysis.nextSlot item = (g.nextStep item).map g.slot := by
  have grammar : g.numbered.analysis.grammar = g.numbered := rfl
  rw [Analysis.nextSlot, grammar, ← Array.getElem?_toList, slots_eq, List.getElem?_map]
  rfl

/-- The item stands for a place in a production. -/
def Stands (g : Grammar) (item : Item) (x : Symbol) (b : Body) : Prop :=
  g.productionList[item.production]? = some (x, b)

theorem Stands.nextStep_eq {item : Item} (stands : g.Stands item x b) :
    g.nextStep item = b.steps[item.dot]? := by
  rw [nextStep, stepsAt_of_getElem? stands]

theorem Stands.mem {item : Item} (stands : g.Stands item x b) :
    x ∈ g.nonterminals ∧ b ∈ g.productionsOf x :=
  mem_productionList_iff.mp (List.mem_of_getElem? stands)

theorem Stands.production_ne_root {item : Item} (stands : g.Stands item x b) :
    item.production ≠ g.numbered.root := by
  have small := (List.getElem?_eq_some_iff.mp stands).1
  rw [root_eq]
  omega

theorem symbolCount_eq (g : Grammar) : g.numbered.symbolCount = g.symbols.length + 1 := by
  have displays : g.numbered.displays = (none :: g.symbols.map g.display).toArray := rfl
  simp [Numbered.symbolCount, displays]

theorem number_lt (known : x ∈ g.symbols) : g.number x < g.numbered.symbolCount := by
  obtain ⟨i, number, place⟩ := exists_number known
  have small := (List.getElem?_eq_some_iff.mp place).1
  rw [number, symbolCount_eq]
  omega

/-- The choices of a symbol are the productions that have it for a target. -/
theorem mem_choicesOf_iff_exists :
    p ∈ g.numbered.choicesOf n ↔ ∃ x b, g.productionList[p]? = some (x, b) ∧ g.number x = n := by
  have choices : g.numbered.choices = ((g.productionList.map g.production).zipIdx.foldl
      (fun (table : Array (List Nat)) e => table.modify e.1.target (e.2 :: ·))
      (Array.replicate (g.symbols.length + 1) [])).map List.reverse := by
    rw [map_productionList]
    rfl
  have listed : (∃ e ∈ (g.productionList.map g.production).zipIdx, e.1.target = n ∧ e.2 = p) ↔
      ∃ x b, g.productionList[p]? = some (x, b) ∧ g.number x = n := by
    constructor
    · rintro ⟨⟨made, i⟩, member, target, rfl⟩
      rw [List.mk_mem_zipIdx_iff_getElem?, List.getElem?_map] at member
      obtain ⟨⟨x, b⟩, place, rfl⟩ := Option.map_eq_some_iff.mp member
      exact ⟨x, b, place, target⟩
    · rintro ⟨x, b, place, target⟩
      refine ⟨(g.production (x, b), p), ?_, target, rfl⟩
      rw [List.mk_mem_zipIdx_iff_getElem?, List.getElem?_map, place]
      rfl
  have reversed {table : Array (List Nat)} :
      p ∈ (table.map List.reverse).getD n [] ↔ p ∈ table.getD n [] := by
    simp only [Array.getD_eq_getD_getElem?, Array.getElem?_map]
    cases table[n]? <;> simp
  rw [Numbered.choicesOf, choices, reversed]
  by_cases small : n < g.symbols.length + 1
  · rw [mem_foldl_modify (by simpa using small), listed]
    simp [Array.getD_eq_getD_getElem?, small]
  · have size : ∀ (l : List (Production × Nat)) (table : Array (List Nat)),
        (l.foldl (fun table e => table.modify e.1.target (e.2 :: ·)) table).size = table.size := by
      intro l
      induction l with
      | nil => exact fun _ => rfl
      | cons e l ih => exact fun table => (ih _).trans Array.size_modify
    rw [Array.getD_eq_getD_getElem?, Array.getElem?_eq_none (by rw [size]; simpa using small)]
    refine iff_of_false (by simp) ?_
    rintro ⟨x, b, place, rfl⟩
    have nonterminal := (mem_productionList_iff.mp (List.mem_of_getElem? place)).1
    have inside := number_lt (List.mem_append_right _ nonterminal : x ∈ g.symbols)
    rw [symbolCount_eq] at inside
    exact small inside

theorem mem_choicesOf_iff (known : x ∈ g.nonterminals) :
    p ∈ g.numbered.choicesOf (g.number x) ↔ ∃ b, g.productionList[p]? = some (x, b) := by
  rw [mem_choicesOf_iff_exists]
  constructor
  · rintro ⟨y, b, place, same⟩
    have nonterminal := (mem_productionList_iff.mp (List.mem_of_getElem? place)).1
    obtain rfl := number_inj (List.mem_append_right _ nonterminal) (List.mem_append_right _ known)
      same
    exact ⟨b, place⟩
  · rintro ⟨b, place⟩
    exact ⟨x, b, place, rfl⟩

/-- Terminals and nonterminals are different symbols. -/
def Separate (g : Grammar) : Prop := ∀ x ∈ g.terminals, x ∉ g.nonterminals

theorem isTerminal_number_iff (separate : g.Separate) (known : x ∈ g.symbols) :
    g.numbered.isTerminal (g.number x) = true ↔ x ∈ g.terminals := by
  refine ⟨mem_terminals_of_isTerminal known, fun terminal => ?_⟩
  obtain ⟨i, number, place⟩ := exists_number known
  have small : i < g.terminals.length := by
    by_contra large
    rw [symbols, List.getElem?_append_right (by omega)] at place
    exact separate x terminal (List.mem_of_getElem? place)
  have size : g.numbered.terminals.size = g.terminals.length + 1 := by
    simp [numbered]
  rw [Numbered.isTerminal, decide_eq_true_eq, number, size]
  omega

theorem isTerminal_of_nonterminal (separate : g.Separate) (nonterminal : x ∈ g.nonterminals) :
    g.numbered.isTerminal (g.number x) = false := by
  have known : x ∈ g.symbols := List.mem_append_right _ nonterminal
  rw [← Bool.not_eq_true, isTerminal_number_iff separate known]
  exact fun terminal => separate x terminal nonterminal

end Grammar

end ApiInventory.Syntax
