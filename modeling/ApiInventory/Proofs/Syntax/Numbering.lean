import ApiInventory.Proofs.Syntax.Splicing
import Mathlib

/-!
# The numbers of the symbols

A numbered grammar says of its numbers what the grammar says of its symbols: two symbols of the
grammar have different numbers (`number_inj`), the number of a terminal is known as one
(`mem_terminals_of_isTerminal`), a number is shown as its symbol is (`displays_number`), and a
numbered production is one of the grammar (`exists_production`).
-/

namespace ApiInventory.Syntax

/-- The lists of a table hold what is right for their places. -/
def Fills {α : Type} (right : Nat → α → Prop) (table : Array (List α)) : Prop :=
  ∀ (k : Nat) l, table[k]? = some l → ∀ x ∈ l, right k x

namespace Fills

variable {α : Type} {right : Nat → α → Prop} {table : Array (List α)}

theorem replicate (size : Nat) : Fills right (Array.replicate size []) := by
  intro k l empty x member
  rw [Array.getElem?_replicate] at empty
  split at empty
  · cases empty
    cases member
  · cases empty

theorem modify {k : Nat} {x : α} (h : Fills right table) (fits : right k x) :
    Fills right (table.modify k (x :: ·)) := by
  intro i l found
  rw [Array.getElem?_modify] at found
  split at found
  · rename_i here
    subst here
    obtain ⟨old, before, rfl⟩ := Option.map_eq_some_iff.mp found
    exact List.forall_mem_cons.mpr ⟨fits, h k old before⟩
  · exact h i l found

theorem map_reverse (h : Fills right table) : Fills right (table.map List.reverse) := by
  intro k l found x member
  rw [Array.getElem?_map] at found
  obtain ⟨old, before, rfl⟩ := Option.map_eq_some_iff.mp found
  exact h k old before x (List.mem_reverse.mp member)

theorem getD {k : Nat} {x : α} (h : Fills right table) (member : x ∈ table.getD k []) :
    right k x := by
  rw [Array.getD_eq_getD_getElem?] at member
  cases found : table[k]? with
  | none => simp [found] at member
  | some l => exact h k l found x (by simpa [found] using member)

end Fills

namespace Grammar

variable {g : Grammar} {x y : Symbol}

/-- All symbols that have numbers. -/
def symbols (g : Grammar) : List Symbol := g.terminals ++ g.nonterminals

def number (g : Grammar) (x : Symbol) : Nat :=
  (Std.HashMap.ofList (g.symbols.zipIdx 1)).getD x 0

def slot (g : Grammar) (s : Step) : Slot where
  symbol := g.number s.symbol
  rank := s.marks.rank.getD 0
  side := s.marks.side
  label := s.marks.label
  shown := s.marks.shown

/-- What is found in a map was in the list that it was made of. -/
theorem mem_of_getElem?_ofList {l : List (Symbol × Nat)} {n : Nat}
    (found : (Std.HashMap.ofList l)[x]? = some n) : (x, n) ∈ l := by
  have grows : ∀ (l : List (Symbol × Nat)) (m : Std.HashMap Symbol Nat),
      (m.insertMany l)[x]? = some n → m[x]? = some n ∨ (x, n) ∈ l := by
    intro l
    induction l with
    | nil => exact fun m found => .inl found
    | cons p l ih =>
        intro m found
        rw [Std.HashMap.insertMany_cons] at found
        rcases ih _ found with earlier | later
        · rw [Std.HashMap.getElem?_insert] at earlier
          split at earlier
          · rename_i same
            obtain rfl := beq_iff_eq.mp same
            obtain rfl := Option.some.inj earlier
            exact .inr List.mem_cons_self
          · exact .inl earlier
        · exact .inr (List.mem_cons_of_mem _ later)
  rw [Std.HashMap.ofList_eq_insertMany_empty] at found
  exact (grows l ∅ found).resolve_left (by simp)

/-- A symbol has its place for a number, counted from one. -/
theorem exists_number (known : x ∈ g.symbols) :
    ∃ i, g.number x = i + 1 ∧ g.symbols[i]? = some x := by
  have names : (g.symbols.zipIdx 1).map Prod.fst = g.symbols := List.zipIdx_map_fst ..
  have contained : (Std.HashMap.ofList (g.symbols.zipIdx 1)).contains x = true := by
    rw [Std.HashMap.contains_ofList, names]
    exact List.contains_iff_mem.mpr known
  rw [Std.HashMap.contains_eq_isSome_getElem?, Option.isSome_iff_exists] at contained
  obtain ⟨n, found⟩ := contained
  have member := mem_of_getElem?_ofList found
  rw [List.mk_mem_zipIdx_iff_le_and_getElem?_sub] at member
  refine ⟨n - 1, ?_, member.2⟩
  rw [number, Std.HashMap.getD_eq_getD_getElem?, found, Option.getD_some]
  omega

theorem number_inj (hx : x ∈ g.symbols) (hy : y ∈ g.symbols) (same : g.number x = g.number y) :
    x = y := by
  obtain ⟨i, number, place⟩ := exists_number hx
  obtain ⟨j, number', place'⟩ := exists_number hy
  obtain rfl : i = j := by omega
  exact Option.some.inj (place.symm.trans place')

theorem mem_terminals_of_isTerminal (known : x ∈ g.symbols)
    (terminal : g.numbered.isTerminal (g.number x) = true) : x ∈ g.terminals := by
  obtain ⟨i, number, place⟩ := exists_number known
  have size : g.numbered.terminals.size = g.terminals.length + 1 := by
    simp [numbered]
  have small : i < g.terminals.length := by
    rw [Numbered.isTerminal, decide_eq_true_eq, number, size] at terminal
    omega
  rw [symbols, List.getElem?_append_left small] at place
  exact List.mem_of_getElem? place

theorem displays_number (known : x ∈ g.symbols) :
    g.numbered.displays.getD (g.number x) none = g.display x := by
  obtain ⟨i, number, place⟩ := exists_number known
  have displays : g.numbered.displays = (none :: g.symbols.map g.display).toArray := rfl
  rw [displays, number, Array.getD_eq_getD_getElem?, List.getElem?_toArray, List.getElem?_cons_succ,
    List.getElem?_map, place]
  rfl

theorem exists_production {p : Production} (member : p ∈ g.numbered.productions) :
    ∃ x ∈ g.nonterminals, ∃ b ∈ g.productionsOf x,
      p = ⟨g.number x, (b.steps.map g.slot).toArray, b.weight⟩ := by
  have productions : g.numbered.productions =
      (g.nonterminals.flatMap fun x => (g.productionsOf x).map fun b =>
        (⟨g.number x, (b.steps.map g.slot).toArray, b.weight⟩ : Production)).toArray := rfl
  rw [productions, List.mem_toArray] at member
  obtain ⟨x, nonterminal, member⟩ := List.mem_flatMap.mp member
  obtain ⟨b, production, rfl⟩ := List.mem_map.mp member
  exact ⟨x, nonterminal, b, production, rfl⟩

/-- Only productions that there are stand among the choices of a symbol. -/
theorem lt_of_mem_choicesOf {symbol p : Nat} (member : p ∈ g.numbered.choicesOf symbol) :
    p < g.numbered.productions.size := by
  have filled : Fills (fun _ p => p < g.numbered.productions.size) g.numbered.choices := by
    refine Fills.map_reverse (List.foldlRecOn _ _ (.replicate _) fun table filled p place => ?_)
    refine filled.modify ?_
    simpa [numbered] using (List.mem_zipIdx place).2.1
  exact filled.getD member

end Grammar

end ApiInventory.Syntax
