import ApiInventory.Proofs.Syntax.Lookahead
import ApiInventory.Proofs.Syntax.States
import Mathlib

/-!
# What a state does

The actions of a state are those that its items ask for. If an item reads a symbol, the state leads
on to the items that have read it (`Chart.shift`, `Chart.goto`), unless there is an item that ends
with the same terminal ahead. If items end and none reads, what they have read is replaced
(`Chart.finish`), and on all other terminals there is no action (`Chart.silent`).

The construction stops at `Automaton.stateLimit`, so this holds of the states with numbers below
it. A state leads to states with numbers that are not much larger than its own.
-/

namespace ApiInventory.Syntax

theorem lookup_of_nodup {l : List (Nat × Nat)} (nodup : (l.map Prod.fst).Nodup) {e : Nat × Nat}
    (member : e ∈ l) : l.lookup e.1 = some e.2 := by
  obtain ⟨front, later, rfl⟩ := List.append_of_mem member
  refine List.lookup_eq_some_iff.mpr ⟨front, later, rfl, fun other inside => ?_⟩
  rw [List.map_append, List.map_cons, List.nodup_append] at nodup
  rw [bne_iff_ne]
  exact (nodup.2.2 _ (List.mem_map_of_mem inside) _ List.mem_cons_self).symm

namespace Analysis

variable {a : Analysis} {items kernel : List Item} {item : Item} {t n : Nat}

/-- The items after a symbol come from those that read it, and from all of them. -/
theorem mem_successors_iff (small : n < a.grammar.symbolCount) :
    item ∈ (a.successors items).getD n [] ↔ ∃ before ∈ items, ∃ slot,
      a.nextSlot before = some slot ∧ slot.symbol = n ∧
        { before with dot := before.dot + 1 } = item := by
  let moved (item : Item) : Option (Nat × Item) :=
    (a.nextSlot item).map fun slot => (slot.symbol, { item with dot := item.dot + 1 })
  have folded : a.successors items = (items.filterMap moved).foldl
      (fun table e => table.modify e.1 (e.2 :: ·)) (Array.replicate a.grammar.symbolCount []) := by
    rw [List.foldl_filterMap, successors]
    congr 1
    funext table item
    dsimp only [moved]
    cases a.nextSlot item <;> rfl
  rw [folded, mem_foldl_modify (by simpa using small)]
  have nothing : (Array.replicate a.grammar.symbolCount ([] : List Item)).getD n [] = [] := by
    simp [Array.getD_eq_getD_getElem?, small]
  simp only [nothing, List.not_mem_nil, false_or, List.mem_filterMap]
  constructor
  · rintro ⟨e, ⟨before, inside, found⟩, rfl, rfl⟩
    obtain ⟨slot, next, rfl⟩ := Option.map_eq_some_iff.mp found
    exact ⟨before, inside, slot, next, rfl, rfl⟩
  · rintro ⟨before, inside, slot, next, rfl, rfl⟩
    refine ⟨(slot.symbol, { before with dot := before.dot + 1 }), ⟨before, inside, ?_⟩, rfl, rfl⟩
    simp only [moved, next, Option.map_some]

theorem size_successors : (a.successors items).size = a.grammar.symbolCount := by
  let Sized (table : Array (List Item)) : Prop := table.size = a.grammar.symbolCount
  refine List.foldlRecOn (motive := Sized) items _ Array.size_replicate fun table size item _ => ?_
  split
  · exact size
  · exact Array.size_modify.trans size

/-! ## Items that end -/

/-- An item ends with the terminal ahead. -/
def EndsOn (a : Analysis) (items : List Item) (t : Nat) : Prop :=
  ∃ item ∈ items, a.nextSlot item = none ∧ item.ahead.testBit t = true

/-- The finished productions on a terminal are of items that end with it ahead. -/
structure Ending (a : Analysis) (items : List Item) (t : Nat) (f : Finished) : Prop where
  some : f.productions ≠ []
  grounded : ∀ p ∈ f.productions, ∃ item ∈ items, item.production = p ∧
    a.nextSlot item = none ∧ item.ahead.testBit t = true

theorem productions_add_ne (rank : Int) (side : Option Side) (production : Nat)
    {old : Option Finished} (some : ∀ f, old = some f → f.productions ≠ []) :
    (Finished.add rank side production old).productions ≠ [] := by
  unfold Finished.add
  split
  · simp
  · rename_i f
    split
    · simp
    · split
      · simp
      · exact some f rfl

/-- What one item adds to the finished productions. -/
def finishedStep (a : Analysis) (table : Array (Option Finished)) (item : Item) :
    Array (Option Finished) :=
  match a.nextSlot item with
  | some _ => table
  | none =>
    (List.range a.grammar.terminalCount).foldl
      (fun table t =>
        if item.ahead.testBit t then
          table.modify t fun old => some (Finished.add (a.finishedRank item.production).1
            (a.finishedRank item.production).2 item.production old)
        else table)
      table

theorem finished_eq (a : Analysis) (items : List Item) : a.finished items =
    items.foldl a.finishedStep (Array.replicate a.grammar.terminalCount none) := rfl

theorem holds_ending (a : Analysis) (items : List Item) :
    ∀ (t : Nat) f, (a.finished items)[t]? = some (some f) → a.Ending items t f := by
  let sound (table : Array (Option Finished)) : Prop :=
    ∀ (t : Nat) f, table[t]? = some (some f) → a.Ending items t f
  refine List.foldlRecOn (motive := sound) items a.finishedStep ?_ fun table h item inside => ?_
  · intro t f none
    rw [Array.getElem?_replicate] at none
    split at none <;> cases none
  · unfold finishedStep
    split
    · exact h
    · rename_i ends
      refine List.foldlRecOn (motive := sound) _ _ h fun table h terminal _ => ?_
      split
      · rename_i bit
        intro t f found
        rw [Array.getElem?_modify] at found
        split at found
        · rename_i here
          subst here
          obtain ⟨old, before, same⟩ := Option.map_eq_some_iff.mp found
          obtain rfl := Option.some.inj same
          refine ⟨productions_add_ne _ _ _ fun f isSome => ?_, fun p member => ?_⟩
          · exact (h terminal f (isSome ▸ before)).some
          · rcases mem_add member with rfl | ⟨f, rfl, earlier⟩
            · exact ⟨item, inside, rfl, ends, bit⟩
            · exact (h terminal f before).grounded p earlier
        · exact h t f found
      · exact h

/-- What is filled stays filled when more is added. -/
theorem filled_modify {β : Type} {table : Array (Option β)} (i : Nat) (f : Option β → β)
    (filled : ∃ v, table[t]? = some (some v)) :
    ∃ v, (table.modify i fun old => some (f old))[t]? = some (some v) := by
  obtain ⟨v, place⟩ := filled
  rw [Array.getElem?_modify, place]
  split
  · exact ⟨f (some v), rfl⟩
  · exact ⟨v, rfl⟩

/-- An item keeps what filling one place after the other keeps. -/
theorem finishedStep_keeps {P : Array (Option Finished) → Prop}
    (modify : ∀ (table : Array (Option Finished)) (i : Nat) (f : Option Finished → Finished),
      P table → P (table.modify i fun old => some (f old)))
    (table : Array (Option Finished)) (item : Item) (h : P table) :
    P (a.finishedStep table item) := by
  unfold finishedStep
  split
  · exact h
  · refine List.foldlRecOn _ _ h fun table h terminal _ => ?_
    split
    · exact modify table _ _ h
    · exact h

/-- There is something finished on a terminal iff an item ends with it ahead. -/
theorem finished_of_endsOn (small : t < a.grammar.terminalCount) (ends : a.EndsOn items t) :
    ∃ f, (a.finished items).getD t none = some f ∧ a.Ending items t f := by
  let Sized (table : Array (Option Finished)) : Prop := table.size = a.grammar.terminalCount
  let Filled (table : Array (Option Finished)) : Prop := ∃ f, table[t]? = some (some f)
  obtain ⟨item, inside, last, bit⟩ := ends
  have sized (table : Array (Option Finished)) (i : Nat) (f : Option Finished → Finished)
      (size : Sized table) : Sized (table.modify i fun old => some (f old)) :=
    Array.size_modify.trans size
  have filled (table : Array (Option Finished)) (i : Nat) (f : Option Finished → Finished)
      (h : Filled table) : Filled (table.modify i fun old => some (f old)) :=
    filled_modify i f h
  have found : Filled (a.finished items) := by
    rw [finished_eq]
    -- The items before this one keep the size, this one fills the place, the others leave it filled.
    refine foldl_gets (Q := Sized) (finishedStep_keeps sized) (finishedStep_keeps filled) ?_ inside
      Array.size_replicate
    intro table size
    unfold finishedStep
    rw [last]
    dsimp only
    refine foldl_gets (Q := Sized) (R := Filled) (fun table terminal size => ?_)
      (fun table terminal h => ?_) (fun table size => ?_) (List.mem_range.mpr small) size
    · split
      · exact sized table _ _ size
      · exact size
    · split
      · exact filled table _ _ h
      · exact h
    · change ∃ f, _
      rw [if_pos bit, Array.getElem?_modify, if_pos rfl,
        Array.getElem?_eq_getElem (small.trans_eq size.symm)]
      exact ⟨_, rfl⟩
  obtain ⟨f, place⟩ := found
  exact ⟨f, by rw [Array.getD_eq_getD_getElem?, place, Option.getD_some],
    a.holds_ending items t f place⟩

theorem finished_of_not_endsOn (ends : ¬a.EndsOn items t) :
    (a.finished items).getD t none = none := by
  rw [Array.getD_eq_getD_getElem?]
  cases place : (a.finished items)[t]? with
  | none => rfl
  | some f =>
      cases f with
      | none => rfl
      | some f =>
          have ending := a.holds_ending items t f place
          obtain ⟨p, member⟩ := List.exists_mem_of_ne_nil _ ending.some
          obtain ⟨item, inside, -, last, bit⟩ := ending.grounded p member
          exact absurd ⟨item, inside, last, bit⟩ ends

/-! ## Where symbols lead -/

/-- The states that the symbols lead to from a kernel. -/
structure Leads (a : Analysis) (kernels : Array (List Item)) (kernel : List Item)
    (targets : List (Nat × Nat)) : Prop where
  nodup : (targets.map Prod.fst).Nodup
  reached : ∀ t ∈ targets, (a.successors (a.closure kernel)).getD t.1 [] ≠ [] ∧
    kernels[t.2]? = some
      (Construction.inOrder ((a.successors (a.closure kernel)).getD t.1 []))
  complete : ∀ n, (a.successors (a.closure kernel)).getD n [] ≠ [] → n ∈ targets.map Prod.fst

variable {targets : List (Nat × Nat)}

theorem shiftTable_of_mem (nodup : (targets.map Prod.fst).Nodup)
    (small : t < a.grammar.terminalCount)
    (member : (t, n) ∈ targets) : (a.shiftTable targets).getD t none = some n := by
  have later (targets : List (Nat × Nat)) (table : Array (Option Nat))
      (absent : t ∉ targets.map Prod.fst) (found : table[t]? = some (some n)) :
      (targets.foldl (fun (table : Array (Option Nat)) e =>
        table.setIfInBounds e.1 (some e.2)) table)[t]? = some (some n) := by
    induction targets generalizing table with
    | nil => exact found
    | cons e targets ih =>
        rw [List.map_cons, List.mem_cons, not_or] at absent
        refine ih _ absent.2 ?_
        dsimp only
        rw [Array.getElem?_setIfInBounds, if_neg (Ne.symm absent.1), found]
  have all (table : Array (Option Nat)) (size : table.size = a.grammar.terminalCount) :
      (targets.foldl (fun (table : Array (Option Nat)) e =>
        table.setIfInBounds e.1 (some e.2)) table)[t]? = some (some n) := by
    induction targets generalizing table with
    | nil => cases member
    | cons e targets ih =>
        rw [List.map_cons, List.nodup_cons] at nodup
        rcases List.mem_cons.mp member with rfl | member
        · refine later targets _ nodup.1 ?_
          rw [Array.getElem?_setIfInBounds, if_pos rfl, if_pos (small.trans_eq size.symm)]
        · exact ih nodup.2 member _ (Array.size_setIfInBounds.trans size)
  have whole : (a.shiftTable targets)[t]? = some (some n) := all _ Array.size_replicate
  rw [Array.getD_eq_getD_getElem?, whole, Option.getD_some]

theorem shiftTable_of_not_mem (absent : t ∉ targets.map Prod.fst) :
    (a.shiftTable targets).getD t none = none := by
  cases found : (a.shiftTable targets).getD t none with
  | none => rfl
  | some n => exact absurd (List.mem_map_of_mem (mem_of_shiftTable found)) absent

theorem actionTable_getD (small : t < a.grammar.terminalCount) :
    (a.actionTable kernel targets).getD t [] =
      a.actionsOn (a.closure kernel) t ((a.finished (a.closure kernel)).getD t none)
        ((a.shiftTable targets).getD t none) := by
  rw [actionTable, Array.getD_eq_getD_getElem?, List.getElem?_toArray, List.getElem?_map,
    List.getElem?_range small, Option.map_some, Option.getD_some]

end Analysis

/-! ## The construction -/

namespace Construction

variable {a : Analysis} {c c' : Construction} {kernel : List Item}

/-- The state is what its kernel asks for. -/
def Exact (a : Analysis) (kernels : Array (List Item)) (n : Nat) (state : State) : Prop :=
  ∃ k targets, kernels[n]? = some k ∧ a.Leads kernels k targets ∧
    (∀ t ∈ targets, t.2 ≤ (n + 1) * a.grammar.symbolCount) ∧
    state = ⟨a.actionTable k targets,
      targets.filter fun (symbol, _) => !a.grammar.isTerminal symbol⟩

/-- All states that are worked out are what their kernels ask for, and not too many wait. -/
structure Charted (a : Analysis) (c : Construction) : Prop where
  sound : Sound a c
  few : c.kernels.size ≤ c.states.size * a.grammar.symbolCount + 1
  states : ∀ (n : Nat) state, c.states[n]? = some state → Exact a c.kernels n state

theorem Leads.mono {targets : List (Nat × Nat)} (h : a.Leads c.kernels kernel targets)
    (keeps : c.Extends c') : a.Leads c'.kernels kernel targets :=
  ⟨h.nodup, fun t member => (h.reached t member).imp_right (keeps _ _), h.complete⟩

theorem Exact.mono {n : Nat} {state : State} (h : Exact a c.kernels n state)
    (keeps : c.Extends c') : Exact a c'.kernels n state := by
  obtain ⟨k, targets, place, leads, bounds, same⟩ := h
  exact ⟨k, targets, keeps n k place, Leads.mono leads keeps, bounds, same⟩

theorem size_number_le (c : Construction) (kernel : List Item) :
    (c.number kernel).1.kernels.size ≤ c.kernels.size + 1 := by
  unfold number
  split
  · exact Nat.le_succ _
  · exact (Array.size_push _).le

/-- The symbols below a bound that lead somewhere have been numbered. -/
structure Followed (a : Analysis) (c : Construction) (kernel : List Item) (bound : Nat)
    (made : Construction × List (Nat × Nat)) : Prop where
  sound : Sound a made.1
  keeps : c.Extends made.1
  states : made.1.states = c.states
  size : made.1.kernels.size ≤ c.kernels.size + bound
  nodup : (made.2.map Prod.fst).Nodup
  reached : ∀ t ∈ made.2, t.1 < bound ∧ (a.successors (a.closure kernel)).getD t.1 [] ≠ [] ∧
    made.1.kernels[t.2]? = some (inOrder ((a.successors (a.closure kernel)).getD t.1 []))
  complete : ∀ n < bound, (a.successors (a.closure kernel)).getD n [] ≠ [] →
    n ∈ made.2.map Prod.fst

theorem Followed.next {made : Construction × List (Nat × Nat)} {bound : Nat}
    (h : Followed a c kernel bound made) :
    Followed a c kernel (bound + 1) (follow (a.successors (a.closure kernel)) made bound) := by
  have earlier {n : Nat} (small : n < bound + 1) (other : n ≠ bound) : n < bound := by omega
  unfold follow
  split
  · rename_i nothing
    refine ⟨h.sound, h.keeps, h.states, Nat.le_succ_of_le h.size, h.nodup, fun t member => ?_,
      fun n small some => h.complete n (earlier small ?_) some⟩
    · exact (h.reached t member).imp_left Nat.lt_succ_of_lt
    · rintro rfl
      exact some nothing
  · rename_i k some
    obtain ⟨sound, keeps, states, place⟩ :=
      h.sound.number (inOrder ((a.successors (a.closure kernel)).getD bound []))
    have new : bound ∉ made.2.map Prod.fst := by
      intro member
      obtain ⟨t, member, same⟩ := List.mem_map.mp member
      exact absurd (h.reached t member).1 (by omega)
    have size := size_number_le made.1
      (inOrder ((a.successors (a.closure kernel)).getD bound []))
    have before := h.size
    refine ⟨sound, h.keeps.trans keeps, states.trans h.states, size.trans (by omega),
      List.nodup_cons.mpr ⟨new, h.nodup⟩, ?_, fun n small leads => ?_⟩
    · refine List.forall_mem_cons.mpr ⟨⟨Nat.lt_succ_self _, some, place⟩, fun t member => ?_⟩
      obtain ⟨small, leads, found⟩ := h.reached t member
      exact ⟨Nat.lt_succ_of_lt small, leads, keeps _ _ found⟩
    · by_cases same : n = bound
      · exact same ▸ List.mem_cons_self
      · exact List.mem_cons_of_mem _ (h.complete n (earlier small same) leads)

theorem Sound.followed (h : Sound a c) (kernel : List Item) (bound : Nat) :
    Followed a c kernel bound
      ((List.range bound).foldl (Construction.follow (a.successors (a.closure kernel)))
        (c, [])) := by
  induction bound with
  | zero =>
      exact ⟨h, .refl c, rfl, Nat.le_refl _, List.nodup_nil, List.forall_mem_nil _,
        fun n small => absurd small (Nat.not_lt_zero n)⟩
  | succ bound ih =>
      rw [List.range_succ, List.foldl_concat]
      exact ih.next

theorem Sound.size_states_settle (h : Sound a c) (kernel : List Item) :
    (c.settle a kernel).states.size = c.states.size + 1 := by
  have followed := h.followed kernel (a.successors (a.closure kernel)).size
  exact (Array.size_push _).trans (congrArg (fun states => states.size + 1) followed.states)

/-- A state that is worked out is what its kernel asks for. -/
theorem Charted.settle (h : Charted a c) (place : c.kernels[c.states.size]? = some kernel) :
    Charted a (c.settle a kernel) ∧ c.Extends (c.settle a kernel) := by
  obtain ⟨sound, keeps⟩ := h.sound.settle place
  have followed := h.sound.followed kernel (a.successors (a.closure kernel)).size
  have count : (a.successors (a.closure kernel)).size = a.grammar.symbolCount :=
    Analysis.size_successors
  have few := h.few
  have size := followed.size
  have wide : (c.states.size + 1) * a.grammar.symbolCount =
      c.states.size * a.grammar.symbolCount + a.grammar.symbolCount := Nat.succ_mul _ _
  have leads : a.Leads (c.settle a kernel).kernels kernel
      ((List.range (a.successors (a.closure kernel)).size).foldl
        (follow (a.successors (a.closure kernel))) (c, [])).2 := by
    refine ⟨followed.nodup, fun t member => (followed.reached t member).2, fun n some => ?_⟩
    refine followed.complete n ?_ some
    by_contra large
    exact some (by simp [Array.getD_eq_getD_getElem?, Array.getElem?_eq_none (Nat.not_lt.mp large)])
  refine ⟨⟨sound, ?_, fun n state found => ?_⟩, keeps⟩
  · rw [h.sound.size_states_settle kernel, wide]
    exact size.trans (by omega)
  · have found := (Array.getElem?_push ..).symm.trans found
    split at found
    · rename_i last
      obtain rfl := Option.some.inj found
      have number : n = c.states.size := last.trans (congrArg Array.size followed.states)
      refine ⟨kernel, _, number ▸ keeps _ _ place, leads, fun t member => ?_, rfl⟩
      obtain ⟨small, -⟩ := Array.getElem?_eq_some_iff.mp (followed.reached t member).2.2
      rw [number, wide]
      omega
    · refine Exact.mono (h.states n state ?_) keeps
      exact (congrArg (·[n]?) followed.states).symm.trans found

theorem Charted.grow (h : Charted a c) (fuel : Nat) :
    Charted a (c.grow a fuel) ∧ c.Extends (c.grow a fuel) ∧
      ((c.grow a fuel).kernels.size ≤ (c.grow a fuel).states.size ∨
        c.states.size + fuel ≤ (c.grow a fuel).states.size) := by
  induction fuel generalizing c with
  | zero => exact ⟨h, .refl c, .inr (Nat.le_refl _)⟩
  | succ fuel ih =>
      rw [Construction.grow]
      split
      · rename_i none
        exact ⟨h, .refl c, .inl (Array.getElem?_eq_none_iff.mp none)⟩
      · rename_i kernel place
        obtain ⟨charted, keeps⟩ := h.settle place
        obtain ⟨charted', keeps', done⟩ := ih charted
        have states := h.sound.size_states_settle kernel
        exact ⟨charted', keeps.trans keeps', done.imp_right fun all => by omega⟩

end Construction

/-! ## Charts -/

/-- The kernels of the states of an automaton, in the order of their numbers. -/
structure Grammar.Chart (g : Grammar) (kernels : Array (List Item)) : Prop where
  start : kernels[0]? = some (startKernel g.numbered)
  states : ∀ n < Automaton.stateLimit, ∀ k, kernels[n]? = some k →
    ∃ targets, g.numbered.analysis.Leads kernels k targets ∧
      (∀ t ∈ targets, t.2 ≤ (n + 1) * g.numbered.symbolCount) ∧
      (Automaton.ofGrammar g).states[n]? = some ⟨g.numbered.analysis.actionTable k targets,
        targets.filter fun (symbol, _) => !g.numbered.isTerminal symbol⟩

theorem Grammar.exists_chart (g : Grammar) : ∃ kernels, g.Chart kernels := by
  let empty : Construction := ⟨{}, #[], #[]⟩
  have nothing : Construction.Sound g.numbered.analysis empty :=
    ⟨fun k n found => by simp [empty] at found, fun n state found => by simp [empty] at found⟩
  obtain ⟨begun, -, none, place⟩ := nothing.number (startKernel g.numbered)
  have first : (empty.number (startKernel g.numbered)).2 = 0 := by
    simp [Construction.number, empty]
  have charted : Construction.Charted g.numbered.analysis
      (empty.number (startKernel g.numbered)).1 := by
    refine ⟨begun, ?_, fun n state found => ?_⟩
    · have few := Construction.size_number_le empty (startKernel g.numbered)
      have zero : empty.kernels.size = 0 := rfl
      omega
    · rw [none] at found
      simp [empty] at found
  rw [first] at place
  obtain ⟨charted, keeps, done⟩ := charted.grow Automaton.stateLimit
  have whole : (Automaton.ofGrammar g).states =
      ((empty.number (startKernel g.numbered)).1.grow g.numbered.analysis
        Automaton.stateLimit).states := rfl
  refine ⟨_, keeps _ _ place, fun n small k found => ?_⟩
  obtain ⟨inside, -⟩ := Array.getElem?_eq_some_iff.mp found
  have settled : n < (Automaton.ofGrammar g).states.size := by
    rw [whole]
    omega
  obtain ⟨k', targets, place', leads, bounds, same⟩ :=
    charted.states n _ (Array.getElem?_eq_getElem (whole ▸ settled))
  obtain rfl := Option.some.inj (place'.symm.trans found)
  exact ⟨targets, leads, bounds, (Array.getElem?_eq_getElem settled).trans (congrArg some same)⟩

namespace Grammar

variable {g : Grammar} {k : List Item} {kernels : Array (List Item)} {item : Item} {x : Symbol}
variable {n t : Nat}

/-- An item of the state reads the symbol. -/
def Reads (g : Grammar) (k : List Item) (x : Symbol) : Prop :=
  ∃ item ∈ g.numbered.analysis.closure k, ∃ s, g.nextStep item = some s ∧ s.symbol = x

/-- An item of the state ends, and the terminal may follow. -/
def EndsWith (g : Grammar) (k : List Item) (t : Nat) : Prop :=
  ∃ item ∈ g.numbered.analysis.closure k, g.nextStep item = none ∧ item.ahead.testBit t = true

/-- The kernel that a symbol leads to. -/
def after (g : Grammar) (k : List Item) (x : Symbol) : List Item :=
  Construction.inOrder ((g.numbered.analysis.successors
    (g.numbered.analysis.closure k)).getD (g.number x) [])

/-- All items of a kernel are of productions, or of the start alone. -/
def KnownAll (g : Grammar) (k : List Item) : Prop := ∀ item ∈ k, g.Known item

theorem KnownAll.closure (solid : g.Solid) (known : g.KnownAll k) :
    g.KnownAll (g.numbered.analysis.closure k) := by
  intro item member
  obtain inside | ⟨x, b, stands, -⟩ := mem_closure solid known member
  · exact known item inside
  · exact .inl ⟨x, b, stands⟩

theorem nextSlot_eq_none_iff :
    g.numbered.analysis.nextSlot item = none ↔ g.nextStep item = none := by
  rw [nextSlot_eq, Option.map_eq_none_iff]

theorem endsOn_iff :
    g.numbered.analysis.EndsOn (g.numbered.analysis.closure k) t ↔ g.EndsWith k t := by
  simp only [Analysis.EndsOn, EndsWith, nextSlot_eq_none_iff]

theorem mem_after_iff (solid : g.Solid) (known : g.KnownAll k) (symbol : x ∈ g.symbols) :
    item ∈ g.after k x ↔ ∃ before ∈ g.numbered.analysis.closure k, ∃ s,
      g.nextStep before = some s ∧ s.symbol = x ∧
        { before with dot := before.dot + 1 } = item := by
  rw [after, Construction.mem_inOrder, Analysis.mem_successors_iff (number_lt symbol)]
  constructor
  · rintro ⟨before, inside, slot, next, same, rfl⟩
    obtain ⟨s, step, rfl⟩ := nextStep_of_nextSlot next
    have here := (known.closure solid before inside).mem_symbols solid step
    exact ⟨before, inside, s, step, number_inj here symbol same, rfl⟩
  · rintro ⟨before, inside, s, step, rfl, rfl⟩
    exact ⟨before, inside, g.slot s, by rw [nextSlot_eq, step, Option.map_some], rfl, rfl⟩

theorem KnownAll.after (solid : g.Solid) (known : g.KnownAll k) (symbol : x ∈ g.symbols) :
    g.KnownAll (g.after k x) := by
  intro item member
  obtain ⟨before, inside, s, -, -, rfl⟩ := (mem_after_iff solid known symbol).mp member
  exact known.closure solid before inside

theorem knownAll_start (g : Grammar) : g.KnownAll (startKernel g.numbered) :=
  List.forall_mem_singleton.mpr (.inr rfl)

theorem successors_ne_iff (symbol : x ∈ g.symbols) (solid : g.Solid) (known : g.KnownAll k) :
    (g.numbered.analysis.successors (g.numbered.analysis.closure k)).getD (g.number x) [] ≠ [] ↔
      g.Reads k x := by
  constructor
  · intro some
    obtain ⟨item, member⟩ := List.exists_mem_of_ne_nil _ some
    obtain ⟨before, inside, s, step, same, -⟩ :=
      (mem_after_iff solid known symbol).mp (Construction.mem_inOrder.mpr member)
    exact ⟨before, inside, s, step, same⟩
  · rintro ⟨before, inside, s, step, same⟩
    exact List.ne_nil_of_mem (Construction.mem_inOrder.mp
      ((mem_after_iff solid known symbol).mpr ⟨before, inside, s, step, same, rfl⟩))

/-- A state leads somewhere with a number only if an item reads a symbol of that number. -/
theorem exists_reads (solid : g.Solid) (known : g.KnownAll k)
    (leads : (g.numbered.analysis.successors (g.numbered.analysis.closure k)).getD n [] ≠ []) :
    ∃ x ∈ g.symbols, g.number x = n ∧ g.Reads k x := by
  have small : n < g.numbered.symbolCount := by
    by_contra large
    have size : (g.numbered.analysis.successors (g.numbered.analysis.closure k)).size =
        g.numbered.symbolCount := Analysis.size_successors
    exact leads (by
      rw [Array.getD_eq_getD_getElem?, Array.getElem?_eq_none (by omega)]
      rfl)
  obtain ⟨item, member⟩ := List.exists_mem_of_ne_nil _ leads
  obtain ⟨before, inside, slot, next, rfl, -⟩ := (Analysis.mem_successors_iff small).mp member
  obtain ⟨s, step, rfl⟩ := nextStep_of_nextSlot next
  exact ⟨s.symbol, (known.closure solid before inside).mem_symbols solid step, rfl,
    before, inside, s, step, rfl⟩

theorem number_lt_terminalCount (solid : g.Solid) (terminal : x ∈ g.terminals) :
    g.number x < g.numbered.terminalCount :=
  of_decide_eq_true
    ((isTerminal_number_iff solid.separate (List.mem_append_left _ terminal)).mpr terminal)

namespace Chart

theorem actions_eq {targets : List (Nat × Nat)}
    (states : (Automaton.ofGrammar g).states[n]? = some
      ⟨g.numbered.analysis.actionTable k targets,
        targets.filter fun (symbol, _) => !g.numbered.isTerminal symbol⟩)
    (small : t < g.numbered.terminalCount) :
    (Automaton.ofGrammar g).actions n t =
      g.numbered.analysis.actionsOn (g.numbered.analysis.closure k) t
        ((g.numbered.analysis.finished (g.numbered.analysis.closure k)).getD t none)
        ((g.numbered.analysis.shiftTable targets).getD t none) := by
  rw [Automaton.actions, states, Option.map_some, Option.getD_some]
  exact Analysis.actionTable_getD small

variable (chart : g.Chart kernels) (solid : g.Solid) (known : g.KnownAll k)
include chart solid known

variable (place : kernels[n]? = some k) (inside : n < Automaton.stateLimit)
include place inside

/-- What an item reads is read, unless it may follow an item that ends. -/
theorem shift (terminal : x ∈ g.terminals) (reads : g.Reads k x)
    (alone : ¬g.EndsWith k (g.number x)) :
    ∃ n' ≤ (n + 1) * g.numbered.symbolCount, kernels[n']? = some (g.after k x) ∧
      (Automaton.ofGrammar g).actions n (g.number x) = [.shift n'] := by
  have symbol : x ∈ g.symbols := List.mem_append_left _ terminal
  have small := number_lt_terminalCount solid terminal
  obtain ⟨targets, leads, bounds, states⟩ := chart.states n inside k place
  have target := leads.complete _ ((successors_ne_iff symbol solid known).mpr reads)
  obtain ⟨⟨t, n'⟩, member, rfl⟩ := List.mem_map.mp target
  refine ⟨n', bounds _ member, (leads.reached _ member).2, ?_⟩
  rw [actions_eq states small,
    Analysis.finished_of_not_endsOn (endsOn_iff.not.mpr alone),
    Analysis.shiftTable_of_mem leads.nodup small member]
  rfl

theorem goto (nonterminal : x ∈ g.nonterminals) (reads : g.Reads k x) :
    ∃ n' ≤ (n + 1) * g.numbered.symbolCount, kernels[n']? = some (g.after k x) ∧
      (Automaton.ofGrammar g).goto n (g.number x) = some n' := by
  have symbol : x ∈ g.symbols := List.mem_append_right _ nonterminal
  obtain ⟨targets, leads, bounds, states⟩ := chart.states n inside k place
  have target := leads.complete _ ((successors_ne_iff symbol solid known).mpr reads)
  obtain ⟨⟨t, n'⟩, member, same⟩ := List.mem_map.mp target
  dsimp only at same
  subst same
  refine ⟨n', bounds _ member, (leads.reached _ member).2, ?_⟩
  have stays : (g.number x, n') ∈
      targets.filter fun (symbol, _) => !g.numbered.isTerminal symbol := by
    refine List.mem_filter.mpr ⟨member, ?_⟩
    dsimp only
    rw [isTerminal_of_nonterminal solid.separate nonterminal]
    rfl
  rw [Automaton.goto, states, Option.bind_some]
  exact lookup_of_nodup (leads.nodup.sublist (List.filter_sublist.map _)) stays

/-- What ends is replaced, if no item reads on. -/
theorem finish (small : t < g.numbered.terminalCount) (ends : g.EndsWith k t)
    (alone : ∀ x, g.Reads k x → g.number x ≠ t) :
    ∃ productions ≠ [], (∀ p ∈ productions, ∃ item ∈ g.numbered.analysis.closure k,
        item.production = p ∧ g.nextStep item = none ∧ item.ahead.testBit t = true) ∧
      (Automaton.ofGrammar g).actions n t = productions.map g.numbered.analysis.reduction := by
  obtain ⟨targets, leads, -, states⟩ := chart.states n inside k place
  obtain ⟨f, found, ending⟩ := Analysis.finished_of_endsOn small (endsOn_iff.mpr ends)
  refine ⟨f.productions, ending.some, fun p member => ?_, ?_⟩
  · obtain ⟨item, inside, same, last, bit⟩ := ending.grounded p member
    exact ⟨item, inside, same, nextSlot_eq_none_iff.mp last, bit⟩
  · have absent : t ∉ targets.map Prod.fst := by
      intro member
      obtain ⟨e, target, rfl⟩ := List.mem_map.mp member
      obtain ⟨x, -, number, reads⟩ := exists_reads solid known (leads.reached e target).1
      exact alone x reads number
    rw [actions_eq states small, found,
      Analysis.shiftTable_of_not_mem absent]
    rfl

/-- A terminal that is neither read nor ahead of an item that ends is not allowed. -/
theorem silent (ends : ¬g.EndsWith k t) (alone : ∀ x, g.Reads k x → g.number x ≠ t) :
    (Automaton.ofGrammar g).actions n t = [] := by
  obtain ⟨targets, leads, -, states⟩ := chart.states n inside k place
  have absent : t ∉ targets.map Prod.fst := by
    intro member
    obtain ⟨e, target, rfl⟩ := List.mem_map.mp member
    obtain ⟨x, -, number, reads⟩ := exists_reads solid known (leads.reached e target).1
    exact alone x reads number
  by_cases small : t < g.numbered.terminalCount
  · rw [actions_eq states small,
      Analysis.finished_of_not_endsOn (endsOn_iff.not.mpr ends),
      Analysis.shiftTable_of_not_mem absent]
    rfl
  · rw [Automaton.actions, states, Option.map_some, Option.getD_some, Analysis.actionTable,
      Array.getD_eq_getD_getElem?, Array.getElem?_eq_none]
    · rfl
    · rw [List.size_toArray, List.length_map, List.length_range]
      exact Nat.not_lt.mp small

end Chart

end Grammar

end ApiInventory.Syntax
