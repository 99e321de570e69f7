import ApiInventory.Proofs.Syntax.Numbering
import Mathlib

/-!
# The states of an automaton

A state stands for its kernel, the items that its predecessors led to. Whatever an action of the
state does is grounded in an item of the state (`Settled`): it reads the symbol behind a dot, and
then comes to a state of the items with the dot moved on, or it finishes a production whose dot is
at the end. States are found one after the other, and all of them are grounded in this way
(`exists_kernels`). What the construction knows of lookahead and ranks only decides which of these
actions are kept.
-/

namespace ApiInventory.Syntax

theorem Item.eq_of_beq {x y : Item} (same : (x == y) = true) : x = y := by
  cases x
  cases y
  simp_all [BEq.beq, instBEqItem.beq]

instance : LawfulBEq Item where
  eq_of_beq := Item.eq_of_beq
  rfl {x} := by
    cases x
    simp [BEq.beq, instBEqItem.beq]

namespace Analysis

variable {a : Analysis} {kernel next : List Item} {symbol : Nat} {item : Item}

/-- Each item comes from one of the state, by moving its dot over the symbol. -/
def Onward (a : Analysis) (kernel : List Item) (symbol : Nat) (next : List Item) : Prop :=
  ∀ item ∈ next, ∃ before ∈ a.closure kernel, ∃ slot, a.nextSlot before = some slot ∧
    slot.symbol = symbol ∧ item = { before with dot := before.dot + 1 }

/-- An item of the state has its dot at the end of the production. -/
def Finishes (a : Analysis) (kernel : List Item) (production : Nat) : Prop :=
  ∃ item ∈ a.closure kernel, item.production = production ∧ a.nextSlot item = none

theorem onward_successors (a : Analysis) (kernel : List Item) (symbol : Nat) :
    a.Onward kernel symbol ((a.successors (a.closure kernel)).getD symbol []) := by
  have filled : Fills
      (fun symbol item => ∃ before ∈ a.closure kernel, ∃ slot, a.nextSlot before = some slot ∧
        slot.symbol = symbol ∧ item = { before with dot := before.dot + 1 })
      (a.successors (a.closure kernel)) := by
    refine List.foldlRecOn _ _ (.replicate _) fun table filled before inside => ?_
    split
    · exact filled
    · rename_i slot found
      exact filled.modify ⟨before, inside, slot, found, rfl, rfl⟩
  exact fun item member => filled.getD member

theorem mem_add {p production : Nat} {rank : Int} {side : Option Side} {old : Option Finished}
    (member : p ∈ (Finished.add rank side production old).productions) :
    p = production ∨ ∃ f, old = some f ∧ p ∈ f.productions := by
  unfold Finished.add at member
  split at member
  · exact .inl (List.mem_singleton.mp member)
  · rename_i f
    split at member
    · exact .inl (List.mem_singleton.mp member)
    · split at member
      · rcases List.mem_append.mp member with earlier | here
        · exact .inr ⟨f, rfl, earlier⟩
        · exact .inl (List.mem_singleton.mp here)
      · exact .inr ⟨f, rfl, member⟩

/-- What a table of finished productions may hold. -/
def Holds (a : Analysis) (kernel : List Item) (table : Array (Option Finished)) : Prop :=
  ∀ (t : Nat) f, table[t]? = some (some f) → ∀ p ∈ f.productions, a.Finishes kernel p

theorem holds_finished (a : Analysis) (kernel : List Item) :
    a.Holds kernel (a.finished (a.closure kernel)) := by
  refine List.foldlRecOn _ _ ?_ fun table holds item inside => ?_
  · intro t f none
    rw [Array.getElem?_replicate] at none
    split at none <;> cases none
  · split
    · exact holds
    · rename_i ends
      refine List.foldlRecOn _ _ holds fun table holds terminal _ => ?_
      split
      · intro t f found p member
        rw [Array.getElem?_modify] at found
        split at found
        · rename_i here
          subst here
          obtain ⟨old, before, same⟩ := Option.map_eq_some_iff.mp found
          obtain rfl := Option.some.inj same
          rcases mem_add member with rfl | ⟨f, rfl, earlier⟩
          · exact ⟨item, inside, rfl, ends⟩
          · exact holds terminal f before p earlier
        · exact holds t f found p member
      · exact holds

theorem mem_actionsOn {items : List Item} {t : Nat} {f : Option Finished} {n : Option Nat}
    {action : Action} (member : action ∈ a.actionsOn items t f n) :
    (∃ state, n = some state ∧ action = .shift state) ∨
      ∃ finished, f = some finished ∧ ∃ p ∈ finished.productions, action = a.reduction p := by
  have reduces {f : Finished} (inside : action ∈ f.productions.map a.reduction) :
      ∃ p ∈ f.productions, action = a.reduction p := by
    obtain ⟨p, here, rfl⟩ := List.mem_map.mp inside
    exact ⟨p, here, rfl⟩
  unfold actionsOn at member
  split at member
  · cases member
  · exact .inl ⟨_, rfl, List.mem_singleton.mp member⟩
  · exact .inr ⟨_, rfl, reduces member⟩
  · split at member
    · exact .inl ⟨_, rfl, List.mem_singleton.mp member⟩
    · exact .inr ⟨_, rfl, reduces member⟩
    · rcases List.mem_append.mp member with finish | read
      · exact .inr ⟨_, rfl, reduces finish⟩
      · exact .inl ⟨_, rfl, List.mem_singleton.mp read⟩

/-- The state with the number is one that the symbol leads to. -/
def Reaches (a : Analysis) (kernels : Array (List Item)) (kernel : List Item) (symbol n : Nat) :
    Prop :=
  ∃ next, kernels[n]? = some next ∧ a.Onward kernel symbol next

/-- The actions of a state are grounded in its items. -/
structure Settled (a : Analysis) (kernels : Array (List Item)) (kernel : List Item)
    (state : State) : Prop where
  shift : ∀ t n, .shift n ∈ state.actions.getD t [] →
    a.grammar.isTerminal t = true ∧ a.Reaches kernels kernel t n
  reduce : ∀ t p, .reduce p ∈ state.actions.getD t [] →
    p ≠ a.grammar.root ∧ a.Finishes kernel p
  accept : ∀ t, .accept ∈ state.actions.getD t [] → a.Finishes kernel a.grammar.root
  goto : ∀ x n, state.gotos.lookup x = some n →
    a.grammar.isTerminal x = false ∧ a.Reaches kernels kernel x n

/-- Where the terminals of a state lead. -/
def shiftTable (a : Analysis) (targets : List (Nat × Nat)) : Array (Option Nat) :=
  targets.foldl (fun (table : Array (Option Nat)) (symbol, n) =>
    table.setIfInBounds symbol (some n)) (Array.replicate a.grammar.terminalCount none)

/-- The actions of a state, terminal by terminal. -/
def actionTable (a : Analysis) (kernel : List Item) (targets : List (Nat × Nat)) :
    Array (List Action) :=
  ((List.range a.grammar.terminalCount).map fun t =>
    a.actionsOn (a.closure kernel) t ((a.finished (a.closure kernel)).getD t none)
      ((a.shiftTable targets).getD t none)).toArray

variable {targets : List (Nat × Nat)}

theorem mem_of_shiftTable {t n : Nat} (found : (a.shiftTable targets).getD t none = some n) :
    (t, n) ∈ targets := by
  let motive (table : Array (Option Nat)) : Prop :=
    ∀ (t : Nat) n, table[t]? = some (some n) → (t, n) ∈ targets
  have start : motive (Array.replicate a.grammar.terminalCount none) := by
    intro t n none
    rw [Array.getElem?_replicate] at none
    split at none <;> cases none
  have all : motive (a.shiftTable targets) :=
    List.foldlRecOn (motive := motive) targets _ start fun table holds target inside t n found => by
      rw [Array.getElem?_setIfInBounds] at found
      split at found
      · rename_i here
        subst here
        split at found
        · obtain rfl := Option.some.inj (Option.some.inj found)
          exact inside
        · cases found
      · exact holds t n found
  refine all t n ?_
  rw [Array.getD_eq_getD_getElem?] at found
  exact (Option.getD_eq_iff.mp found).resolve_right (by simp)

theorem of_mem_actionTable {t : Nat} {action : Action}
    (member : action ∈ (a.actionTable kernel targets).getD t []) :
    t < a.grammar.terminalCount ∧ ((∃ n, (t, n) ∈ targets ∧ action = .shift n) ∨
      ∃ p, a.Finishes kernel p ∧ action = a.reduction p) := by
  rw [actionTable, Array.getD_eq_getD_getElem?, List.getElem?_toArray, List.getElem?_map] at member
  by_cases small : t < a.grammar.terminalCount
  · rw [List.getElem?_range small, Option.map_some, Option.getD_some] at member
    refine ⟨small, (mem_actionsOn member).imp ?_ ?_⟩
    · rintro ⟨n, found, rfl⟩
      exact ⟨n, mem_of_shiftTable found, rfl⟩
    · rintro ⟨f, found, p, inside, rfl⟩
      rw [Array.getD_eq_getD_getElem?] at found
      have place := (Option.getD_eq_iff.mp found).resolve_right (by simp)
      exact ⟨p, a.holds_finished kernel t f place p inside, rfl⟩
  · rw [List.getElem?_eq_none (by simpa using small)] at member
    cases member

theorem reduction_eq_reduce {p q : Nat} (reduces : a.reduction p = .reduce q) :
    p = q ∧ p ≠ a.grammar.root := by
  unfold reduction at reduces
  split at reduces
  · cases reduces
  · exact ⟨Action.reduce.inj reduces, ‹_›⟩

theorem reduction_eq_accept {p : Nat} (accepts : a.reduction p = .accept) : p = a.grammar.root := by
  unfold reduction at accepts
  split at accepts
  · assumption
  · cases accepts

theorem reduction_ne_shift (p n : Nat) : a.reduction p ≠ .shift n := by
  unfold reduction
  split <;> simp

/-- The actions of a state, from the states that its symbols lead to. -/
theorem settled_of_targets {kernels : Array (List Item)}
    (reached : ∀ t ∈ targets, a.Reaches kernels kernel t.1 t.2) :
    a.Settled kernels kernel ⟨a.actionTable kernel targets,
      targets.filter fun (symbol, _) => !a.grammar.isTerminal symbol⟩ := by
  refine ⟨fun t n member => ?_, fun t p member => ?_, fun t member => ?_, fun x n found => ?_⟩
  · obtain ⟨small, ⟨n', target, same⟩ | ⟨p, -, same⟩⟩ := of_mem_actionTable member
    · obtain rfl := Action.shift.inj same
      exact ⟨decide_eq_true small, reached _ target⟩
    · exact absurd same.symm (reduction_ne_shift p n)
  · obtain ⟨-, ⟨n, -, same⟩ | ⟨p', finishes, same⟩⟩ := of_mem_actionTable member
    · cases same
    · obtain ⟨rfl, other⟩ := reduction_eq_reduce same.symm
      exact ⟨other, finishes⟩
  · obtain ⟨-, ⟨n, -, same⟩ | ⟨p, finishes, same⟩⟩ := of_mem_actionTable member
    · cases same
    · exact reduction_eq_accept same.symm ▸ finishes
  · dsimp only at found
    obtain ⟨before, after, split, -⟩ := List.lookup_eq_some_iff.mp found
    have member : (x, n) ∈ targets.filter fun (symbol, _) => !a.grammar.isTerminal symbol := by
      rw [split]
      simp
    obtain ⟨target, nonterminal⟩ := List.mem_filter.mp member
    exact ⟨by simpa using nonterminal, reached _ target⟩

end Analysis

/-! ## The construction -/

namespace Construction

variable {a : Analysis} {c c' : Construction} {kernel : List Item}

/-- Kernels keep their numbers. -/
def Extends (c c' : Construction) : Prop :=
  ∀ (n : Nat) k, c.kernels[n]? = some k → c'.kernels[n]? = some k

/-- Numbers are those of the kernels, and the states that are worked out are grounded. -/
structure Sound (a : Analysis) (c : Construction) : Prop where
  numbers : ∀ (k : List Item) (n : Nat), c.numbers[k]? = some n → c.kernels[n]? = some k
  states : ∀ (n : Nat) state, c.states[n]? = some state →
    ∃ k, c.kernels[n]? = some k ∧ a.Settled c.kernels k state

end Construction

namespace Analysis

variable {a : Analysis} {c c' : Construction} {kernel : List Item} {state : State}

theorem Reaches.mono {x n : Nat} (h : a.Reaches c.kernels kernel x n) (keeps : c.Extends c') :
    a.Reaches c'.kernels kernel x n := by
  obtain ⟨next, place, onward⟩ := h
  exact ⟨next, keeps n next place, onward⟩

theorem Settled.mono (h : a.Settled c.kernels kernel state) (keeps : c.Extends c') :
    a.Settled c'.kernels kernel state where
  shift t n member := (h.shift t n member).imp id (Reaches.mono · keeps)
  reduce := h.reduce
  accept := h.accept
  goto x n found := (h.goto x n found).imp id (Reaches.mono · keeps)

end Analysis

namespace Construction

variable {a : Analysis} {c c' : Construction} {kernel : List Item}

theorem Extends.refl (c : Construction) : c.Extends c := fun _ _ found => found

theorem Extends.trans {c'' : Construction} (h : c.Extends c') (h' : c'.Extends c'') :
    c.Extends c'' :=
  fun n k found => h' n k (h n k found)

/-- A kernel gets the number at which it stands. -/
theorem Sound.number (h : Sound a c) (kernel : List Item) :
    Sound a (c.number kernel).1 ∧ c.Extends (c.number kernel).1 ∧
      (c.number kernel).1.states = c.states ∧
      (c.number kernel).1.kernels[(c.number kernel).2]? = some kernel := by
  unfold Construction.number
  split
  · rename_i n found
    exact ⟨h, .refl c, rfl, h.numbers kernel n found⟩
  · have keeps : c.Extends { c with
        numbers := c.numbers.insert kernel c.kernels.size, kernels := c.kernels.push kernel } := by
      intro n k found
      rw [Array.getElem?_push]
      obtain ⟨small, -⟩ := Array.getElem?_eq_some_iff.mp found
      rw [if_neg (by omega), found]
    refine ⟨⟨fun k n found => ?_, fun n state found => ?_⟩, keeps, rfl, by simp⟩
    · rw [Std.HashMap.getElem?_insert] at found
      split at found
      · rename_i same
        obtain rfl := beq_iff_eq.mp same
        obtain rfl := Option.some.inj found
        simp
      · exact keeps n k (h.numbers k n found)
    · obtain ⟨k, place, settled⟩ := h.states n state found
      exact ⟨k, keeps n k place, settled.mono keeps⟩

theorem mem_inOrder {k : List Item} {item : Item} : item ∈ inOrder k ↔ item ∈ k :=
  (List.mergeSort_perm ..).mem_iff

/-- Number the state that a symbol leads to. -/
def follow (after : Array (List Item)) (made : Construction × List (Nat × Nat)) (symbol : Nat) :
    Construction × List (Nat × Nat) :=
  match after.getD symbol [] with
  | [] => made
  | k => ((made.1.number (inOrder k)).1, (symbol, (made.1.number (inOrder k)).2) :: made.2)

/-- The states that the symbols lead to are numbered, and nothing else changes. -/
theorem Sound.follow (h : Sound a c) (kernel : List Item) (symbols : List Nat) :
    let made := symbols.foldl (follow (a.successors (a.closure kernel))) (c, [])
    Sound a made.1 ∧ c.Extends made.1 ∧ made.1.states = c.states ∧
      ∀ t ∈ made.2, a.Reaches made.1.kernels kernel t.1 t.2 := by
  let motive (made : Construction × List (Nat × Nat)) : Prop :=
    Sound a made.1 ∧ c.Extends made.1 ∧ made.1.states = c.states ∧
      ∀ t ∈ made.2, a.Reaches made.1.kernels kernel t.1 t.2
  have start : motive (c, []) := ⟨h, .refl c, rfl, List.forall_mem_nil _⟩
  refine List.foldlRecOn (motive := motive) symbols _ start ?_
  rintro ⟨c', targets⟩ ⟨sound, keeps, states, reached⟩ symbol -
  unfold Construction.follow
  split
  · exact ⟨sound, keeps, states, reached⟩
  · obtain ⟨sound', keeps', states', place⟩ :=
      sound.number (inOrder ((a.successors (a.closure kernel)).getD symbol []))
    refine ⟨sound', keeps.trans keeps', states'.trans states, ?_⟩
    refine List.forall_mem_cons.mpr ⟨⟨_, place, fun item member => ?_⟩, fun t inside => ?_⟩
    · exact a.onward_successors kernel symbol item (mem_inOrder.mp member)
    · exact (reached t inside).mono keeps'

/-- A state that is worked out is grounded in its kernel. -/
theorem Sound.settle (h : Sound a c) (place : c.kernels[c.states.size]? = some kernel) :
    Sound a (c.settle a kernel) ∧ c.Extends (c.settle a kernel) := by
  obtain ⟨sound, keeps, states, reached⟩ :=
    h.follow kernel (List.range (a.successors (a.closure kernel)).size)
  refine ⟨⟨sound.numbers, fun n state found => ?_⟩, keeps⟩
  have found := (Array.getElem?_push ..).symm.trans found
  split at found
  · rename_i last
    obtain rfl := Option.some.inj found
    refine ⟨kernel, ?_, Analysis.settled_of_targets reached⟩
    rw [last]
    exact keeps _ _ (states ▸ place)
  · exact sound.states n state found

theorem Sound.grow (h : Sound a c) (fuel : Nat) :
    Sound a (c.grow a fuel) ∧ c.Extends (c.grow a fuel) := by
  induction fuel generalizing c with
  | zero => exact ⟨h, .refl c⟩
  | succ fuel ih =>
      rw [Construction.grow]
      split
      · exact ⟨h, .refl c⟩
      · rename_i kernel place
        obtain ⟨sound, keeps⟩ := h.settle place
        obtain ⟨sound', keeps'⟩ := ih sound
        exact ⟨sound', keeps.trans keeps'⟩

end Construction

/-! ## Automata -/

/-- The items that a text begins with. -/
def startKernel (g : Numbered) : List Item := [⟨g.root, 0, TerminalSet.single 0⟩]

/-- All states of an automaton are grounded, and the first one is where a text begins. -/
structure Automaton.Grounded (m : Automaton) (a : Analysis) (kernels : Array (List Item)) :
    Prop where
  grammar : a.grammar = m.grammar
  start : kernels[0]? = some (startKernel m.grammar)
  states : ∀ (n : Nat) state, m.states[n]? = some state →
    ∃ k, kernels[n]? = some k ∧ a.Settled kernels k state

theorem Automaton.exists_grounded (g : Grammar) :
    ∃ a kernels, (Automaton.ofGrammar g).Grounded a kernels := by
  let empty : Construction := ⟨{}, #[], #[]⟩
  have nothing : Construction.Sound g.numbered.analysis empty :=
    ⟨fun k n found => by simp [empty] at found, fun n state found => by simp [empty] at found⟩
  obtain ⟨begun, -, -, place⟩ := nothing.number (startKernel g.numbered)
  obtain ⟨sound, keeps⟩ := begun.grow Automaton.stateLimit
  have first : (empty.number (startKernel g.numbered)).2 = 0 := by
    simp [Construction.number, empty]
  rw [first] at place
  exact ⟨g.numbered.analysis, _, rfl, keeps _ _ place, sound.states⟩

end ApiInventory.Syntax
