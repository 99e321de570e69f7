import ApiInventory.Proofs.Syntax.States
import Mathlib

/-!
# The stacks of a parser

A stack holds what has been read, and its states say how it goes on. Whoever has a stack can read
off the items of its topmost state what lies on it: in front of the dot of an item there are, from
the top down, what the steps of its production stand for, with extras only between them
(`Stack.pop`). So what is put together when a production is finished is what the production yields
(`Stack.reduce`), and a stack that is accepted holds what the start symbol derives
(`Stack.accepted`).
-/

namespace ApiInventory.Syntax

variable {g : Grammar} {extras : List String} {a : Analysis} {kernels : Array (List Item)}

/-! ## Frames -/

/-- The frame of an extra. -/
structure Frame.IsExtra (extras : List String) (f : Frame) : Prop where
  extra : f.extra = true
  node : ∃ n, f.shape = .group [n] ∧ Syntax.IsExtra extras n

/-- What has been read is what the symbol of the number stands for. -/
inductive Fits (g : Grammar) (extras : List String) (n : Nat) : Shape → Prop
  | token (terminal : g.numbered.isTerminal n = true) (text : String) :
      Fits g extras n (.token text)
  | group {x : Symbol} {children : List Node} (nonterminal : x ∈ g.nonterminals)
      (number : g.number x = n) (derives : g.Derives extras x children) :
      Fits g extras n (.group children)

/-- Frames for the steps, one after the other, and for extras between them. -/
inductive Lined (g : Grammar) (extras : List String) : List Step → List Frame → Prop
  | none : Lined g extras [] []
  | last {s : Step} {f : Frame} (plain : f.extra = false)
      (fits : Fits g extras (g.number s.symbol) f.shape) : Lined g extras [s] [f]
  | more {s next : Step} {later : List Step} {f : Frame} {between rest : List Frame}
      (plain : f.extra = false) (fits : Fits g extras (g.number s.symbol) f.shape)
      (gap : ∀ e ∈ between, e.IsExtra extras) (onward : Lined g extras (next :: later) rest) :
      Lined g extras (s :: next :: later) (f :: (between ++ rest))

theorem Lined.cons {s : Step} {later : List Step} {f : Frame} {between taken : List Frame}
    (plain : f.extra = false) (fits : Fits g extras (g.number s.symbol) f.shape)
    (gap : ∀ e ∈ between, e.IsExtra extras) (last : later = [] → between = [])
    (onward : Lined g extras later taken) :
    Lined g extras (s :: later) (f :: (between ++ taken)) := by
  cases later with
  | nil =>
      cases onward
      rw [last rfl]
      exact .last plain fits
  | cons next later => exact .more plain fits gap onward

theorem childrenOf_extras (m : Automaton) (slots : List Slot) {between : List Frame}
    (gap : ∀ e ∈ between, e.IsExtra extras) (rest : List Frame) :
    m.childrenOf slots (between ++ rest) =
      between.flatMap Frame.extraNodes ++ m.childrenOf slots rest := by
  induction between with
  | nil => rfl
  | cons e between ih =>
      obtain ⟨here, later⟩ := List.forall_mem_cons.mp gap
      rw [List.cons_append, List.flatMap_cons, List.append_assoc, ← ih later]
      cases slots with
      | nil => rfl
      | cons s slots => rw [Automaton.childrenOf, if_pos here.extra]

theorem plain_of_dropWhile (frames : List Frame) :
    ∀ f ∈ (frames.dropWhile Frame.extra).head?, f.extra = false := by
  intro f top
  have last := List.head?_dropWhile_not Frame.extra frames
  rw [Option.mem_def.mp top] at last
  exact last

theorem isExtra_of_mem_extraNodes {frames : List Frame} (all : ∀ e ∈ frames, e.IsExtra extras) :
    ∀ n ∈ frames.flatMap Frame.extraNodes, IsExtra extras n := by
  intro n member
  obtain ⟨e, inside, member⟩ := List.mem_flatMap.mp member
  obtain ⟨n', shape, extra⟩ := (all e inside).node
  rw [Frame.extraNodes, shape] at member
  obtain rfl := List.mem_singleton.mp member
  exact extra

/-- The nodes of a single frame are those that its step stands for. -/
theorem Fits.yields {m : Automaton} (grammar : m.grammar = g.numbered) {s : Step} {shape : Shape}
    (known : s.symbol ∈ g.symbols) (fits : Fits g extras (g.number s.symbol) shape) :
    g.Yields extras [s]
      (Frame.appear ((g.slot s).shown <|> m.grammar.displays.getD (g.slot s).symbol none)
        (g.slot s).label shape) := by
  have display : m.grammar.displays.getD (g.slot s).symbol none = g.display s.symbol := by
    rw [grammar]
    exact Grammar.displays_number known
  rw [display]
  cases fits with
  | token terminal text => exact .token (Grammar.mem_terminals_of_isTerminal known terminal) text
  | group nonterminal number derives =>
      obtain rfl := Grammar.number_inj (List.mem_append_right _ nonterminal) known number
      obtain ⟨b, production, inside⟩ := derives
      exact .group nonterminal production inside

theorem Lined.yields {m : Automaton} (grammar : m.grammar = g.numbered) {steps : List Step}
    {frames : List Frame} (lined : Lined g extras steps frames)
    (known : ∀ s ∈ steps, s.symbol ∈ g.symbols) :
    g.Yields extras steps (m.childrenOf (steps.map g.slot) frames) := by
  induction lined with
  | none => exact .none
  | @last s f plain fits =>
      have yields := fits.yields grammar (known s List.mem_cons_self)
      rw [List.map_cons, Automaton.childrenOf, plain]
      simpa [Automaton.childrenOf] using yields
  | @more s next later f between rest plain fits gap onward ih =>
      obtain ⟨here, rest⟩ := List.forall_mem_cons.mp known
      rw [List.map_cons, Automaton.childrenOf, plain, if_neg (by simp), childrenOf_extras m _ gap,
        ← List.append_assoc]
      exact .more (fits.yields grammar here) (isExtra_of_mem_extraNodes gap) (ih rest)

/-! ## Stacks -/

/-- Frames with the states that they lead through, and the kernel of the topmost one. -/
inductive Stack (g : Grammar) (extras : List String) (a : Analysis) (kernels : Array (List Item)) :
    List Frame → List Item → Prop
  | start : Stack g extras a kernels [] (startKernel g.numbered)
  | extra {e : Frame} {frames : List Frame} {k : List Item}
      (below : Stack g extras a kernels frames k) (extra : e.IsExtra extras)
      (same : e.state = topState frames) : Stack g extras a kernels (e :: frames) k
  | symbol {f : Frame} {frames : List Frame} {k next : List Item} {n : Nat}
      (below : Stack g extras a kernels frames k) (plain : f.extra = false)
      (fits : Fits g extras n f.shape) (place : kernels[f.state]? = some next)
      (onward : a.Onward k n next) : Stack g extras a kernels (f :: frames) next

namespace Stack

variable {frames : List Frame} {k : List Item} {item : Item}

theorem top (start : kernels[0]? = some (startKernel g.numbered))
    (h : Stack g extras a kernels frames k) : kernels[topState frames]? = some k := by
  induction h with
  | start => exact start
  | extra _ _ same ih => rw [topState, same, ih]
  | symbol _ _ _ place _ => exact place

/-- An item of a state is of its kernel, or one of the choices of a symbol begins with it. -/
theorem mem_closure (inside : item ∈ a.closure k) :
    item ∈ k ∨ item.dot = 0 ∧ ∃ symbol, item.production ∈ a.grammar.choicesOf symbol := by
  rcases List.mem_append.mp inside with kernel | begun
  · exact .inl kernel
  · obtain ⟨symbol, -, member⟩ := List.mem_flatMap.mp begun
    dsimp only at member
    split at member
    · cases member
    · obtain ⟨p, choice, rfl⟩ := List.mem_map.mp member
      exact .inr ⟨rfl, symbol, choice⟩

/-- Where the dot of an item has moved, a symbol lies below it. -/
theorem exists_below {n : Nat} {next : List Item} (onward : a.Onward k n next)
    (inside : item ∈ a.closure next) (moved : item.dot ≠ 0) :
    ∃ before ∈ a.closure k, ∃ slot, a.nextSlot before = some slot ∧ slot.symbol = n ∧
      item = { before with dot := before.dot + 1 } :=
  onward item ((mem_closure inside).resolve_right fun begun => moved begun.1)

theorem dot_startKernel (inside : item ∈ a.closure (startKernel g.numbered)) : item.dot = 0 := by
  rcases mem_closure inside with kernel | begun
  · rw [List.mem_singleton.mp kernel]
  · exact begun.1

/-- The dot of an item is inside its production. -/
theorem dot_le (h : Stack g extras a kernels frames k) (inside : item ∈ a.closure k) :
    item.dot ≤ (a.grammar.slots item.production).size := by
  induction h generalizing item with
  | start => rw [dot_startKernel inside]; exact Nat.zero_le _
  | extra _ _ _ ih => exact ih inside
  | symbol below plain fits place onward ih =>
      by_cases moved : item.dot = 0
      · rw [moved]; exact Nat.zero_le _
      · obtain ⟨before, -, slot, next, -, rfl⟩ := exists_below onward inside moved
        exact (Array.getElem?_eq_some_iff.mp next).1

/-- The production of an item is one that there is, or that of the start alone. -/
theorem production_lt_or_eq (grammar : a.grammar = g.numbered)
    (h : Stack g extras a kernels frames k) (inside : item ∈ a.closure k) :
    item.production < g.numbered.productions.size ∨ item.production = g.numbered.root := by
  have chosen {symbol p : Nat} (choice : p ∈ a.grammar.choicesOf symbol) :
      p < g.numbered.productions.size :=
    Grammar.lt_of_mem_choicesOf (grammar ▸ choice)
  induction h generalizing item with
  | start =>
      rcases mem_closure inside with kernel | ⟨-, symbol, choice⟩
      · rw [List.mem_singleton.mp kernel]
        exact .inr rfl
      · exact .inl (chosen choice)
  | extra _ _ _ ih => exact ih inside
  | symbol below plain fits place onward ih =>
      rcases mem_closure inside with kernel | ⟨-, symbol, choice⟩
      · obtain ⟨before, earlier, -, -, -, rfl⟩ := onward item kernel
        have known := ih earlier
        exact known
      · exact .inl (chosen choice)

/-- Where the dot of an item has moved, its last step lies below it. -/
theorem exists_step (grammar : a.grammar = g.numbered) {n : Nat} {next : List Item}
    (onward : a.Onward k n next) (inside : item ∈ a.closure next) (moved : item.dot ≠ 0)
    {steps : List Step} (slots : (g.numbered.slots item.production).toList = steps.map g.slot) :
    ∃ before ∈ a.closure k, ∃ s, n = g.number s.symbol ∧
      steps.drop before.dot = s :: steps.drop (before.dot + 1) ∧
      item = { before with dot := before.dot + 1 } := by
  obtain ⟨before, earlier, slot, expects, symbol, rfl⟩ := exists_below onward inside moved
  have there : (steps.map g.slot)[before.dot]? = some slot := by
    rw [← slots, ← grammar, Array.getElem?_toList]
    exact expects
  rw [List.getElem?_map] at there
  obtain ⟨s, step, rfl⟩ := Option.map_eq_some_iff.mp there
  obtain ⟨small, here⟩ := List.getElem?_eq_some_iff.mp step
  exact ⟨before, earlier, s, symbol.symm, by rw [List.drop_eq_getElem_cons small, here], rfl⟩

/-- With those that are taken already, the frames in front of the dot of an item are what its steps
stand for. They lie on a stack in whose state the production begins. -/
def Pops (g : Grammar) (extras : List String) (a : Analysis) (kernels : Array (List Item))
    (item : Item) (steps : List Step) (taken frames : List Frame) : Prop :=
  ∃ taken' below k, popFrames item.dot taken frames = some (taken', below) ∧
    Lined g extras steps taken' ∧ Stack g extras a kernels below k ∧
    { item with dot := 0 } ∈ a.closure k

variable {steps : List Step} {taken between : List Frame}

theorem pops_of_begun (h : Stack g extras a kernels frames k) (inside : item ∈ a.closure k)
    (lined : Lined g extras (steps.drop item.dot) taken) (dot : item.dot = 0) :
    Pops g extras a kernels item steps taken frames := by
  refine ⟨taken, frames, k, by rw [dot, popFrames], by rwa [dot] at lined, h, ?_⟩
  rw [← dot]
  exact inside

/-- What has been taken off already stands behind the dot, and the frames of extras that were last
are kept apart from it. By induction on the stack: an extra is taken along, and a symbol moves the
dot one step back. -/
theorem pop (grammar : a.grammar = g.numbered) (h : Stack g extras a kernels frames k)
    (inside : item ∈ a.closure k)
    (slots : (g.numbered.slots item.production).toList = steps.map g.slot)
    (lined : Lined g extras (steps.drop item.dot) taken) (gap : ∀ e ∈ between, e.IsExtra extras)
    (front : item.dot = 0 → between = [])
    (ends : item.dot ≠ 0 → steps.drop item.dot = [] →
      between = [] ∧ ∀ f ∈ frames.head?, f.extra = false) :
    Pops g extras a kernels item steps (between ++ taken) frames := by
  by_cases dot : item.dot = 0
  · rw [front dot]
    exact pops_of_begun h inside lined dot
  induction h generalizing item taken between with
  | start => exact absurd (dot_startKernel inside) dot
  | @extra e frames k below extra same ih =>
      have more : steps.drop item.dot ≠ [] := fun all => by
        simpa [extra.extra] using (ends dot all).2 e
      obtain ⟨taken', below', k', popped, rest⟩ := ih inside slots lined
        (List.forall_mem_cons.mpr ⟨extra, gap⟩) (fun zero => absurd zero dot)
        (fun _ all => absurd all more) dot
      obtain ⟨n, dot⟩ := Nat.exists_eq_succ_of_ne_zero dot
      refine ⟨taken', below', k', ?_, rest⟩
      rw [dot] at popped ⊢
      rw [popFrames, if_pos extra.extra]
      exact popped
  | @symbol f frames k next n below plain fits place onward ih =>
      obtain ⟨before, earlier, s, rfl, split, rfl⟩ := exists_step grammar onward inside dot slots
      have longer : Lined g extras (steps.drop before.dot) (f :: (between ++ taken)) := by
        rw [split]
        exact .cons plain fits gap (fun all => (ends dot all).1) lined
      have popped : Pops g extras a kernels before steps (f :: (between ++ taken)) frames := by
        by_cases begun : before.dot = 0
        · exact pops_of_begun below earlier longer begun
        · exact ih earlier slots longer (List.forall_mem_nil _) (fun _ => rfl)
            (fun _ all => by simp [split] at all) begun
      obtain ⟨taken', below', k', popped, rest⟩ := popped
      refine ⟨taken', below', k', ?_, rest⟩
      rw [popFrames, plain]
      exact popped

/-- What a whole production stands for is taken off at once. -/
theorem popAll (grammar : a.grammar = g.numbered) (h : Stack g extras a kernels frames k)
    (inside : item ∈ a.closure k)
    (slots : (g.numbered.slots item.production).toList = steps.map g.slot)
    (ends : a.nextSlot item = none)
    (plain : steps ≠ [] → ∀ f ∈ frames.head?, f.extra = false) :
    ∃ taken below k', popFrames steps.length [] frames = some (taken, below) ∧
      Lined g extras steps taken ∧ Stack g extras a kernels below k' ∧
      { item with dot := 0 } ∈ a.closure k' := by
  have dot : item.dot = steps.length := by
    have le := h.dot_le inside
    have ge := Array.getElem?_eq_none_iff.mp ends
    rw [grammar, ← Array.length_toList, slots, List.length_map] at le ge
    omega
  have nothing : Lined g extras (steps.drop item.dot) [] := by
    rw [dot, List.drop_length]
    exact .none
  obtain ⟨taken, below, k', popped, rest⟩ :=
    h.pop grammar inside slots nothing (List.forall_mem_nil _) (fun _ => rfl)
      fun moved _ => ⟨rfl, plain fun none => moved (by rw [dot, none, List.length_nil])⟩
  rw [dot] at popped
  exact ⟨taken, below, k', popped, rest⟩

/-- Extras on top do not change what the stack stands for. -/
theorem dropExtras (h : Stack g extras a kernels frames k) :
    Stack g extras a kernels (frames.dropWhile Frame.extra) k ∧
      ∀ e ∈ frames.takeWhile Frame.extra, e.IsExtra extras := by
  induction h with
  | start => exact ⟨.start, List.forall_mem_nil _⟩
  | extra below extra same ih =>
      rw [List.dropWhile_cons_of_pos extra.extra, List.takeWhile_cons_of_pos extra.extra]
      exact ⟨ih.1, List.forall_mem_cons.mpr ⟨extra, ih.2⟩⟩
  | symbol below plain fits place onward ih =>
      rw [List.dropWhile_cons_of_neg (by simp [plain]), List.takeWhile_cons_of_neg (by simp [plain])]
      exact ⟨.symbol below plain fits place onward, List.forall_mem_nil _⟩

/-- Extras may be put back on top. -/
theorem putExtras (h : Stack g extras a kernels frames k) {on : List Frame} {state : Nat}
    (all : ∀ e ∈ on, e.IsExtra extras) (top : topState frames = state) :
    Stack g extras a kernels (on.map (fun e => { e with state }) ++ frames) k := by
  induction on with
  | nil => exact h
  | cons e on ih =>
      obtain ⟨here, later⟩ := List.forall_mem_cons.mp all
      refine .extra (ih later) ⟨here.extra, here.node⟩ ?_
      cases on with
      | nil => exact top.symm
      | cons e' on => rfl

/-- Below a production that is to be finished there are only the extras behind it, unless it is
empty. -/
theorem uncovered (h : Stack g extras a kernels frames k) (empty : Bool) :
    let after := if empty then [] else frames.takeWhile Frame.extra
    Stack g extras a kernels (frames.drop after.length) k ∧ (∀ e ∈ after, e.IsExtra extras) ∧
      (empty = false → ∀ f ∈ (frames.drop after.length).head?, f.extra = false) := by
  cases empty with
  | true => exact ⟨h, List.forall_mem_nil _, by simp⟩
  | false =>
      have dropped : frames.drop (frames.takeWhile Frame.extra).length =
          frames.dropWhile Frame.extra := by
        conv_lhs =>
          arg 2
          rw [← List.takeWhile_append_dropWhile (p := Frame.extra) (l := frames)]
        exact List.drop_left
      obtain ⟨inner, all⟩ := h.dropExtras
      simp only [Bool.false_eq_true, if_false, dropped, forall_const]
      exact ⟨inner, all, plain_of_dropWhile frames⟩

end Stack

variable {frames : List Frame} {k : List Item} {m : Automaton}

/-- A goto leads where the symbol leads. -/
theorem reaches_of_goto (grounded : m.Grounded a kernels) {n x state : Nat}
    (place : kernels[n]? = some k) (goes : m.goto n x = some state) :
    a.Reaches kernels k x state := by
  obtain ⟨s, found, goes⟩ := Option.bind_eq_some_iff.mp goes
  obtain ⟨k', place', settled⟩ := grounded.states n s found
  obtain rfl := Option.some.inj (place.symm.trans place')
  exact (settled.goto x state goes).2

/-- What is behind a finished production becomes one frame of its symbol. -/
theorem Stack.reduce (closed : g.Closed) (grounded : m.Grounded a kernels)
    (grammar : m.grammar = g.numbered) (h : Stack g extras a kernels frames k) {p : Nat}
    (other : p ≠ a.grammar.root) (finishes : a.Finishes k p) {reduced : List Frame}
    (reduces : m.reduceFrames p frames = some reduced) :
    ∃ k', Stack g extras a kernels reduced k' := by
  obtain ⟨item, inside, rfl, ends⟩ := finishes
  have same : a.grammar = g.numbered := grounded.grammar.trans grammar
  have start : kernels[0]? = some (startKernel g.numbered) := grammar ▸ grounded.start
  have small := (h.production_lt_or_eq same inside).resolve_right (same ▸ other)
  obtain ⟨x, nonterminal, b, production, numbered⟩ :=
    Grammar.exists_production (Array.getElem_mem small)
  have found : g.numbered.productions[item.production]? =
      some ⟨g.number x, (b.steps.map g.slot).toArray, b.weight⟩ := by
    rw [Array.getElem?_eq_getElem small, numbered]
  have slots : g.numbered.slots item.production = (b.steps.map g.slot).toArray := by
    rw [Numbered.slots, if_neg (same ▸ other), found]
    rfl
  have target : g.numbered.target item.production = g.number x := by
    rw [Numbered.target, found]
    rfl
  unfold Automaton.reduceFrames at reduces
  rw [grammar, slots, target] at reduces
  obtain ⟨inner, all, plain⟩ := h.uncovered (b.steps.map g.slot).toArray.isEmpty
  obtain ⟨taken, below, k', popped, lined, stack, -⟩ :=
    inner.popAll same inside (by rw [slots]) ends (by simpa using plain)
  dsimp only at reduces
  rw [List.size_toArray, List.length_map, popped] at reduces
  dsimp only at reduces
  split at reduces
  · cases reduces
  · rename_i state goes
    obtain rfl := Option.some.inj reduces
    obtain ⟨next, place, onward⟩ := reaches_of_goto grounded (stack.top start) goes
    refine ⟨next, .putExtras (.symbol stack rfl ?_ place onward) all rfl⟩
    refine .group nonterminal rfl ⟨b, production, ?_⟩
    exact lined.yields grammar fun s inside => closed.mem_symbols nonterminal production inside

/-- What is taken off is what lay on top. -/
theorem popFrames_eq {n : Nat} {taken on taken' below : List Frame}
    (popped : popFrames n taken on = some (taken', below)) :
    ∃ top, on = top ++ below ∧ taken' = top.reverse ++ taken := by
  fun_induction popFrames n taken on with
  | case1 taken on =>
      cases popped
      exact ⟨[], rfl, rfl⟩
  | case2 => cases popped
  | case3 n taken f on extra ih | case4 n taken f on plain ih =>
      obtain ⟨top, rfl, rfl⟩ := ih popped
      exact ⟨f :: top, rfl, by simp⟩

/-- Where the text begins, nothing but extras has been read. -/
theorem Stack.below_root (grammar : a.grammar = g.numbered) (h : Stack g extras a kernels frames k)
    {item : Item} (inside : item ∈ a.closure k) (dot : item.dot = 0)
    (root : item.production = g.numbered.root) : ∀ e ∈ frames, e.IsExtra extras := by
  induction h with
  | start => exact List.forall_mem_nil _
  | extra _ extra _ ih => exact List.forall_mem_cons.mpr ⟨extra, ih inside⟩
  | symbol _ _ _ _ onward _ =>
      rcases mem_closure inside with kernel | ⟨-, symbol, choice⟩
      · obtain ⟨before, -, -, -, -, rfl⟩ := onward item kernel
        cases dot
      · have small := Grammar.lt_of_mem_choicesOf (grammar ▸ choice)
        rw [root] at small
        exact absurd small (lt_irrefl _)

/-- A stack that is accepted holds the start symbol, among extras. -/
theorem Stack.accepted (grounded : m.Grounded a kernels) (grammar : m.grammar = g.numbered)
    (h : Stack g extras a kernels frames k) (accepts : a.Finishes k a.grammar.root) :
    ∃ after f before, frames = after ++ f :: before ∧ f.extra = false ∧
      (∀ e ∈ after ++ before, e.IsExtra extras) ∧
      Fits g extras (g.number (.named g.start)) f.shape := by
  obtain ⟨item, inside, root, ends⟩ := accepts
  have same : a.grammar = g.numbered := grounded.grammar.trans grammar
  rw [same] at root
  have slots : (g.numbered.slots item.production).toList =
      [⟨.named g.start, {}⟩].map g.slot := by
    rw [Numbered.slots, if_pos root]
    rfl
  have whole := List.takeWhile_append_dropWhile (p := Frame.extra) (l := frames)
  obtain ⟨inner, all⟩ := h.dropExtras
  obtain ⟨taken, below, k', popped, lined, stack, start⟩ :=
    inner.popAll same inside slots ends fun _ => plain_of_dropWhile frames
  obtain ⟨top, split, rfl⟩ := popFrames_eq popped
  rw [List.append_nil] at lined
  generalize order : top.reverse = taken at lined
  obtain ⟨⟩ | ⟨single, fits⟩ := lined
  rename_i f
  obtain rfl : top = [f] := List.reverse_eq_iff.mp order
  refine ⟨frames.takeWhile Frame.extra, f, below, ?_, single, ?_, fits⟩
  · rw [split] at whole
    exact whole.symm
  · exact List.forall_mem_append.mpr ⟨all, stack.below_root same start rfl root⟩

/-- The tree of a stack that is accepted is what the start symbol derives, among extras. -/
theorem Stack.rootNode (closed : g.Closed) (grounded : m.Grounded a kernels)
    (grammar : m.grammar = g.numbered) (h : Stack g extras a kernels frames k)
    (accepts : a.Finishes k a.grammar.root) {root : Node} (made : m.rootNode frames = some root) :
    ∃ before children after, root = .group g.start true none (before ++ children ++ after) ∧
      (∀ n ∈ before ++ after, IsExtra extras n) ∧
      g.Derives extras (.named g.start) children := by
  obtain ⟨after, f, before, rfl, plain, all, fits⟩ := h.accepted grounded grammar accepts
  obtain ⟨allAfter, allBefore⟩ := List.forall_mem_append.mp all
  have known : .named g.start ∈ g.symbols :=
    List.mem_append_right _ (Grammar.named_mem_nonterminals_iff.mpr closed.start)
  have display : m.grammar.displays.getD m.grammar.start none = g.display (.named g.start) := by
    rw [grammar]
    exact Grammar.displays_number known
  have order : (after ++ f :: before).reverse = before.reverse ++ f :: after.reverse := by simp
  have front : (before.reverse ++ f :: after.reverse).takeWhile Frame.extra = before.reverse := by
    rw [List.takeWhile_append_of_pos
        fun e inside => (allBefore e (List.mem_reverse.mp inside)).extra,
      List.takeWhile_cons_of_neg (by simp [plain]), List.append_nil]
  unfold Automaton.rootNode at made
  dsimp only at made
  rw [order, front, List.drop_left, display] at made
  dsimp only at made
  split at made
  · rename_i kind named children visible shape
    obtain rfl := Option.some.inj made
    rw [shape] at fits
    obtain - | ⟨nonterminal, number, derives⟩ := fits
    obtain rfl := Grammar.number_inj (List.mem_append_right _ nonterminal) known number
    obtain ⟨rfl, rfl⟩ : g.start = kind ∧ true = named := by
      rw [Grammar.display] at visible
      split at visible
      · cases visible
      · simpa using visible
    refine ⟨_, children, _, rfl, ?_, derives⟩
    rw [← List.flatMap_append]
    refine isExtra_of_mem_extraNodes fun e inside => ?_
    rcases List.mem_append.mp inside with inside | inside
    · exact allBefore e (List.mem_reverse.mp inside)
    · exact allAfter e (List.mem_reverse.mp inside)
  · cases made

end ApiInventory.Syntax
