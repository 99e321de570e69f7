import ApiInventory.Proofs.Syntax.Chart
import ApiInventory.Syntax.Parse
import Mathlib

/-!
# Texts with one reading

As long as the state at hand has one action on each token, or several that come to the same, the
parser follows a single stack (`Automaton.follow_of_moves`), and the actions are found from the
grammar alone. What has been read of a production is known of each item of a kernel
(`Grammar.Within`), and the next symbol is read if no symbol that may begin there begins with it
too (`Grammar.Within.after`).
-/

namespace ApiInventory.Syntax

/-- What the steps of a production expect. -/
def Body.symbols (b : Body) : List Symbol := b.steps.map Step.symbol

/-! ## Stacks without extras -/

theorem popFrames_of_plain {front : List Frame} (plain : ∀ f ∈ front, f.extra = false)
    (taken below : List Frame) :
    popFrames front.length taken (front ++ below) = some (front.reverse ++ taken, below) := by
  induction front generalizing taken with
  | nil => simp [popFrames]
  | cons f front ih =>
      obtain ⟨here, later⟩ := List.forall_mem_cons.mp plain
      rw [List.length_cons, List.cons_append, popFrames, here, if_neg Bool.false_ne_true,
        ih later]
      simp

theorem sameStates_self (frames : List Frame) : sameStates frames frames = true := by
  induction frames with
  | nil => rfl
  | cons f frames ih => simp [sameStates, ih]

namespace Automaton

variable {m : Automaton} {g : Grammar} {t p n : Nat} {text : String} {frames : List Frame}
variable {x : Symbol} {b : Body}

/-- The nodes of the frames of a production, step by step. -/
def nodesOf (g : Grammar) (steps : List Step) (shapes : List Shape) : List Node :=
  (List.zipWith g.shows steps shapes).flatten

theorem childrenOf_of_plain (grammar : m.grammar = g.numbered) {steps : List Step}
    (known : ∀ s ∈ steps, s.symbol ∈ g.symbols) (plain : ∀ f ∈ frames, f.extra = false)
    (length : frames.length = steps.length) :
    m.childrenOf (steps.map g.slot) frames = nodesOf g steps (frames.map Frame.shape) := by
  induction steps generalizing frames with
  | nil =>
      rw [List.length_nil, List.length_eq_zero_iff] at length
      subst length
      rfl
  | cons s steps ih =>
      obtain ⟨f, frames, rfl⟩ := List.exists_cons_of_length_eq_add_one length
      obtain ⟨first, others⟩ := List.forall_mem_cons.mp known
      obtain ⟨here, later⟩ := List.forall_mem_cons.mp plain
      have rest := ih others later (Nat.succ.inj length)
      have shown : g.numbered.displays.getD (g.number s.symbol) none = g.display s.symbol :=
        Grammar.displays_number first
      rw [List.map_cons, childrenOf, here, if_neg Bool.false_ne_true, rest, grammar]
      dsimp only [Grammar.slot]
      rw [shown]
      rfl

/-- What has been read of a production is replaced by its symbol. -/
theorem reduceFrames_of_plain (grammar : m.grammar = g.numbered)
    (place : g.productionList[p]? = some (x, b)) (known : ∀ s ∈ b.steps, s.symbol ∈ g.symbols)
    {front below : List Frame} (some : front ≠ []) (plain : ∀ f ∈ front, f.extra = false)
    (length : front.length = b.steps.length)
    (goto : m.goto (topState below) (g.number x) = Option.some n) :
    m.reduceFrames p (front ++ below) = Option.some
      (⟨n, .group (nodesOf g b.steps (front.reverse.map Frame.shape)),
        b.weight + totalWeight front.reverse, false⟩ :: below) := by
  have slots : m.grammar.slots p = (b.steps.map g.slot).toArray := by
    rw [grammar, Grammar.slots_of_getElem? place]
  have production : m.grammar.productions[p]? = Option.some (g.production (x, b)) := by
    rw [grammar, Grammar.getElem?_productions, place, Option.map_some]
  have extras : (front ++ below).takeWhile Frame.extra = [] := by
    obtain ⟨f, front, rfl⟩ := List.exists_cons_of_ne_nil some
    rw [List.cons_append, List.takeWhile_cons, plain f List.mem_cons_self]
    rfl
  have popped := popFrames_of_plain plain [] below
  rw [length, List.append_nil] at popped
  have plain' : ∀ f ∈ front.reverse, f.extra = false := fun f inside =>
    plain f (List.mem_reverse.mp inside)
  have children := childrenOf_of_plain grammar known plain' (by rw [List.length_reverse, length])
  have target : m.grammar.target p = g.number x := by
    rw [Numbered.target, production]
    rfl
  unfold reduceFrames
  dsimp only
  rw [slots, extras, List.size_toArray, List.length_map, ite_self, List.length_nil, List.drop_zero,
    popped]
  dsimp only
  rw [target, goto]
  dsimp only
  rw [production, children]
  rfl

/-! ## One token -/

theorem advance_nil (fuel : Nat) (out : Advance) : m.advance t text fuel [] out = out := by
  cases fuel <;> rfl

theorem advance_of_shift {fuel : Nat} {out : Advance}
    (actions : m.actions (topState frames) t = [.shift n]) :
    m.advance t text (fuel + 1) [frames] out =
      { out with read := out.read ++ [⟨n, .token text, 0, false⟩ :: frames] } := by
  rw [advance, actions]
  exact advance_nil ..

/-- Several productions may be finished, if they come to the same. -/
theorem advance_of_reduce {fuel : Nat} {out : Advance} {actions : List Action}
    {reduced : List Frame} (found : m.actions (topState frames) t = actions)
    (some : actions ≠ [])
    (same : ∀ a ∈ actions, ∃ p, a = .reduce p ∧ m.reduceFrames p frames = Option.some reduced) :
    m.advance t text (fuel + 1) [frames] out = m.advance t text fuel [reduced] out := by
  have again : addStack reduced [reduced] = [reduced] := by
    rw [addStack, sameStates_self, if_pos rfl, if_neg (lt_irrefl _)]
  have fixed {f : List (List Frame) × Advance → Action → List (List Frame) × Advance}
      {later : List Action} (fixes : ∀ a ∈ later, f ([reduced], out) a = ([reduced], out)) :
      later.foldl f ([reduced], out) = ([reduced], out) :=
    List.foldlRecOn (motive := (· = ([reduced], out))) later f rfl fun state before a inside => by
      rw [before]
      exact fixes a inside
  obtain ⟨a, later, rfl⟩ := List.exists_cons_of_ne_nil some
  obtain ⟨⟨p, rfl, first⟩, others⟩ := List.forall_mem_cons.mp same
  rw [advance, found, List.foldl_cons]
  dsimp only
  rw [first]
  dsimp only [addStack]
  refine congrArg (fun state : List (List Frame) × Advance =>
    m.advance t text fuel state.1 state.2) (fixed fun a inside => ?_)
  obtain ⟨p, rfl, reduces⟩ := others a inside
  dsimp only
  rw [reduces]
  dsimp only
  rw [again]

/-- A stack may be accepted more than once. -/
theorem advance_of_accept {fuel : Nat} {out : Advance} {actions : List Action}
    (found : m.actions (topState frames) t = actions) (all : ∀ a ∈ actions, a = .accept) :
    m.advance t text (fuel + 1) [frames] out =
      { out with done := out.done ++ List.replicate actions.length frames } := by
  have accepted {f : List (List Frame) × Advance → Action → List (List Frame) × Advance}
      (accepts : ∀ out, f ([], out) .accept = ([], { out with done := out.done ++ [frames] })) :
      actions.foldl f ([], out) =
        ([], { out with done := out.done ++ List.replicate actions.length frames }) := by
    clear found
    induction actions generalizing out with
    | nil => simp
    | cons a actions ih =>
        obtain ⟨rfl, later⟩ := List.forall_mem_cons.mp all
        rw [List.foldl_cons, accepts, ih later]
        simp [List.replicate_succ]
  rw [advance, found]
  exact (congrArg (fun state : List (List Frame) × Advance =>
    m.advance t text fuel state.1 state.2) (accepted fun _ => rfl)).trans (advance_nil ..)

/-! ## One reading -/

variable {σ : Type} [BEq σ] {lexer : Lexer σ} {budget : Nat} {a a' : Reading σ}

/-- The only reading reads a token. -/
theorem follow_of_moves {fuel : Nat} {found : Lexeme σ}
    (next : lexer.next (m.allows (topState a.frames)) a.lexer a.rest = some found)
    (role : found.role = .terminal t)
    (advances : m.advance t found.text budget [a.frames] ⟨[], []⟩ = ⟨[frames], []⟩) :
    m.follow lexer budget (fuel + 1) [a] none = m.follow lexer budget fuel
      [⟨frames, found.state, found.rest, a.left - found.taken⟩] none := by
  have step : a.step m lexer budget =
      ([⟨frames, found.state, found.rest, a.left - found.taken⟩], []) := by
    unfold Reading.step
    dsimp only
    rw [next]
    dsimp only
    rw [role]
    dsimp only
    rw [advances]
    rfl
  rw [follow]
  simp [step, Reading.addTo]

/-- The only reading comes to an end. -/
theorem follow_of_done {fuel count : Nat} {found : Lexeme σ}
    (next : lexer.next (m.allows (topState a.frames)) a.lexer a.rest = some found)
    (role : found.role = .terminal t)
    (advances : m.advance t found.text budget [a.frames] ⟨[], []⟩ =
      ⟨[], List.replicate (count + 1) frames⟩) :
    m.follow lexer budget (fuel + 2) [a] none = some frames := by
  have step : a.step m lexer budget = ([], List.replicate (count + 1) frames) := by
    unfold Reading.step
    dsimp only
    rw [next]
    dsimp only
    rw [role]
    dsimp only
    rw [advances]
    rfl
  have best (count : Nat) :
      (List.replicate count frames).foldl better (some frames) = some frames := by
    induction count with
    | zero => rfl
    | succ count ih =>
        rw [List.replicate_succ, List.foldl_cons, better, if_neg (lt_irrefl _), ih]
  rw [follow]
  simp [step, List.replicate_succ, better, best, follow]

end Automaton

namespace Grammar

variable {g : Grammar} {kernels : Array (List Item)} {k : List Item} {item : Item}
variable {x y z : Symbol} {b wanted : Body} {s : Step} {read : List Symbol} {depth n t : Nat}

/-! ## States near the start -/

/-- A state that so many symbols lead to from the start. -/
structure Site (g : Grammar) (kernels : Array (List Item)) (depth n : Nat) (k : List Item) :
    Prop where
  place : kernels[n]? = some k
  small : n < (2 * g.numbered.symbolCount) ^ depth
  known : g.KnownAll k

theorem symbolCount_pos (g : Grammar) : 0 < g.numbered.symbolCount := by
  rw [symbolCount_eq]
  exact Nat.succ_pos _

/-- Numbers grow by a factor at most. -/
theorem next_small {n' : Nat} (small : n < (2 * g.numbered.symbolCount) ^ depth)
    (le : n' ≤ (n + 1) * g.numbered.symbolCount) :
    n' < (2 * g.numbered.symbolCount) ^ (depth + 1) := by
  have positive := symbolCount_pos g
  have power : 0 < (2 * g.numbered.symbolCount) ^ depth := Nat.lt_of_le_of_lt (Nat.zero_le n) small
  calc n' ≤ (n + 1) * g.numbered.symbolCount := le
    _ ≤ (2 * g.numbered.symbolCount) ^ depth * g.numbered.symbolCount :=
        Nat.mul_le_mul_right _ small
    _ < (2 * g.numbered.symbolCount) ^ depth * (2 * g.numbered.symbolCount) :=
        Nat.mul_lt_mul_of_pos_left (by omega) power
    _ = (2 * g.numbered.symbolCount) ^ (depth + 1) := (Nat.pow_succ ..).symm

/-- So many symbols away from the start, all states are there. -/
def Reachable (g : Grammar) (depth : Nat) : Prop :=
  (2 * g.numbered.symbolCount) ^ depth ≤ Automaton.stateLimit

theorem Site.start (chart : g.Chart kernels) : g.Site kernels 0 0 (startKernel g.numbered) :=
  ⟨chart.start, by simp, knownAll_start g⟩

theorem Site.inside (site : g.Site kernels depth n k) (reachable : g.Reachable depth) :
    n < Automaton.stateLimit :=
  Nat.lt_of_lt_of_le site.small reachable

theorem Site.shift (chart : g.Chart kernels) (solid : g.Solid) (reachable : g.Reachable depth)
    (site : g.Site kernels depth n k) (terminal : x ∈ g.terminals) (reads : g.Reads k x)
    (alone : ¬g.EndsWith k (g.number x)) :
    ∃ n', g.Site kernels (depth + 1) n' (g.after k x) ∧
      (Automaton.ofGrammar g).actions n (g.number x) = [.shift n'] := by
  obtain ⟨n', le, place, actions⟩ :=
    chart.shift solid site.known site.place (site.inside reachable) terminal reads alone
  exact ⟨n', ⟨place, next_small site.small le,
    site.known.after solid (List.mem_append_left _ terminal)⟩, actions⟩

theorem Site.goto (chart : g.Chart kernels) (solid : g.Solid) (reachable : g.Reachable depth)
    (site : g.Site kernels depth n k) (nonterminal : x ∈ g.nonterminals) (reads : g.Reads k x) :
    ∃ n', g.Site kernels (depth + 1) n' (g.after k x) ∧
      (Automaton.ofGrammar g).goto n (g.number x) = some n' := by
  obtain ⟨n', le, place, goto⟩ :=
    chart.goto solid site.known site.place (site.inside reachable) nonterminal reads
  exact ⟨n', ⟨place, next_small site.small le,
    site.known.after solid (List.mem_append_right _ nonterminal)⟩, goto⟩

theorem Reachable.of_le {more : Nat} (reachable : g.Reachable more) (le : depth ≤ more) :
    g.Reachable depth := by
  have positive := symbolCount_pos g
  exact (Nat.pow_le_pow_right (by omega) le).trans reachable

/-! ## What has been read -/

/-- A production of the symbol begins with the other one. -/
def Heads (g : Grammar) (x y : Symbol) : Prop :=
  ∃ b s later, (x, b) ∈ g.productionList ∧ b.steps = s :: later ∧ s.symbol = y

/-- What is known of the items of a kernel: which symbols they are of, what they have read, and
what may follow them. -/
structure Trace where
  among : Symbol → Prop
  follow : Nat → Prop
  read : List Symbol

/-- The trace after one more symbol. -/
def Trace.after (trace : Trace) (y : Symbol) : Trace :=
  { trace with read := trace.read ++ [y] }

/-- The trace of a kernel that a symbol leads to, if nothing has been read before. -/
def Trace.begun (among : Symbol → Prop) (follow : Nat → Prop) (y : Symbol) : Trace :=
  ⟨among, follow, [y]⟩

/-- An item stands for a place of the trace. -/
structure OnTrace (g : Grammar) (trace : Trace) (item : Item) (x : Symbol) (b : Body) : Prop where
  among : trace.among x
  stands : g.Stands item x b
  dot : item.dot = trace.read.length
  read : b.symbols.take trace.read.length = trace.read
  follow : ∀ t, item.ahead.testBit t = true → trace.follow t

/-- All items of a kernel are on the trace. -/
def Within (g : Grammar) (k : List Item) (trace : Trace) : Prop :=
  ∀ item ∈ k, ∃ x b, g.OnTrace trace item x b

/-- An item of the state is on its way in the production, and the terminal may follow it. -/
def Follows (g : Grammar) (k : List Item) (x : Symbol) (b : Body) (dot t : Nat) : Prop :=
  ∃ item ∈ g.numbered.analysis.closure k, g.Stands item x b ∧ item.dot = dot ∧
    item.ahead.testBit t = true

variable {trace : Trace}

theorem nextStep_zero (stands : g.Stands item x b) (begins : item.dot = 0)
    (next : g.nextStep item = some s) : ∃ later, b.steps = s :: later := by
  rw [stands.nextStep_eq, begins, ← List.head?_eq_getElem?] at next
  exact ⟨_, List.eq_cons_of_mem_head? next⟩

theorem Follows.reads (h : g.Follows k x b depth t) (step : b.steps[depth]? = some s) :
    g.Reads k s.symbol := by
  obtain ⟨item, inside, stands, rfl, -⟩ := h
  exact ⟨item, inside, s, by rw [stands.nextStep_eq, step], rfl⟩

theorem Follows.after (h : g.Follows k x b depth t) (solid : g.Solid) (known : g.KnownAll k)
    (step : b.steps[depth]? = some s) : g.Follows (g.after k s.symbol) x b (depth + 1) t := by
  obtain ⟨item, inside, stands, rfl, bit⟩ := h
  have next : g.nextStep item = some s := by rw [stands.nextStep_eq, step]
  have symbol := (known.closure solid item inside).mem_symbols solid next
  exact ⟨{ item with dot := item.dot + 1 }, subset_closure _
    ((mem_after_iff solid known symbol).mpr ⟨item, inside, s, next, rfl, rfl⟩), stands, rfl, bit⟩

theorem Follows.endsWith (h : g.Follows k x b b.steps.length t) : g.EndsWith k t := by
  obtain ⟨item, inside, stands, dot, bit⟩ := h
  refine ⟨item, inside, ?_, bit⟩
  rw [stands.nextStep_eq, dot, List.getElem?_eq_none (Nat.le_refl _)]

/-- What an item on a trace reads next comes next in its production. -/
theorem OnTrace.next (on : g.OnTrace trace item x b) (next : g.nextStep item = some s) :
    b.symbols.take (trace.read.length + 1) = trace.read ++ [s.symbol] := by
  rw [on.stands.nextStep_eq, on.dot] at next
  have place : b.symbols[trace.read.length]? = some s.symbol := by
    rw [Body.symbols, List.getElem?_map, next, Option.map_some]
  rw [List.take_add_one, on.read, place]
  rfl

theorem Within.knownAll (within : g.Within k trace) : g.KnownAll k := by
  intro item inside
  obtain ⟨x, b, on⟩ := within item inside
  exact .inl ⟨x, b, on.stands⟩

/-- The trace goes on with a symbol, if nothing else in the state begins with it. -/
theorem Within.after (solid : g.Solid) (within : g.Within k trace) (symbol : y ∈ g.symbols)
    (alone : ∀ x, g.Opened k x → ¬g.Heads x y) : g.Within (g.after k y) (trace.after y) := by
  intro item member
  obtain ⟨before, inside, s, next, rfl, rfl⟩ :=
    (mem_after_iff solid within.knownAll symbol).mp member
  rcases mem_closure solid within.knownAll inside with here | ⟨x, b, stands, begins, opened, -⟩
  · obtain ⟨x, b, on⟩ := within before here
    have length : (trace.after s.symbol).read.length = trace.read.length + 1 :=
      List.length_append
    refine ⟨x, b, on.among, on.stands, ?_, ?_, on.follow⟩
    · rw [length, ← on.dot]
    · rw [length]
      exact on.next next
  · obtain ⟨later, steps⟩ := nextStep_zero stands begins next
    exact absurd ⟨b, s, later, List.mem_of_getElem? stands, steps, rfl⟩ (alone x opened)

/-- A trace begins with a symbol that no item of the kernel reads. -/
theorem within_begun (solid : g.Solid) (known : g.KnownAll k) (symbol : y ∈ g.symbols)
    {among : Symbol → Prop} {follow : Nat → Prop}
    (other : ∀ item ∈ k, ∀ s, g.nextStep item = some s → s.symbol ≠ y)
    (alone : ∀ x, g.Opened k x → g.Heads x y → among x)
    (ahead : ∀ x t, among x → g.Ahead k x t → follow t) :
    g.Within (g.after k y) (.begun among follow y) := by
  intro item member
  obtain ⟨before, inside, s, next, rfl, rfl⟩ := (mem_after_iff solid known symbol).mp member
  rcases mem_closure solid known inside with here | ⟨x, b, stands, begins, opened, bits⟩
  · exact absurd rfl (other before here s next)
  · obtain ⟨later, steps⟩ := nextStep_zero stands begins next
    have belongs := alone x opened ⟨b, s, later, List.mem_of_getElem? stands, steps, rfl⟩
    refine ⟨x, b, belongs, stands, congrArg (· + 1) begins, ?_, fun t bit =>
      ahead x t belongs (bits t bit)⟩
    rw [Body.symbols, steps]
    rfl

/-- Only the start symbol has a production without steps, and no step expects it. -/
theorem Opened.ne_start (solid : g.Solid) (within : g.Within k trace)
    (opened : g.Opened k x) : x ≠ .named g.start := by
  cases opened with
  | next inside next _ =>
      obtain ⟨y, b, on⟩ := within _ inside
      rw [on.stands.nextStep_eq] at next
      exact solid.unused _ (List.mem_of_getElem? on.stands) _ (List.mem_of_getElem? next)
  | lead _ member steps _ => exact solid.unused _ member _ (steps ▸ List.mem_cons_self)

/-- What ends in a state on a trace has read all of its production. -/
theorem Within.onTrace_of_ends (solid : g.Solid) (within : g.Within k trace)
    (inside : item ∈ g.numbered.analysis.closure k) (ends : g.nextStep item = none) :
    ∃ x b, g.OnTrace trace item x b ∧ b.symbols = trace.read := by
  rcases mem_closure solid within.knownAll inside with here | ⟨x, b, stands, begins, opened, -⟩
  · obtain ⟨x, b, on⟩ := within item here
    refine ⟨x, b, on, ?_⟩
    rw [on.stands.nextStep_eq, on.dot, List.getElem?_eq_none_iff] at ends
    have taken := on.read
    rwa [List.take_of_length_le (by rwa [Body.symbols, List.length_map])] at taken
  · rw [stands.nextStep_eq, begins, List.getElem?_eq_none_iff, Nat.le_zero,
      List.length_eq_zero_iff] at ends
    exact absurd (solid.empty _ (List.mem_of_getElem? stands) ends)
      (opened.ne_start solid within)

theorem Within.of_endsWith (solid : g.Solid) (within : g.Within k trace) (ends : g.EndsWith k t) :
    trace.follow t ∧ ∃ x b, trace.among x ∧ (x, b) ∈ g.productionList ∧ b.symbols = trace.read := by
  obtain ⟨item, inside, last, bit⟩ := ends
  obtain ⟨x, b, on, whole⟩ := within.onTrace_of_ends solid inside last
  exact ⟨on.follow t bit, x, b, on.among, List.mem_of_getElem? on.stands, whole⟩

/-- What is read in such a state comes next on the trace, or begins there. -/
theorem Within.of_reads (solid : g.Solid) (within : g.Within k trace) (reads : g.Reads k y) :
    (∃ x b, trace.among x ∧ (x, b) ∈ g.productionList ∧
      b.symbols.take (trace.read.length + 1) = trace.read ++ [y]) ∨
      ∃ x, g.Opened k x ∧ g.Heads x y := by
  obtain ⟨item, inside, s, next, rfl⟩ := reads
  rcases mem_closure solid within.knownAll inside with here | ⟨x, b, stands, begins, opened, -⟩
  · obtain ⟨x, b, on⟩ := within item here
    exact .inl ⟨x, b, on.among, List.mem_of_getElem? on.stands, on.next next⟩
  · obtain ⟨later, steps⟩ := nextStep_zero stands begins next
    exact .inr ⟨x, opened, b, s, later, List.mem_of_getElem? stands, steps, rfl⟩

/-- What may begin in such a state comes next on the trace, or leads what may begin. -/
theorem Within.of_opened (within : g.Within k trace) (allowed : Symbol → Prop)
    (first : ∀ x b y, trace.among x → (x, b) ∈ g.productionList →
      b.symbols.take (trace.read.length + 1) = trace.read ++ [y] → y ∈ g.nonterminals → allowed y)
    (lead : ∀ x y, allowed x → g.Heads x y → y ∈ g.nonterminals → allowed y)
    (opened : g.Opened k z) : allowed z := by
  induction opened with
  | next inside next nonterminal =>
      obtain ⟨x, b, on⟩ := within _ inside
      exact first x b _ on.among (List.mem_of_getElem? on.stands) (on.next next) nonterminal
  | lead _ member steps nonterminal ih =>
      exact lead _ _ ih ⟨_, _, _, member, steps, rfl⟩ nonterminal

theorem Reads.mem_symbols (solid : g.Solid) (known : g.KnownAll k) (reads : g.Reads k y) :
    y ∈ g.symbols := by
  obtain ⟨item, inside, s, next, rfl⟩ := reads
  exact (known.closure solid item inside).mem_symbols solid next

/-- The end of the text is no symbol. -/
theorem Reads.number_ne_zero (solid : g.Solid) (known : g.KnownAll k) (reads : g.Reads k y) :
    g.number y ≠ 0 := by
  obtain ⟨i, number, -⟩ := exists_number (reads.mem_symbols solid known)
  omega

/-! ## Replacing what has been read -/

section Replace

variable (chart : g.Chart kernels) (solid : g.Solid) (reachable : g.Reachable depth)
include chart solid reachable

/-- A production that has been read to its end is replaced by its symbol. -/
theorem Site.advance (front below : List Frame) (fuel : Nat) (text : String)
    (out : Automaton.Advance) {n' : Nat} (site : g.Site kernels depth n k)
    (within : g.Within k trace)
    (whole : ∀ x' b', trace.among x' → (x', b') ∈ g.productionList → b'.symbols = trace.read →
      x' = x ∧ b' = b)
    (ends : g.EndsWith k t) (small : t < g.numbered.terminalCount)
    (alone : ∀ y, g.Reads k y → g.number y ≠ t) (member : (x, b) ∈ g.productionList)
    (top : topState (front ++ below) = n) (plain : ∀ f ∈ front, f.extra = false)
    (some : front ≠ []) (length : front.length = b.steps.length)
    (goto : (Automaton.ofGrammar g).goto (topState below) (g.number x) = Option.some n') :
    (Automaton.ofGrammar g).advance t text (fuel + 1) [front ++ below] out =
      (Automaton.ofGrammar g).advance t text fuel
        [⟨n', .group (Automaton.nodesOf g b.steps (front.reverse.map Frame.shape)),
          b.weight + totalWeight front.reverse, false⟩ :: below] out := by
  obtain ⟨productions, someProduction, grounded, actions⟩ :=
    chart.finish solid site.known site.place (site.inside reachable) small ends alone
  refine Automaton.advance_of_reduce (top ▸ actions) (by simpa using someProduction) ?_
  rintro action reduction
  obtain ⟨p, listed, rfl⟩ := List.mem_map.mp reduction
  obtain ⟨item, inside, rfl, last, -⟩ := grounded p listed
  obtain ⟨x', b', on, read⟩ := within.onTrace_of_ends solid inside last
  obtain ⟨rfl, rfl⟩ := whole x' b' on.among (List.mem_of_getElem? on.stands) read
  refine ⟨item.production, if_neg on.stands.production_ne_root, ?_⟩
  exact Automaton.reduceFrames_of_plain rfl on.stands
    (fun s step => solid.mem_symbols member step) some plain length goto

/-- What may follow an item that ends is allowed. -/
theorem Site.allows (site : g.Site kernels depth n k) (small : t < g.numbered.terminalCount)
    (ends : g.EndsWith k t) (alone : ∀ y, g.Reads k y → g.number y ≠ t) :
    (Automaton.ofGrammar g).allows n t = true := by
  obtain ⟨productions, some, -, actions⟩ :=
    chart.finish solid site.known site.place (site.inside reachable) small ends alone
  rw [Automaton.allows, actions]
  simpa using some

theorem Site.not_allows (site : g.Site kernels depth n k) (ends : ¬g.EndsWith k t)
    (alone : ∀ y, g.Reads k y → g.number y ≠ t) :
    (Automaton.ofGrammar g).allows n t = false := by
  rw [Automaton.allows, chart.silent solid site.known site.place (site.inside reachable) ends alone]
  rfl

end Replace

/-! ## Reading on -/

/-- A state on a trace where a production is halfway read that the terminal may follow. -/
structure Halfway (g : Grammar) (kernels : Array (List Item)) (depth n : Nat) (k : List Item)
    (trace : Trace) (x : Symbol) (b : Body) (t : Nat) : Prop where
  site : g.Site kernels depth n k
  within : g.Within k trace
  follows : g.Follows k x b trace.read.length t

theorem Halfway.after {n' : Nat} (h : g.Halfway kernels depth n k trace x b t) (solid : g.Solid)
    (step : b.steps[trace.read.length]? = some s)
    (alone : ∀ z, g.Opened k z → ¬g.Heads z s.symbol)
    (site : g.Site kernels (depth + 1) n' (g.after k s.symbol)) :
    g.Halfway kernels (depth + 1) n' (g.after k s.symbol) (trace.after s.symbol) x b t := by
  have symbol := (h.follows.reads step).mem_symbols solid h.site.known
  have length : (trace.after s.symbol).read.length = trace.read.length + 1 := List.length_append
  refine ⟨site, h.within.after solid symbol alone, ?_⟩
  rw [length]
  exact h.follows.after solid h.site.known step

/-- What begins in a state is halfway read in the next one. -/
theorem Site.halfway (among : Symbol → Prop) (follow : Nat → Prop) {later : List Step} {n' : Nat}
    (site : g.Site kernels depth n k) (solid : g.Solid) (follows : g.Follows k x b 0 t)
    (steps : b.steps = s :: later)
    (other : ∀ item ∈ k, ∀ next, g.nextStep item = some next → next.symbol ≠ s.symbol)
    (alone : ∀ z, g.Opened k z → g.Heads z s.symbol → among z)
    (ahead : ∀ z t, among z → g.Ahead k z t → follow t)
    (next : g.Site kernels (depth + 1) n' (g.after k s.symbol)) :
    g.Halfway kernels (depth + 1) n' (g.after k s.symbol) (.begun among follow s.symbol) x b t := by
  have step : b.steps[0]? = some s := by rw [steps, List.getElem?_cons_zero]
  have symbol := (follows.reads step).mem_symbols solid site.known
  exact ⟨next, within_begun solid site.known symbol other alone ahead,
    follows.after solid site.known step⟩

theorem Halfway.not_endsWith (h : g.Halfway kernels depth n k trace x b t) (solid : g.Solid)
    (more : ∀ x b, trace.among x → (x, b) ∈ g.productionList → b.symbols ≠ trace.read) {t' : Nat} :
    ¬g.EndsWith k t' := by
  intro ends
  obtain ⟨-, x, b, belongs, member, whole⟩ := h.within.of_endsWith solid ends
  exact more x b belongs member whole

section Onward

variable (chart : g.Chart kernels) (solid : g.Solid) (reachable : g.Reachable depth)
include chart solid reachable

/-- A token that comes next in the production is read. -/
theorem Halfway.shift (h : g.Halfway kernels depth n k trace x b t)
    (step : b.steps[trace.read.length]? = some s) (terminal : s.symbol ∈ g.terminals)
    (alone : ∀ z, g.Opened k z → ¬g.Heads z s.symbol)
    (more : ∀ x b, trace.among x → (x, b) ∈ g.productionList → b.symbols ≠ trace.read) :
    ∃ n', g.Halfway kernels (depth + 1) n' (g.after k s.symbol) (trace.after s.symbol) x b t ∧
      (Automaton.ofGrammar g).actions n (g.number s.symbol) = [.shift n'] := by
  obtain ⟨n', site, actions⟩ := h.site.shift chart solid reachable terminal (h.follows.reads step)
    (h.not_endsWith solid more)
  exact ⟨n', h.after solid step alone site, actions⟩

/-- A symbol that comes next in the production is gone over. -/
theorem Halfway.goto (h : g.Halfway kernels depth n k trace x b t)
    (step : b.steps[trace.read.length]? = some s) (nonterminal : s.symbol ∈ g.nonterminals)
    (alone : ∀ z, g.Opened k z → ¬g.Heads z s.symbol) :
    ∃ n', g.Halfway kernels (depth + 1) n' (g.after k s.symbol) (trace.after s.symbol) x b t ∧
      (Automaton.ofGrammar g).goto n (g.number s.symbol) = some n' := by
  obtain ⟨n', site, goto⟩ := h.site.goto chart solid reachable nonterminal (h.follows.reads step)
  exact ⟨n', h.after solid step alone site, goto⟩

end Onward

/-! ## The start -/

theorem nextStep_start {next : Step} (inside : item ∈ startKernel g.numbered)
    (step : g.nextStep item = some next) : next.symbol = .named g.start := by
  obtain rfl := List.mem_singleton.mp inside
  rw [nextStep, stepsAt, if_pos rfl] at step
  obtain rfl := Option.some.inj step
  rfl

/-- What may begin at the start is the start symbol, or leads what may begin. -/
theorem of_opened_start (allowed : Symbol → Prop) (first : allowed (.named g.start))
    (lead : ∀ x y, allowed x → g.Heads x y → y ∈ g.nonterminals → allowed y)
    (opened : g.Opened (startKernel g.numbered) z) : allowed z := by
  induction opened with
  | next inside next _ => exact nextStep_start inside next ▸ first
  | lead _ member steps nonterminal ih =>
      exact lead _ _ ih ⟨_, _, _, member, steps, rfl⟩ nonterminal

theorem followsDot_start (inside : item ∈ startKernel g.numbered) (follows : g.FollowsDot item t) :
    t = 0 := by
  obtain rfl := List.mem_singleton.mp inside
  cases follows with
  | ahead _ bit =>
      rw [testBit_single, decide_eq_true_eq] at bit
      exact bit
  | next steps _ =>
      rw [stepsAfter, stepsAt, if_pos rfl] at steps
      cases steps

/-- Nothing but the end of the text follows the start symbol. -/
theorem Solid.eq_zero_of_ahead_start (solid : g.Solid) (start : x = .named g.start)
    (ahead : g.Ahead (startKernel g.numbered) x t) : t = 0 := by
  cases ahead with
  | next inside _ _ follows => exact followsDot_start inside follows
  | lead _ member steps _ _ | last _ member steps _ =>
      exact absurd start (solid.unused _ member _ (steps ▸ List.mem_cons_self))

theorem Solid.eq_zero_of_endsWith_start (solid : g.Solid)
    (ends : g.EndsWith (startKernel g.numbered) t) : t = 0 := by
  obtain ⟨item, inside, last, bit⟩ := ends
  rcases mem_closure solid (knownAll_start g) inside with here | ⟨x, b, stands, begins, -, bits⟩
  · obtain rfl := List.mem_singleton.mp here
    rw [nextStep, stepsAt, if_pos rfl] at last
    cases last
  · rw [stands.nextStep_eq, begins, List.getElem?_eq_none_iff, Nat.le_zero,
      List.length_eq_zero_iff] at last
    obtain rfl := solid.empty _ (List.mem_of_getElem? stands) last
    exact solid.eq_zero_of_ahead_start rfl (bits t bit)

/-- What the start symbol passes on to begins at the start, and may come before the end. -/
theorem Passes.follows_start {count : Nat} (passes : g.Passes (.named g.start) count y)
    (solid : g.Solid) (enough : count ≤ g.numbered.symbolCount * g.numbered.symbolCount)
    (member : (y, b) ∈ g.productionList) : g.Follows (startKernel g.numbered) y b 0 0 := by
  let root : Item := ⟨g.numbered.root, 0, TerminalSet.single 0⟩
  have next : g.nextStep root = some ⟨.named g.start, {}⟩ := by
    rw [nextStep, stepsAt, if_pos rfl]
    rfl
  have last : g.stepsAfter root = [] := by
    rw [stepsAfter, stepsAt, if_pos rfl]
    rfl
  have zero : root.ahead.testBit 0 = true := by
    rw [testBit_single]
    rfl
  have bit := aheadAfter_of_last solid (.inr rfl) last zero
  obtain ⟨begun, inside, stands, dot, bit⟩ := Passes.begins_in_closure
    (s := ⟨.named g.start, {}⟩) passes solid List.mem_cons_self next solid.start_mem enough bit
    member
  exact ⟨begun, inside, stands, dot, bit⟩

/-- The items that have read the start symbol. -/
theorem mem_after_start (solid : g.Solid)
    (member : item ∈ g.after (startKernel g.numbered) (.named g.start)) :
    item = ⟨g.numbered.root, 1, TerminalSet.single 0⟩ := by
  obtain ⟨before, inside, s, next, same, rfl⟩ := (mem_after_iff solid (knownAll_start g)
    (List.mem_append_right _ solid.start_mem)).mp member
  rcases mem_closure solid (knownAll_start g) inside with here | ⟨x, b, stands, -⟩
  · obtain rfl := List.mem_singleton.mp here
    rfl
  · rw [stands.nextStep_eq] at next
    exact absurd same (solid.unused _ (List.mem_of_getElem? stands) _ (List.mem_of_getElem? next))

/-- When the start symbol has been read, the text has to be over. -/
theorem mem_closure_after_start (solid : g.Solid)
    (member : item ∈ g.numbered.analysis.closure
      (g.after (startKernel g.numbered) (.named g.start))) :
    item = ⟨g.numbered.root, 1, TerminalSet.single 0⟩ := by
  have known := (knownAll_start g).after solid (List.mem_append_right _ solid.start_mem)
  have nothing {x : Symbol}
      (opened : g.Opened (g.after (startKernel g.numbered) (.named g.start)) x) : False := by
    induction opened with
    | next inside next _ =>
        rw [mem_after_start solid inside, nextStep, stepsAt, if_pos rfl] at next
        cases next
    | lead _ _ _ _ ih => exact ih
  rcases mem_closure solid known member with here | ⟨_, _, _, _, opened, _⟩
  · exact mem_after_start solid here
  · exact (nothing opened).elim

/-- At the end of the text, what the start symbol passes on to is replaced by what it leads. -/
theorem exists_raise {n' : Nat} {among : Symbol → Prop} (chart : g.Chart kernels) (solid : g.Solid)
    (reachable : g.Reachable 1) (follows : g.Follows (startKernel g.numbered) x b 0 0)
    (steps : b.steps = [s]) (nonterminal : s.symbol ∈ g.nonterminals)
    (alone : ∀ z, g.Heads z s.symbol → among z)
    (whole : ∀ x' b', among x' → (x', b') ∈ g.productionList → b'.symbols = [s.symbol] →
      x' = x ∧ b' = b)
    (goto : (Automaton.ofGrammar g).goto 0 (g.number x) = some n') :
    ∃ n, (Automaton.ofGrammar g).goto 0 (g.number s.symbol) = some n ∧
      ∀ f : Frame, f.state = n → f.extra = false → ∀ fuel text out,
        (Automaton.ofGrammar g).advance 0 text (fuel + 1) [[f]] out =
          (Automaton.ofGrammar g).advance 0 text fuel
            [[⟨n', .group (g.shows s f.shape), b.weight + totalWeight [f], false⟩]] out := by
  have step : b.steps[0]? = some s := by rw [steps]; rfl
  have member : (x, b) ∈ g.productionList := by
    obtain ⟨item, -, stands, -⟩ := follows
    exact List.mem_of_getElem? stands
  have inside : s ∈ b.steps := steps ▸ List.mem_singleton_self s
  obtain ⟨n, site, goto'⟩ := (Site.start chart).goto chart solid (reachable.of_le (Nat.zero_le 1))
    nonterminal (follows.reads step)
  have other : ∀ item ∈ startKernel g.numbered, ∀ next, g.nextStep item = some next →
      next.symbol ≠ s.symbol := by
    intro item inside' next step same
    exact solid.unused _ member s inside (same.symm.trans (nextStep_start inside' step))
  have halfway := (Site.start chart).halfway among (fun _ => True) solid follows steps other
    (fun z _ heads => alone z heads) (fun _ _ _ _ => trivial) site
  refine ⟨n, goto', fun f state plain fuel text out => ?_⟩
  have ends : g.EndsWith (g.after (startKernel g.numbered) s.symbol) 0 := by
    refine Follows.endsWith (x := x) (b := b) ?_
    rw [steps]
    exact halfway.follows
  have small : 0 < g.numbered.terminalCount := by simp [Numbered.terminalCount, numbered]
  have front : topState ([f] ++ []) = n := state
  have replaced := site.advance chart solid reachable [f] [] fuel text out halfway.within whole ends
    small (fun y reads => reads.number_ne_zero solid site.known) member front
    (List.forall_mem_singleton.mpr plain) (List.cons_ne_nil f []) (by rw [steps]; rfl) goto
  have nodes : Automaton.nodesOf g b.steps ([f].reverse.map Frame.shape) = g.shows s f.shape := by
    rw [steps]
    simp [Automaton.nodesOf]
  rw [nodes] at replaced
  exact replaced

/-- At the end of the text the start symbol is accepted. -/
theorem exists_accept (chart : g.Chart kernels) (solid : g.Solid) (reachable : g.Reachable 1) :
    ∃ n, (Automaton.ofGrammar g).goto 0 (g.number (.named g.start)) = some n ∧
      ∀ (f : Frame), f.state = n → ∀ fuel text out,
        ∃ count, (Automaton.ofGrammar g).advance 0 text (fuel + 1) [[f]] out =
          { out with done := out.done ++ List.replicate (count + 1) [f] } := by
  have root : (⟨g.numbered.root, 0, TerminalSet.single 0⟩ : Item) ∈
      g.numbered.analysis.closure (startKernel g.numbered) :=
    subset_closure _ List.mem_cons_self
  have next : g.nextStep ⟨g.numbered.root, 0, TerminalSet.single 0⟩ =
      some ⟨.named g.start, {}⟩ := by
    rw [nextStep, stepsAt, if_pos rfl]
    rfl
  have reads : g.Reads (startKernel g.numbered) (.named g.start) := ⟨_, root, _, next, rfl⟩
  obtain ⟨n, site, goto⟩ := (Site.start chart).goto chart solid (reachable.of_le (Nat.zero_le 1))
    solid.start_mem reads
  have last : g.nextStep ⟨g.numbered.root, 1, TerminalSet.single 0⟩ = none := by
    rw [nextStep, stepsAt, if_pos rfl]
    rfl
  have ends : g.EndsWith (g.after (startKernel g.numbered) (.named g.start)) 0 := by
    refine ⟨⟨g.numbered.root, 1, TerminalSet.single 0⟩, subset_closure _ ?_, last, ?_⟩
    · exact (mem_after_iff solid (knownAll_start g)
        (List.mem_append_right _ solid.start_mem)).mpr ⟨_, root, _, next, rfl, rfl⟩
    · rw [testBit_single]
      rfl
  have alone : ∀ y, g.Reads (g.after (startKernel g.numbered) (.named g.start)) y →
      g.number y ≠ 0 := fun y reads => reads.number_ne_zero solid site.known
  have small : 0 < g.numbered.terminalCount := by simp [Numbered.terminalCount, numbered]
  obtain ⟨productions, some, grounded, actions⟩ :=
    chart.finish solid site.known site.place (site.inside reachable) small ends alone
  refine ⟨n, goto, fun f state fuel text out => ?_⟩
  have all : ∀ a ∈ productions.map g.numbered.analysis.reduction, a = .accept := by
    intro a reduction
    obtain ⟨p, listed, rfl⟩ := List.mem_map.mp reduction
    obtain ⟨item, inside, rfl, -⟩ := grounded p listed
    rw [mem_closure_after_start solid inside]
    exact if_pos rfl
  obtain ⟨count, length⟩ := Nat.exists_eq_succ_of_ne_zero (List.length_eq_zero_iff.not.mpr some)
  refine ⟨count, ?_⟩
  have top : topState [f] = n := state
  rw [Automaton.advance_of_accept (top ▸ actions) all, List.length_map, length]

end Grammar

end ApiInventory.Syntax
