import ApiInventory.Proofs.Source.Leading
import Mathlib

/-!
# The states on the way through a definition

As long as it is known which symbols may come next in the productions of a definition
(`Continues`), each token of one of them is read without a choice (`exists_next`), from its keyword
(`exists_first`) to its end, where the text may end too (`ends_definition`).
-/

namespace ApiInventory.Source

open Syntax (Automaton Body Frame Item Step Symbol)
open Syntax.Grammar (Chart Halfway Heads Opened Reads Site Within)

variable {x y z : Symbol} {b : Body} {k : List Item} {n t : Nat} {read next : List Symbol}

/-! ## How the productions go on -/

/-- Once so much of a production of the symbol has been read, one of these symbols comes next. -/
def Continues (x : Symbol) (read next : List Symbol) : Prop :=
  ∀ b ∈ grammar.productionsOf x, b.symbols.take read.length = read →
    ∃ y ∈ next, b.symbols[read.length]? = some y

instance (x : Symbol) (read next : List Symbol) : Decidable (Continues x read next) :=
  inferInstanceAs (Decidable (∀ b ∈ grammar.productionsOf x, _ → _))

def classBody : Body :=
  ⟨[⟨.literal "class", {}⟩, ⟨.named "identifier", { label := some "name" }⟩, ⟨.literal ":", {}⟩,
    ⟨.named "_newline", { label := some "body", shown := some ("block", true) }⟩], 0⟩

def functionBody : Body :=
  ⟨[⟨.literal "def", {}⟩, ⟨.named "identifier", { label := some "name" }⟩,
    ⟨.named "parameters", { label := some "parameters" }⟩, ⟨.literal ":", {}⟩,
    ⟨.named "_newline", { label := some "body", shown := some ("block", true) }⟩], 0⟩

def parametersBody : Body := ⟨[⟨.literal "(", {}⟩, ⟨.literal ")", {}⟩], 0⟩

/-- What the symbols before the last may be followed by. -/
theorem continues : ∀ e ∈ ([
    (.named "class_definition", [.literal "class"], [.named "identifier"]),
    (.named "class_definition", [.literal "class", .named "identifier"],
      [.literal ":", .named "type_parameter", .named "argument_list"]),
    (.named "class_definition", [.literal "class", .named "identifier", .literal ":"],
      [.named "_newline", .named "_simple_statements", .named "_indent"]),
    (.named "function_definition", [.literal "def"], [.named "identifier"]),
    (.named "function_definition", [.literal "def", .named "identifier"],
      [.named "parameters", .named "type_parameter"]),
    (.named "function_definition", [.literal "def", .named "identifier", .named "parameters"],
      [.literal ":", .literal "->"]),
    (.named "function_definition", [.literal "def", .named "identifier", .named "parameters",
      .literal ":"], [.named "_newline", .named "_simple_statements", .named "_indent"]),
    (.named "parameters", [.literal "("], [.named "_parameters", .literal ")"])] :
      List (Symbol × List Symbol × List Symbol)), Continues e.1 e.2.1 e.2.2 := by
  decide +kernel

theorem wholes : ∀ e ∈ [(.named "class_definition", classBody),
    (.named "function_definition", functionBody), (.named "parameters", parametersBody)],
    e.1 ∈ grammar.nonterminals ∧ e.2 ∈ grammar.productionsOf e.1 ∧
      ∀ b ∈ grammar.productionsOf e.1,
        b.symbols.take e.2.symbols.length = e.2.symbols → b = e.2 := by
  decide +kernel

/-! ## The states on the way -/

theorem number_ne_of_ne (known : x ∈ grammar.symbols) (known' : y ∈ grammar.symbols)
    (other : x ≠ y) : grammar.number x ≠ grammar.number y :=
  fun same => other (Syntax.Grammar.number_inj known known' same)

theorem mem_symbols_of_terminal (terminal : x ∈ grammar.terminals) : x ∈ grammar.symbols :=
  List.mem_append_left _ terminal

theorem terminals : ∀ x ∈ [.literal "class", .literal "def", .literal "(", .literal ")",
    .literal ":", .named "identifier", .named "_newline", .named "_format_text"],
    x ∈ grammar.terminals := by
  decide +kernel

variable {kernels : Array (List Item)} {depth : Nat} {trace : Syntax.Grammar.Trace} {s : Step}

/-- No production ends where another symbol has to come. -/
theorem Continues.symbols_ne (continues : Continues x read next)
    (member : (x, b) ∈ grammar.productionList) : b.symbols ≠ read := by
  rintro rfl
  obtain ⟨y, -, place⟩ :=
    continues b (Syntax.Grammar.mem_productionList_iff.mp member).2 List.take_length
  rw [List.getElem?_eq_none (Nat.le_refl _)] at place
  cases place

theorem Continues.unfinished (continues : Continues x trace.read next)
    (only : ∀ z, trace.among z → z = x) :
    ∀ x' b', trace.among x' → (x', b') ∈ grammar.productionList → b'.symbols ≠ trace.read := by
  intro x' b' belongs member
  obtain rfl := only x' belongs
  exact continues.symbols_ne member

theorem Continues.mem_next (continues : Continues x read next)
    (member : (x, b) ∈ grammar.productionList)
    (taken : b.symbols.take (read.length + 1) = read ++ [y]) : y ∈ next := by
  have before : b.symbols.take read.length = read := by
    have shorter := congrArg (List.take read.length) taken
    simpa [List.take_take] using shorter
  obtain ⟨y', inside, place⟩ :=
    continues b (Syntax.Grammar.mem_productionList_iff.mp member).2 before
  have here := congrArg (·[read.length]?) taken
  simp only [List.getElem?_take_of_lt (Nat.lt_succ_self _), List.getElem?_append_right
    (Nat.le_refl _), Nat.sub_self, List.getElem?_cons_zero] at here
  obtain rfl := Option.some.inj (here.symm.trans place)
  exact inside

/-- Symbols all of whose productions begin with the same bracket. -/
def brackets : List (Symbol × Symbol) := [(.named "type_parameter", .literal "["),
  (.named "argument_list", .literal "("), (.named "parameters", .literal "(")]

theorem head?_brackets : ∀ e ∈ brackets, e.2 ∈ grammar.terminals ∧
    ∀ b ∈ grammar.productionsOf e.1, b.symbols.head? = some e.2 := by
  decide +kernel

theorem eq_of_heads_bracket {w : Symbol} (bracket : (z, w) ∈ brackets)
    (heads : grammar.Heads z y) : y = w := by
  obtain ⟨b, member, first⟩ := head?_of_heads heads
  have all := (head?_brackets _ bracket).2 b (Syntax.Grammar.mem_productionList_iff.mp member).2
  exact Option.some.inj (first.symm.trans all)

section Continues

variable (continues : Continues x trace.read next) (within : grammar.Within k trace)
variable (only : ∀ z, trace.among z → z = x)
include continues within only

/-- What may begin comes next in the production, if that begins with brackets. -/
theorem Continues.mem_of_opened
    (bracketed : ∀ y ∈ next, y ∈ grammar.nonterminals → y ∈ brackets.map Prod.fst)
    (opened : grammar.Opened k z) : z ∈ next ∧ ∃ w, (z, w) ∈ brackets := by
  have first : ∀ x' b y, trace.among x' → (x', b) ∈ grammar.productionList →
      b.symbols.take (trace.read.length + 1) = trace.read ++ [y] → y ∈ grammar.nonterminals →
      y ∈ next ∧ ∃ w, (y, w) ∈ brackets := by
    intro x' b y belongs member taken nonterminal
    obtain rfl := only x' belongs
    have inside := continues.mem_next member taken
    obtain ⟨⟨y', w⟩, bracket, rfl⟩ := List.mem_map.mp (bracketed y inside nonterminal)
    exact ⟨inside, w, bracket⟩
  refine within.of_opened _ first ?_ opened
  rintro z' y ⟨-, w, bracket⟩ heads nonterminal
  obtain rfl := eq_of_heads_bracket bracket heads
  exact absurd nonterminal (separate _ (head?_brackets _ bracket).1)

theorem Continues.not_heads
    (bracketed : ∀ y ∈ next, y ∈ grammar.nonterminals → y ∈ brackets.map Prod.fst)
    (free : ∀ e ∈ brackets, e.1 ∈ next → e.2 ≠ y) (z : Symbol) (opened : grammar.Opened k z) :
    ¬grammar.Heads z y := by
  intro heads
  obtain ⟨inside, w, bracket⟩ := continues.mem_of_opened within only bracketed opened
  exact free _ bracket inside (eq_of_heads_bracket bracket heads).symm

/-- Where the body of a definition is to come, nothing but the body begins with the end of a
line. -/
theorem Continues.not_heads_newline (plain : .named "_match_block" ∉ next) (z : Symbol)
    (opened : grammar.Opened k z) : ¬grammar.Heads z (.named "_newline") := by
  have first : ∀ x' b y, trace.among x' → (x', b) ∈ grammar.productionList →
      b.symbols.take (trace.read.length + 1) = trace.read ++ [y] → y ∈ grammar.nonterminals →
      y ≠ .named "_match_block" := by
    rintro x' b y belongs member taken - rfl
    obtain rfl := only x' belongs
    exact plain (continues.mem_next member taken)
  have lead : ∀ x y, x ≠ .named "_match_block" → grammar.Heads x y → y ∈ grammar.nonterminals →
      y ≠ .named "_match_block" := by
    rintro x y - heads - rfl
    have inside : x ∈ [] := mem_of_heads (by decide) heads
    cases inside
  intro heads
  have inside : z ∈ [.named "_match_block"] := mem_of_heads (by decide) heads
  exact within.of_opened _ first lead opened (List.mem_singleton.mp inside)

end Continues

/-- What has been read whole is a production of one kind. -/
theorem alone_of_whole (only : ∀ z, trace.among z → z = x) (read : trace.read = b.symbols)
    (whole : ∀ b' ∈ grammar.productionsOf x, b'.symbols.take b.symbols.length = b.symbols →
      b' = b) :
    ∀ x' b', trace.among x' → (x', b') ∈ grammar.productionList → b'.symbols = trace.read →
      x' = x ∧ b' = b := by
  intro x' b' belongs member symbols
  obtain rfl := only x' belongs
  refine ⟨rfl, whole b' (Syntax.Grammar.mem_productionList_iff.mp member).2 ?_⟩
  rw [← read, ← symbols, List.take_length]

/-- Nothing is read behind the end of a production that has no longer one beside it. -/
theorem not_reads_of_whole (h : grammar.Halfway kernels depth n k trace x b t)
    (only : ∀ z, trace.among z → z = x) (read : trace.read = b.symbols)
    (whole : ∀ b' ∈ grammar.productionsOf x, b'.symbols.take b.symbols.length = b.symbols →
      b' = b) (y : Symbol) : ¬grammar.Reads k y := by
  have nothing : ∀ x' b' y, trace.among x' → (x', b') ∈ grammar.productionList →
      b'.symbols.take (trace.read.length + 1) ≠ trace.read ++ [y] := by
    intro x' b' y belongs member taken
    obtain rfl := only x' belongs
    have before := congrArg (List.take trace.read.length) taken
    rw [List.take_take, Nat.min_eq_left (Nat.le_succ _), List.take_left, read] at before
    obtain rfl := whole b' (Syntax.Grammar.mem_productionList_iff.mp member).2 before
    have length := congrArg List.length taken
    rw [read, List.take_of_length_le (Nat.le_succ _), List.length_append] at length
    exact absurd length (by simp)
  intro reads
  rcases h.within.of_reads solid reads with ⟨x', b', belongs, member, taken⟩ | ⟨x', opened, -⟩
  · exact nothing x' b' y belongs member taken
  · exact h.within.of_opened (fun _ => False)
      (fun x' b' y belongs member taken _ => nothing x' b' y belongs member taken)
      (fun _ _ never _ _ => never) opened

section Chart

variable (chart : grammar.Chart kernels) (near : grammar.Reachable depth)
include chart near

/-- The text of a format specifier is not looked for where it is not read. -/
theorem allows_format (site : grammar.Site kernels depth n k)
    (ends : ¬grammar.EndsWith k (grammar.number (.named "_format_text")))
    (silent : ¬grammar.Reads k (.named "_format_text")) :
    (Automaton.ofGrammar grammar).allows n (grammar.number (.named "_format_text")) = false := by
  refine site.not_allows chart solid near ends fun y reads same => ?_
  obtain rfl := Syntax.Grammar.number_inj (reads.mem_symbols solid site.known)
    (mem_symbols_of_terminal (by decide)) same
  exact silent reads

/-- The next token of a production is read, if nothing else begins with it. -/
theorem exists_next (h : grammar.Halfway kernels depth n k trace x b t)
    (only : ∀ z, trace.among z → z = x) (other : x ∉ [formatParts, .named "format_specifier"])
    (continues : Continues x trace.read next) (step : b.steps[trace.read.length]? = some s)
    (terminal : s.symbol ∈ grammar.terminals)
    (alone : ∀ z, grammar.Opened k z → ¬grammar.Heads z s.symbol) :
    ∃ n', grammar.Halfway kernels (depth + 1) n' (grammar.after k s.symbol)
        (trace.after s.symbol) x b t ∧
      (Automaton.ofGrammar grammar).actions n (grammar.number s.symbol) = [.shift n'] ∧
      (Automaton.ofGrammar grammar).allows n (grammar.number (.named "_format_text")) = false := by
  have more := continues.unfinished only
  obtain ⟨n', halfway, actions⟩ := h.shift chart solid near step terminal alone more
  refine ⟨n', halfway, actions, allows_format chart near h.site (h.not_endsWith solid more) ?_⟩
  exact not_reads_format h.within fun z belongs => only z belongs ▸ other

/-- Where a definition has been read, the text may end, and no line does. -/
theorem ends_definition (h : grammar.Halfway kernels depth n k trace x b 0)
    (definition : x ∈ definitions) (only : ∀ z, trace.among z → z = x)
    (follow : ∀ t, trace.follow t → FollowsStatement t) (read : trace.read = b.symbols)
    (some : b.steps ≠ [])
    (whole : ∀ b' ∈ grammar.productionsOf x, b'.symbols.take b.symbols.length = b.symbols →
      b' = b) :
    (Automaton.ofGrammar grammar).allows n (grammar.number (.named "_newline")) = false ∧
      (Automaton.ofGrammar grammar).allows n 0 = true ∧
      ∀ front : List Frame, Syntax.topState front = n → (∀ f ∈ front, f.extra = false) →
        front.length = b.steps.length → ∀ fuel text, ∃ count, ∃ f : Frame, f.extra = false ∧
          f.shape = .group (grammar.shows ⟨x, {}⟩ (.group
            (Automaton.nodesOf grammar b.steps (front.reverse.map Frame.shape)))) ∧
          (Automaton.ofGrammar grammar).advance 0 text (fuel + 5) [front] ⟨[], []⟩ =
            ⟨[], List.replicate (count + 1) [f]⟩ := by
  have silent := not_reads_of_whole h only read whole
  have length : trace.read.length = b.steps.length := by rw [read, Body.symbols, List.length_map]
  have ends : grammar.EndsWith k 0 := by
    have follows := h.follows
    rw [length] at follows
    exact follows.endsWith
  have small : 0 < grammar.numbered.terminalCount :=
    Nat.zero_lt_of_lt (Syntax.Grammar.number_lt_terminalCount solid
      (by decide : .named "_newline" ∈ grammar.terminals))
  have member : (x, b) ∈ grammar.productionList := by
    obtain ⟨item, -, stands, -⟩ := h.follows
    exact List.mem_of_getElem? stands
  refine ⟨?_, h.site.allows chart solid near small ends fun y reads => (silent y reads).elim, ?_⟩
  · refine h.site.not_allows chart solid near (fun line => ?_) fun y reads => (silent y reads).elim
    obtain ⟨i, number, -⟩ := Syntax.Grammar.exists_number
      (mem_symbols_of_terminal (by decide : .named "_newline" ∈ grammar.terminals))
    rcases follow _ (h.within.of_endsWith solid line).1 with zero | ⟨z, same, begins⟩
    · omega
    · obtain rfl := Syntax.Grammar.number_inj (mem_symbols_of_terminal (by decide))
        (mem_symbols_of_terminal begins.mem_terminals) same
      exact not_begins_newline begins
  · intro front top plain size fuel text
    obtain ⟨n', goto, done⟩ := exists_end chart definition
    have reduced := h.site.advance chart solid near front [] (fuel + 4) text ⟨[], []⟩ h.within
      (alone_of_whole only read whole) ends small (fun y reads => (silent y reads).elim) member
      ((congrArg Syntax.topState (List.append_nil front)).trans top) plain
      (by rintro rfl; exact some (List.length_eq_zero_iff.mp size.symm)) size goto
    rw [List.append_nil] at reduced
    let made : Frame :=
      ⟨n', .group (Automaton.nodesOf grammar b.steps (front.reverse.map Frame.shape)),
        b.weight + Syntax.totalWeight front.reverse, false⟩
    obtain ⟨count, f, plain', shape, accepted⟩ := done made rfl rfl fuel text ⟨[], []⟩
    exact ⟨count, f, plain', shape, reduced.trans accepted⟩

end Chart

/-- At the start the keyword of a definition is read. -/
theorem exists_first (chart : grammar.Chart kernels)
    (definition : x ∈ definitions) (production : b ∈ grammar.productionsOf x)
    (first : b.steps.head? = some s) (terminal : s.symbol ∈ grammar.terminals)
    (leader : (s.symbol, [x]) ∈ leaders) :
    ∃ n, grammar.Halfway kernels 1 n (grammar.after (Syntax.startKernel grammar.numbered) s.symbol)
        (.begun (· = x) FollowsStatement s.symbol) x b 0 ∧
      (Automaton.ofGrammar grammar).actions 0 (grammar.number s.symbol) = [.shift n] ∧
      (Automaton.ofGrammar grammar).allows 0 (grammar.number (.named "_format_text")) = false := by
  obtain ⟨later, steps⟩ : ∃ later, b.steps = s :: later := ⟨_, List.eq_cons_of_mem_head? first⟩
  have near : grammar.Reachable 0 := reachable_grammar.of_le (by decide)
  have site := Site.start chart
  have passes := passes_definition definition
  have member : (x, b) ∈ grammar.productionList := Syntax.Grammar.mem_productionList_iff.mpr
    ⟨passes.mem_nonterminals solid.start_mem, production⟩
  have follows := passes.follows_start solid (le_symbolCount_mul (by decide)) member
  have step : b.steps[0]? = some s := by rw [steps, List.getElem?_cons_zero]
  have reads := follows.reads step
  have ends (y : Symbol) (known : y ∈ grammar.symbols) :
      ¬grammar.EndsWith (Syntax.startKernel grammar.numbered) (grammar.number y) := by
    intro ends
    obtain ⟨i, number, -⟩ := Syntax.Grammar.exists_number known
    have zero := solid.eq_zero_of_endsWith_start ends
    omega
  obtain ⟨n, site', actions⟩ := site.shift chart solid near terminal reads
    (ends _ (mem_symbols_of_terminal terminal))
  have halfway := site.halfway (· = x) FollowsStatement solid follows steps
    (fun item inside next step' same => solid.unused _ member s (steps ▸ List.mem_cons_self)
      (same ▸ Syntax.Grammar.nextStep_start inside step'))
    (fun z _ heads => List.mem_singleton.mp (mem_of_heads leader heads))
    (fun z t belongs ahead => followsStatement_of_ahead ahead (by
      subst belongs
      exact List.mem_cons_of_mem _ (List.mem_cons_of_mem _ (List.mem_cons_of_mem _ definition))))
    site'
  exact ⟨n, halfway, actions, allows_format chart near site
    (ends _ (mem_symbols_of_terminal (by decide))) not_reads_format_start⟩

/-- A terminal begins with itself alone. -/
theorem eq_of_begins_terminal (terminal : x ∈ grammar.terminals) (begins : grammar.Begins x y) :
    y = x := by
  cases begins with
  | here => rfl
  | lead member =>
      exact absurd (Syntax.Grammar.mem_productionList_iff.mp member).1 (separate x terminal)

/-- What stands behind the parameters of a function. -/
def FollowsParameters (t : Nat) : Prop :=
  t = grammar.number (.literal ":") ∨ t = grammar.number (.literal "->")

/-- The parameters may be followed by a colon. -/
theorem follows_parameters (h : grammar.Halfway kernels depth n k trace
      (.named "function_definition") functionBody 0)
    (soFar : trace.read = [.literal "def", .named "identifier"]) :
    grammar.Follows k (.named "parameters") parametersBody 0 (grammar.number (.literal ":")) := by
  obtain ⟨item, inside, stands, dot, -⟩ := h.follows
  obtain ⟨nonterminal, production, -⟩ := wholes (.named "parameters", parametersBody) (by decide)
  have place : item.dot = 2 := dot.trans (congrArg List.length soFar)
  have here : item ∈ k := by
    rcases Syntax.Grammar.mem_closure solid h.site.known inside with here | ⟨_, _, _, zero, -⟩
    · exact here
    · omega
  have next : grammar.nextStep item =
      some ⟨.named "parameters", { label := some "parameters" }⟩ := by
    rw [stands.nextStep_eq, place]
    rfl
  have after : grammar.stepsAfter item = ⟨.literal ":", {}⟩ :: functionBody.steps.drop 4 := by
    rw [Syntax.Grammar.stepsAfter, Syntax.Grammar.stepsAt_of_getElem? stands, place]
    rfl
  have bit := Syntax.Grammar.aheadAfter_of_terminal solid (h.site.known item here) after
    (terminals (.literal ":") (by decide))
  obtain ⟨begun, inside, stands, dot, bit⟩ :=
    (Syntax.Grammar.Passes.here (x := .named "parameters")).begins_in_closure solid here next
      nonterminal (Nat.zero_le _) bit
      (Syntax.Grammar.mem_productionList_iff.mpr ⟨nonterminal, production⟩)
  exact ⟨begun, inside, stands, dot, bit⟩

/-- And they are followed by a colon or an arrow. -/
theorem followsParameters_of_ahead (within : grammar.Within k trace)
    (only : ∀ z, trace.among z → z = .named "function_definition")
    (soFar : trace.read = [.literal "def", .named "identifier"])
    (ahead : grammar.Ahead k x t) (parameters : x = .named "parameters") :
    FollowsParameters t := by
  have leads {x : Symbol} {b : Body} (member : (x, b) ∈ grammar.productionList)
      (first : b.symbols.head? = some (.named "parameters")) : False := by
    have inside : x ∈ [] := (leads _ member).leader (.named "parameters", []) (by decide) first
    cases inside
  cases ahead with
  | @next item s _ inside next _ follows =>
      obtain ⟨x, b, on⟩ := within item inside
      obtain rfl := only x on.among
      have taken := on.next next
      rw [soFar, parameters] at taken
      obtain ⟨y, listed, place⟩ := continues (.named "function_definition", [.literal "def",
        .named "identifier", .named "parameters"], [.literal ":", .literal "->"]) (by decide) b
        on.stands.mem.2 taken
      have dot : item.dot = 2 := on.dot.trans (congrArg List.length soFar)
      have after : grammar.stepsAfter item = b.steps.drop 3 := by
        rw [Syntax.Grammar.stepsAfter, Syntax.Grammar.stepsAt_of_getElem? on.stands, dot]
      have terminal : y ∈ grammar.terminals := by
        have known : ∀ y ∈ [.literal ":", .literal "->"], y ∈ grammar.terminals := by
          decide +kernel
        exact known y listed
      obtain ⟨s', step, rfl⟩ : ∃ s', b.steps[3]? = some s' ∧ s'.symbol = y := by
        have mapped : (b.steps.map Step.symbol)[3]? = some y := place
        rw [List.getElem?_map] at mapped
        exact Option.map_eq_some_iff.mp mapped
      obtain ⟨inside', here⟩ := List.getElem?_eq_some_iff.mp step
      rw [List.drop_eq_getElem_cons inside', here] at after
      cases follows with
      | ahead last _ =>
          rw [last] at after
          cases after
      | @next s'' later z steps begins =>
          obtain rfl := (List.cons.inj (steps.symm.trans after)).1
          obtain rfl := eq_of_begins_terminal terminal begins
          exact (List.mem_pair.mp listed).imp (congrArg grammar.number) (congrArg grammar.number)
  | lead _ member steps =>
      refine (leads member ?_).elim
      rw [Body.symbols, steps]
      exact congrArg some parameters
  | last _ member steps =>
      refine (leads member ?_).elim
      rw [Body.symbols, steps]
      exact congrArg some parameters

/-- Nothing else begins with the bracket that opens the parameters. -/
theorem parameters_of_heads (soFar : Continues (.named "function_definition") trace.read
      [.named "parameters", .named "type_parameter"])
    (within : grammar.Within k trace) (only : ∀ z, trace.among z → z = .named "function_definition")
    (opened : grammar.Opened k z) (heads : grammar.Heads z (.literal "(")) :
    z = .named "parameters" := by
  obtain ⟨inside, w, bracket⟩ := soFar.mem_of_opened within only (by decide +kernel) opened
  have free : ∀ e ∈ brackets, e.2 = .literal "(" →
      e.1 ∈ [.named "parameters", .named "type_parameter"] → e.1 = .named "parameters" := by
    decide
  exact free _ bracket (eq_of_heads_bracket bracket heads).symm inside

/-- The states in which the parameters of a function are read, from the one before them. -/
structure Between (n n₁ n₂ n₃ : Nat) : Prop where
  opens : (Automaton.ofGrammar grammar).actions n (grammar.number (.literal "(")) = [.shift n₁]
  closes : (Automaton.ofGrammar grammar).actions n₁ (grammar.number (.literal ")")) = [.shift n₂]
  before : (Automaton.ofGrammar grammar).allows n (grammar.number (.named "_format_text")) = false
  inside : (Automaton.ofGrammar grammar).allows n₁ (grammar.number (.named "_format_text")) = false
  behind : (Automaton.ofGrammar grammar).allows n₂ (grammar.number (.named "_format_text")) = false
  colon : (Automaton.ofGrammar grammar).allows n₂ (grammar.number (.literal ":")) = true
  replaced : ∀ below : List Frame, Syntax.topState below = n →
    ∀ f f' : Frame, f.state = n₂ → f.extra = false → f'.extra = false → ∀ fuel text,
      (Automaton.ofGrammar grammar).advance (grammar.number (.literal ":")) text (fuel + 1)
          [f :: f' :: below] ⟨[], []⟩ =
        (Automaton.ofGrammar grammar).advance (grammar.number (.literal ":")) text fuel
          [⟨n₃, .group (Automaton.nodesOf grammar parametersBody.steps [f'.shape, f.shape]),
            0 + Syntax.totalWeight [f', f], false⟩ :: below] ⟨[], []⟩

/-- Where the parameters have been read, a colon has them replaced. -/
theorem ends_parameters (chart : grammar.Chart kernels) (near : grammar.Reachable depth)
    (h : grammar.Halfway kernels depth n k trace (.named "parameters") parametersBody
      (grammar.number (.literal ":")))
    (only : ∀ z, trace.among z → z = .named "parameters")
    (follow : ∀ t, trace.follow t → FollowsParameters t)
    (read : trace.read = parametersBody.symbols) :
    (Automaton.ofGrammar grammar).allows n (grammar.number (.named "_format_text")) = false ∧
      (Automaton.ofGrammar grammar).allows n (grammar.number (.literal ":")) = true ∧
      ∀ (below : List Frame) {n' : Nat}, (Automaton.ofGrammar grammar).goto (Syntax.topState below)
          (grammar.number (.named "parameters")) = some n' →
        ∀ f f' : Frame, f.state = n → f.extra = false → f'.extra = false → ∀ fuel text,
          (Automaton.ofGrammar grammar).advance (grammar.number (.literal ":")) text (fuel + 1)
              [f :: f' :: below] ⟨[], []⟩ =
            (Automaton.ofGrammar grammar).advance (grammar.number (.literal ":")) text fuel
              [⟨n', .group (Automaton.nodesOf grammar parametersBody.steps [f'.shape, f.shape]),
                0 + Syntax.totalWeight [f', f], false⟩ :: below] ⟨[], []⟩ := by
  obtain ⟨nonterminal, production, whole⟩ := wholes (.named "parameters", parametersBody)
    (by decide)
  have silent := not_reads_of_whole h only read whole
  have ends : grammar.EndsWith k (grammar.number (.literal ":")) := by
    have follows := h.follows
    rw [read] at follows
    exact follows.endsWith
  have small := Syntax.Grammar.number_lt_terminalCount solid (terminals (.literal ":") (by decide))
  refine ⟨?_, h.site.allows chart solid near small ends fun y reads => (silent y reads).elim, ?_⟩
  · refine allows_format chart near h.site (fun format => ?_) (silent _)
    have known : ∀ y ∈ [.literal ":", .literal "->", .named "_format_text"],
        y ∈ grammar.symbols := by
      decide +kernel
    rcases follow _ (h.within.of_endsWith solid format).1 with colon | arrow
    · exact number_ne_of_ne (known _ (by decide)) (known _ (by decide)) (by decide) colon
    · exact number_ne_of_ne (known _ (by decide)) (known _ (by decide)) (by decide) arrow
  · intro below n' goto f f' state plain plain' fuel text
    have top : Syntax.topState ([f, f'] ++ below) = n := state
    exact h.site.advance chart solid near [f, f'] below fuel text ⟨[], []⟩ h.within
      (alone_of_whole only read whole) ends small (fun y reads => (silent y reads).elim)
      (Syntax.Grammar.mem_productionList_iff.mpr ⟨nonterminal, production⟩) top
      (by simp [plain, plain']) (List.cons_ne_nil _ _) rfl goto

theorem exists_parameters (chart : grammar.Chart kernels)
    (near : ∀ more ≤ 2, grammar.Reachable (depth + more))
    (h : grammar.Halfway kernels depth n k trace (.named "function_definition") functionBody 0)
    (only : ∀ z, trace.among z → z = .named "function_definition")
    (soFar : trace.read = [.literal "def", .named "identifier"]) :
    ∃ n₁ n₂ n₃, Between n n₁ n₂ n₃ ∧
      grammar.Halfway kernels (depth + 1) n₃ (grammar.after k (.named "parameters"))
        (trace.after (.named "parameters")) (.named "function_definition") functionBody 0 := by
  have here : grammar.Reachable depth := near 0 (by decide)
  have next : grammar.Reachable (depth + 1) := near 1 (by decide)
  have last : grammar.Reachable (depth + 2) := near 2 (by decide)
  have continues₁ : Continues (.named "function_definition") trace.read
      [.named "parameters", .named "type_parameter"] :=
    soFar ▸ continues (.named "function_definition", _, _) (by decide)
  obtain ⟨nonterminal, production, whole⟩ := wholes (.named "parameters", parametersBody)
    (by decide)
  have follows := follows_parameters h soFar
  have more := continues₁.unfinished only
  obtain ⟨n₃, goto, goes⟩ := h.goto chart solid here
    (s := ⟨.named "parameters", { label := some "parameters" }⟩) (by rw [soFar]; rfl) nonterminal
    (fun z _ heads => by
      have inside : z ∈ [] := mem_of_heads (by decide) heads
      cases inside)
  obtain ⟨n₁, site₁, opens⟩ := h.site.shift chart solid here (terminals (.literal "(") (by decide))
    (follows.reads (s := ⟨.literal "(", {}⟩) rfl) (h.not_endsWith solid more)
  have h₁ := h.site.halfway (· = .named "parameters") FollowsParameters solid
    follows (s := ⟨.literal "(", {}⟩) rfl
    (fun item inside s step same => by
      obtain ⟨x, b, on⟩ := h.within item inside
      obtain rfl := only x on.among
      have listed := continues₁.mem_next (List.mem_of_getElem? on.stands) (on.next step)
      rw [same] at listed
      exact absurd listed (by decide))
    (fun z opened heads => parameters_of_heads continues₁ h.within only opened heads)
    (fun z t belongs ahead => followsParameters_of_ahead h.within only soFar ahead belongs) site₁
  obtain ⟨n₂, h₂, closes, inside⟩ := exists_next chart next h₁ (fun _ same => same) (by decide)
    (continues (.named "parameters", [.literal "("], [.named "_parameters", .literal ")"])
      (by decide)) (s := ⟨.literal ")", {}⟩) rfl (terminals _ (by decide))
    (fun z _ heads => by
      have inside : z ∈ [] := mem_of_heads (by decide) heads
      cases inside)
  obtain ⟨behind, colon, replaced⟩ := ends_parameters chart last h₂ (fun _ same => same)
    (fun _ follows => follows) rfl
  exact ⟨n₁, n₂, n₃, ⟨opens, closes, allows_format chart here h.site (h.not_endsWith solid more)
    (not_reads_format h.within fun z belongs => only z belongs ▸ by decide), inside, behind, colon,
    fun below base => replaced below (base ▸ goes)⟩, goto⟩

end ApiInventory.Source
